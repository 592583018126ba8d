import Fixtures.Proofs.Numbering
/-!
# Stores alike in a type

An operation looks at the entities of its own type in sight and at the sequence
of that type. It does not see how these entities are split between the tables
and the open buffer, nor the counters, nor whether the transaction is doomed,
nor any other type. So stores that are alike in its type (`Store.Alike`) answer
it alike and stay alike, and every other type is left as it was. That is what
`Confined` says of any work with a store; operations are confined to their type
(`confined_perform`), and so is whatever is put together from them.
-/

namespace Fixtures

open Store

variable {α : Type}

/-- Operations on the type of a name cannot tell the two stores apart. -/
structure Store.Alike (name : String) (s s' : Store) : Prop where
  types : s'.types = s.types
  seen : s'.visible.table name = s.visible.table name
  sequence : s'.sequence name = s.sequence name

/-! ## What writes do to one table -/

namespace Tables

/-- What a replay makes of a table depends on this table alone. -/
theorem table_replay_congr {v v' : Tables} {name : String} (h : v'.table name = v.table name) (log : List Write) :
    (v'.replay log).table name = (v.replay log).table name := by
  induction log generalizing v v' with
  | nil => exact h
  | cons w log ih =>
    have hw : (v'.apply w).table name = (v.apply w).table name := by rw [table_apply, table_apply, h]
    exact ih hw

/-- A replay leaves a table that it does not write to. -/
theorem table_replay_apart {log : List Write} {name : String} (h : ∀ w ∈ log, w.typeName ≠ name) (v : Tables) :
    (v.replay log).table name = v.table name := by
  induction log generalizing v with
  | nil => rfl
  | cons w log ih =>
    have hw : (v.apply w).table name = v.table name := by
      rw [table_apply, if_neg (h w List.mem_cons_self).symm]
    exact (ih (fun w' hm => h w' (List.mem_cons_of_mem _ hm)) (v.apply w)).trans hw

end Tables

/-- An operation writes to the table of its own type. -/
theorem Operation.written_typeName (t : EntityType) (op : Operation α) (r : Except Failure α) :
    ∀ w ∈ op.written t r, w.typeName = t.name := by
  intro w hw
  cases r with
  | error f =>
    rw [written_error] at hw
    cases hw
  | ok a =>
    cases op with
    | create e =>
      obtain ⟨id, -, rfl⟩ := List.mem_map.1 hw
      rfl
    | find v => cases hw
    | findAll => cases hw
    | update e =>
      obtain ⟨id, -, rfl⟩ := List.mem_map.1 hw
      rfl
    | delete e =>
      obtain ⟨id, -, rfl⟩ := List.mem_map.1 hw
      rfl

/-! ## What the unit of work of an operation looks at -/

namespace Store

variable {t : EntityType} {e : Entity} {s s' : Store} {k : String}

theorem sequence_observeId (s : Store) (name : String) (id : EntityId) (k : String) :
    (s.observeId name id).sequence k = if k = name then
      (match id with
        | .int n => if s.sequence name < n then n else s.sequence name
        | .text _ => s.sequence name) else s.sequence k := by
  cases id with
  | int n => exact sequence_insert s name _ k
  | text x =>
    by_cases hk : k = name
    · rw [if_pos hk, hk]
      rfl
    · rw [if_neg hk]
      rfl

/-- The identifier of a new entity depends on the sequence of its type alone. -/
theorem assignId_congr (e : Entity) (h : s'.sequence t.name = s.sequence t.name) :
    (assignId t e s').1 = (assignId t e s).1 ∧
      (assignId t e s').2.sequence t.name = (assignId t e s).2.sequence t.name := by
  cases hv : idValue? t e with
  | some v =>
    cases hid : EntityId.ofValue v with
    | error f =>
      simp only [assignId, hv, hid]
      exact ⟨trivial, h⟩
    | ok id =>
      simp only [assignId, hv, hid, sequence_observeId, h]
      trivial
  | none =>
    have hn : (s'.nextId t.name).1 = (s.nextId t.name).1 := congrArg (· + 1) h
    have hq : (s'.nextId t.name).2.sequence t.name = (s.nextId t.name).2.sequence t.name := by
      rw [sequence_nextId, sequence_nextId, h]
    simp only [assignId, hv, hn]
    split
    · exact ⟨rfl, hq⟩
    · exact ⟨rfl, hq⟩

/-- Assigning an identifier leaves the sequences of other types. -/
theorem assignId_apart (e : Entity) (s : Store) (hk : k ≠ t.name) : (assignId t e s).2.sequence k = s.sequence k := by
  cases hv : idValue? t e with
  | some v =>
    cases hid : EntityId.ofValue v with
    | error f => simp only [assignId, hv, hid]
    | ok id =>
      simp only [assignId, hv, hid]
      exact (sequence_observeId ..).trans (if_neg hk)
  | none =>
    have hq : (s.nextId t.name).2.sequence k = s.sequence k := (sequence_nextId ..).trans (if_neg hk)
    simp only [assignId, hv]
    split
    · exact hq
    · exact hq

/-- A new entity is refused if the identifier it gets is taken. -/
theorem putNew_fst (t : EntityType) (e : Entity) (s : Store) :
    (putNew t e s).1 = (assignId t e s).1.bind fun (id, e') =>
      match s.lookup t.name id with
      | some _ => .error (.alreadyExists t.name id)
      | none => .ok e' := by
  obtain ⟨q, hq, -⟩ := assignId_cases t e s
  unfold putNew
  split
  · rename_i f s₁ ha
    rw [ha]
    rfl
  · rename_i id e' s₁ ha
    rw [ha] at hq ⊢
    have hl : s₁.lookup t.name id = s.lookup t.name id := by
      rw [show s₁ = { s with sequences := q } from hq]
      rfl
    rw [hl]
    show _ = match s.lookup t.name id with
      | some _ => Except.error (Failure.alreadyExists t.name id)
      | none => .ok e'
    cases s.lookup t.name id <;> rfl

/-- What the unit of work of an operation depends on: the entities of the type, and its sequence. -/
theorem work_congr {op : Operation α} {work : Store → Except Failure α × Store} (h : op.work t = .ok work)
    (hl : ∀ id, s'.lookup t.name id = s.lookup t.name id) (hv : s'.view t.name = s.view t.name)
    (hq : s'.sequence t.name = s.sequence t.name) :
    (work s').1 = (work s).1 ∧ (work s').2.sequence t.name = (work s).2.sequence t.name := by
  cases op with
  | create e =>
    obtain ⟨u, -, rfl⟩ := map_eq_ok h
    obtain ⟨hid, hseq⟩ := assignId_congr e hq
    refine ⟨?_, ?_⟩
    · simp only [putNew_fst, hid, hl]
    · rw [sequence_congr (putNew_sequences t e s'), sequence_congr (putNew_sequences t e s), hseq]
  | find v =>
    obtain ⟨id, -, rfl⟩ := map_eq_ok h
    exact ⟨congrArg Except.ok (hl id), hq⟩
  | findAll =>
    cases h
    exact ⟨congrArg (fun rows : Table => Except.ok rows.values) hv, hq⟩
  | update e =>
    obtain ⟨id, -, rfl⟩ := map_eq_ok h
    refine ⟨by simp only [putBack_fst, hl], ?_⟩
    rw [sequence_congr (putBack_sequences t id e s'), sequence_congr (putBack_sequences t id e s), hq]
  | delete e =>
    obtain ⟨id, -, rfl⟩ := map_eq_ok h
    refine ⟨by simp only [takeOut_fst, hl], ?_⟩
    rw [sequence_congr (takeOut_sequences t id s'), sequence_congr (takeOut_sequences t id s), hq]

/-- The unit of work of an operation leaves the sequences of other types. -/
theorem work_apart {op : Operation α} {work : Store → Except Failure α × Store} (h : op.work t = .ok work) (s : Store)
    (hk : k ≠ t.name) : (work s).2.sequence k = s.sequence k := by
  cases op with
  | create e =>
    obtain ⟨u, -, rfl⟩ := map_eq_ok h
    rw [sequence_congr (putNew_sequences t e s), assignId_apart e s hk]
  | find v =>
    obtain ⟨id, -, rfl⟩ := map_eq_ok h
    rfl
  | findAll =>
    cases h
    rfl
  | update e =>
    obtain ⟨id, -, rfl⟩ := map_eq_ok h
    exact sequence_congr (putBack_sequences t id e s) k
  | delete e =>
    obtain ⟨id, -, rfl⟩ := map_eq_ok h
    exact sequence_congr (takeOut_sequences t id s) k

theorem exec_types {op : Operation α} {work : Store → Except Failure α × Store} {scopes : List Scope}
    (hs : Sound scopes s) (hw : op.work t = .ok work) : (s.exec work).2.types = s.types := by
  obtain ⟨p, hp, -⟩ := hs.enter.buffered
  obtain ⟨q, hq⟩ := work_effect hw hp
  rw [exec_snd, (closeScope_kept ..).1, hq]
  exact s.openScope_kept.1

theorem exec_sequence {work : Store → Except Failure α × Store} (s : Store) (k : String) :
    (s.exec work).2.sequence k = (work s.openScope.2).2.sequence k := by
  rw [exec_snd]
  exact sequence_congr (closeScope_kept ..).2 k

end Store

/-! ## Stores that are alike -/

namespace Store.Alike

variable {scopes scopes' : List Scope} {s s' s'' : Store} {name : String}

theorem refl (name : String) (s : Store) : Alike name s s := ⟨rfl, rfl, rfl⟩

theorem trans (h : Alike name s s') (h' : Alike name s' s'') : Alike name s s'' :=
  ⟨h'.types.trans h.types, h'.seen.trans h.seen, h'.sequence.trans h.sequence⟩

theorem symm (h : Alike name s s') : Alike name s' s := ⟨h.types.symm, h.seen.symm, h.sequence.symm⟩

theorem note (name : String) (s : Store) (e : Event) : Alike name s (s.note e) := ⟨rfl, rfl, rfl⟩

theorem access (h : Alike name s s') (k : String) : s'.access k = s.access k := by rw [Store.access, Store.access, h.types]

/-- Entering a unit of work changes nothing that an operation looks at. -/
theorem enter (hs : Sound scopes s) (name : String) : Alike name s s.openScope.2 :=
  ⟨s.openScope_kept.1, by rw [hs.visible_enter], sequence_congr s.openScope_kept.2 name⟩

theorem entered (hs : Sound scopes s) (hs' : Sound scopes' s') (h : Alike name s s') :
    Alike name s.openScope.2 s'.openScope.2 :=
  (enter hs name).symm.trans (h.trans (enter hs' name))

theorem lookup (hs : Sound scopes s) (hs' : Sound scopes' s') (h : Alike name s s') (id : EntityId) :
    s'.lookup name id = s.lookup name id := by
  rw [hs'.lookup_eq, hs.lookup_eq, Tables.get_eq, Tables.get_eq, h.seen]

theorem view (hs : Sound scopes s) (hs' : Sound scopes' s') (h : Alike name s s') : s'.view name = s.view name := by
  rw [hs'.view_eq, hs.view_eq, h.seen]

end Store.Alike

/-! ## Work confined to a type -/

/-- Work that looks only at the type of a name, and changes nothing but this type's entities and sequence. Inside
a transaction it does the same acts whenever it sees the same. -/
structure Confined (name : String) (work : Store → Except Failure α × Store) : Prop where
  sound : ∀ {scopes s}, Sound scopes s → Sound scopes (work s).2
  answer : ∀ {scopes scopes' s s'}, Sound scopes s → Sound scopes' s' → Alike name s s' → (work s').1 = (work s).1
  alike : ∀ {scopes scopes' s s'}, Sound scopes s → Sound scopes' s' → Alike name s s' →
    Alike name (work s).2 (work s').2
  apart : ∀ {scopes s k}, Sound scopes s → k ≠ name → Alike k s (work s).2
  acts : ∀ {scope scopes scope' scopes' s s'}, Sound (scope :: scopes) s → Sound (scope' :: scopes') s' →
    Alike name s s' → ∃ acts, Within s acts (work s).2 ∧ Within s' acts (work s').2

namespace Confined

variable {name : String} {work : Store → Except Failure α × Store} {β : Type}

/-- An answer that does not depend on the store. -/
theorem pure (name : String) (r : Except Failure α) : Confined name fun s => (r, s) where
  sound hs := hs
  answer _ _ _ := rfl
  alike _ _ h := h
  apart {_ s k} _ _ := .refl k s
  acts hs hs' _ := by
    obtain ⟨p, hp, -⟩ := hs.buffered
    obtain ⟨p', hp', -⟩ := hs'.buffered
    exact ⟨[], .idle hp rfl rfl, .idle hp' rfl rfl⟩

/-- Work that goes on from the answer of other work. -/
theorem bind {next : Except Failure α → Store → Except Failure β × Store} (h : Confined name work)
    (hn : ∀ r, Confined name (next r)) : Confined name fun s => next (work s).1 (work s).2 where
  sound hs := (hn _).sound (h.sound hs)
  answer hs hs' ha := by
    rw [h.answer hs hs' ha]
    exact (hn _).answer (h.sound hs) (h.sound hs') (h.alike hs hs' ha)
  alike hs hs' ha := by
    rw [h.answer hs hs' ha]
    exact (hn _).alike (h.sound hs) (h.sound hs') (h.alike hs hs' ha)
  apart hs hk := (h.apart hs hk).trans ((hn _).apart (h.sound hs) hk)
  acts hs hs' ha := by
    obtain ⟨as, hw, hw'⟩ := h.acts hs hs' ha
    obtain ⟨bs, hv, hv'⟩ := (hn _).acts (h.sound hs) (h.sound hs') (h.alike hs hs' ha)
    rw [h.answer hs hs' ha]
    exact ⟨as ++ bs, hw.trans hv, hw'.trans hv'⟩

/-- Work with the type of the name, if there is one. -/
theorem access {f : EntityType → Store → Except Failure α × Store} (h : ∀ t, t.name = name → Confined name (f t)) :
    Confined name fun s =>
      match s.access name with
      | .error e => (.error e, s)
      | .ok t => f t s := by
  -- The cases are the same for every field: no such type, or its work.
  have key {scopes s} (hs : Sound scopes s) : ∃ work : Store → Except Failure α × Store, Confined name work ∧
      ∀ s', s'.types = s.types →
        (match s'.access name with
          | .error e => (.error e, s')
          | .ok t => f t s') = work s' := by
    cases ht : s.access name with
    | error e =>
      refine ⟨_, pure name (.error e), fun s' hs' => ?_⟩
      rw [show s'.access name = .error e by rw [← ht, Store.access, Store.access, hs']]
    | ok t =>
      refine ⟨_, h t (access_named hs ht).2, fun s' hs' => ?_⟩
      rw [show s'.access name = .ok t by rw [← ht, Store.access, Store.access, hs']]
  constructor
  · intro scopes s hs
    obtain ⟨work, hw, he⟩ := key hs
    rw [he s rfl]
    exact hw.sound hs
  · intro scopes scopes' s s' hs hs' ha
    obtain ⟨work, hw, he⟩ := key hs
    rw [he s rfl, he s' ha.types]
    exact hw.answer hs hs' ha
  · intro scopes scopes' s s' hs hs' ha
    obtain ⟨work, hw, he⟩ := key hs
    rw [he s rfl, he s' ha.types]
    exact hw.alike hs hs' ha
  · intro scopes s k hs hk
    obtain ⟨work, hw, he⟩ := key hs
    rw [he s rfl]
    exact hw.apart hs hk
  · intro scope scopes scope' scopes' s s' hs hs' ha
    obtain ⟨work, hw, he⟩ := key hs
    rw [he s rfl, he s' ha.types]
    exact hw.acts hs hs' ha

end Confined

/-- The unit of work of an operation, run in a scope of its own, is confined to the type. -/
theorem confined_exec {t : EntityType} {op : Operation α} {work : Store → Except Failure α × Store}
    (hw : op.work t = .ok work) : Confined t.name (Store.exec work) where
  sound {scopes s} hs := by
    obtain ⟨p, hp, -⟩ := hs.enter.buffered
    obtain ⟨q, hq⟩ := work_effect hw hp
    rw [exec_snd]
    refine Sound.leave ?_ _
    rw [hq]
    exact hs.enter.write hp q _
  answer hs hs' ha := by
    have hin := ha.entered hs hs'
    rw [(hs.exec_work hw).1, (hs'.exec_work hw).1]
    exact (work_congr hw (hin.lookup hs.enter hs'.enter) (hin.view hs.enter hs'.enter) hin.sequence).1
  alike {scopes scopes' s s'} hs hs' ha := by
    have hin := ha.entered hs hs'
    obtain ⟨hr, hq⟩ := work_congr hw (hin.lookup hs.enter hs'.enter) (hin.view hs.enter hs'.enter) hin.sequence
    refine ⟨?_, ?_, ?_⟩
    · rw [exec_types hs hw, exec_types hs' hw, ha.types]
    · rw [(hs.exec_work hw).2, (hs'.exec_work hw).2, hr]
      exact Tables.table_replay_congr ha.seen _
    · rw [exec_sequence, exec_sequence, hq]
  apart {scopes s k} hs hk := by
    refine ⟨exec_types hs hw, ?_, ?_⟩
    · rw [(hs.exec_work hw).2]
      refine Tables.table_replay_apart (fun w hm => ?_) _
      rw [op.written_typeName t _ w hm]
      exact hk.symm
    · rw [exec_sequence, work_apart hw _ hk]
      exact sequence_congr s.openScope_kept.2 k
  acts {scope scopes scope' scopes' s s'} hs hs' ha := by
    have hin := ha.entered hs hs'
    have hr := (work_congr hw (hin.lookup hs.enter hs'.enter) (hin.view hs.enter hs'.enter) hin.sequence).1
    have hwithin {scope scopes s} (hs : Sound (scope :: scopes) s) :
        Within s ((op.written t (work s.openScope.2).1).map .write ++ [.close (Ending.succeeded (work s.openScope.2).1)])
          (s.exec work).2 := by
      obtain ⟨p, hp, -⟩ := hs.buffered
      have hd : 0 < s.depth := by rw [hs.depth]; exact Nat.succ_pos _
      rw [exec_snd]
      exact .exec hd (.work hw (openScope_pending hp hd)) _
    have h' := hwithin hs'
    rw [hr] at h'
    exact ⟨_, hwithin hs, h'⟩

theorem Operation.confined (t : EntityType) (op : Operation α) : Confined t.name (op.run t) := by
  cases hw : op.work t with
  | error f =>
    have hrun : op.run t = fun s => (.error f, s) := by
      funext s
      rw [op.run_eq t s, hw]
    rw [hrun]
    exact .pure t.name (.error f)
  | ok work =>
    have hrun : op.run t = Store.exec work := by
      funext s
      rw [op.run_eq t s, hw]
    rw [hrun]
    exact confined_exec hw

theorem confined_perform (name : String) (op : Operation α) : Confined name fun s => s.perform name op :=
  .access fun t ht => ht ▸ op.confined t

/-- Stores that are alike in every type stay so, whichever type the work is confined to. -/
theorem Confined.throughout {name : String} {work : Store → Except Failure α × Store} (h : Confined name work)
    {scopes scopes' : List Scope} {s s' : Store} (hs : Sound scopes s) (hs' : Sound scopes' s')
    (ha : ∀ k, Alike k s s') (k : String) : Alike k (work s).2 (work s').2 := by
  by_cases hk : k = name
  · subst hk
    exact h.alike hs hs' (ha k)
  · exact (h.apart hs hk).symm.trans ((ha k).trans (h.apart hs' hk))

end Fixtures
