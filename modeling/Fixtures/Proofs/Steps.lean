import Fixtures.Proofs.Pending
import Fixtures.Proofs.Work
/-!
# Steps of a store

`Steps s acts s'` says that whole operations and units of work lead from `s` to
`s'` and do `acts` on their way. Every run of a unit of work is such steps
(`Work.steps`). What steps do to an open transaction is `Within`: they add their
writes to its buffer, doom it if a unit of work in them fails, and change
nothing that is committed.
-/

namespace Fixtures

variable {α : Type}

/-! ## Scopes -/

@[simp] theorem Ending.succeeded_ok (a : α) : Ending.succeeded (.ok a : Except Failure α) = true := rfl

@[simp] theorem Ending.succeeded_error (f : Failure) : Ending.succeeded (.error f : Except Failure α) = false := rfl

namespace Store

theorem openScope_inside {s : Store} (h : 0 < s.depth) :
    s.openScope = (⟨false⟩, { s with depth := s.depth + 1 }) := by
  rw [openScope, if_neg (Nat.pos_iff_ne_zero.1 h)]

theorem openScope_outside {s : Store} (h : s.depth = 0) :
    s.openScope = (⟨true⟩, { s with depth := 1, pending := some {}, rollbackOnly := false }) := by
  rw [openScope, if_pos h]

theorem closeScope_inside (b : Bool) (s : Store) :
    s.closeScope ⟨false⟩ b = (.ok (), { s with depth := s.depth - 1, rollbackOnly := s.rollbackOnly || !b }) := by
  cases b <;> simp [closeScope]

theorem closeScope_commit {s : Store} (h : s.rollbackOnly = false) :
    s.closeScope ⟨true⟩ true = (.ok (), { s with
      depth := s.depth - 1
      pending := none
      tables := s.tables.replay (s.pending.getD {}).log
      commits := s.commits + 1
      journal := s.journal.push (.committing (s.pending.getD {}).size) }) := by
  simp [closeScope, h, note]

theorem closeScope_rollback {s : Store} {b : Bool} (h : b = false ∨ s.rollbackOnly = true) :
    s.closeScope ⟨true⟩ b = (if b then .error .rolledBack else .ok (), { s with
      depth := s.depth - 1
      pending := none
      rollbacks := s.rollbacks + 1
      journal := s.journal.push (.rollingBack (s.pending.getD {}).size) }) := by
  rcases h with rfl | h
  · simp [closeScope, note]
  · simp [closeScope, h, note]

/-- A unit of work leaves what its run leaves when its scope closes. -/
theorem exec_snd {ρ : Type} [Ending ρ] (work : Store → ρ × Store) (s : Store) :
    (s.exec work).2 =
      ((work s.openScope.2).2.closeScope s.openScope.1 (Ending.succeeded (work s.openScope.2).1)).2 := by
  unfold exec
  dsimp only
  split <;> simp_all

/-- The result of a unit of work is that of its run, unless its scope overrules it. -/
theorem exec_fst {ρ : Type} [Ending ρ] (work : Store → ρ × Store) (s : Store) :
    (s.exec work).1 =
      match ((work s.openScope.2).2.closeScope s.openScope.1 (Ending.succeeded (work s.openScope.2).1)).1 with
      | .ok () => (work s.openScope.2).1
      | .error f => Ending.overruled (work s.openScope.2).1 f := by
  unfold exec
  dsimp only
  split <;> simp_all

/-! ## What an operation does to the open transaction -/

section Effect

variable {t : EntityType} {e : Entity} {s : Store} {p : Pending}

theorem checkType_eq_ok : checkType t e = .ok () ↔ e.typeName = t.name := by
  unfold checkType
  split <;> simp_all

theorem checkType_foreign (h : e.typeName ≠ t.name) : checkType t e = .error (.foreignEntity t.name e.typeName) :=
  if_neg h

theorem identify_foreign (h : e.typeName ≠ t.name) : identify t e = .error (.foreignEntity t.name e.typeName) := by
  rw [identify, checkType_foreign h]

theorem identify_eq_ok {id : EntityId} : identify t e = .ok id ↔ e.typeName = t.name ∧ idOf t e = .ok id := by
  rw [← checkType_eq_ok, identify]
  cases checkType t e <;> simp

theorem observeId_eq (s : Store) (typeName : String) (id : EntityId) :
    ∃ q, s.observeId typeName id = { s with sequences := q } := by
  cases id with
  | int n => exact ⟨_, rfl⟩
  | text x => exact ⟨s.sequences, rfl⟩

/-- An entity that carries an identifier gets this one. -/
theorem assignId_carried {id : EntityId} (h : idOf t e = .ok id) (s : Store) :
    assignId t e s = (.ok (id, e), s.observeId t.name id) := by
  unfold idOf at h
  unfold assignId
  cases hv : idValue? t e with
  | none => rw [hv] at h; cases h
  | some v => rw [hv] at h; simp [h]

theorem idOf_integer {n : Int64} (h : e.get? t.idName = some (.integer n)) : idOf t e = .ok (.int n) := by
  rw [idOf, idValue?, h]
  rfl

theorem idOf_set {n : Int64} {e' : Entity} (h : e.set t.idName (.integer n) = .ok e') :
    e'.typeName = e.typeName ∧ idOf t e' = .ok (.int n) := by
  unfold Entity.set Entity.set? at h
  split at h
  · rename_i e'' he
    split at he
    · simp only [Option.some.injEq] at he
      cases h
      subst he
      refine ⟨rfl, idOf_integer ?_⟩
      rw [Entity.get?, Dict.get?_insert, if_pos Std.ReflCmp.compare_self]
    · cases he
  · cases h

/-- A new entity gets an identifier that it then carries, or none. -/
theorem assignId_cases (t : EntityType) (e : Entity) (s : Store) :
    ∃ q, (assignId t e s).2 = { s with sequences := q } ∧
      ∀ id e', (assignId t e s).1 = .ok (id, e') → e'.typeName = e.typeName ∧ idOf t e' = .ok id := by
  cases hv : idValue? t e with
  | some v =>
    cases hid : EntityId.ofValue v with
    | error f => exact ⟨s.sequences, by simp [assignId, hv, hid]⟩
    | ok id =>
      have hc : idOf t e = .ok id := by rw [idOf, hv]; exact hid
      obtain ⟨q, hq⟩ := observeId_eq s t.name id
      refine ⟨q, ?_, ?_⟩
      · rw [assignId_carried hc, hq]
      · rw [assignId_carried hc]
        rintro _ _ ⟨⟩
        exact ⟨rfl, hc⟩
  | none =>
    refine ⟨s.sequences.insert t.name (s.sequence t.name + 1), ?_⟩
    cases hs : e.set t.idName (.integer (s.sequence t.name + 1)) with
    | error f => simp [assignId, hv, nextId, hs]
    | ok e' =>
      refine ⟨by simp [assignId, hv, nextId, hs], ?_⟩
      simp only [assignId, hv, nextId, hs, Except.ok.injEq, Prod.mk.injEq]
      rintro _ _ ⟨rfl, rfl⟩
      exact idOf_set hs

theorem buffer_eq (hp : s.pending = some p) (f : Pending → Pending) :
    s.buffer f = { s with pending := some (f p) } := by
  rw [buffer, hp, Option.getD_some]

/-- Buffer writes in order. -/
def bufferAll (s : Store) (ws : List Write) : Store := ws.foldl (fun s w => s.buffer fun p => p.add w) s

theorem bufferAll_eq (hp : s.pending = some p) (ws : List Write) :
    s.bufferAll ws = { s with pending := some (p.addAll ws) } := by
  induction ws generalizing s p with
  | nil =>
    show s = { s with pending := some p }
    rw [← hp]
  | cons w ws ih =>
    rw [bufferAll, List.foldl_cons, buffer_eq hp]
    exact ih rfl

theorem putNew_writes (hc : e.typeName = t.name) (s : Store) :
    (putNew t e s).2 = (assignId t e s).2.bufferAll ((Operation.create e).written t (putNew t e s).1) := by
  obtain ⟨-, -, hid⟩ := assignId_cases t e s
  unfold putNew
  split
  · rename_i f s' ha
    rw [ha, Operation.written_error]
    rfl
  · rename_i id e' s' ha
    rw [ha] at hid ⊢
    obtain ⟨hn, hid⟩ := hid id e' rfl
    split
    · rw [Operation.written_error]
      rfl
    · rw [Operation.written_create hid, ← hc, ← hn]
      rfl

theorem putBack_writes {id : EntityId} (hc : e.typeName = t.name) (hid : idOf t e = .ok id) (s : Store) :
    (putBack t id e s).2 = s.bufferAll ((Operation.update e).written t (putBack t id e s).1) := by
  unfold putBack
  split
  · rfl
  · rw [Operation.written_update hid, ← hc]
    rfl

theorem takeOut_writes {id : EntityId} (hid : idOf t e = .ok id) (s : Store) :
    (takeOut t id s).2 = s.bufferAll ((Operation.delete e).written t (takeOut t id s).1) := by
  unfold takeOut
  split
  · rfl
  · rw [Operation.written_delete hid]
    rfl

theorem map_eq_ok {β : Type} {r : Except Failure α} {f : α → β} {b : β} (h : r.map f = .ok b) :
    ∃ a, r = .ok a ∧ f a = b := by
  cases r with
  | error g => cases h
  | ok a => exact ⟨a, rfl, Except.ok.inj h⟩

/-- An operation's unit of work settles the identifier and buffers its writes. -/
theorem work_writes {op : Operation α} {work : Store → Except Failure α × Store} (h : op.work t = .ok work)
    (s : Store) : (work s).2 = (op.assigned t s).bufferAll (op.written t (work s).1) := by
  cases op with
  | create e =>
    obtain ⟨u, hc, rfl⟩ := map_eq_ok h
    exact putNew_writes (checkType_eq_ok.1 hc) s
  | find v =>
    obtain ⟨id, -, rfl⟩ := map_eq_ok h
    rfl
  | findAll =>
    cases h
    rfl
  | update e =>
    obtain ⟨id, hi, rfl⟩ := map_eq_ok h
    obtain ⟨hn, hid⟩ := identify_eq_ok.1 hi
    exact putBack_writes hn hid s
  | delete e =>
    obtain ⟨id, hi, rfl⟩ := map_eq_ok h
    exact takeOut_writes (identify_eq_ok.1 hi).2 s

theorem assigned_eq (t : EntityType) (op : Operation α) (s : Store) :
    ∃ q, op.assigned t s = { s with sequences := q } := by
  cases op with
  | create e => exact (assignId_cases t e s).imp fun _ h => h.1
  | find | findAll | update | delete => exact ⟨s.sequences, rfl⟩

/-- What that comes to where there is a buffer. -/
theorem work_effect {op : Operation α} {work : Store → Except Failure α × Store} (h : op.work t = .ok work)
    (hp : s.pending = some p) :
    ∃ q, (work s).2 = { s with sequences := q, pending := some (p.addAll (op.written t (work s).1)) } := by
  obtain ⟨q, hq⟩ := assigned_eq t op s
  refine ⟨q, ?_⟩
  rw [work_writes h, hq]
  exact bufferAll_eq (s := { s with sequences := q }) hp _

theorem perform_work {typeName : String} (ht : s.access typeName = .ok t) {op : Operation α}
    {work : Store → Except Failure α × Store} (hw : op.work t = .ok work) : s.perform typeName op = s.exec work := by
  rw [perform, ht]
  simp only [Operation.run_eq, hw]

/-- An operation that is refused at once does nothing. -/
theorem perform_refused {typeName : String} (ht : s.access typeName = .ok t) {op : Operation α} {f : Failure}
    (hw : op.work t = .error f) : s.perform typeName op = (.error f, s) := by
  rw [perform, ht]
  simp only [Operation.run_eq, hw]

/-- An operation is refused at once, or is a unit of work. -/
theorem perform_cases (s : Store) (typeName : String) (op : Operation α) :
    (∃ f, s.perform typeName op = (.error f, s) ∧
        Act.writes (s.acts typeName op) = [] ∧ Act.anyFailed (s.acts typeName op) = false) ∨
      ∃ t work, s.access typeName = .ok t ∧ op.work t = .ok work ∧ s.perform typeName op = s.exec work ∧
        s.acts typeName op = (op.written t (work s.openScope.2).1).map .write ++
          [.close (Ending.succeeded (work s.openScope.2).1)] := by
  unfold acts
  cases ha : s.access typeName with
  | error f =>
    refine .inl ⟨f, ?_, rfl, rfl⟩
    rw [perform, ha]
  | ok t =>
    cases hw : op.work t with
    | error f =>
      refine .inl ⟨f, perform_refused ha hw, ?_, ?_⟩
      · simp only [hw]
        rfl
      · simp only [hw]
        rfl
    | ok work =>
      refine .inr ⟨t, work, rfl, hw, perform_work ha hw, ?_⟩
      simp only [hw]

end Effect

end Store

/-! ## Steps -/

/-- Whole operations and units of work lead from one state to another. -/
inductive Steps : Store → List Act → Store → Prop where
  | refl (s : Store) : Steps s [] s
  | note (s : Store) (e : Event) : Steps s [] (s.note e)
  | perform {α : Type} (s : Store) (typeName : String) (op : Operation α) :
      Steps s (s.acts typeName op) (s.perform typeName op).2
  | exec {s s' : Store} {acts : List Act} (success : Bool) (h : Steps s.openScope.2 acts s') :
      Steps s (acts ++ [.close success]) (s'.closeScope s.openScope.1 success).2
  | trans {s s' s'' : Store} {as bs : List Act} (h : Steps s as s') (h' : Steps s' bs s'') : Steps s (as ++ bs) s''

/-- A unit of work whose run is steps is a step. -/
theorem Steps.of_exec {ρ : Type} [Ending ρ] {work : Store → ρ × Store} {s : Store} {acts : List Act}
    (h : Steps s.openScope.2 acts (work s.openScope.2).2) :
    Steps s (acts ++ [.close (Ending.succeeded (work s.openScope.2).1)]) (s.exec work).2 := by
  rw [Store.exec_snd]
  exact .exec _ h

/-- Steps that enter no unit of work do no more than report. -/
theorem Steps.reported {s s' : Store} {acts : List Act} (h : Steps s acts s') (ha : Act.anyClosed acts = false) :
    ∃ j, s' = { s with journal := j } := by
  induction h with
  | refl s => exact ⟨s.journal, rfl⟩
  | note s e => exact ⟨_, rfl⟩
  | perform s typeName op =>
    rcases s.perform_cases typeName op with ⟨f, hs, -⟩ | ⟨t, work, -, -, -, hacts⟩
    · rw [hs]
      exact ⟨s.journal, rfl⟩
    · rw [hacts, Act.anyClosed_append, Act.anyClosed_close, Bool.or_true] at ha
      cases ha
  | exec success =>
    rw [Act.anyClosed_append, Act.anyClosed_close, Bool.or_true] at ha
    cases ha
  | trans _ _ ih ih' =>
    rw [Act.anyClosed_append, Bool.or_eq_false_iff] at ha
    obtain ⟨j, rfl⟩ := ih ha.1
    exact ih' ha.2

/-- A run of a unit of work is steps. -/
theorem Work.steps (w : Work α) (s : Store) : Steps s (w.acts s) (w.run s).2 := by
  induction w generalizing s with
  | done r => exact .refl s
  | count typeName next ih => exact ih _ s
  | perform typeName op next ih => exact .trans (.perform s typeName op) (ih _ _)
  | exec inner next ihInner ih => exact .trans (.of_exec (ihInner _)) (ih _ _)

/-! ## Steps inside a transaction -/

/-- What acts inside an open transaction have changed: its buffer, and whether it is doomed. -/
structure Within (s : Store) (acts : List Act) (s' : Store) : Prop where
  types : s'.types = s.types
  tables : s'.tables = s.tables
  depth : s'.depth = s.depth
  commits : s'.commits = s.commits
  rollbacks : s'.rollbacks = s.rollbacks
  rollbackOnly : s'.rollbackOnly = (s.rollbackOnly || Act.anyFailed acts)
  pending : ∃ p, s.pending = some p ∧ s'.pending = some (p.addAll (Act.writes acts))

namespace Within

variable {s s' s'' : Store} {p : Pending} {as bs : List Act}

/-- Acts that write nothing and fail nowhere change nothing. -/
theorem idle (hp : s.pending = some p) (hw : Act.writes as = []) (hf : Act.anyFailed as = false) : Within s as s where
  types := rfl
  tables := rfl
  depth := rfl
  commits := rfl
  rollbacks := rfl
  rollbackOnly := by rw [hf, Bool.or_false]
  pending := ⟨p, hp, by rw [hw]; exact hp⟩

theorem note (hp : s.pending = some p) (e : Event) : Within s [] (s.note e) where
  types := rfl
  tables := rfl
  depth := rfl
  commits := rfl
  rollbacks := rfl
  rollbackOnly := (Bool.or_false _).symm
  pending := ⟨p, hp, hp⟩

theorem trans (h : Within s as s') (h' : Within s' bs s'') : Within s (as ++ bs) s'' where
  types := h'.types.trans h.types
  tables := h'.tables.trans h.tables
  depth := h'.depth.trans h.depth
  commits := h'.commits.trans h.commits
  rollbacks := h'.rollbacks.trans h.rollbacks
  rollbackOnly := by rw [h'.rollbackOnly, h.rollbackOnly, Act.anyFailed_append, Bool.or_assoc]
  pending := by
    obtain ⟨p, hp, hp'⟩ := h.pending
    obtain ⟨q, hq, hq'⟩ := h'.pending
    obtain rfl : p.addAll (Act.writes as) = q := Option.some.inj (hp'.symm.trans hq)
    exact ⟨p, hp, by rw [hq', Act.writes_append, Pending.addAll_append]⟩

/-- The buffered writes of a unit of work. -/
theorem work {t : EntityType} {op : Operation α} {work : Store → Except Failure α × Store}
    (h : op.work t = .ok work) (hp : s.pending = some p) :
    Within s ((op.written t (work s).1).map .write) (work s).2 := by
  obtain ⟨q, hq⟩ := Store.work_effect h hp
  rw [hq]
  exact ⟨rfl, rfl, rfl, rfl, rfl, by simp, p, hp, by simp⟩

/-- A unit of work inside a transaction: what its acts do, and the transaction is doomed if it fails. -/
theorem exec (hd : 0 < s.depth) (h : Within s.openScope.2 as s') (success : Bool) :
    Within s (as ++ [.close success]) (s'.closeScope s.openScope.1 success).2 := by
  rw [Store.openScope_inside hd] at h ⊢
  rw [Store.closeScope_inside]
  obtain ⟨p, hp, hp'⟩ := h.pending
  exact {
    types := h.types
    tables := h.tables
    depth := by rw [h.depth]; rfl
    commits := h.commits
    rollbacks := h.rollbacks
    rollbackOnly := by
      show (s'.rollbackOnly || !success) = _
      rw [h.rollbackOnly]
      simp [Bool.or_assoc]
    pending := ⟨p, hp, by simpa using hp'⟩ }

end Within

theorem Store.openScope_pending {s : Store} {p : Pending} (hp : s.pending = some p) (hd : 0 < s.depth) :
    s.openScope.2.pending = some p := by
  rw [openScope_inside hd]
  exact hp

/-- Steps inside an open transaction leave everything committed as it was. -/
theorem Steps.within {s s' : Store} {acts : List Act} (h : Steps s acts s') {p : Pending} (hd : 0 < s.depth)
    (hp : s.pending = some p) : Within s acts s' := by
  induction h generalizing p with
  | refl s => exact .idle hp rfl rfl
  | note s e => exact .note hp e
  | perform s typeName op =>
    rcases s.perform_cases typeName op with ⟨f, hs, hn, hf⟩ | ⟨t, work, -, hw, hs, ha⟩
    · rw [hs]
      exact .idle hp hn hf
    · rw [hs, ha, Store.exec_snd]
      exact .exec hd (.work hw (Store.openScope_pending hp hd)) _
  | exec success h ih =>
    refine .exec hd (ih ?_ (Store.openScope_pending hp hd)) success
    rw [Store.openScope_inside hd]
    exact Nat.succ_pos _
  | trans h h' ih ih' =>
    have hw := ih hd hp
    obtain ⟨q, -, hq⟩ := hw.pending
    exact hw.trans (ih' (hw.depth ▸ hd) hq)

end Fixtures
