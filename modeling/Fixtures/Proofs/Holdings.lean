import Fixtures.Proofs.Reachable
/-!
# What a store holds

A store holds entities in three places: in its committed tables, and while a
transaction is open in the log and among the latest writes of its buffer.
`Store.Holds P` says that `P` is true of every entity in any of them. Whatever
the writes of a store satisfy, all that it holds satisfies. The main theorem is
that every entity lies under the identifier it carries.
-/

namespace Fixtures

open Store

/-- What may be said of an entity kept under an identifier of the type of a name. -/
abbrev Keeping := String → EntityId → Entity → Prop

variable {P Q : Keeping}

/-! ## The three places -/

/-- The entity that a write puts satisfies `P`. -/
def Write.Puts (P : Keeping) : Write → Prop
  | put name id e => P name id e
  | delete _ _ => True

/-- Every entity in the tables satisfies `P`. -/
def Tables.All (P : Keeping) (t : Tables) : Prop :=
  ∀ name table, (name, table) ∈ t → ∀ id e, (id, e) ∈ table → P name id e

/-- Every entity in the buffer satisfies `P`. -/
structure Pending.All (P : Keeping) (p : Pending) : Prop where
  log : ∀ w ∈ p.log, w.Puts P
  latest : ∀ name rows, (name, rows) ∈ p.latest → ∀ id e, (id, some e) ∈ rows → P name id e

/-- Every entity in the store satisfies `P`. -/
structure Store.Holds (P : Keeping) (s : Store) : Prop where
  tables : s.tables.All P
  pending : ∀ p, s.pending = some p → p.All P

theorem Write.Puts.mono (h : ∀ name id e, P name id e → Q name id e) {w : Write} (hw : w.Puts P) : w.Puts Q := by
  cases w with
  | put name id e => exact h name id e hw
  | delete name id => trivial

namespace Tables

theorem All.table {t : Tables} (h : t.All P) (name : String) {id : EntityId} {e : Entity}
    (he : (id, e) ∈ t.table name) : P name id e := by
  unfold Tables.table at he
  cases ht : Dict.get? t name with
  | none =>
    rw [ht] at he
    cases he
  | some rows =>
    rw [ht] at he
    exact h name rows (Dict.mem_of_get? ht) id e he

theorem All.insert {t : Tables} (h : t.All P) {name : String} {rows : Table}
    (hr : ∀ id e, (id, e) ∈ rows → P name id e) :
    Tables.All P (Dict.insert t name rows) := by
  intro name' rows' hm
  rcases Dict.mem_insert hm with heq | hm
  · obtain ⟨rfl, rfl⟩ := Prod.mk.inj heq
    exact hr
  · exact h name' rows' hm

theorem All.apply {t : Tables} (h : t.All P) {w : Write} (hw : w.Puts P) : (t.apply w).All P := by
  cases w with
  | put name id e =>
    refine h.insert fun id' e' hm => ?_
    rcases Dict.mem_insert hm with heq | hm
    · obtain ⟨rfl, rfl⟩ := Prod.mk.inj heq
      exact hw
    · exact h.table name hm
  | delete name id =>
    simp only [Tables.apply]
    split
    · rename_i rows hr
      exact h.insert fun id' e' hm =>
        h name rows (Dict.mem_of_get? hr) id' e' ((Dict.erase_sublist rows id).subset hm)
    · exact h

theorem All.replay {t : Tables} (h : t.All P) {ws : List Write} (hw : ∀ w ∈ ws, w.Puts P) : (t.replay ws).All P := by
  induction ws generalizing t with
  | nil => exact h
  | cons w ws ih =>
    exact ih (h.apply (hw w List.mem_cons_self)) fun w' hm => hw w' (List.mem_cons_of_mem _ hm)

end Tables

namespace Pending

theorem all_empty : All P {} := ⟨fun _ h => (nomatch h), fun _ _ h => (nomatch h)⟩

theorem All.touched {p : Pending} (h : p.All P) (name : String) {id : EntityId} {e : Entity}
    (he : (id, some e) ∈ p.touched name) : P name id e := by
  unfold Pending.touched at he
  cases hr : p.latest.get? name with
  | none =>
    rw [hr] at he
    cases he
  | some rows =>
    rw [hr] at he
    exact h.latest name rows (Dict.mem_of_get? hr) id e he

theorem All.add {p : Pending} (h : p.All P) {w : Write} (hw : w.Puts P) : (p.add w).All P where
  log w' hm := by
    rcases List.mem_append.1 hm with hm | hm
    · exact h.log w' hm
    · rw [List.mem_singleton.1 hm]
      exact hw
  latest name rows hm id e he := by
    rcases Dict.mem_insert hm with heq | hm
    · obtain ⟨rfl, rfl⟩ := Prod.mk.inj heq
      rcases Dict.mem_insert he with heq | he
      · -- The row is the one just written, so the write put this entity.
        cases w with
        | put name id' e' =>
          obtain ⟨rfl, heq⟩ := Prod.mk.inj heq
          obtain rfl : e = e' := Option.some.inj heq
          exact hw
        | delete name id' => cases (Prod.mk.inj heq).2
      · exact h.touched _ he
    · exact h.latest name rows hm id e he

theorem All.addAll {p : Pending} (h : p.All P) {ws : List Write} (hw : ∀ w ∈ ws, w.Puts P) : (p.addAll ws).All P := by
  induction ws generalizing p with
  | nil => exact h
  | cons w ws ih =>
    exact ih (h.add (hw w List.mem_cons_self)) fun w' hm => hw w' (List.mem_cons_of_mem _ hm)

end Pending

/-! ## Steps keep what holds -/

namespace Store.Holds

variable {s : Store}

theorem start (types : List EntityType) : Holds P { types := Catalog.ofTypes types } :=
  ⟨fun _ _ h => (nomatch h), fun _ h => (nomatch h)⟩

theorem note (h : s.Holds P) (e : Event) : (s.note e).Holds P := ⟨h.tables, h.pending⟩

theorem mono (h : s.Holds P) (hPQ : ∀ name id e, P name id e → Q name id e) : s.Holds Q where
  tables name rows hm id e he := hPQ name id e (h.tables name rows hm id e he)
  pending p hp :=
    ⟨fun w hw => ((h.pending p hp).log w hw).mono hPQ,
      fun name rows hm id e he => hPQ name id e ((h.pending p hp).latest name rows hm id e he)⟩

theorem enter (h : s.Holds P) : s.openScope.2.Holds P := by
  unfold openScope
  split
  · refine ⟨h.tables, ?_⟩
    rintro p ⟨⟩
    exact Pending.all_empty
  · exact ⟨h.tables, h.pending⟩

theorem buffered (h : s.Holds P) : (s.pending.getD {}).All P := by
  cases hp : s.pending with
  | none => exact Pending.all_empty
  | some p => exact h.pending p hp

theorem leave (h : s.Holds P) (scope : Scope) (success : Bool) : (s.closeScope scope success).2.Holds P := by
  obtain ⟨outermost⟩ := scope
  cases outermost with
  | false =>
    rw [closeScope_inside]
    exact ⟨h.tables, h.pending⟩
  | true =>
    by_cases hf : success = false ∨ s.rollbackOnly = true
    · rw [closeScope_rollback hf]
      exact ⟨h.tables, fun _ hp => (nomatch hp)⟩
    · simp only [not_or, Bool.not_eq_false, Bool.not_eq_true] at hf
      rw [hf.1, closeScope_commit hf.2]
      exact ⟨h.tables.replay h.buffered.log, fun _ hp => (nomatch hp)⟩

theorem write (h : s.Holds P) {p : Pending} (hp : s.pending = some p) (q : Dict String Int64) {ws : List Write}
    (hw : ∀ w ∈ ws, w.Puts P) : Holds P { s with sequences := q, pending := some (p.addAll ws) } where
  tables := h.tables
  pending := by
    rintro _ ⟨⟩
    exact (h.pending p hp).addAll hw

/-- What a look-up finds is held. -/
theorem lookup (h : s.Holds P) {name : String} {id : EntityId} {e : Entity} (he : s.lookup name id = some e) :
    P name id e := by
  unfold Store.lookup at he
  split at he
  · rename_i found hf
    obtain ⟨p, hp, hl⟩ := Option.bind_eq_some_iff.1 hf
    rw [he] at hl
    exact (h.pending p hp).touched name (Dict.mem_of_get? hl)
  · rw [Tables.get_eq] at he
    exact h.tables.table name (Dict.mem_of_get? he)

/-- An operation keeps what holds if its writes satisfy it. -/
theorem perform {scopes : List Scope} (hs : Sound scopes s) (h : s.Holds P) {name : String} {α : Type}
    (op : Operation α)
    (hw : ∀ t work, s.access name = .ok t → op.work t = .ok work →
      ∀ w ∈ op.written t (work s.openScope.2).1, w.Puts P) : (s.perform name op).2.Holds P := by
  rcases s.perform_cases name op with ⟨f, hr, -⟩ | ⟨t, work, ht, hop, hr, -⟩
  · rw [hr]
    exact h
  · obtain ⟨p, hp, -⟩ := hs.enter.buffered
    obtain ⟨q, hq⟩ := work_effect hop hp
    rw [hr, exec_snd]
    refine leave ?_ _ _
    rw [hq]
    exact h.enter.write hp q (hw t work ht hop)

end Store.Holds

/-! ## Entities lie under the identifiers they carry -/

/-- The entity is one of the type of a name, and the identifier is the one it carries as such. -/
structure Belongs (types : Catalog) (name : String) (id : EntityId) (e : Entity) : Prop where
  typeName : e.typeName = name
  carries : ∃ t v, types.get? name = some t ∧ e.get? t.idName = some v ∧ v.isNil = false ∧ EntityId.ofValue v = .ok id

namespace Store

variable {t : EntityType} {e : Entity} {s : Store}

theorem idOf_eq_ok {id : EntityId} (h : idOf t e = .ok id) :
    ∃ v, e.get? t.idName = some v ∧ v.isNil = false ∧ EntityId.ofValue v = .ok id := by
  unfold idOf at h
  split at h
  · rename_i v hv
    obtain ⟨hg, hn⟩ := Option.filter_eq_some_iff.1 hv
    exact ⟨v, hg, by simpa using hn, h⟩
  · cases h

/-- What a new entity is stored as has its type, and carries an identifier. -/
theorem putNew_stored {e' : Entity} (h : (putNew t e s).1 = .ok e') :
    e'.typeName = e.typeName ∧ ∃ id, idOf t e' = .ok id ∧ (assignId t e s).1 = .ok (id, e') := by
  obtain ⟨q, -, hid⟩ := assignId_cases t e s
  unfold putNew at h
  split at h
  · cases h
  · rename_i id e'' s' ha
    rw [ha] at hid ⊢
    split at h
    · cases h
    · cases h
      obtain ⟨hn, hi⟩ := hid id e' rfl
      exact ⟨hn, id, hi, rfl⟩

theorem putBack_stored {id : EntityId} {e' : Entity} (h : (putBack t id e s).1 = .ok e') :
    e' = e ∧ ∃ old, s.lookup t.name id = some old := by
  unfold putBack existing at h
  split at h
  · cases h
  · rename_i old ho
    split at ho
    · cases h
      exact ⟨rfl, _, ‹_›⟩
    · cases ho

/-- A type is kept under its own name. -/
theorem access_named {scopes : List Scope} (hs : Sound scopes s) {name : String} (ht : s.access name = .ok t) :
    s.types.get? name = some t ∧ t.name = name := by
  unfold access at ht
  split at ht
  · rename_i t' hg
    cases ht
    exact ⟨hg, hs.named name t hg⟩
  · cases ht

/-- The writes of an operation put entities where they belong. -/
theorem written_belongs {α : Type} {types : Catalog} (ht : types.get? t.name = some t) {op : Operation α}
    {work : Store → Except Failure α × Store} (hw : op.work t = .ok work) (s : Store) :
    ∀ w ∈ op.written t (work s).1, w.Puts (Belongs types) := by
  have hput (id : EntityId) (e : Entity) (hn : e.typeName = t.name) (hid : idOf t e = .ok id) :
      ∀ w ∈ [Write.put t.name id e], w.Puts (Belongs types) := by
    intro w hm
    rw [List.mem_singleton.1 hm]
    obtain ⟨v, hv⟩ := idOf_eq_ok hid
    exact ⟨hn, t, v, ht, hv⟩
  cases hr : (work s).1 with
  | error f =>
    rw [Operation.written_error]
    exact fun _ hm => (nomatch hm)
  | ok a =>
    cases op with
    | create e =>
      obtain ⟨u, hc, rfl⟩ := map_eq_ok hw
      obtain ⟨hn, id, hid, -⟩ := putNew_stored hr
      rw [Operation.written_create hid]
      exact hput id a (hn.trans (checkType_eq_ok.1 hc)) hid
    | find v => exact fun _ hm => (nomatch hm)
    | findAll => exact fun _ hm => (nomatch hm)
    | update e =>
      obtain ⟨id, hi, rfl⟩ := map_eq_ok hw
      obtain ⟨hn, hid⟩ := identify_eq_ok.1 hi
      obtain ⟨rfl, -⟩ := putBack_stored hr
      rw [Operation.written_update hid]
      exact hput id a hn hid
    | delete e =>
      obtain ⟨id, hi, rfl⟩ := map_eq_ok hw
      rw [Operation.written_delete (identify_eq_ok.1 hi).2]
      intro w hm
      rw [List.mem_singleton.1 hm]
      trivial

end Store

/-- Entering a unit of work changes neither the types nor the numbers handed out. -/
theorem Store.openScope_kept (s : Store) : s.openScope.2.types = s.types ∧ s.openScope.2.sequences = s.sequences := by
  unfold openScope
  split <;> exact ⟨rfl, rfl⟩

/-- Nor does leaving one. -/
theorem Store.closeScope_kept (scope : Scope) (success : Bool) (s : Store) :
    (s.closeScope scope success).2.types = s.types ∧ (s.closeScope scope success).2.sequences = s.sequences := by
  unfold closeScope
  dsimp only
  split
  · split <;> exact ⟨rfl, rfl⟩
  · split <;> exact ⟨rfl, rfl⟩

theorem Store.perform_types {scopes : List Scope} {s : Store} (h : Sound scopes s) (name : String) {α : Type}
    (op : Operation α) : (s.perform name op).2.types = s.types := by
  rcases s.perform_cases name op with ⟨f, hr, -⟩ | ⟨t, work, -, hop, hr, -⟩
  · rw [hr]
  · obtain ⟨p, hp, -⟩ := h.enter.buffered
    obtain ⟨q, hq⟩ := work_effect hop hp
    rw [hr, exec_snd, (closeScope_kept ..).1, hq]
    exact s.openScope_kept.1

theorem Reachable.belongs {scopes : List Scope} {s : Store} (h : Reachable scopes s) : s.Holds (Belongs s.types) := by
  induction h with
  | start types => exact .start types
  | note _ e ih => exact ih.note e
  | @perform scopes s α hr name op ih =>
    rw [perform_types hr.sound]
    refine ih.perform hr.sound op fun t work ht hop => ?_
    obtain ⟨hg, hn⟩ := access_named hr.sound ht
    exact written_belongs (hn ▸ hg) hop s.openScope.2
  | enter _ ih =>
    rw [(openScope_kept _).1]
    exact ih.enter
  | leave _ success ih =>
    rw [(closeScope_kept ..).1]
    exact ih.leave _ success

/-- In every reachable state each entity, in the tables as well as in both records of the open buffer,
lies under the name of its type and under the identifier that it carries as one of the registered type. -/
theorem kept_where_it_belongs {scopes : List Scope} {s : Store} (h : Reachable scopes s) :
    (∀ name table id e, (name, table) ∈ s.tables → (id, e) ∈ table → Belongs s.types name id e) ∧
    ∀ p, s.pending = some p →
      (∀ name rows id e, (name, rows) ∈ p.latest → (id, some e) ∈ rows → Belongs s.types name id e) ∧
      ∀ name id e, .put name id e ∈ p.log → Belongs s.types name id e := by
  have hb := h.belongs
  refine ⟨fun name table id e ht he => hb.tables name table ht id e he, fun p hp => ⟨?_, ?_⟩⟩
  · exact fun name rows id e hr he => (hb.pending p hp).latest name rows hr id e he
  · exact fun name id e hw => (hb.pending p hp).log (.put name id e) hw

/-- A user whose identifier is the float 3 lies under the integer. A user of another shape that has no identifier
yet gets the next one and carries it. -/
theorem whole_float_kept_as_integer :
    let user := EntityType.new "User"
    let ann : Entity := ⟨"User", [("id", .number 3)]⟩
    let bob : Entity := ⟨"User", [("age", .integer 7), ("id", .nil)]⟩
    let s₁ := (Store.perform { types := Catalog.ofTypes [user] } "User" (.create ann)).2
    let s := s₁.openScope.2.perform "User" (.create bob)
    let bob' : Entity := ⟨"User", [("age", .integer 7), ("id", .integer 4)]⟩
    Reachable [⟨true⟩] s.2 ∧ s.2.tables = [("User", [(.int 3, ann)])] ∧ s.1 = .ok bob' ∧
      Belongs s.2.types "User" (.int 3) ann ∧ Belongs s.2.types "User" (.int 4) bob' := by
  intro user ann bob s₁ s bob'
  have ho : s₁.openScope.1 = ⟨true⟩ := by
    unfold s₁ ann user
    rfl
  have h : Reachable [⟨true⟩] s.2 :=
    ho ▸ ((Reachable.start [user]).perform "User" (.create ann)).enter.perform "User" (.create bob)
  have ht : s.2.tables = [("User", [(.int 3, ann)])] := by
    unfold s s₁ ann bob user
    rfl
  have hb : s.1 = .ok bob' := by
    unfold s s₁ ann bob user
    rfl
  have hp : s.2.pending = some ⟨[.put "User" (.int 4) bob'], [("User", [(.int 4, some bob')])]⟩ := by
    unfold s s₁ ann bob user
    rfl
  obtain ⟨committed, buffered⟩ := kept_where_it_belongs h
  refine ⟨h, ht, hb, committed "User" [(.int 3, ann)] _ _ ?_ List.mem_cons_self, ?_⟩
  · rw [ht]
    exact List.mem_cons_self
  · exact (buffered _ hp).2 "User" (.int 4) bob' List.mem_cons_self

end Fixtures
