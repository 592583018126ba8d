import Fixtures.Proofs.Holdings
import Fixtures.Proofs.Visible
/-!
# Identifiers handed out

Each type has a sequence, the last number handed out for it. Entities given an
identifier push the sequence up, those without one draw the next number. What
a rolled back transaction drew stays drawn. So the sequence of a type is ahead
of every integer under which one of its entities was ever to be created
(`Ahead`), and the next number is new.
-/

namespace Fixtures

open Store

/-! ## The identifiers of creates -/

namespace Operation

/-- The identifier that the create of an entity of the type is given, or else the number it draws. -/
def identifier? (t : EntityType) (s : Store) : {α : Type} → Operation α → Option EntityId
  | _, create e =>
    if e.typeName = t.name then
      match idValue? t e with
      | some v => EntityId.ofValue? v
      | none => some (.int (s.nextId t.name).1)
    else none
  | _, _ => none

/-- The operation does not draw a number past the greatest. -/
def HasRoom (t : EntityType) (s : Store) : {α : Type} → Operation α → Prop
  | _, create e => e.typeName = t.name → idValue? t e = none → s.sequence t.name < Int64.maxValue
  | _, _ => True

section Congr

variable {t : EntityType} {s s' : Store} {α : Type} {op : Operation α}

theorem identifier?_refused {f : Failure} (h : op.work t = .error f) : op.identifier? t s = none := by
  cases op with
  | create e =>
    refine if_neg fun hn => ?_
    simp [work, checkType_eq_ok.2 hn, Except.map] at h
  | find v => rfl
  | findAll => rfl
  | update e => rfl
  | delete e => rfl

theorem identifier?_congr (h : s'.sequences = s.sequences) : op.identifier? t s' = op.identifier? t s := by
  cases op with
  | create e => simp only [identifier?, nextId, Store.sequence, h]
  | find v => rfl
  | findAll => rfl
  | update e => rfl
  | delete e => rfl

theorem hasRoom_congr (h : s'.sequences = s.sequences) : op.HasRoom t s' ↔ op.HasRoom t s := by
  cases op with
  | create e => simp only [HasRoom, Store.sequence, h]
  | find v => rfl
  | findAll => rfl
  | update e => rfl
  | delete e => rfl

end Congr

end Operation

namespace Store

variable {α : Type}

/-- The identifier an operation is given or draws, with the name of its type. -/
def identifiers (s : Store) (name : String) (op : Operation α) : List (String × EntityId) :=
  match s.access name with
  | .error _ => []
  | .ok t => (op.identifier? t s).toList.map fun id => (name, id)

/-- The operation does not draw a number past the greatest. -/
def HasRoom (s : Store) (name : String) (op : Operation α) : Prop := ∀ t, s.access name = .ok t → op.HasRoom t s

end Store

/-- The states a store gets into while no sequence runs out, with the scopes that are open then, and the
identifiers, by type, that the creates so far were given or drew: whether they were refused for their
identifier, and whatever became of their transaction. -/
inductive Numbered : List Scope → List (String × EntityId) → Store → Prop where
  | start (types : List EntityType) : Numbered [] [] { types := Catalog.ofTypes types }
  | note {scopes : List Scope} {ids : List (String × EntityId)} {s : Store} (h : Numbered scopes ids s) (e : Event) :
      Numbered scopes ids (s.note e)
  | perform {scopes : List Scope} {ids : List (String × EntityId)} {s : Store} {α : Type} (h : Numbered scopes ids s)
      (name : String) (op : Operation α) (room : s.HasRoom name op) :
      Numbered scopes (ids ++ s.identifiers name op) (s.perform name op).2
  | enter {scopes : List Scope} {ids : List (String × EntityId)} {s : Store} (h : Numbered scopes ids s) :
      Numbered (s.openScope.1 :: scopes) ids s.openScope.2
  | leave {scope : Scope} {scopes : List Scope} {ids : List (String × EntityId)} {s : Store}
      (h : Numbered (scope :: scopes) ids s) (success : Bool) : Numbered scopes ids (s.closeScope scope success).2

theorem Numbered.reachable {scopes : List Scope} {ids : List (String × EntityId)} {s : Store}
    (h : Numbered scopes ids s) : Reachable scopes s := by
  induction h with
  | start types => exact .start types
  | note _ e ih => exact ih.note e
  | perform _ name op _ ih => exact ih.perform name op
  | enter _ ih => exact ih.enter
  | leave _ success ih => exact ih.leave success

/-! ## Sequences -/

theorem Int64.lt_add_one {n : Int64} (h : n < Int64.maxValue) : n < n + 1 := by
  have hlow := n.le_toInt
  rw [Int64.lt_iff_toInt_lt, Int64.toInt_maxValue] at h
  rw [Int64.lt_iff_toInt_lt, Int64.toInt_add, show (1 : Int64).toInt = 1 from rfl, Int.bmod_eq_of_le] <;> omega

namespace Store

variable {s : Store} {t : EntityType} {e : Entity}

theorem sequence_insert (s : Store) (name : String) (n : Int64) (k : String) :
    sequence { s with sequences := s.sequences.insert name n } k = if k = name then n else s.sequence k := by
  unfold sequence
  rw [Dict.get?_insert]
  by_cases h : k = name
  · simp [h]
  · simp [h]

theorem sequence_le_observeId (s : Store) (name : String) (id : EntityId) (k : String) :
    s.sequence k ≤ (s.observeId name id).sequence k := by
  cases id with
  | text x => exact Int64.le_refl _
  | int n =>
    unfold observeId
    dsimp only
    rw [sequence_insert]
    by_cases hk : k = name
    · subst hk
      rw [if_pos rfl]
      split
      · exact Int64.le_of_lt ‹_›
      · exact Int64.le_refl _
    · rw [if_neg hk]
      exact Int64.le_refl _

/-- The sequence of a type reaches every identifier it was shown. -/
theorem le_sequence_observeId (s : Store) (name : String) (n : Int64) :
    n ≤ (s.observeId name (.int n)).sequence name := by
  unfold observeId
  dsimp only
  rw [sequence_insert, if_pos rfl]
  split
  · exact Int64.le_refl _
  · exact Int64.not_lt.1 ‹_›

theorem sequence_nextId (s : Store) (name k : String) :
    (s.nextId name).2.sequence k = if k = name then s.sequence name + 1 else s.sequence k :=
  sequence_insert s name _ k

theorem sequence_le_nextId {name : String} (h : s.sequence name < Int64.maxValue) (k : String) :
    s.sequence k ≤ (s.nextId name).2.sequence k := by
  rw [sequence_nextId]
  split
  · subst k
    exact Int64.le_of_lt (Int64.lt_add_one h)
  · exact Int64.le_refl _

/-- Assigning an identifier raises the sequence of the type at least to it, and lowers none. -/
theorem assignId_sequence (hc : e.typeName = t.name) (room : (Operation.create e).HasRoom t s) :
    (∀ k, s.sequence k ≤ (assignId t e s).2.sequence k) ∧
      (∀ n, (Operation.create e).identifier? t s = some (.int n) → n ≤ (assignId t e s).2.sequence t.name) ∧
      ∀ id e', (assignId t e s).1 = .ok (id, e') → (Operation.create e).identifier? t s = some id := by
  simp only [Operation.identifier?, if_pos hc]
  cases hv : idValue? t e with
  | some v =>
    cases hid : EntityId.ofValue? v with
    | none => simp [assignId, hv, EntityId.ofValue, hid]
    | some id =>
      simp only [assignId, hv, EntityId.ofValue, hid]
      refine ⟨s.sequence_le_observeId t.name id, ?_, ?_⟩
      · rintro n ⟨⟩
        exact s.le_sequence_observeId t.name n
      · rintro _ _ ⟨⟩
        rfl
  | none =>
    have hle := sequence_le_nextId (room hc hv)
    have hnext : (s.nextId t.name).1 ≤ (s.nextId t.name).2.sequence t.name := by
      rw [sequence_nextId, if_pos rfl]
      exact Int64.le_refl _
    have hstate : (assignId t e s).2 = (s.nextId t.name).2 := by
      simp only [assignId, hv]
      split <;> rfl
    rw [hstate]
    refine ⟨hle, ?_, ?_⟩
    · rintro n ⟨⟩
      exact hnext
    · intro id e' h
      simp only [assignId, hv] at h
      split at h
      · cases h
        rfl
      · cases h

theorem putNew_sequences (t : EntityType) (e : Entity) (s : Store) :
    (putNew t e s).2.sequences = (assignId t e s).2.sequences := by
  unfold putNew
  split
  · simp_all
  · split <;> simp_all [buffer]

theorem putBack_sequences (t : EntityType) (id : EntityId) (e : Entity) (s : Store) :
    (putBack t id e s).2.sequences = s.sequences := by
  unfold putBack
  split <;> rfl

theorem takeOut_sequences (t : EntityType) (id : EntityId) (s : Store) :
    (takeOut t id s).2.sequences = s.sequences := by
  unfold takeOut
  split <;> rfl

theorem sequence_congr {s s' : Store} (h : s'.sequences = s.sequences) (k : String) : s'.sequence k = s.sequence k := by
  rw [sequence, sequence, h]

/-- The sequence of the type has reached the identifier, if that is an integer. -/
def Reached (s : Store) : Keeping := fun name id _ => ∀ n, id = .int n → n ≤ s.sequence name

/-- What an operation's unit of work does to the sequences: it lowers none, reaches the identifier of a
create, and puts entities only under identifiers that are reached. -/
structure Advances {α : Type} (t : EntityType) (op : Operation α) (s : Store) (r : Except Failure α × Store) :
    Prop where
  sequence_le : ∀ k, s.sequence k ≤ r.2.sequence k
  identifier_le : ∀ n, op.identifier? t s = some (.int n) → n ≤ r.2.sequence t.name
  written : ∀ w ∈ op.written t r.1, w.Puts r.2.Reached

theorem putNew_advances (hc : e.typeName = t.name) (room : (Operation.create e).HasRoom t s) :
    Advances t (.create e) s (putNew t e s) := by
  obtain ⟨hle, hid, hsame⟩ := assignId_sequence hc room
  have hseq := sequence_congr (putNew_sequences t e s)
  refine ⟨fun k => (hseq k).symm ▸ hle k, fun n hn => (hseq t.name).symm ▸ hid n hn, fun w hm => ?_⟩
  cases hr : (putNew t e s).1 with
  | error f =>
    rw [hr, Operation.written_error] at hm
    cases hm
  | ok e' =>
    obtain ⟨-, id, hi, ha⟩ := putNew_stored hr
    rw [hr, Operation.written_create hi] at hm
    rw [List.mem_singleton.1 hm]
    rintro n rfl
    rw [hseq]
    exact hid n (hsame _ e' ha)

theorem putBack_advances {id : EntityId} (hi : idOf t e = .ok id) (hs : s.Holds s.Reached) :
    Advances t (.update e) s (putBack t id e s) := by
  have hseq := sequence_congr (putBack_sequences t id e s)
  refine ⟨fun k => (hseq k).symm ▸ Int64.le_refl _, fun n hn => (nomatch hn), fun w hm => ?_⟩
  cases hr : (putBack t id e s).1 with
  | error f =>
    rw [hr, Operation.written_error] at hm
    cases hm
  | ok e' =>
    -- The identifier was in use, so its sequence has reached it before.
    obtain ⟨rfl, old, hold⟩ := putBack_stored hr
    rw [hr, Operation.written_update hi] at hm
    rw [List.mem_singleton.1 hm]
    intro n hn
    rw [hseq]
    exact hs.lookup hold n hn

theorem takeOut_advances {id : EntityId} (hi : idOf t e = .ok id) : Advances t (.delete e) s (takeOut t id s) := by
  have hseq := sequence_congr (takeOut_sequences t id s)
  refine ⟨fun k => (hseq k).symm ▸ Int64.le_refl _, fun n hn => (nomatch hn), fun w hm => ?_⟩
  cases hr : (takeOut t id s).1 with
  | error f =>
    rw [hr, Operation.written_error] at hm
    cases hm
  | ok old =>
    rw [hr, Operation.written_delete hi] at hm
    rw [List.mem_singleton.1 hm]
    trivial

theorem work_advances {α : Type} {op : Operation α} {work : Store → Except Failure α × Store} (h : op.work t = .ok work)
    (room : op.HasRoom t s) (hs : s.Holds s.Reached) : Advances t op s (work s) := by
  cases op with
  | create e =>
    obtain ⟨u, hc, rfl⟩ := map_eq_ok h
    exact putNew_advances (checkType_eq_ok.1 hc) room
  | find v =>
    obtain ⟨id, -, rfl⟩ := map_eq_ok h
    exact ⟨fun k => Int64.le_refl _, fun n hn => (nomatch hn), fun w hm => (nomatch hm)⟩
  | findAll =>
    cases h
    exact ⟨fun k => Int64.le_refl _, fun n hn => (nomatch hn), fun w hm => (nomatch hm)⟩
  | update e =>
    obtain ⟨id, hi, rfl⟩ := map_eq_ok h
    exact putBack_advances (identify_eq_ok.1 hi).2 hs
  | delete e =>
    obtain ⟨id, hi, rfl⟩ := map_eq_ok h
    exact takeOut_advances (identify_eq_ok.1 hi).2

end Store

/-! ## Sequences are ahead -/

/-- The sequence of each type has reached every integer that one of its creates was given or drew, and every
integer under which one of its entities is held. -/
structure Ahead (ids : List (String × EntityId)) (s : Store) : Prop where
  given : ∀ name n, (name, .int n) ∈ ids → n ≤ s.sequence name
  held : s.Holds s.Reached

namespace Ahead

variable {ids : List (String × EntityId)} {s s' : Store}

/-- Only what is held and the sequences matter, and these may rise. -/
theorem rise (h : Ahead ids s) (hs : s'.Holds s.Reached) (hle : ∀ k, s.sequence k ≤ s'.sequence k) : Ahead ids s' where
  given name n hm := Int64.le_trans (h.given name n hm) (hle name)
  held := hs.mono fun name _ _ hr n hn => Int64.le_trans (hr n hn) (hle name)

theorem start (types : List EntityType) : Ahead [] { types := Catalog.ofTypes types } :=
  ⟨fun _ _ h => (nomatch h), .start types⟩

theorem note (h : Ahead ids s) (e : Event) : Ahead ids (s.note e) := ⟨h.given, h.held.note e⟩

theorem enter (h : Ahead ids s) : Ahead ids s.openScope.2 :=
  h.rise h.held.enter fun k => (sequence_congr s.openScope_kept.2 k).symm ▸ Int64.le_refl _

theorem leave (h : Ahead ids s) (scope : Scope) (success : Bool) : Ahead ids (s.closeScope scope success).2 :=
  h.rise (h.held.leave scope success) fun k =>
    (sequence_congr (closeScope_kept scope success s).2 k).symm ▸ Int64.le_refl _

/-- After the unit of work of an operation the sequences are ahead of its identifier as well. -/
theorem work {t : EntityType} {α : Type} {op : Operation α} {work : Store → Except Failure α × Store} (h : Ahead ids s)
    (hw : op.work t = .ok work) (room : op.HasRoom t s) {p : Pending} (hp : s.pending = some p) :
    Ahead (ids ++ (op.identifier? t s).toList.map fun id => (t.name, id)) (work s).2 := by
  have hadv := work_advances hw room h.held
  obtain ⟨q, hq⟩ := work_effect hw hp
  refine ⟨fun name n hm => ?_, ?_⟩
  · rcases List.mem_append.1 hm with hm | hm
    · exact Int64.le_trans (h.given name n hm) (hadv.sequence_le name)
    · obtain ⟨id, hid, heq⟩ := List.mem_map.1 hm
      obtain ⟨rfl, rfl⟩ := Prod.mk.inj heq
      exact hadv.identifier_le n (Option.mem_toList.1 hid)
  · have hkept : s.Holds (work s).2.Reached :=
      h.held.mono fun name _ _ hr n hn => Int64.le_trans (hr n hn) (hadv.sequence_le name)
    have hwritten := hkept.write hp q hadv.written
    rwa [← hq] at hwritten

theorem perform {scopes : List Scope} (hs : Sound scopes s) (h : Ahead ids s) {name : String} {α : Type}
    {op : Operation α} (room : s.HasRoom name op) : Ahead (ids ++ s.identifiers name op) (s.perform name op).2 := by
  unfold identifiers
  cases ht : s.access name with
  | error f =>
    rw [Store.perform, ht, List.append_nil]
    exact h
  | ok t =>
    obtain rfl := (access_named hs ht).2
    cases hw : op.work t with
    | error f =>
      rw [perform_refused ht hw]
      dsimp only
      rw [Operation.identifier?_refused hw, Option.toList_none, List.map_nil, List.append_nil]
      exact h
    | ok work =>
      obtain ⟨p, hp, -⟩ := hs.enter.buffered
      have hsame := s.openScope_kept.2
      rw [perform_work ht hw, exec_snd]
      dsimp only
      rw [← Operation.identifier?_congr hsame]
      exact (h.enter.work hw ((Operation.hasRoom_congr hsame).2 (room t ht)) hp).leave _ _

end Ahead

theorem Numbered.ahead {scopes : List Scope} {ids : List (String × EntityId)} {s : Store}
    (h : Numbered scopes ids s) : Ahead ids s := by
  induction h with
  | start types => exact .start types
  | note _ e ih => exact ih.note e
  | perform h name op room ih => exact ih.perform h.reachable.sound room
  | enter _ ih => exact ih.enter
  | leave _ success ih => exact ih.leave _ success

/-! ## New numbers -/

/-- An entity whose identifier is declared and nil is stored under the number after the sequence, unless that
is taken. -/
theorem Store.putNew_unnumbered {t : EntityType} {e : Entity} (he : e.get? t.idName = some .nil) (s : Store)
    (hfree : s.lookup t.name (.int (s.nextId t.name).1) = none) :
    ∃ e', e.set? t.idName (.integer (s.nextId t.name).1) = some e' ∧ (putNew t e s).1 = .ok e' := by
  have hv : idValue? t e = none := by
    rw [idValue?, he]
    rfl
  have hdeclared : Dict.has e.attributes t.idName = true := by
    rw [Dict.has, show Dict.get? e.attributes t.idName = some .nil from he]
    rfl
  have hset : e.set? t.idName (.integer (s.nextId t.name).1) = some _ := if_pos hdeclared
  have hfree' : (s.nextId t.name).2.lookup t.name (.int (s.nextId t.name).1) = none := hfree
  refine ⟨_, hset, ?_⟩
  simp [putNew, assignId, hv, Entity.set, hset, hfree']

/-- The number after the sequence of a type that has some left was never given or drawn before, and nothing
is held under it. -/
theorem Ahead.next_is_new {ids : List (String × EntityId)} {s : Store} (h : Ahead ids s) {name : String}
    (room : s.sequence name < Int64.maxValue) :
    (∀ m, (name, .int m) ∈ ids → m < (s.nextId name).1) ∧ s.lookup name (.int (s.nextId name).1) = none := by
  have hlt : s.sequence name < (s.nextId name).1 := Int64.lt_add_one room
  refine ⟨fun m hm => Int64.lt_of_le_of_lt (h.given name m hm) hlt, ?_⟩
  cases hl : s.lookup name (.int (s.nextId name).1) with
  | none => rfl
  | some e => exact absurd (h.held.lookup hl _ rfl) (Int64.not_le.2 hlt)

/-- As long as no sequence runs out, the create of an entity whose identifier is declared and nil is never
refused as a duplicate. One of its own type is stored, under an integer greater than every one that an
earlier create of its type was given or drew. -/
theorem drawn_number_is_new {scopes : List Scope} {ids : List (String × EntityId)} {s : Store}
    (h : Numbered scopes ids s) {name : String} {t : EntityType} (ht : s.access name = .ok t) {e : Entity}
    (he : e.get? t.idName = some .nil) (room : s.HasRoom name (.create e)) :
    ¬ Fails (s.perform name (.create e)).1 .persistence ∧
    (e.typeName = name → ∃ n e', (s.perform name (.create e)).1 = .ok e' ∧
      e.set? t.idName (.integer n) = some e' ∧ idOf t e' = .ok (.int n) ∧
      s.identifiers name (.create e) = [(name, .int n)] ∧ ∀ m, (name, .int m) ∈ ids → m < n) := by
  have hs := h.reachable.sound
  obtain rfl := (access_named hs ht).2
  have hv : idValue? t e = none := by
    rw [idValue?, he]
    rfl
  have hown (hn : e.typeName = t.name) : ∃ n e', (s.perform t.name (.create e)).1 = .ok e' ∧
      e.set? t.idName (.integer n) = some e' ∧ idOf t e' = .ok (.int n) ∧
      s.identifiers t.name (.create e) = [(t.name, .int n)] ∧ ∀ m, (t.name, .int m) ∈ ids → m < n := by
    have hroom : s.openScope.2.sequence t.name < Int64.maxValue := by
      rw [sequence_congr s.openScope_kept.2]
      exact room t ht hn hv
    obtain ⟨hnew, hfree⟩ := h.ahead.enter.next_is_new hroom
    obtain ⟨e', hset, hstored⟩ := putNew_unnumbered he s.openScope.2 hfree
    have hw : (Operation.create e).work t = .ok (putNew t e) := by
      simp [Operation.work, checkType_eq_ok.2 hn, Except.map]
    refine ⟨_, e', (hs.perform_eq ht _ hw).1.trans hstored, hset, ?_, ?_, hnew⟩
    · exact (idOf_set (by rw [Entity.set, hset])).2
    · simp only [identifiers, ht, ← Operation.identifier?_congr s.openScope_kept.2]
      simp [Operation.identifier?, hn, hv]
  refine ⟨?_, hown⟩
  rintro ⟨f, hf, hk⟩
  by_cases hn : e.typeName = t.name
  · obtain ⟨n, e', hok, -⟩ := hown hn
    rw [hok] at hf
    cases hf
  · have hw : (Operation.create e).work t = .error (.foreignEntity t.name e.typeName) := by
      simp [Operation.work, checkType_foreign hn, Except.map]
    rw [perform_refused ht hw] at hf
    cases hf
    cases hk

/-- A user with the identifier 10.0 was rolled back. The next user gets a number above 10 all the same. -/
theorem rolled_back_number_stays_drawn :
    let user := EntityType.new "User"
    let ten : Entity := ⟨"User", [("id", .number 10)]⟩
    let blank : Entity := ⟨"User", [("id", .nil)]⟩
    let opened := Store.openScope { types := Catalog.ofTypes [user] }
    let s := ((opened.2.perform "User" (.create ten)).2.closeScope opened.1 false).2
    Numbered [] [("User", .int 10)] s ∧ s.tables = [] ∧ s.access "User" = .ok user ∧
      ∃ n e', (s.perform "User" (.create blank)).1 = .ok e' ∧ idOf user e' = .ok (.int n) ∧ 10 < n := by
  intro user ten blank opened s
  have hu : opened.2.access "User" = .ok user := by
    unfold opened user
    rfl
  have hten : opened.2.identifiers "User" (.create ten) = [("User", .int 10)] := by
    unfold opened ten user
    rfl
  have h : Numbered [] [("User", .int 10)] s := by
    have hdone := (Numbered.start [user]).enter.perform "User" (.create ten) fun t ht _ _ => by
      obtain rfl : user = t := Except.ok.inj (hu.symm.trans ht)
      unfold user
      decide
    rw [← hten]
    exact hdone.leave false
  have ht : s.access "User" = .ok user := by
    unfold s opened ten user
    rfl
  have hroom : s.HasRoom "User" (.create blank) := fun t ht' _ _ => by
    obtain rfl : user = t := Except.ok.inj (ht.symm.trans ht')
    unfold s opened ten user
    decide
  have he : blank.get? user.idName = some .nil := by
    unfold blank user
    rfl
  obtain ⟨n, e', hr, -, hid, -, hlt⟩ := (drawn_number_is_new h ht he hroom).2 rfl
  refine ⟨h, ?_, ht, n, e', hr, hid, hlt 10 List.mem_cons_self⟩
  unfold s opened ten user
  rfl

end Fixtures
