import Fixtures.Proofs.Dict
import Fixtures.Store.Pending
/-!
# Buffered writes and their log

The log of a buffer is what a commit replays; the latest writes are what reads
see. Both say the same of every entity (`Pending.Coherent`), so reading the
tables through the latest writes, in whatever order these are listed, is
reading the tables after the replay (`overlay_touched`).
-/

namespace Fixtures

/-! ## Single writes -/

namespace Write

/-- The type whose table is written to. -/
def typeName : Write → String
  | put typeName _ _ | delete typeName _ => typeName

def id : Write → EntityId
  | put _ id _ | delete _ id => id

/-- What is left under the identifier. -/
def entity? : Write → Option Entity
  | put _ _ e => some e
  | delete _ _ => none

/-- The last write of a log to an entity, as what it left there. -/
def last (log : List Write) (typeName : String) (id : EntityId) : Option (Option Entity) :=
  log.reverse.findSome? fun w => if typeName = w.typeName ∧ id = w.id then some w.entity? else none

theorem last_append_singleton (log : List Write) (w : Write) (typeName : String) (id : EntityId) :
    last (log ++ [w]) typeName id =
      if typeName = w.typeName ∧ id = w.id then some w.entity? else last log typeName id := by
  simp only [last, List.reverse_append, List.reverse_singleton, List.singleton_append, List.findSome?_cons]
  split <;> simp_all

theorem last_cons (w : Write) (log : List Write) (typeName : String) (id : EntityId) :
    last (w :: log) typeName id =
      (last log typeName id).or (if typeName = w.typeName ∧ id = w.id then some w.entity? else none) := by
  simp only [last, List.reverse_cons, List.findSome?_append, List.findSome?_singleton]

end Write

/-! ## Tables -/

namespace Tables

/-- Every table is in the order of its identifiers. -/
def Sorted (t : Tables) : Prop := ∀ typeName, (t.table typeName).Ascending

theorem sorted_empty : Sorted [] := fun _ => List.Pairwise.nil

theorem get_eq (t : Tables) (typeName : String) (id : EntityId) :
    t.get typeName id = (t.table typeName).get? id := by
  unfold get table
  cases Dict.get? t typeName <;> rfl

theorem table_insert (t : Tables) (k : String) (table : Table) (typeName : String) :
    Tables.table (Dict.insert t k table) typeName = if typeName = k then table else t.table typeName := by
  unfold Tables.table
  rw [Dict.get?_insert]
  by_cases h : typeName = k
  · simp [h]
  · simp [h]

theorem table_apply (t : Tables) (w : Write) (typeName : String) :
    (t.apply w).table typeName =
      if typeName = w.typeName then (t.table typeName).assign w.id w.entity? else t.table typeName := by
  by_cases hn : typeName = w.typeName
  · rw [if_pos hn]
    cases w with
    | put k id e =>
      obtain rfl : typeName = k := hn
      exact (table_insert t typeName _ typeName).trans (if_pos rfl)
    | delete k id =>
      obtain rfl : typeName = k := hn
      cases h : Dict.get? t typeName with
      | some table =>
        have ht : t.table typeName = table := by rw [Tables.table, h, Option.getD_some]
        simp only [apply, h, ht]
        exact (table_insert t typeName _ typeName).trans (if_pos rfl)
      | none =>
        have ht : t.table typeName = [] := by rw [Tables.table, h, Option.getD_none]
        simp only [apply, h, ht]
        rfl
  · rw [if_neg hn]
    cases w with
    | put k id e => exact (table_insert t k _ typeName).trans (if_neg hn)
    | delete k id =>
      cases h : Dict.get? t k with
      | some table => simpa only [apply, h] using (table_insert t k _ typeName).trans (if_neg hn)
      | none => simp only [apply, h]

theorem Sorted.apply {t : Tables} (h : t.Sorted) (w : Write) : (t.apply w).Sorted := by
  intro typeName
  rw [table_apply]
  split
  · exact Dict.ascending_assign (h typeName) _ _
  · exact h typeName

theorem get_apply {t : Tables} (h : t.Sorted) (w : Write) (typeName : String) (id : EntityId) :
    (t.apply w).get typeName id =
      if typeName = w.typeName ∧ id = w.id then w.entity? else t.get typeName id := by
  rw [get_eq, get_eq, table_apply]
  by_cases hn : typeName = w.typeName
  · rw [if_pos hn, Dict.get?_assign (h typeName)]
    simp [hn]
  · simp [hn]

theorem Sorted.replay {t : Tables} (h : t.Sorted) (log : List Write) : (t.replay log).Sorted := by
  induction log generalizing t with
  | nil => exact h
  | cons w log ih => exact ih (h.apply w)

/-- After a replay an entity is what the last write to it left, or what it was. -/
theorem get_replay {t : Tables} (h : t.Sorted) (log : List Write) (typeName : String) (id : EntityId) :
    (t.replay log).get typeName id = (Write.last log typeName id).getD (t.get typeName id) := by
  induction log generalizing t with
  | nil => rfl
  | cons w log ih =>
    have step : t.replay (w :: log) = (t.apply w).replay log := rfl
    rw [step, ih (h.apply w), get_apply h, Write.last_cons]
    cases Write.last log typeName id with
    | some e => rfl
    | none => split <;> rfl

theorem replay_append (t : Tables) (log log' : List Write) :
    t.replay (log ++ log') = (t.replay log).replay log' := List.foldl_append

end Tables

/-! ## The buffer -/

namespace Pending

/-- Buffer a write. -/
def add (p : Pending) (w : Write) : Pending := ⟨p.log ++ [w], p.note w.typeName w.id w.entity?⟩

/-- Buffer writes in order. -/
def addAll (p : Pending) (ws : List Write) : Pending := ws.foldl add p

theorem put_eq_add (p : Pending) (id : EntityId) (e : Entity) : p.put id e = p.add (.put e.typeName id e) := rfl

theorem delete_eq_add (p : Pending) (typeName : String) (id : EntityId) :
    p.delete typeName id = p.add (.delete typeName id) := rfl

theorem log_addAll (p : Pending) (ws : List Write) : (p.addAll ws).log = p.log ++ ws := by
  induction ws generalizing p with
  | nil => exact (List.append_nil _).symm
  | cons w ws ih => exact (ih (p.add w)).trans (List.append_assoc _ _ _)

theorem addAll_append (p : Pending) (ws ws' : List Write) : p.addAll (ws ++ ws') = (p.addAll ws).addAll ws' :=
  List.foldl_append

theorem touched_add (p : Pending) (w : Write) (typeName : String) :
    (p.add w).touched typeName =
      if typeName = w.typeName then (p.touched typeName).insert w.id w.entity? else p.touched typeName := by
  simp only [touched, add, note, Dict.get?_insert]
  by_cases h : typeName = w.typeName
  · simp [h]
  · simp [h]

/-- The latest writes are the last ones of the log, and each is listed once. -/
structure Coherent (p : Pending) : Prop where
  lookup : ∀ typeName id, p.lookup typeName id = Write.last p.log typeName id
  ascending : ∀ typeName, (p.touched typeName).Ascending

theorem coherent_empty : Coherent {} where
  lookup _ _ := rfl
  ascending _ := List.Pairwise.nil

theorem Coherent.add {p : Pending} (h : p.Coherent) (w : Write) : (p.add w).Coherent where
  lookup typeName id := by
    have hlog : (p.add w).log = p.log ++ [w] := rfl
    rw [hlog, Write.last_append_singleton, ← h.lookup, Pending.lookup, touched_add]
    by_cases hn : typeName = w.typeName
    · rw [if_pos hn, Dict.get?_insert]
      simp [hn, Pending.lookup]
    · simp [hn, Pending.lookup]
  ascending typeName := by
    rw [touched_add]
    split
    · exact Dict.ascending_insert (h.ascending typeName) _ _
    · exact h.ascending typeName

theorem Coherent.addAll {p : Pending} (h : p.Coherent) (ws : List Write) : (p.addAll ws).Coherent := by
  induction ws generalizing p with
  | nil => exact h
  | cons w ws ih => exact ih (h.add w)

/-- The latest writes, put over the tables in any order, make the tables that the log leaves. -/
theorem Coherent.overlay_touched {p : Pending} (hp : p.Coherent) {t : Tables} (ht : t.Sorted) (typeName : String)
    {rows : Dict EntityId (Option Entity)} (hr : (p.touched typeName).Perm rows) :
    (t.table typeName).overlay rows = (t.replay p.log).table typeName := by
  rw [Dict.overlay_perm (ht typeName) (hp.ascending typeName).distinct hr]
  refine Dict.ext (Dict.ascending_overlay (ht typeName) _) (ht.replay p.log typeName) fun id => ?_
  rw [Dict.get?_overlay (ht typeName) (hp.ascending typeName).distinct, ← Tables.get_eq, ← Tables.get_eq,
    Tables.get_replay ht, ← hp.lookup]
  rfl

end Pending

end Fixtures
