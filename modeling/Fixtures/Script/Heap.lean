import Fixtures.EntityType
import Fixtures.Script.Fault
import Fixtures.Script.Syntax
import Fixtures.Script.Val
/-!
# The heap of a script

Tables, variables, functions and objects that a script can reach. A table is a
list of rows with distinct keys; `get_set` says what a look-up finds. An entry
that is set to `nil` keeps its row, so that a traversal can go on from it;
`entries` leaves such rows out.
-/

namespace Fixtures.Script

/-! ## Tables -/

/-- The rows with `v` stored under `k`: a row that is there keeps its place. -/
def upsert : List (Val × Val) → Val → Val → List (Val × Val)
  | [], k, v => [(k, v)]
  | (k', v') :: rest, k, v => if k = k' then (k, v) :: rest else (k', v') :: upsert rest k v

theorem mem_keys_upsert {rows : List (Val × Val)} {k v j : Val} :
    j ∈ (upsert rows k v).map Prod.fst ↔ j = k ∨ j ∈ rows.map Prod.fst := by
  induction rows with
  | nil => simp [upsert]
  | cons p rest ih =>
    obtain ⟨k', v'⟩ := p
    simp only [upsert]
    split
    · subst k'
      simp
    · simp only [List.map_cons, List.mem_cons, ih]
      exact or_left_comm

theorem nodup_keys_upsert {rows : List (Val × Val)} (h : (rows.map Prod.fst).Nodup) (k v : Val) :
    ((upsert rows k v).map Prod.fst).Nodup := by
  induction rows with
  | nil => simp [upsert]
  | cons p rest ih =>
    obtain ⟨k', v'⟩ := p
    simp only [List.map_cons, List.nodup_cons] at h
    simp only [upsert]
    split
    · subst k'
      simpa using h
    · simp only [List.map_cons, List.nodup_cons, mem_keys_upsert]
      exact ⟨fun hk => hk.elim (fun e => absurd e.symm ‹_›) h.1, ih h.2⟩

/-- What is found under a key afterwards: the new value under `k`, under any other key what was there. -/
theorem find?_upsert (rows : List (Val × Val)) (k v j : Val) :
    ((upsert rows k v).find? fun row => row.1 = j).map Prod.snd =
      if j = k then some v else (rows.find? fun row => row.1 = j).map Prod.snd := by
  induction rows with
  | nil =>
    by_cases h : j = k
    · subst h
      simp [upsert]
    · simp [upsert, h, Ne.symm h]
  | cons p rest ih =>
    obtain ⟨k', v'⟩ := p
    simp only [upsert]
    split
    · subst k'
      by_cases h : j = k
      · subst h
        simp
      · simp [h, Ne.symm h]
    · next hk =>
      by_cases h : k' = j
      · subst h
        simp [Ne.symm hk]
      · simpa [h] using ih

structure Table where
  rows : List (Val × Val)
  /-- Places set aside for the list part: as many as its expression gives, later a power of two. -/
  room : Nat
  metatable : Option Nat
  distinct : (rows.map Prod.fst).Nodup

namespace Table

def empty : Table := ⟨[], 0, none, List.Pairwise.nil⟩

instance : Inhabited Table := ⟨empty⟩

/-- The value under a key, `nil` if there is none. -/
def get (t : Table) (k : Val) : Val := ((t.rows.find? fun row => row.1 = k).map Prod.snd).getD .nil

/-- The least power of two that is not below `n`. -/
def leastPower (n : Nat) : Nat := if n ≤ 1 then 1 else Nat.pow 2 ((n - 1).log2 + 1)

/-- Store a value under a key. -/
def set (t : Table) (k v : Val) : Table :=
  if v = .nil ∧ t.get k = .nil then t
  else
    { t with
      rows := upsert t.rows k v
      room := if v ≠ .nil ∧ k = .nat (t.room + 1) then leastPower (t.room + 1) else t.room
      distinct := nodup_keys_upsert t.distinct k v }

/-- A look-up after storing finds the new value under its key, and under any other key what was there. -/
theorem get_set (t : Table) (k v j : Val) : (t.set k v).get j = if j = k then v else t.get j := by
  unfold set
  split
  · next h =>
    split
    · next e => rw [e, h.1, h.2]
    · rfl
  · simp only [get, find?_upsert]
    split <;> rfl

/-- Store values under their keys in order. -/
def setAll (t : Table) (rows : List (Val × Val)) : Table := rows.foldl (fun t (k, v) => t.set k v) t

/-- A table of these entries. -/
def ofEntries (entries : List (Val × Val)) : Table := empty.setAll entries

/-- Values numbered from `start`. -/
def numbered (start : Nat) : List Val → List (Val × Val)
  | [] => []
  | v :: rest => (.nat start, v) :: numbered (start + 1) rest

/-- A table of values at 1, 2, … -/
def ofList (items : List Val) : Table :=
  { ofEntries (numbered 1 items) with room := items.length }

/-- The entries that hold something. -/
def entries (t : Table) : List (Val × Val) := t.rows.filter fun row => row.2 ≠ .nil

/-- The entry at a place of the list part. -/
def item (t : Table) (n : Nat) : Val := t.get (.nat n)

/-- The first place from `n` on that nothing follows. -/
def climb (t : Table) : Nat → Nat → Nat
  | 0, n => n
  | fuel + 1, n => if t.item (n + 1) = .nil then n else climb t fuel (n + 1)

/-- A place between `low`, which holds something or is zero, and `high`, which holds nothing, that holds
something while the next holds nothing. -/
def search (t : Table) : Nat → Nat → Nat → Nat
  | 0, low, _ => low
  | fuel + 1, low, high =>
    if high ≤ low + 1 then low
    else
      let middle := (low + high) / 2
      if t.item middle = .nil then search t fuel low middle else search t fuel middle high

/-- The length: a place that holds something, or zero, while the next place holds nothing. It is looked for
from the end of the room for the list part. -/
def border (t : Table) : Nat :=
  if t.room ≠ 0 ∧ t.item t.room = .nil then
    if t.item (t.room - 1) = .nil then t.search t.room 0 t.room else t.room - 1
  -- Behind a full room places are tried one by one.
  else t.climb t.rows.length t.room

/-- The entry that comes after the one of a key in a traversal, or the first one. None if the key has no row;
`some none` at the end. -/
def after (t : Table) (k : Val) : Option (Option (Val × Val)) :=
  let rest? : Option (List (Val × Val)) :=
    if k = .nil then some t.rows
    else
      match t.rows.dropWhile fun row => row.1 ≠ k with
      | [] => none
      | _ :: rest => some rest
  rest?.map fun rest => rest.find? fun row => row.2 ≠ .nil

end Table

/-! ## The rest of the heap -/

/-- Names in sight and the cells that hold their values, innermost first. -/
abbrev Scope := List (String × Nat)

/-- A function of a script with the names it can see, and the script as messages name it. -/
structure Closure where
  function : Function
  scope : Scope
  chunk : Text.Bytes

/-- What a script can hold but not look into by itself. -/
inductive Object where
  | entity (e : Entity)
  | entityType (t : EntityType)
  | fault (f : Fault)
  | stream

structure Heap where
  tables : Array Table := #[]
  cells : Array Val := #[]
  closures : Array Closure := #[]
  objects : Array Object := #[]
  threads : Nat := 0
  /-- The table of global names. -/
  globals : Nat := 0
  /-- The metatable that all strings share. -/
  strings : Nat := 0
  /-- What was stored in the table of global names since it was last cleared, last first. A record that no
  script can see. -/
  assigned : List (Val × Val) := []
  /-- What became of failures that were raised since then, last first. No script can see this either. -/
  fates : List Fate := []
  /-- Tables with a finalizer that is called when the heap is given up, the latest first. -/
  finalizable : List Nat := []

namespace Heap

def table (h : Heap) (id : Nat) : Table := h.tables[id]?.getD .empty

def setTable (h : Heap) (id : Nat) (t : Table) : Heap := { h with tables := h.tables.setIfInBounds id t }

/-- Store a value under a key of a table, metatables aside. -/
def put (h : Heap) (id : Nat) (k v : Val) : Heap :=
  { h.setTable id ((h.table id).set k v) with
    assigned := if id = h.globals then (k, v) :: h.assigned else h.assigned }

/-- A new table, by its place. -/
def addTable (h : Heap) (t : Table) : Nat × Heap := (h.tables.size, { h with tables := h.tables.push t })

/-- A new table. -/
def newTable (h : Heap) (t : Table) : Val × Heap :=
  let (id, h) := h.addTable t
  (.table id, h)

/-- A new variable. -/
def newCell (h : Heap) (v : Val) : Nat × Heap := (h.cells.size, { h with cells := h.cells.push v })

def newClosure (h : Heap) (c : Closure) : Val × Heap :=
  (.function h.closures.size, { h with closures := h.closures.push c })

def newObject (h : Heap) (o : Object) : Val × Heap := (.object h.objects.size, { h with objects := h.objects.push o })

def newThread (h : Heap) : Val × Heap := (.thread h.threads, { h with threads := h.threads + 1 })

def cell (h : Heap) (id : Nat) : Val := h.cells[id]?.getD .nil

def setCell (h : Heap) (id : Nat) (v : Val) : Heap := { h with cells := h.cells.setIfInBounds id v }

def closure? (h : Heap) (id : Nat) : Option Closure := h.closures[id]?

def object (h : Heap) (id : Nat) : Object := h.objects[id]?.getD .stream

/-- The failure that a value stands for, if it is a fault. -/
def failure? (h : Heap) : Val → Option Failure
  | .object id =>
    match h.object id with
    | .fault f => some f.toFailure
    | _ => none
  | _ => none

/-- Record what becomes of a value that stands for a failure. -/
def mark (fate : Failure → Fate) (v : Val) (h : Heap) : Heap :=
  { h with fates := ((h.failure? v).map fate).toList ++ h.fates }

/-- The table of global names. -/
def globalTable (h : Heap) : Table := h.table h.globals

/-- The name of the kind of a value; integers and faults have names of their own. -/
def kindOf (h : Heap) : Val → String
  | .number (.int _) => "integer"
  | .object id =>
    match h.object id with
    | .fault _ => "error"
    | _ => "userdata"
  | v => v.kind

/-- The metatable of a table or a string. -/
def metatable? (h : Heap) : Val → Option Nat
  | .table id => (h.table id).metatable
  | .string _ => some h.strings
  | _ => none

/-- What the metatable of a value says about an event. -/
def handler (h : Heap) (v : Val) (event : String) : Val :=
  match h.metatable? v with
  | some id => (h.table id).get (.text event)
  | none => .nil

/-- Have the finalizer of a table called when the heap is given up, if the table has one by now. -/
def enlist (h : Heap) (id : Nat) : Heap :=
  { h with
    finalizable :=
      if id ∈ h.finalizable ∨ h.handler (.table id) "__gc" = .nil then h.finalizable else id :: h.finalizable }

/-- Whether a value needs nothing to be called when it is closed. A stream does without: the standard ones stay
open. -/
def staysOpen (h : Heap) : Val → Bool
  | .nil | .bool false => true
  | .object id =>
    match h.object id with
    | .stream => true
    | _ => false
  | _ => false

end Heap

end Fixtures.Script
