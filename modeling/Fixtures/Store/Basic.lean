import Fixtures.Event
import Fixtures.Store.Pending
import Fixtures.Transaction
/-!
# The store

Committed tables, the last identifiers handed out, and the open transaction.
A unit of work runs in a scope (`exec`). The outermost scope opens the buffer
of writes and, when it closes, replays the buffer onto the tables or drops it;
inner scopes join it. An inner scope that fails dooms the whole transaction,
even if the work around it goes on. Identifiers handed out are never taken back.
-/

namespace Fixtures

structure Store where
  types : Catalog := []
  tables : Tables := []
  sequences : Dict String Int64 := []
  pending : Option Pending := none
  depth : Nat := 0
  rollbackOnly : Bool := false
  commits : Nat := 0
  rollbacks : Nat := 0
  journal : Array Event := #[]

/-- One level of nested units of work. -/
structure Scope where
  outermost : Bool

namespace Store

/-- Report an event. -/
def note (s : Store) (e : Event) : Store := { s with journal := s.journal.push e }

/-- The entity of a type with an identifier, as the open transaction sees it. -/
def lookup (s : Store) (typeName : String) (id : EntityId) : Option Entity :=
  match s.pending.bind fun p => p.lookup typeName id with
  | some found => found
  | none => s.tables.get typeName id

/-- The entities of a type by identifier, as the open transaction sees them. -/
def view (s : Store) (typeName : String) : Table :=
  match s.pending with
  | none => s.tables.table typeName
  | some p => (s.tables.table typeName).overlay (p.touched typeName)

/-- The store in short, by its counters. -/
def display (s : Store) : String :=
  let fields :=
    [("entity_types", s.types.length), ("depth", s.depth), ("commits", s.commits), ("rollbacks", s.rollbacks)]
  "MemoryStore \x7b " ++ ", ".intercalate (fields.map fun (name, n) => name ++ ": " ++ toString n) ++ " \x7d"

/-- The number of entities of a type in sight. -/
def count (s : Store) (typeName : String) : Nat := (s.view typeName).length

/-- A unit of work is running. -/
def inTransaction (s : Store) : Bool := 0 < s.depth

/-- Change the open buffer of writes, opening one if there is none. -/
def buffer (s : Store) (f : Pending → Pending) : Store := { s with pending := some (f (s.pending.getD {})) }

/-- The last identifier handed out for a type. -/
def sequence (s : Store) (typeName : String) : Int64 := (s.sequences.get? typeName).getD 0

/-- Hand out the next identifier of a type. -/
def nextId (s : Store) (typeName : String) : Int64 × Store :=
  let n := s.sequence typeName + 1
  (n, { s with sequences := s.sequences.insert typeName n })

/-- Keep identifiers handed out later clear of one that was given. -/
def observeId (s : Store) (typeName : String) : EntityId → Store
  | .int n =>
    let last := s.sequence typeName
    { s with sequences := s.sequences.insert typeName (if last < n then n else last) }
  | .text _ => s

/-- Enter a unit of work. -/
def openScope (s : Store) : Scope × Store :=
  if s.depth = 0 then (⟨true⟩, { s with depth := 1, pending := some {}, rollbackOnly := false })
  else (⟨false⟩, { s with depth := s.depth + 1 })

/-- Leave a unit of work. Leaving the outermost one commits or rolls back; it fails if the work
succeeded although an inner unit of work failed. -/
def closeScope (scope : Scope) (success : Bool) (s : Store) : Except Failure Unit × Store :=
  let s := { s with depth := s.depth - 1 }
  if scope.outermost then
    let p := s.pending.getD {}
    let s := { s with pending := none }
    if success && !s.rollbackOnly then
      let s := s.note (.committing p.size)
      (.ok (), { s with tables := s.tables.replay p.log, commits := s.commits + 1 })
    else
      let s := s.note (.rollingBack p.size)
      (if success then .error .rolledBack else .ok (), { s with rollbacks := s.rollbacks + 1 })
  -- Writes of an inner scope cannot be taken back alone.
  else (.ok (), if success then s else { s with rollbackOnly := true })

/-- Run a unit of work in a scope of its own. -/
def exec {ρ : Type} [Ending ρ] (work : Store → ρ × Store) (s : Store) : ρ × Store :=
  let (scope, s) := s.openScope
  let (result, s) := work s
  match s.closeScope scope (Ending.succeeded result) with
  | (.ok (), s) => (result, s)
  | (.error e, s) => (Ending.overruled result e, s)

/-- The store as a transaction: run the work once, in a scope. -/
def transaction : Transaction Store := fun s =>
  let (scope, s) := s.openScope
  .run s fun result s =>
    match s.closeScope scope (Ending.succeeded result) with
    | (.ok (), s) => .finish result s
    | (.error e, s) => .finish (.error e) s

/-- Running work in the store's transaction is running it in a scope. -/
theorem runIn_transaction {α : Type} (work : Store → Except Failure α × Store) (s : Store) :
    runIn transaction work s = exec work s := by
  rcases hw : work s.openScope.2 with ⟨r, s'⟩
  rcases hc : s'.closeScope s.openScope.1 (Ending.succeeded r) with ⟨c | ⟨⟩, s''⟩ <;> cases r <;>
    simp_all [runIn, transaction, exec, Conduct.perform, Slot.call, Ending.succeeded, Ending.overruled]

end Store

end Fixtures
