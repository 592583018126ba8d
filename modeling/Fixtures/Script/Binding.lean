import Fixtures.Script.Exchange
import Fixtures.Script.Globals
/-!
# Names bound around a script

Before a script runs, names are bound into its globals. Starting the capture
moves all of them into a table behind the globals: reads fall through to it,
assignments land in the globals themselves. What the globals then hold is what
the script has assigned.
-/

namespace Fixtures.Script

structure Binding where
  heap : Heap := .fresh
  /-- The table of the names bound before the capture started. -/
  before : Option Nat := none

namespace Binding

/-- Bind a name to what a script can see of it, replacing what it was bound to. -/
def bind (b : Binding) (name : String) (v : Val) : Binding :=
  { b with heap := b.heap.put b.heap.globals (.text name) v }

/-- Bind a name to a value. -/
def set (b : Binding) (name : String) (v : Value) : Binding :=
  let (v, heap) := b.heap.receive v
  { b with heap }.bind name v

/-- Bind variables in order. -/
def setAll (b : Binding) (vars : Variables) : Binding := vars.foldl (fun b (name, v) => b.set name v) b

/-- Move the bindings behind the globals, which are left empty. -/
def startCapture (b : Binding) : Except Failure Binding :=
  match b.before with
  | some _ => .error .captureStarted
  | none =>
    let id := b.heap.tables.size
    let (before, heap) := b.heap.newTable { b.heap.globalTable with metatable := none }
    let fallback := Table.ofEntries [(.text "__index", before)]
    let (_, heap) := heap.newTable fallback
    let cleared := heap.setTable heap.globals { Table.empty with metatable := some (id + 1) }
    .ok { heap := { cleared with assigned := [], fates := [] }, before := some id }

/-- The tables a name can be bound in, those behind first. -/
def tables (b : Binding) : List Nat := b.before.toList ++ [b.heap.globals]

/-- The names in sight. -/
def names (b : Binding) : List String :=
  let entries := b.tables.flatMap fun id => (b.heap.table id).entries
  Dict.keys (Dict.ofPairs (entries.filterMap fun row =>
    match row.1 with
    | .string s => some (Text.decode s, ())
    | _ => none))

/-- Every name in sight that holds data; assignments since the capture started hide what was bound before. -/
def visible (b : Binding) : Reported Variables := b.tables.foldlM (fun vs id => b.heap.collect id vs) []

/-- The names assigned since the capture started that hold data. -/
def captured (b : Binding) : Reported Variables :=
  match b.before with
  | none => .fail .captureNotStarted
  | some _ => b.heap.collect b.heap.globals []

end Binding

end Fixtures.Script
