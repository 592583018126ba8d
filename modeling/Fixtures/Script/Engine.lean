import Fixtures.Loader
import Fixtures.Script.Binding
import Fixtures.Script.Chunk
import Fixtures.Script.Machine
/-!
# The engine of fixture scripts

Scripts of the supported part of Lua (see `Fixtures.Script.Syntax`) run on
globals that hold the entity types, the vocabulary and the variables, with the
capture started. When their state is given up, finalizers have the last word.
-/

namespace Fixtures.Script

namespace Chunk

/-- How many bytes of a name are shown. -/
def labelSize : Nat := 60

/-- The name of a script in messages. A name that begins with `=` or `@` is shown as it is, any other as
a quoted first line; what is too long is cut. -/
def label (name : String) : Text.Bytes :=
  let bytes := Text.encode name
  match name.toList with
  | '=' :: _ => (bytes.take labelSize).drop 1
  | '@' :: _ =>
    if bytes.length < labelSize then bytes.drop 1
    else Text.encode "..." ++ bytes.drop (bytes.length - (labelSize - 4))
  | _ =>
    let room := labelSize - "[string \"...\"]".length - 1
    let firstLine := bytes.takeWhile (· ≠ 10)
    let shown := if bytes.length < room ∧ firstLine = bytes then bytes else firstLine.take room ++ Text.encode "..."
    Text.encode "[string \"" ++ shown ++ Text.encode "\"]"

/-- A text that is an expression as a script that returns its values; any other text as it is. -/
def returning (text : String) : String :=
  match parse ("return " ++ text) with
  | .ok _ => "return " ++ text
  | .error _ => text

/-- Why a text could not be read as a script. -/
def malformed (name : String) : Malformed → Failure
  | .ungrammatical line => .script s!"syntax error: {Text.decode (label name)}:{line}: unexpected symbol"
  | .tooDeep => .script "runtime error: C stack overflow"

end Chunk

/-- The place of the first zero byte in a name, which must not have any. -/
def zeroByte? (name : String) : Option Nat := (Text.encode name).findIdx? (· = 0)

/-- Read a text as a script with the global names in sight. -/
def compile (name text : String) (h : Heap) : Except Failure (Val × Heap) :=
  match zeroByte? name with
  | some n => .error (.script s!"runtime error: invalid name: nul byte found in provided data at position: {n}")
  | none =>
    match Chunk.parse text with
    | .error m => .error (Chunk.malformed name m)
    | .ok f =>
      let (environment, h) := h.newCell (.table h.globals)
      .ok (h.newClosure ⟨f, [("_ENV", environment)], Chunk.label name⟩)

/-- Run a text as a script and return its results. -/
def evaluate (types : Catalog) (name text : String) (h : Heap) : Program (Except Failure (List Val) × Heap) :=
  match compile name text h with
  | .error f => .done (.error f, h)
  | .ok (f, h) => Vocabulary.settle (call types) (call types f [] []) h

/-- Bind an entity type under its name. -/
def Binding.bindType (b : Binding) (t : EntityType) : Binding :=
  let (v, heap) := b.heap.newObject (.entityType t)
  { b with heap }.bind t.name v

/-- The library of lists, or a new table if its name is bound to anything else. -/
def Heap.sequences (h : Heap) : Nat × Heap :=
  match h.globalTable.get (.text "table") with
  | .table id => (id, h)
  | _ => h.addTable .empty

/-- Bind the entity types and the vocabulary. The library of lists stays in place and answers to `table`
by its handler for calls. -/
def install (types : Catalog) (b : Binding) : Binding :=
  let b := types.values.foldl Binding.bindType b
  let (library, heap) := b.heap.sequences
  let (handlers, heap) := heap.addTable (.ofEntries [(.text "__call", .builtin .openTable)])
  let heap := heap.setTable library { heap.table library with metatable := some handlers }
  let b := { b with heap }.bind "table" (.table library)
  ((b.bind "row" (.builtin .row)).bind "find" (.builtin .find)).bind "load" (.builtin .load)

/-- A script that can run: the types it knows, and the names bound around it. -/
structure Prepared where
  types : Catalog
  binding : Binding

/-- What a script with these types and variables starts from. -/
def prepare (types : Catalog) (vars : Variables) : Prepared :=
  let b := (install types {}).setAll vars
  ⟨types, b.startCapture.toOption.getD b⟩

/-- Run a text as a script on what was prepared. -/
def Prepared.execute (name text : String) (p : Prepared) : Program (Except Failure Unit × Prepared) :=
  (evaluate p.types name text p.binding.heap).bind fun (result, heap) =>
    .done (result.map fun _ => (), { p with binding := { p.binding with heap } })

/-- Call the finalizer of a table, if it still has one. What it raises is dropped. -/
def finalize (call : Caller) (id : Nat) : Eval Unit := do
  match ← Eval.look fun h => h.handler (.table id) "__gc" with
  | .nil => return ()
  | f =>
    let _ ← (call f [.table id] []).attempt .aside
    return ()

/-- Call the finalizers of tables in order. -/
def finalizeAll (call : Caller) : List Nat → Eval Unit
  | [] => pure ()
  | id :: rest => do
    finalize call id
    finalizeAll call rest

/-- Give up what a script has left: tables with a finalizer are finalized, those that got it last first. What gets a
finalizer only now is not finalized any more. -/
def Prepared.discard (p : Prepared) : Program Unit :=
  (finalizeAll (call p.types) p.binding.heap.finalizable p.binding.heap).bind fun _ => .done ()

/-- The engine of scripts. -/
def engine : Engine Prepared where
  prepare := prepare
  execute := Prepared.execute
  capture p := (p.binding.captured.events, p.binding.captured.result)
  discard := Prepared.discard

end Fixtures.Script
