import Fixtures.Program
import Fixtures.Store.Access
/-!
# Sessions

A session is a store together with the stack of open contexts and the number
of loads under way. It answers the requests of programs: `table` pairs the push
of a context with a pop on every way out of the block, `row` creates an entity
of the innermost context, and `Program.runIn` carries out a whole program.
-/

namespace Fixtures

structure Session where
  store : Store := {}
  contexts : ContextStack := []
  loadDepth : Nat := 0

namespace Session

/-- Use the store. -/
def onStore {α : Type} (f : Store → α × Store) (s : Session) : α × Session :=
  let (a, store) := f s.store
  (a, { s with store })

/-- Report an event. -/
def note (s : Session) (e : Event) : Session := { s with store := s.store.note e }

/-- Report events in order. -/
def noteAll (s : Session) (events : List Event) : Session := events.foldl note s

/-- Run a unit of work in a scope of the store. -/
def exec {ρ : Type} [Ending ρ] (work : Session → ρ × Session) (s : Session) : ρ × Session :=
  let (scope, store) := s.store.openScope
  let (result, s) := work { s with store }
  match s.store.closeScope scope (Ending.succeeded result) with
  | (.ok (), store) => (result, { s with store })
  | (.error e, store) => (Ending.overruled result e, { s with store })

/-- Close a frame: take the innermost context off. -/
def close (frame : Frame) (s : Session) : Option Context × Session :=
  let s := s.noteAll (s.contexts.closingReport frame)
  let (context, contexts) := s.contexts.pop
  (context, { s with contexts })

/-- Run work with a context open, and return the context as it was when it was taken off. -/
def withContext {ρ : Type} (type : EntityType) (columns : List String) (work : Session → ρ × Session)
    (s : Session) : (ρ × Option Context) × Session :=
  let (frame, contexts) := s.contexts.enter type columns
  let (result, s) := work { s with contexts }
  let (context, s) := s.close frame
  ((result, context), s)

/-- The entities a finished block created. -/
def created (result : Except Failure Unit) (context : Option Context) : Except Failure (List Entity) :=
  match result, context with
  | .error f, _ => .error f
  | .ok (), some c => .ok c.created
  | .ok (), none => .error .noContext

/-- Run a block that creates entities of a type, and return those created and what the block
returned beside its ending. -/
def table {β : Type} (schema : Schema) (block : Session → (Except Failure Unit × β) × Session) (s : Session) :
    (Except Failure (List Entity) × β) × Session :=
  let (((result, b), context), s) := s.withContext schema.type schema.columns block
  ((created result context, b), s)

/-- The new entity that values give for a context: columns take the values in order. -/
def instanceOf (c : Context) (values : List Value) : Except Failure Entity :=
  if c.columns.length < values.length then
    .error (.tooManyValues values.length c.type.name c.columns.length)
  else
    match c.type.instantiate with
    | .error f => .error f
    | .ok e => e.setAll (c.columns.zip values)

/-- Create an entity under its own type. -/
def createNamed (e : Entity) (s : Session) : Except Failure Entity × Session :=
  match s.store.access e.typeName with
  | .error f => (.error f, s)
  | .ok t => s.onStore (Store.create t e)

/-- Create an entity of the innermost context and record it there. -/
def row (values : List Value) (s : Session) : Except Failure Entity × Session :=
  match s.contexts with
  | [] => (.error .rowOutsideTable, s)
  | c :: _ =>
    match instanceOf c values with
    | .error f => (.error f, s)
    | .ok e =>
      match s.createNamed e with
      | (.error f, s) => (.error f, s)
      | (.ok e, s) =>
        match s.contexts.record e with
        | some contexts => (.ok e, { s with contexts })
        | none => (.error .contextClosed, s)

/-- Find an entity of a type by identifier. -/
def find (type : EntityType) (id : Value) (s : Session) : Except Failure (Option Entity) × Session :=
  match s.store.access type.name with
  | .error f => (.error f, s)
  | .ok t => s.onStore (Store.findById t id)

end Session

/-- Carry out a program, given what loading scripts does. -/
def Program.runIn {α : Type} (load : List ScriptRef → Session → Except Failure Variables × Session) :
    Program α → Session → α × Session
  | .done a, s => (a, s)
  | .note e next, s => (next ()).runIn load (s.note e)
  | .row values next, s =>
    let (r, s) := s.row values
    (next r).runIn load s
  | .find type id next, s =>
    let (r, s) := s.find type id
    (next r).runIn load s
  | .load scripts next, s =>
    let (r, s) := load scripts s
    (next r).runIn load s
  | .table schema block next, s =>
    let ((r, b), s) := s.table schema (block.runIn load)
    (next r b).runIn load s

end Fixtures
