import Fixtures.Context
/-!
# What a script does

Seen from the loader, a running script is a tree of requests: create a row,
find an entity, load other scripts, open a table block. Each request says how
the script goes on with the answer. Whatever the script computes between two
requests is not seen. A table block is a program of its own inside the
program, so blocks are closed in the order they are opened.
-/

namespace Fixtures

inductive Program : Type → Type 1 where
  /-- End with a result. -/
  | done {α : Type} (a : α) : Program α
  /-- Report an event. -/
  | note {α : Type} (event : Event) (next : Unit → Program α) : Program α
  /-- Create an entity of the innermost context from positional values. -/
  | row {α : Type} (values : List Value) (next : Except Failure Entity → Program α) : Program α
  /-- Find an entity of a type by identifier. -/
  | find {α : Type} (type : EntityType) (id : Value) (next : Except Failure (Option Entity) → Program α) :
      Program α
  /-- Load scripts. -/
  | load {α : Type} (scripts : List ScriptRef) (next : Except Failure Variables → Program α) : Program α
  /-- Run a block in a context of its own. The block tells whether it failed, and what else to go on with. -/
  | table {α β : Type} (schema : Schema) (block : Program (Except Failure Unit × β))
      (next : Except Failure (List Entity) → β → Program α) : Program α

namespace Program

/-- Run `p`, then what `f` makes of its result. -/
def bind {α β : Type} : Program α → (α → Program β) → Program β
  | done a, f => f a
  | note e next, f => note e fun u => (next u).bind f
  | row values next, f => row values fun r => (next r).bind f
  | find type id next, f => find type id fun r => (next r).bind f
  | load scripts next, f => load scripts fun r => (next r).bind f
  | table schema block next, f => table schema block fun r b => (next r b).bind f

instance : Monad Program where
  pure := done
  bind := bind

/-- Report events in order. -/
def noteAll : List Event → Program Unit
  | [] => done ()
  | e :: rest => note e fun _ => noteAll rest

end Program

end Fixtures
