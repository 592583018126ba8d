import Fixtures.EntityType
import Fixtures.Event
/-!
# Contexts of open table blocks

A block that creates entities names their type and its columns, the attributes
that positional values go to. Open blocks form a stack, innermost first. A
frame remembers how deep the stack was when its context was pushed; closing it
takes the innermost context off, whichever that is.
-/

namespace Fixtures

structure Context where
  type : EntityType
  columns : List String
  created : List Entity := []

/-- Open contexts, innermost first. -/
abbrev ContextStack := List Context

/-- A context that was pushed, known by the depth it made. -/
structure Frame where
  depth : Nat
  deriving DecidableEq

namespace ContextStack

/-- Open a context. -/
def push (stack : ContextStack) (type : EntityType) (columns : List String) : ContextStack :=
  { type, columns } :: stack

/-- The innermost context, and the stack without it. -/
def pop : ContextStack → Option Context × ContextStack
  | [] => (none, [])
  | c :: rest => (some c, rest)

/-- Record an entity in the innermost context, if there is one. -/
def record : ContextStack → Entity → Option ContextStack
  | [], _ => none
  | c :: rest, e => some ({ c with created := c.created ++ [e] } :: rest)

/-- Open a context and a frame for it. -/
def enter (stack : ContextStack) (type : EntityType) (columns : List String) : Frame × ContextStack :=
  (⟨stack.length + 1⟩, stack.push type columns)

/-- What closing a frame reports: frames are meant to be closed innermost first. -/
def closingReport (stack : ContextStack) (frame : Frame) : List Event :=
  if stack.length = frame.depth then [] else [.closingOutOfOrder stack.length frame.depth]

end ContextStack

/-- A type and columns it declares: what a table block may be opened with. -/
structure Schema where
  type : EntityType
  columns : List String
  declared : ∀ name ∈ columns, type.declares name = true

/-- Check that every column is declared. -/
def Schema.ofColumns (type : EntityType) (columns : List String) : Except Failure Schema :=
  if h : ∀ name ∈ columns, type.declares name = true then .ok ⟨type, columns, h⟩
  else .error (.unknownColumn ((columns.find? fun name => !type.declares name).getD "") type.name)

end Fixtures
