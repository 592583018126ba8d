import Fixtures.EntityId.Basic
/-!
# What can go wrong

A `Failure` names the cause. Its `kind` is one of eight, and `message` is the
one place where causes are put into words. `stated` carries the words of a
collaborator outside this library.
-/

namespace Fixtures

/-- Why a file could not be read as a script. -/
inductive FileFault where
  | missing
  | notADirectory
  | isADirectory
  | notText
  | zeroInName
  | nameTooLong
  deriving DecidableEq

/-- How reading failed. -/
inductive IoKind where
  | notFound
  | invalidData
  | isADirectory
  | notADirectory
  | other
  deriving DecidableEq

/-- The kinds of failure a caller can tell apart. -/
inductive Failure.Kind where
  | io (how : IoKind)
  | usage
  | instantiation
  | persistence
  | script
  | notFound
  | invalidArgument
  | invalidState
  deriving DecidableEq

/-- The functions a script can misuse by their arguments. -/
inductive Verb where
  | table
  | find
  | load
  deriving DecidableEq

/-- What is wrong with the arguments of a call; `kind` is the word for the kind of what was given. -/
inductive Complaint where
  | nothingGiven
  | argumentCount (n : Nat)
  | foreignType
  | typeIs (kind : String)
  | blockIs (kind : String)
  | columnNames
  | identifierIs (kind : String)
  | extraArguments
  | scriptIs (label kind : String)
  | nameIs (kind : String)
  | argumentIs (kind : String)
  deriving DecidableEq

inductive Failure where
  | noScriptAt (path : String)
  | unreadable (path : String) (fault : FileFault)
  | undeclaredAttribute (typeName name : String)
  | unknownColumn (name typeName : String)
  | rowOutsideTable
  | tooManyValues (given : Nat) (typeName : String) (columns : Nat)
  | rowValueNotData (position : Nat) (kind : String)
  | badCall (verb : Verb) (complaint : Complaint)
  | unknownTypeName (name : String)
  | nestedTooDeep (levels : Nat)
  | loadTooDeep (levels : Nat) (scripts : List String)
  | cannotInstantiate (typeName reason : String)
  | alreadyExists (typeName : String) (id : EntityId)
  | rolledBack
  | script (text : String)
  | unknownType (name : String)
  | noEntity (typeName : String) (id : EntityId)
  | noAccess (typeName : String)
  | noLoadDepth
  | emptyScriptDirectory
  | emptyInputName
  | foreignEntity (expected given : String)
  | noIdentifier (typeName idName : String)
  | unusableIdentifier (kind : String)
  | captureStarted
  | captureNotStarted
  | workNotRun
  | noContext
  | contextClosed
  | stated (kind : Failure.Kind) (text : String)
  deriving DecidableEq

namespace FileFault

/-- The words of the system for a fault. -/
def text : FileFault → String
  | missing => "No such file or directory (os error 2)"
  | notADirectory => "Not a directory (os error 20)"
  | isADirectory => "Is a directory (os error 21)"
  | notText => "stream did not contain valid UTF-8"
  | zeroInName => "file name contained an unexpected NUL byte"
  | nameTooLong => "File name too long (os error 36)"

def kind : FileFault → IoKind
  | missing => .notFound
  | notADirectory => .notADirectory
  | isADirectory => .isADirectory
  | notText => .invalidData
  | zeroInName | nameTooLong => .other

end FileFault

/-- What a verb expects. -/
def Verb.usage : Verb → String
  | table => "table() expects an entity type, a list of attribute names and a function"
  | find => "find() expects an entity type and an identifier"
  | load => "load() expects a map of namespace to script name, or one or more script names"

/-- A complaint as it follows what the verb expects. -/
def Complaint.text : Complaint → String
  | nothingGiven => ""
  | argumentCount n => s!"; got {n} argument(s)"
  | foreignType => "; the entity type is foreign userdata"
  | typeIs kind => s!"; the entity type is a {kind}"
  | blockIs kind => s!"; the third argument is a {kind}"
  | columnNames => "; attribute names must be a list of strings"
  | identifierIs kind => s!"; the identifier is a {kind}"
  | extraArguments => "; got a table plus extra arguments"
  | scriptIs label kind => s!"; the script for namespace '{label}' is a {kind}"
  | nameIs kind => s!"; got a {kind} among the script names"
  | argumentIs kind => s!"; got a {kind}"

namespace Failure

/-- The kind of a failure. -/
def kind : Failure → Kind
  | noScriptAt _ => .io .notFound
  | unreadable _ fault => .io fault.kind
  | undeclaredAttribute .. | unknownColumn .. | rowOutsideTable | tooManyValues .. | rowValueNotData ..
  | badCall .. | unknownTypeName _ | nestedTooDeep _ | loadTooDeep .. => .usage
  | cannotInstantiate .. => .instantiation
  | alreadyExists .. | rolledBack => .persistence
  | script _ => .script
  | unknownType _ | noEntity .. | noAccess _ => .notFound
  | noLoadDepth | emptyScriptDirectory | emptyInputName | foreignEntity .. | noIdentifier ..
  | unusableIdentifier _ => .invalidArgument
  | captureStarted | captureNotStarted | workNotRun | noContext | contextClosed => .invalidState
  | stated kind _ => kind

/-- What went wrong, without the kind. -/
def detail : Failure → String
  | noScriptAt path => s!"no script at {path}"
  | unreadable path fault => s!"cannot read script {path}: {fault.text}"
  | undeclaredAttribute typeName name => s!"entity type '{typeName}' has no attribute '{name}'"
  | unknownColumn name typeName => s!"table() lists attribute '{name}', which {typeName} does not declare"
  | rowOutsideTable => "row() must be called inside a table() block"
  | tooManyValues given typeName columns =>
    s!"row() got {given} value(s) but the {typeName} table declares {columns} attribute(s)"
  | rowValueNotData position kind => s!"row() value {position} is a {kind}, not data"
  | badCall verb complaint => verb.usage ++ complaint.text
  | unknownTypeName name => s!"unknown entity type '{name}'"
  | nestedTooDeep levels => s!"table nesting exceeds {levels} levels"
  | loadTooDeep levels scripts =>
    s!"load() nested deeper than {levels} levels while loading " ++
      "[" ++ ", ".intercalate scripts ++ "]; do the scripts load each other?"
  | cannotInstantiate typeName reason => s!"'{typeName}': {reason}"
  | alreadyExists typeName id => s!"{typeName} with id {id.display} already exists"
  | rolledBack => "transaction rolled back because a nested unit of work failed"
  | script text => text
  | unknownType name => s!"entity type '{name}'"
  | noEntity typeName id => s!"{typeName} with id {id.display}"
  | noAccess typeName => s!"no DAO registered for entity type '{typeName}'"
  | noLoadDepth => "max_load_depth must be > 0"
  | emptyScriptDirectory => "script_directory must not be empty"
  | emptyInputName => "input names must not be empty"
  | foreignEntity expected given => s!"{expected} DAO cannot store a {given}"
  | noIdentifier typeName idName => s!"{typeName} has no value for identifier '{idName}'"
  | unusableIdentifier kind => s!"a {kind} cannot be used as an entity identifier"
  | captureStarted => "variable capture already started"
  | captureNotStarted => "variable capture was not started"
  | workNotRun => "transaction did not run its unit of work"
  | noContext => "entity context stack is empty"
  | contextClosed => "entity context closed while creating a row"
  | stated _ text => text

/-- The words that open the message of a failure of this kind. -/
def Kind.opening : Kind → String
  | io _ => "IO error: "
  | usage => "Usage error: "
  | instantiation => "Cannot instantiate entity type "
  | persistence => "Persistence error: "
  | script => "Script error: "
  | notFound => "Not found: "
  | invalidArgument => "Invalid argument: "
  | invalidState => "Invalid state: "

/-- The full message. -/
def message (f : Failure) : String := f.kind.opening ++ f.detail

/-- The script is to blame, not its surroundings. -/
def isUsage (f : Failure) : Bool := f.kind = .usage

end Failure

/-- A value as an identifier, or why it cannot be one. -/
def EntityId.ofValue (v : Value) : Except Failure EntityId :=
  match ofValue? v with
  | some id => .ok id
  | none => .error (.unusableIdentifier v.kind)

end Fixtures
