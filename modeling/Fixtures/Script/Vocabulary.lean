import Fixtures.Script.Operation
/-!
# The vocabulary of fixture scripts

What a script calls to work on the store: `table` opens a block, `row` creates
an entity in it, `find` looks one up, `load` runs other scripts. Arguments are
checked from left to right before anything is asked of the loader.
-/

namespace Fixtures.Script.Vocabulary

/-- Misuse of a verb. -/
def misuse {α : Type} (verb : Verb) (complaint : Complaint) : Eval α := .fail (.badCall verb complaint)

def kindOf (v : Val) : Look String := do return (← read).kindOf v

/-- The type an argument stands for: a type that is known, or the name of one. -/
def typeArgument (types : Catalog) (verb : Verb) (v : Val) : Eval EntityType := do
  match v with
  | .object id =>
    match ← Eval.look fun h => h.object id with
    | .entityType t => return t
    | .fault _ => misuse verb (.typeIs (← kindOf v))
    | _ => misuse verb .foreignType
  | .string s =>
    match types.get? (Text.decode s) with
    | some t => return t
    | none => .fail (.unknownTypeName (Text.decode s))
  | v => misuse verb (.typeIs (← kindOf v))

/-- The texts in a list, if it holds nothing else. -/
def textsOf (items : List Value) : Option (List String) := items.mapM Value.asString?

/-- The columns an argument lists. -/
def columnsArgument (v : Val) : Eval (List String) := do
  match v with
  | .table _ =>
    match ← Eval.report fun h => h.valueOf v with
    | some (.list items) =>
      match textsOf items with
      | some columns => return columns
      | none => misuse .table .columnNames
    | _ => misuse .table .columnNames
  | _ => misuse .table .columnNames

/-- The failure of a script that raised a value with this text, up to a zero byte. -/
def plainFailure (text : Text.Bytes) : Failure :=
  .script ("runtime error: " ++ Text.decode (text.takeWhile (· ≠ 0)))

/-- How often another value may be raised while the text of one is asked for. -/
def raiseLimit : Nat := 98

/-- What a block or script that raised a value failed with: the failure that the value stands for, else one with
the text of the value. A value that is raised while the text is asked for takes its place. -/
def failureOf (call : Caller) (raises : Nat) (v : Val) (h : Heap) : Program (Failure × Heap) :=
  match h.failure? v with
  | some f => .done (f, h)
  | none =>
    match raises with
    | 0 => .done (.script "runtime error: C stack overflow", h)
    | raises + 1 => (display call [none] v h).bind fun
      | (.ok text, h) => .done (plainFailure text, h)
      | (.error v, h) => failureOf call raises v h

/-- Run to the end; a raised value becomes a failure. -/
def settle {α : Type} (call : Caller) (x : Eval α) (h : Heap) : Program (Except Failure α × Heap) :=
  (x h).bind fun
    | (.ok a, h) => .done (.ok a, h)
    | (.error v, h) => (failureOf call raiseLimit v h).bind fun (f, h) => .done (.error f, h)

/-- Open a block for entities of a type, run it, and return the entities created in it. -/
def block (call : Caller) (schema : Schema) (body : Eval Unit) : Eval (List Entity) := fun h =>
  .table schema (settle call body h) fun result h => (Eval.orFail result) h

/-- The block of a type. The first argument is what was called, the table library. -/
def table (types : Catalog) (call : Caller) (args : List Val) (callers : Trace) : Eval (List Val) := do
  match args.drop 1 with
  | [type, columns, body] =>
    let type ← typeArgument types .table type
    let columns ← columnsArgument columns
    unless isFunction body do misuse .table (.blockIs (← kindOf body))
    -- All arguments are of the right kind before the columns are compared with the type.
    let schema ← Eval.orFail (Schema.ofColumns type columns)
    let entities ← block call schema do let _ ← call body [] (none :: callers)
    let items ← Eval.make fun h => h.receiveEntities entities
    return [← Eval.make fun h => h.newTable (.ofEntries (Table.numbered 1 items))]
  | args => misuse .table (.argumentCount args.length)

/-- The values of a row, which all have to be data. -/
def rowValues (position : Nat) : List Val → Eval (List Value)
  | [] => return []
  | v :: rest => do
    match ← Eval.report fun h => h.valueOf v with
    | some value => return value :: (← rowValues (position + 1) rest)
    | none => .fail (.rowValueNotData position (← kindOf v))

/-- A new entity of the innermost block. -/
def row (args : List Val) : Eval (List Val) := do
  let values ← rowValues 1 args
  let e ← Eval.orFail (← Eval.ask (.row values .done))
  return [← Eval.make fun h => h.newObject (.entity e)]

/-- The entity of a type with an identifier, or `nil`. -/
def find (types : Catalog) (args : List Val) : Eval (List Val) := do
  match args with
  | [type, id] =>
    let type ← typeArgument types .find type
    match ← Eval.report fun h => h.valueOf id with
    | none => misuse .find (.identifierIs (← kindOf id))
    | some id =>
      match ← Eval.orFail (← Eval.ask (.find type id .done)) with
      | some e => return [← Eval.make fun h => h.newObject (.entity e)]
      | none => return [.nil]
  | args => misuse .find (.argumentCount args.length)

/-- Scripts by label. -/
def labelled : List (String × Value) → Except Failure (List ScriptRef)
  | [] => .ok []
  | (label, .string name) :: rest => (⟨name, some label⟩ :: ·) <$> labelled rest
  | (label, v) :: _ => .error (.badCall .load (.scriptIs label v.kind))

/-- Scripts by name. -/
def listed : List Value → Except Failure (List ScriptRef)
  | [] => .ok []
  | .string name :: rest => (⟨name, none⟩ :: ·) <$> listed rest
  | v :: _ => .error (.badCall .load (.nameIs v.kind))

/-- The scripts a value names: a map names them by label, a list by name. -/
def scriptsOf : Option Value → Except Failure (List ScriptRef)
  | some (.map fields) => labelled fields
  | some (.list items) => listed items
  | _ => .error (.badCall .load .nothingGiven)

/-- Scripts named one by one. -/
def scriptNames (args : List Val) : Eval (List ScriptRef) := do
  match args with
  | [] => return []
  | .string s :: rest => return ⟨Text.decode s, none⟩ :: (← scriptNames rest)
  | v :: _ => misuse .load (.nameIs (← kindOf v))

/-- The scripts that the arguments of `load` name. -/
def loadArguments (args : List Val) : Eval (List ScriptRef) := do
  match args with
  | [] => misuse .load .nothingGiven
  | .table id :: rest =>
    if rest ≠ [] then misuse .load .extraArguments
    else Eval.orFail (scriptsOf (← Eval.report fun h => h.valueOf (.table id)))
  | .string _ :: _ => scriptNames args
  | v :: _ => misuse .load (.argumentIs (← kindOf v))

/-- Run scripts and return the variables they leave. -/
def load (args : List Val) : Eval (List Val) := do
  let scripts ← loadArguments args
  let vars ← Eval.orFail (← Eval.ask (.load scripts .done))
  return [← Eval.make fun h => h.receiveVariables vars]

end Fixtures.Script.Vocabulary
