import Fixtures.Script.Heap
import Fixtures.Reported
/-!
# Values in and out of scripts

`Heap.receive` builds what a script sees of a value, and `Heap.valueOf` reads
a value back. Lists and maps become tables, entities become objects. A table
whose keys are 1, …, n is read as a list and any other as a map. Map keys that
are decimal integers stand for integer keys. Functions, threads and foreign
objects are not data; entries that hold them are left out.
-/

namespace Fixtures.Script

/-! ## Into a script -/

/-- The key of a table that stands for a name in a map. -/
def keyOfName (name : String) : Val :=
  match name.toInt?.bind Decimal.word? with
  | some w => if toString w.toInt = name then .int w else .text name
  | none => .text name

namespace Heap

mutual

/-- Build what a script sees of a value. -/
def receive (h : Heap) : Value → Val × Heap
  | .nil => (.nil, h)
  | .bool b => (.bool b, h)
  | .integer n => (.int n, h)
  | .number x => (.number (.float x), h)
  | .string s => (.text s, h)
  | .list items =>
    let (vs, h) := h.receiveItems items
    h.newTable (.ofEntries (Table.numbered 1 vs))
  | .map fields =>
    let (rows, h) := h.receiveFields fields
    h.newTable (.ofEntries rows)
  | .entity e => h.newObject (.entity e)

def receiveItems (h : Heap) : List Value → List Val × Heap
  | [] => ([], h)
  | v :: rest =>
    let (v, h) := h.receive v
    let (vs, h) := h.receiveItems rest
    (v :: vs, h)

def receiveFields (h : Heap) : List (String × Value) → List (Val × Val) × Heap
  | [] => ([], h)
  | (name, v) :: rest =>
    let (v, h) := h.receive v
    let (rows, h) := h.receiveFields rest
    ((keyOfName name, v) :: rows, h)

end

/-- Build values under their names, which stay text. -/
def receiveNamed (h : Heap) : Variables → List (Val × Val) × Heap
  | [] => ([], h)
  | (name, v) :: rest =>
    let (v, h) := h.receive v
    let (rows, h) := receiveNamed h rest
    ((.text name, v) :: rows, h)

/-- Build a table of variables. -/
def receiveVariables (h : Heap) (vars : Variables) : Val × Heap :=
  let (rows, h) := h.receiveNamed vars
  h.newTable (.ofEntries rows)

/-- Build objects for entities, in order. -/
def receiveEntities (h : Heap) : List Entity → List Val × Heap
  | [] => ([], h)
  | e :: rest =>
    let (v, h) := h.newObject (.entity e)
    let (vs, h) := receiveEntities h rest
    (v :: vs, h)

end Heap

/-! ## Out of a script -/

/-- How many tables may be nested in one value. -/
def nestingLimit : Nat := 64

/-- The name in a map that stands for a key of a table. -/
def nameOfKey? : Val → Option String
  | .string s => some (Text.decode s)
  | .number (.int n) => some (toString n.toInt)
  | _ => none

/-- A key is one of 1, …, `n`. -/
def isPlace (n : Nat) : Val → Bool
  | .number (.int i) => 1 ≤ i.toInt && i.toInt ≤ n
  | _ => false

/-- The value an entry holds. -/
def entryAt (entries : List (Val × Val)) (k : Val) : Val :=
  ((entries.find? fun row => row.1 = k).map Prod.snd).getD .nil

/-- Add an entry of a table to a map, unless it is not data. -/
def addEntry (kindOf : Val → String) (convert : Val → Reported (Option Value)) (fields : Variables)
    (entry : Val × Val) : Reported Variables :=
  match nameOfKey? entry.1 with
  | none => do
    Reported.note (.skippedKey (kindOf entry.1))
    return fields
  | some name => do
    match ← convert entry.2 with
    | some v => return fields.insert name v
    | none =>
      Reported.note (.skippedEntry name (kindOf entry.2))
      return fields

/-- The value of a table, given its length and its entries in some order, and how to read what they hold. -/
def ofEntries (kindOf : Val → String) (convert : Val → Reported (Option Value)) (border : Nat)
    (entries : List (Val × Val)) : Reported Value := do
  if entries.length = border ∧ entries.all fun row => isPlace border row.1 then
    let items ← (List.range border).mapM fun i => convert (entryAt entries (.nat (i + 1)))
    return .list (items.map fun item => item.getD .nil)
  else return .map (← entries.foldlM (addEntry kindOf convert) [])

namespace Heap

/-- Read a value out of a script, none if it is not data. `levels` tables may still be opened, and `path` are
the tables that are open. -/
def read (h : Heap) (levels : Nat) (path : List Nat) (v : Val) : Reported (Option Value) :=
  match v with
  | .nil => return some .nil
  | .bool b => return some (.bool b)
  | .number (.int n) => return some (.integer n)
  | .number (.float x) => return some (.number x)
  | .string s => return some (.string (Text.decode s))
  | .function _ | .builtin _ | .thread _ => return none
  | .object id =>
    match h.object id with
    | .entity e => return some (.entity e)
    | .entityType t => return some (.string t.name)
    | .fault _ | .stream => return none
  | .table id =>
    if id ∈ path then do
      Reported.note .skippedCycle
      return none
    else
      match levels with
      | 0 => .fail (.nestedTooDeep nestingLimit)
      | levels + 1 => some <$> ofEntries h.kindOf (h.read levels (id :: path)) (h.table id).border (h.table id).entries

/-- Read a value out of a script, none if it is not data. -/
def valueOf (h : Heap) (v : Val) : Reported (Option Value) := h.read nestingLimit [] v

/-- Add an entry of a table to the variables, if it has text as its key and holds data. -/
def addVariable (h : Heap) (vars : Variables) (entry : Val × Val) : Reported Variables :=
  match entry.1 with
  | .string s => do
    match ← h.valueOf entry.2 with
    | some v => return vars.insert (Text.decode s) v
    | none =>
      Reported.note (.notCaptured (Text.decode s) (h.kindOf entry.2))
      return vars
  | _ => return vars

/-- Add the variables a table holds. -/
def collect (h : Heap) (id : Nat) (vars : Variables) : Reported Variables :=
  (h.table id).entries.foldlM h.addVariable vars

end Heap

end Fixtures.Script
