import Fixtures.Script.Library.Invocation
/-!
# Basic functions

Functions on values of any kind: raising and catching, types and metatables,
traversals, access that leaves metatables aside.
-/

namespace Fixtures.Script.Library

variable (c : Invocation)

/-- Raise a value; text is told the place that called the function `level` calls up. -/
def raiseAt (v : Val) (level : Int64) : Look (List Val) :=
  match v with
  | .string s =>
    if 0 < level.toInt then throw (.string (Trace.place (c.callers.drop (level.toInt.toNat - 1)) ++ s)) else throw v
  | v => throw v

def error : Look (List Val) := do raiseAt c (c.arg 1) (← c.integerOr 2 1)

def assert : Look (List Val) := do
  if (← c.any 1).isTrue then return c.args
  else if c.args.length < 2 then raiseAt c (.text "assertion failed!") 1
  else raiseAt c (c.arg 2) 1

def pcall : Eval (List Val) :=
  match c.args with
  | [] => .raise (.text "not enough arguments to pcall")
  | f :: args => do
    match ← (c.call f args c.inner).attempt .caught with
    | .ok vs => return .bool true :: vs
    | .error v => return [.bool false, v]

def type : Look (List Val) := do return [.text (← c.any 1).kind]

def tostring : Eval (List Val) := do return [.string (← display c.call c.inner (← c.any 1))]

def tonumber : Look (List Val) := do
  if c.arg 2 = .nil then
    match ← c.any 1 with
    | .number n => return [.number n]
    | v => return [(v.asNumber?.map Val.number).getD .nil]
  else
    let base ← c.integer 2
    match c.arg 1 with
    | .string s =>
      if base.toInt < 2 ∨ 36 < base.toInt then c.bad 2 "base out of range"
      else return [((Text.decode? s).bind (Number.ofTextIn? base.toInt.toNat)).elim .nil Val.int]
    | _ => c.mismatch 1 "string"

/-- Values from a position on, or how many there are. -/
def select : Look (List Val) := do
  if c.arg 1 = .text "#" then return [.nat (c.args.length - 1)]
  else
    let n := (← c.integer 1).toInt
    if 0 < n then return c.args.drop n.toNat
    else if n < 0 ∧ -n < c.args.length then return c.args.drop (c.args.length - n.natAbs)
    else c.bad 1 "index out of range"

/-! ## Metatables -/

def getmetatable : Look (List Val) := do
  let v ← c.any 1
  match v with
  | .object _ => return [.bool false]
  | _ =>
    let h ← read
    let shown := h.handler v "__metatable"
    return [if shown = .nil then (h.metatable? v).elim .nil Val.table else shown]

def setmetatable : Eval (List Val) := do
  let id ← c.table 1
  let m ← match c.arg 2 with
    | .table m => pure (some m)
    | .nil => if c.args.length < 2 then c.mismatch 2 "nil or table" else pure none
    | _ => c.mismatch 2 "nil or table"
  match ← Eval.look fun h => h.handler (.table id) "__metatable" with
  | .nil =>
    Eval.change fun h => h.setTable id { h.table id with metatable := m }
    -- A finalizer that is put into the metatable later does not count.
    Eval.change fun h => h.enlist id
    return [.table id]
  | _ => c.complain "cannot change a protected metatable"

/-! ## Access without metatables -/

def rawget : Look (List Val) := do
  let id ← c.table 1
  return [(← read).rawGet id (c.arg 2)]

def rawset : Eval (List Val) := do
  let id ← c.table 1
  rawSet c.inner id (c.arg 2) (← c.any 3)
  return [.table id]

def rawequal : Look (List Val) := do return [.bool ((← c.any 1).same (← c.any 2))]

def rawlen : Look (List Val) := do
  match c.arg 1 with
  | .table id => return [.nat ((← read).table id).border]
  | .string s => return [.nat s.length]
  | _ => c.bad 1 "table or string expected"

/-! ## Traversals -/

/-- The entry that follows the one of a key. -/
def next : Look (List Val) := do
  let id ← c.table 1
  let k := (c.arg 2).key?.getD .nil
  match ((← read).table id).after k with
  | some (some (k, v)) => return [k, v]
  | some none => return [.nil]
  | none => .complain c.inner "invalid key to 'next'"

def pairs : Eval (List Val) := do
  let v ← c.any 1
  match ← Eval.look fun h => h.handler v "__pairs" with
  | .nil => return [.builtin .next, v, .nil]
  | f =>
    match ← c.call f [v] c.inner with
    | [] => return [.nil, .nil, .nil]
    | [a] => return [a, .nil, .nil]
    | [a, b] => return [a, b, .nil]
    | a :: b :: d :: _ => return [a, b, d]

def ipairs : Look (List Val) := do return [.builtin .ipairsStep, ← c.any 1, .int 0]

/-- The entry that follows a place of a list. -/
def ipairsStep : Eval (List Val) := do
  let i := (← c.integer 2) + 1
  match ← c.get (c.arg 1) (.int i) with
  | .nil => return [.nil]
  | v => return [.int i, v]

end Fixtures.Script.Library
