import Fixtures.Script.Library.Invocation
/-!
# Functions on lists

Lists are tables with entries at 1, 2, … up to their length.
-/

namespace Fixtures.Script.Library

variable (c : Invocation)

/-- The most results of one call. -/
def resultLimit : Nat := 1000000

/-- Move the entries at `i`, `i + 1`, … of a list by `step`, as many as are left. -/
def moveUp (t : Val) (i : Int64) : (left : Nat) → Eval Unit
  | 0 => pure ()
  | left + 1 => do
    c.set t (.int i) (← c.get t (.int (i + 1)))
    moveUp t (i + 1) left

/-- Move the entries before `i`, `i - 1`, … one place up, as many as are left. -/
def moveDown (t : Val) (i : Int64) : (left : Nat) → Eval Unit
  | 0 => pure ()
  | left + 1 => do
    c.set t (.int i) (← c.get t (.int (i - 1)))
    moveDown t (i - 1) left

def insert : Eval (List Val) := do
  let t := Val.table (← c.table 1)
  let e := (← c.lengthOf t) + 1
  match c.args with
  | [_, v] =>
    c.set t (.int e) v
    return []
  | [_, _, v] =>
    let i ← c.integer 2
    if i.toInt < 1 ∨ e.toInt < i.toInt then c.bad 2 "position out of bounds"
    else
      moveDown c t e (e.toInt - i.toInt).toNat
      c.set t (.int i) v
      return []
  | _ => c.complain "wrong number of arguments to 'insert'"

def remove : Eval (List Val) := do
  let t := Val.table (← c.table 1)
  let size ← c.lengthOf t
  let i ← c.integerOr 2 size
  if i ≠ size ∧ (i.toInt < 1 ∨ size.toInt + 1 < i.toInt) then
    c.bad 2 "position out of bounds"
  else
    let removed ← c.get t (.int i)
    let left := (size.toInt - i.toInt).toNat
    moveUp c t i left
    c.set t (.int (i + Int64.ofNat left)) .nil
    return [removed]

/-- The entries from `i` on as text, as many as are left. -/
def joined (t : Val) (separator : Text.Bytes) (i : Int64) (acc : Text.Bytes) : (left : Nat) → Eval Text.Bytes
  | 0 => pure acc
  | left + 1 => do
    match (← c.get t (.int i)).asBytes? with
    | some s => joined t separator (i + 1) (if left = 0 then acc ++ s else acc ++ s ++ separator) left
    | none => c.complain s!"invalid value (at index {i.toInt}) in table for 'concat'"

def concat : Eval (List Val) := do
  let t := Val.table (← c.table 1)
  let size ← c.lengthOf t
  let separator ← if c.arg 2 = .nil then pure [] else c.bytes 2
  let i ← c.integerOr 3 1
  let j ← c.integerOr 4 size
  return [.string (← joined c t separator i [] (j.toInt - i.toInt + 1).toNat)]

/-- The entries from `i` on, as many as are left. -/
def items (t : Val) (i : Int64) : (left : Nat) → Eval (List Val)
  | 0 => pure []
  | left + 1 => do
    let v ← c.get t (.int i)
    return v :: (← items t (i + 1) left)

def unpack : Eval (List Val) := do
  let t := c.arg 1
  let i ← c.integerOr 2 1
  let j ← if c.arg 3 = .nil then c.lengthOf t else c.integer 3
  let n := (j.toInt - i.toInt + 1).toNat
  if resultLimit ≤ n then c.complain "too many results to unpack" else items c t i n

/-- The arguments as a list, and how many there are under `n`. -/
def pack : Eval (List Val) := do
  let t := (Table.ofList c.args).set (.text "n") (.nat c.args.length)
  return [← Eval.make fun h => h.newTable t]

end Fixtures.Script.Library
