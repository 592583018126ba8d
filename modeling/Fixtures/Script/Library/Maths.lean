import Fixtures.Script.Library.Invocation
/-!
# Functions on numbers
-/

namespace Fixtures.Script.Library

variable (c : Invocation)

/-- A whole number as an integer if it is in range, else as a float. -/
def wholeOf (n : Option Int) (x : Float) : Number := (n.bind Decimal.word?).elim (.float x) .int

def floor : Look (List Val) := do
  match ← c.number 1 with
  | .int n => return [.int n]
  | .float x => return [.number (wholeOf (Decimal.floor? x) x.floor)]

def ceil : Look (List Val) := do
  match ← c.number 1 with
  | .int n => return [.int n]
  | .float x => return [.number (wholeOf (Decimal.ceil? x) x.ceil)]

def abs : Look (List Val) := do
  match ← c.number 1 with
  | .int n => return [.int (if n.toInt < 0 then -n else n)]
  | .float x => return [.number (.float x.abs)]

/-- The first of the arguments that none comes before under `before`. -/
def extreme (before : Number → Number → Bool) : Look (List Val) := do
  let first ← c.number 1
  let more ← (List.range (c.args.length - 1)).mapM fun i => c.number (i + 2)
  return [.number (more.foldl (fun best n => if before n best then n else best) first)]

def maximum : Look (List Val) := extreme c fun n best => best.less n

def minimum : Look (List Val) := extreme c fun n best => n.less best

def mathType : Look (List Val) := do
  match ← c.any 1 with
  | .number (.int _) => return [.text "integer"]
  | .number (.float _) => return [.text "float"]
  | _ => return [.nil]

def tointeger : Look (List Val) := do return [(← c.any 1).asInteger?.elim .nil Val.int]

end Fixtures.Script.Library
