import Fixtures.Decimal.Notation
/-!
# Numbers of scripts

A number is a 64-bit integer, which wraps, or a double. An operation on two
integers stays among them, except `/` and `^`; with a double on either side
both become doubles. Comparison is exact.
-/

namespace Fixtures.Script

inductive Number where
  | int (n : Int64)
  | float (x : Float)
  deriving DecidableEq

inductive Arith where
  | add
  | sub
  | mul
  | div
  | mod
  | pow
  | floorDiv
  deriving DecidableEq

namespace Number

def toFloat : Number → Float
  | int n => n.toFloat
  | float x => x

/-- The integer of the same value, if there is one in range. -/
def word? : Number → Option Int64
  | int n => some n
  | float x => (Decimal.whole? x).bind Decimal.word?

/-- How floats are written: fourteen significant digits, with `.0` after whole ones. -/
def floatText : Decimal.Notation := ⟨.inr 14, fun s => -4 < s ∧ s ≤ 14, ".0", 2, "-nan", "inf"⟩

def text : Number → String
  | int n => toString n.toInt
  | float x => floatText.render x

/-! ## Arithmetic -/

/-- Remainder with the sign of the divisor. -/
def floatMod (a b : Float) : Float :=
  let m := Decimal.remainder a b
  if (if m > 0 then b < 0 else m < 0 && b != m) then m + b else m

def floatArith : Arith → Float → Float → Float
  | .add, a, b => a + b
  | .sub, a, b => a - b
  | .mul, a, b => a * b
  | .div, a, b => a / b
  | .mod, a, b => floatMod a b
  -- A square is a product, which is rounded once.
  | .pow, a, b => if b == 2 then a * a else a.pow b
  | .floorDiv, a, b => (a / b).floor

/-- An operation on two numbers; none where an integer is divided by zero. -/
def arith (op : Arith) (a b : Number) : Option Number :=
  match op, a, b with
  | .add, int a, int b => some (int (a + b))
  | .sub, int a, int b => some (int (a - b))
  | .mul, int a, int b => some (int (a * b))
  | .mod, int a, int b => if b = 0 then none else some (int (Int64.ofInt (a.toInt.fmod b.toInt)))
  | .floorDiv, int a, int b => if b = 0 then none else some (int (Int64.ofInt (a.toInt.fdiv b.toInt)))
  | op, a, b => some (float (floatArith op a.toFloat b.toFloat))

def negate : Number → Number
  | int n => int (-n)
  | float x => float (-x)

/-! ## Comparison -/

/-- The order of two numbers; none if one is no number. -/
def compare? : Number → Number → Option Ordering
  | int a, int b => some (compare a.toInt b.toInt)
  | int a, float y => Decimal.compareInt? a.toInt y
  | float x, int b => (Decimal.compareInt? b.toInt x).map Ordering.swap
  | float x, float y => if x < y then some .lt else if x == y then some .eq else if x > y then some .gt else none

def less (a b : Number) : Bool := a.compare? b = some .lt

def atMost (a b : Number) : Bool := a.compare? b = some .lt || a.compare? b = some .eq

def same (a b : Number) : Bool := a.compare? b = some .eq

/-! ## Numerals -/

def isBlank (c : Char) : Bool := c = ' ' || ('\t' ≤ c && c ≤ '\r')

/-- The value of a hexadecimal digit. -/
def hexDigit? (c : Char) : Option Nat :=
  if '0' ≤ c ∧ c ≤ '9' then some (c.toNat - 48)
  else if 'a' ≤ c ∧ c ≤ 'f' then some (c.toNat - 87)
  else if 'A' ≤ c ∧ c ≤ 'F' then some (c.toNat - 55)
  else none

def isDigit (c : Char) : Bool := '0' ≤ c && c ≤ '9'

/-- Digits read in base `base`. -/
def ofDigits (base : Nat) (cs : List Char) : Nat := cs.foldl (fun n c => n * base + (hexDigit? c).getD 0) 0

/-- A sign and what follows it. -/
def splitSign : List Char → Bool × List Char
  | '-' :: rest => (true, rest)
  | '+' :: rest => (false, rest)
  | cs => (false, cs)

/-- An exponent to its end: nothing, or a marker, a sign and decimal digits. -/
def exponent? (isMarker : Char → Bool) : List Char → Option Int
  | [] => some 0
  | c :: rest =>
    let (negative, digits) := splitSign rest
    if isMarker c ∧ digits ≠ [] ∧ digits.all isDigit then
      some (if negative then -ofDigits 10 digits else ofDigits 10 digits)
    else none

/-- `m` · 10^`e` as a double; far outside the range without computing the power. -/
def decimal (m : Nat) (e : Int) : Float :=
  let size := e + (Nat.toDigits 10 m).length
  if m = 0 ∨ size < -400 then 0
  else if 400 < size then 1.0 / 0.0
  else if e < 0 then Float.ofScientific m true e.natAbs
  else Float.ofScientific m false e.natAbs

/-- `m` · 2^`e` as a double; far outside the range without computing the power. -/
def binary (m : Nat) (e : Int) : Float :=
  if e < -2000 - (Nat.log2 m : Int) then 0 else Decimal.scaled m e

/-- Digits with a point and an exponent, unsigned. `base` is that of the digits; each digit after the point
counts `shift` in the exponent. -/
def pointed? (isDigit : Char → Bool) (isMarker : Char → Bool) (base shift : Nat) (value : Nat → Int → Float)
    (cs : List Char) : Option Float := do
  let whole := cs.takeWhile isDigit
  let (fraction, rest) := match cs.dropWhile isDigit with
    | '.' :: rest => (rest.takeWhile isDigit, rest.dropWhile isDigit)
    | rest => ([], rest)
  if whole = [] ∧ fraction = [] then none
  else
    let e ← exponent? isMarker rest
    return value (ofDigits base (whole ++ fraction)) (e - (shift * fraction.length : Nat))

/-- The number that unsigned digits write. -/
def unsigned? (negative : Bool) : List Char → Option Number
  | '0' :: x :: digits =>
    if x = 'x' ∨ x = 'X' then
      -- Whole hexadecimal digits wrap, however many there are.
      if digits ≠ [] ∧ digits.all fun c => (hexDigit? c).isSome then
        let n := Int64.ofNat (ofDigits 16 digits)
        some (int (if negative then -n else n))
      else
        let x? := pointed? (fun c => (hexDigit? c).isSome) (fun c => c = 'p' || c = 'P') 16 4 binary digits
        x?.map fun x => float (if negative then -x else x)
    else decimal? ('0' :: x :: digits)
  | cs => decimal? cs
where
  decimal? (cs : List Char) : Option Number :=
    let n : Int := if negative then -ofDigits 10 cs else ofDigits 10 cs
    match if cs ≠ [] ∧ cs.all isDigit then Decimal.word? n else none with
    | some w => some (int w)
    | none =>
      (pointed? isDigit (fun c => c = 'e' || c = 'E') 10 1 decimal cs).map fun x => float (if negative then -x else x)

/-- The number a text writes, blanks around it aside. -/
def ofText? (s : String) : Option Number :=
  let trimmed := ((s.toList.dropWhile isBlank).reverse.dropWhile isBlank).reverse
  let (negative, digits) := splitSign trimmed
  unsigned? negative digits

/-- The integer a text writes in a base of up to 36, blanks around it aside. -/
def ofTextIn? (base : Nat) (s : String) : Option Int64 :=
  let trimmed := ((s.toList.dropWhile isBlank).reverse.dropWhile isBlank).reverse
  let (negative, digits) := match trimmed with
    | '-' :: rest => (true, rest)
    | cs => (false, cs)
  let value (c : Char) : Option Nat :=
    let c := c.toLower
    let d? := if isDigit c then some (c.toNat - 48) else if 'a' ≤ c ∧ c ≤ 'z' then some (c.toNat - 87) else none
    d?.filter (· < base)
  match digits.mapM value with
  | none | some [] => none
  | some ds =>
    let n := Int64.ofNat (ds.foldl (fun n d => n * base + d) 0)
    some (if negative then -n else n)

end Number

end Fixtures.Script
