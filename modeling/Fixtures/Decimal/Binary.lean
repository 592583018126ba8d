/-!
# Doubles as exact binary numbers

A finite double is ±`m` · 2^`q`. Everything that must be exact about doubles
(whole parts, floors, comparison with integers, remainders, decimal text) is
computed here on `m` and `q` in `Nat` and `Int`.
-/

namespace Fixtures.Decimal

/-- What a double stands for. -/
inductive Binary where
  | nan
  | infinite (negative : Bool)
  | finite (negative : Bool) (m : Nat) (q : Int)
  deriving DecidableEq, Inhabited

namespace Binary

/-- Read sign, exponent and fraction from the 64 bits. -/
def ofBits (bits : UInt64) : Binary :=
  let n := bits.toNat
  let negative := n / Nat.pow 2 63 = 1
  let exponent : Nat := n / Nat.pow 2 52 % Nat.pow 2 11
  let fraction := n % Nat.pow 2 52
  if exponent = 2047 then
    if fraction = 0 then .infinite negative else .nan
  else if exponent = 0 then .finite negative fraction (-1074)
  else .finite negative (Nat.pow 2 52 + fraction) ((exponent : Int) - 1075)

def ofFloat (x : Float) : Binary := ofBits x.toBits

/-- The gap to the double below is half the gap to the double above. -/
def narrowBelow (m : Nat) (q : Int) : Bool := m = Nat.pow 2 52 ∧ -1074 < q

end Binary

/-- ±`m` · 2^`q` rounded toward negative infinity. -/
def floorScaled (negative : Bool) (m : Nat) (q : Int) : Int :=
  let n : Int := if negative then -m else m
  if 0 ≤ q then n * Int.pow 2 q.toNat else n.fdiv (Int.pow 2 (-q).toNat)

/-- ±`m` · 2^`q` is an integer. -/
def isWhole (m : Nat) (q : Int) : Bool := 0 ≤ q || m % Nat.pow 2 (-q).toNat = 0

/-- The integer a whole finite double is. -/
def whole? (x : Float) : Option Int :=
  match Binary.ofFloat x with
  | .finite negative m q => if isWhole m q then some (floorScaled negative m q) else none
  | _ => none

/-- The greatest integer not above a finite double. -/
def floor? (x : Float) : Option Int :=
  match Binary.ofFloat x with
  | .finite negative m q => some (floorScaled negative m q)
  | _ => none

/-- The least integer not below a finite double. -/
def ceil? (x : Float) : Option Int :=
  match Binary.ofFloat x with
  | .finite negative m q => some (-floorScaled (!negative) m q)
  | _ => none

/-- `n` moved to the nearest end of the signed 64-bit range if it lies outside. -/
def clamp (n : Int) : Int64 :=
  if n < Int64.minValue.toInt then Int64.minValue
  else if Int64.maxValue.toInt < n then Int64.maxValue
  else Int64.ofInt n

/-- `n` as a 64-bit word, if it is in range. -/
def word? (n : Int) : Option Int64 :=
  if Int64.minValue.toInt ≤ n ∧ n ≤ Int64.maxValue.toInt then some (Int64.ofInt n) else none

theorem word?_toInt (n : Int64) : word? n.toInt = some n := by
  rw [word?, if_pos ⟨Int64.minValue_le_toInt n, Int64.toInt_le n⟩, Int64.ofInt_toInt]

/-- The order of an integer and a double, exactly; none for a NaN. -/
def compareInt? (n : Int) (x : Float) : Option Ordering :=
  match Binary.ofFloat x with
  | .nan => none
  | .infinite negative => some (if negative then .gt else .lt)
  | .finite negative m q =>
    let v : Int := if negative then -m else m
    some (if 0 ≤ q then compare n (v * Int.pow 2 q.toNat) else compare (n * Int.pow 2 (-q).toNat) v)

/-- The double nearest to `m` · 2^`q`, or an infinity where that is out of range. -/
def scaled (m : Nat) (q : Int) : Float :=
  if 0 ≤ q then
    if q < 1100 then Float.ofScientific (m * Nat.pow 2 q.toNat) false 0
    else if m = 0 then 0 else 1.0 / 0.0
  -- Far below the range the last bits do not matter; elsewhere 2⁻ⁿ is 5ⁿ · 10⁻ⁿ.
  else if q < -5000 then Float.ofScientific (m / Nat.pow 2 ((-q).toNat - 5000) * Nat.pow 5 5000) true 5000
  else Float.ofScientific (m * Nat.pow 5 (-q).toNat) true (-q).toNat

/-- The remainder of dividing doubles toward zero, which has the sign of `x`; it is exact. -/
def remainder (x y : Float) : Float :=
  match Binary.ofFloat x, Binary.ofFloat y with
  | .finite negative m q, .finite _ m' q' =>
    if m' = 0 then 0.0 / 0.0
    else
      let low := min q q'
      let r := (m * Nat.pow 2 (q - low).toNat) % (m' * Nat.pow 2 (q' - low).toNat)
      let v := scaled r low
      if negative then -v else v
  | .finite _ _ _, .infinite _ => x
  | _, _ => 0.0 / 0.0

end Fixtures.Decimal
