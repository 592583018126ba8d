import Fixtures.Decimal.Binary
/-!
# The fewest digits that read back

A decimal reads back to the double `m` · 2^`q` if it lies in the interval of
reals that round to it. `shortest` tries one digit, two digits and so on: on
each grid it tests the two neighbours of the value, and the first grid with a
hit wins. Of two hits the nearer is taken; `tie` says which way an exact tie goes.
-/

namespace Fixtures.Decimal

/-- Where a value half way between two decimals goes. -/
inductive Tie where
  | up
  | even
  deriving DecidableEq

/-- The digits of a positive decimal: 0.`d₁d₂…` · 10^`scale`. -/
structure Digits where
  digits : List Nat
  scale : Int
  deriving DecidableEq, Inhabited

/-- The decimal digits of `n`, most significant first; none for zero. -/
def digitsOf (n : Nat) : List Nat := if n = 0 then [] else (Nat.toDigits 10 n).map fun c => c.toNat - 48

/-- Without the zeros at the end. -/
def dropTrailingZeros (l : List Nat) : List Nat := (l.reverse.dropWhile (· = 0)).reverse

/-- `a` · 2^`p` · 10^`r` compared with `b` · 2^`p'` · 10^`r'`. -/
def compareScaled (a : Nat) (p r : Int) (b : Nat) (p' r' : Int) : Ordering :=
  let two := min p p'
  let ten := min r r'
  compare (a * Nat.pow 2 (p - two).toNat * Nat.pow 10 (r - ten).toNat)
    (b * Nat.pow 2 (p' - two).toNat * Nat.pow 10 (r' - ten).toNat)

/-- `c` · 10^`g` rounds to the double `m` · 2^`q`: it lies between the halfway points to the
neighbouring doubles, which themselves round to `m` when `m` is even. -/
def readsBack (m : Nat) (q : Int) (c : Nat) (g : Int) : Bool :=
  let inside (o : Ordering) := o = .lt || (o = .eq && m % 2 = 0)
  let low := if Binary.narrowBelow m q then compareScaled (4 * m - 1) (q - 2) 0 c 0 g
    else compareScaled (2 * m - 1) (q - 1) 0 c 0 g
  inside low && inside (compareScaled c 0 g (2 * m + 1) (q - 1) 0)

/-- ⌊`m` · 2^`q` / 10^`g`⌋. -/
def gridFloor (m : Nat) (q g : Int) : Nat :=
  (m * Nat.pow 2 q.toNat * Nat.pow 10 (-g).toNat) / (Nat.pow 2 (-q).toNat * Nat.pow 10 g.toNat)

/-- The least `k` with `m` · 2^`q` < 10^`k`, for positive `m`. -/
def magnitude (m : Nat) (q : Int) : Int :=
  let guess : Int := ((m.log2 : Int) + q) * 30103 / 100000 - 1
  let climb (k : Int) : Int := if compareScaled m q 0 1 0 k = .lt then k else k + 1
  climb (climb (climb (climb guess)))

/-- The neighbours of the value on the grid 10^`g` that read back, nearer first. -/
def onGrid (tie : Tie) (m : Nat) (q g : Int) : Option Nat :=
  let c := gridFloor m q g
  match readsBack m q c g, readsBack m q (c + 1) g with
  | true, true =>
    match compareScaled m (q + 1) 0 (2 * c + 1) 0 g with
    | .lt => some c
    | .gt => some (c + 1)
    | .eq => some (if tie = .even ∧ c % 2 = 0 then c else c + 1)
  | true, false => if c = 0 then none else some c
  | false, true => some (c + 1)
  | false, false => none

/-- Try grids of `n` to 17 digits; past them every digit of the exact value is kept. -/
def searchGrids (tie : Tie) (m : Nat) (q k : Int) (n : Nat) : Nat → Digits
  | 0 =>
    let g := min q 0
    let d := digitsOf (gridFloor m q g)
    ⟨dropTrailingZeros d, d.length + g⟩
  | tries + 1 =>
    match onGrid tie m q (k - n) with
    | some c =>
      let d := digitsOf c
      ⟨dropTrailingZeros d, d.length + (k - n)⟩
    | none => searchGrids tie m q k (n + 1) tries

/-- The shortest digits that read back to `m` · 2^`q`; no digits for zero. -/
def shortest (tie : Tie) (m : Nat) (q : Int) : Digits :=
  if m = 0 then ⟨[], 0⟩ else searchGrids tie m q (magnitude m q) 1 17

/-- The value rounded to `n` significant digits, ties to even; no digits for zero. -/
def significant (n : Nat) (m : Nat) (q : Int) : Digits :=
  if m = 0 then ⟨[], 0⟩
  else
    let g := magnitude m q - n
    let c := gridFloor m q g
    let c := match compareScaled m (q + 1) 0 (2 * c + 1) 0 g with
      | .lt => c
      | .gt => c + 1
      | .eq => if c % 2 = 0 then c else c + 1
    let d := digitsOf c
    ⟨dropTrailingZeros d, d.length + g⟩

end Fixtures.Decimal
