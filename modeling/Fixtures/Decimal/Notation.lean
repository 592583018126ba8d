import Fixtures.Decimal.Shortest
/-!
# Laying out decimal digits

`Notation` collects the decisions of one way to write numbers; `render` writes
a double by them. Which digits are written is decided before (`Shortest`).
-/

namespace Fixtures.Decimal

/-- How a double is written. -/
structure Notation where
  /-- Digits to write: the shortest that read back with this tie rule, or this many significant ones. -/
  digits : Tie ⊕ Nat
  /-- Values 0.d… · 10^`scale` with `scale` in this range are written without an exponent. -/
  positional : Int → Bool
  /-- Added to a text without a point or an exponent. -/
  wholeSuffix : String
  /-- Least number of exponent digits. -/
  exponentWidth : Nat
  nan : String
  infinity : String

/-- Digits as text. -/
def textOf (l : List Nat) : String := String.ofList (l.map fun d => Char.ofNat (48 + d))

/-- Digits written with a point at the place `scale`, zeros filled in. -/
def positionalText (d : Digits) (wholeSuffix : String) : String :=
  if d.digits = [] then "0" ++ wholeSuffix
  else if d.scale ≤ 0 then "0." ++ textOf (List.replicate (-d.scale).toNat 0 ++ d.digits)
  else
    let n := d.scale.toNat
    if d.digits.length ≤ n then textOf (d.digits ++ List.replicate (n - d.digits.length) 0) ++ wholeSuffix
    else textOf (d.digits.take n) ++ "." ++ textOf (d.digits.drop n)

/-- One digit, the others after a point, and a signed exponent. -/
def exponentText (d : Digits) (width : Nat) : String :=
  let e := d.scale - 1
  let digits := (digitsOf e.natAbs)
  let padded := List.replicate (width - digits.length) 0 ++ digits
  let mantissa := match d.digits with
    | [] => "0"
    | [a] => textOf [a]
    | a :: rest => textOf [a] ++ "." ++ textOf rest
  mantissa ++ "e" ++ (if e < 0 then "-" else "+") ++ textOf padded

/-- Write a double. -/
def Notation.render (n : Notation) (x : Float) : String :=
  match Binary.ofFloat x with
  | .nan => n.nan
  | .infinite negative => (if negative then "-" else "") ++ n.infinity
  | .finite negative m q =>
    let d := match n.digits with
      | .inl tie => shortest tie m q
      | .inr count => significant count m q
    (if negative then "-" else "") ++
      if d.digits = [] ∨ n.positional d.scale then positionalText d n.wholeSuffix else exponentText d n.exponentWidth

end Fixtures.Decimal
