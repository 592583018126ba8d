import Fixtures.Script.Library.Invocation
/-!
# Functions on text

Text is a sequence of bytes; positions count from one, or from the end if they
are negative. Letters are those of ASCII.
-/

namespace Fixtures.Script.Library

variable (c : Invocation)

/-- The greatest size of text. -/
def sizeLimit : Nat := 0x80000000

/-- Bytes from position `i` to position `j`. -/
def slice (s : Text.Bytes) (i j : Int64) : Text.Bytes :=
  let size : Int := s.length
  let first := if 0 < i.toInt then i.toInt else if i.toInt = 0 then 1 else max 1 (size + i.toInt + 1)
  let last := if j.toInt < 0 then size + j.toInt + 1 else min size j.toInt
  if last < first then [] else (s.take last.toNat).drop (first.toNat - 1)

def upperByte (b : UInt8) : UInt8 := if 97 ≤ b && b ≤ 122 then b - 32 else b

def lowerByte (b : UInt8) : UInt8 := if 65 ≤ b && b ≤ 90 then b + 32 else b

def upper : Look (List Val) := do return [.string ((← c.bytes 1).map upperByte)]

def lower : Look (List Val) := do return [.string ((← c.bytes 1).map lowerByte)]

def reverse : Look (List Val) := do return [.string (← c.bytes 1).reverse]

def len : Look (List Val) := do return [.nat (← c.bytes 1).length]

def sub : Look (List Val) := do
  let s ← c.bytes 1
  let i ← c.integer 2
  return [.string (slice s i (← c.integerOr 3 (-1)))]

/-- `n` copies of `s` with `separator` between them. -/
def copies (s separator : Text.Bytes) : Nat → Text.Bytes
  | 0 => []
  | 1 => s
  | n + 2 => s ++ separator ++ copies s separator (n + 1)

def rep : Look (List Val) := do
  let s ← c.bytes 1
  let n := (← c.integer 2).toInt.toNat
  let separator ← if c.arg 3 = .nil then pure [] else c.bytes 3
  if n = 0 ∨ s.length + separator.length = 0 then return [.text ""]
  else if sizeLimit < (s.length + separator.length) * n then c.complain "resulting string too large"
  else return [.string (copies s separator n)]

def byte : Look (List Val) := do
  let s ← c.bytes 1
  let i ← c.integerOr 2 1
  return (slice s i (← c.integerOr 3 i)).map fun b => .nat b.toNat

def char : Look (List Val) := do
  let codes ← (List.range c.args.length).mapM fun i => do
    let n ← c.integer (i + 1)
    if n.toInt < 0 ∨ 255 < n.toInt then c.bad (i + 1) "value out of range" else return n.toInt.toNat.toUInt8
  return [.string codes]

end Fixtures.Script.Library
