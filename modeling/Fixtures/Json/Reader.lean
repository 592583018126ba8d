import Fixtures.Json.Basic
/-!
# Reading JSON

A recursive reader over a list of characters. A number without point and
exponent that fits in 64 bits is whole; any other is the double got by scaling
its first digits, as many as fit in 64 bits, by a power of ten.
-/

namespace Fixtures.Json

/-- The first characters still to be read, blanks dropped. -/
def skipBlanks (cs : List Char) : List Char :=
  cs.dropWhile fun c => c = ' ' || c = '\n' || c = '\t' || c = '\r'

def isDigit (c : Char) : Bool := '0' ≤ c && c ≤ '9'

def digitValue (c : Char) : Nat := c.toNat - 48

/-- Digits appended to `significand` as long as the result fits in 64 bits, and how many were left out. -/
def pack (significand : Nat) : List Nat → Nat × Nat
  | [] => (significand, 0)
  | d :: rest =>
    let next := significand * 10 + d
    if next < Nat.pow 2 64 then pack next rest else (significand, rest.length + 1)

/-- `significand` · 10^`exponent`, scaled in steps of at most 10^308. -/
def scale (x : Float) (exponent : Int) : Nat → Float
  | 0 => x
  | steps + 1 =>
    if exponent.natAbs ≤ 308 then
      let power := Float.ofScientific 1 false exponent.natAbs
      if 0 ≤ exponent then x * power else x / power
    else if x == 0 then x
    else if 0 ≤ exponent then 1.0 / 0.0
    else scale (x / Float.ofScientific 1 false 308) (exponent + 308) steps

/-- The number written with these digits before and after the point and this exponent. -/
def number (negative : Bool) (whole fraction : List Nat) (exponent? : Option Int) (pointed : Bool) : Json :=
  let (significand, excess) := pack 0 whole
  -- A minus before zero needs a double, which has a negative zero.
  if excess = 0 ∧ exponent? = none ∧ pointed = false ∧
      (negative = false ∨ (significand ≠ 0 ∧ significand ≤ Nat.pow 2 63)) then
    .int (if negative then -significand else significand)
  else
    let (significand, dropped) := pack significand fraction
    let exponent : Int := excess - (fraction.length - dropped : Nat) + exponent?.getD 0
    let x := scale (Float.ofNat significand) exponent 8
    .float (if negative then -x else x)

/-- Read a number and what follows it. -/
def readNumber (cs : List Char) : Option (Json × List Char) :=
  let (negative, cs) := match cs with
    | '-' :: rest => (true, rest)
    | _ => (false, cs)
  let whole := cs.takeWhile isDigit
  let cs := cs.dropWhile isDigit
  if whole = [] ∨ (whole.head? = some '0' ∧ 1 < whole.length) then none
  else
    let (fraction?, cs) := match cs with
      | '.' :: rest => (some (rest.takeWhile isDigit), rest.dropWhile isDigit)
      | _ => (none, cs)
    if fraction? = some [] then none
    else
      let values (l : List Char) := l.map digitValue
      let finish (exponent? : Option Int) (rest : List Char) :=
        some (number negative (values whole) (values (fraction?.getD [])) exponent? fraction?.isSome, rest)
      match cs with
      | c :: rest =>
        if c = 'e' ∨ c = 'E' then
          let (below, rest) := match rest with
            | '-' :: rest => (true, rest)
            | '+' :: rest => (false, rest)
            | _ => (false, rest)
          let digits := rest.takeWhile isDigit
          if digits = [] then none
          else
            let e : Nat := (values digits).foldl (fun n d => min (n * 10 + d) 100000) 0
            finish (some (if below then -e else e)) (rest.dropWhile isDigit)
        else finish none cs
      | [] => finish none cs

/-- Four hexadecimal digits as a number. -/
def hex4? (a b c d : Char) : Option Nat := do
  let value (c : Char) : Option Nat :=
    if isDigit c then some (digitValue c)
    else if 'a' ≤ c ∧ c ≤ 'f' then some (c.toNat - 87)
    else if 'A' ≤ c ∧ c ≤ 'F' then some (c.toNat - 55)
    else none
  return (((← value a) * 16 + (← value b)) * 16 + (← value c)) * 16 + (← value d)

/-- The second half of a pair of escapes that together spell one character. -/
def lowHalf? : List Char → Option Nat
  | '\\' :: 'u' :: a :: b :: c :: d :: _ => (hex4? a b c d).filter fun n => 0xDC00 ≤ n && n < 0xE000
  | _ => none

/-- The rest of a string after its opening quote, and what follows the closing one. -/
def readString (acc : List Char) : List Char → Option (String × List Char)
  | [] => none
  | '"' :: rest => some (String.ofList acc.reverse, rest)
  | '\\' :: 'u' :: a :: b :: c :: d :: rest =>
    match hex4? a b c d with
    | none => none
    | some n =>
      match if 0xD800 ≤ n ∧ n < 0xDC00 then lowHalf? rest else none with
      | some low => readString (Char.ofNat (0x10000 + (n - 0xD800) * 0x400 + (low - 0xDC00)) :: acc) (rest.drop 6)
      | none => readString (Char.ofNat n :: acc) rest
  | '\\' :: c :: rest =>
    match c with
    | '"' | '\\' | '/' => readString (c :: acc) rest
    | 'n' => readString ('\n' :: acc) rest
    | 't' => readString ('\t' :: acc) rest
    | 'r' => readString ('\r' :: acc) rest
    | 'b' => readString ('\x08' :: acc) rest
    | 'f' => readString ('\x0c' :: acc) rest
    | _ => none
  | c :: rest => readString (c :: acc) rest
termination_by cs => cs.length
decreasing_by all_goals simp_wf <;> omega

/-- `word` and what follows it. -/
def expect (word : String) (j : Json) (cs : List Char) : Option (Json × List Char) :=
  if word.toList.isPrefixOf cs then some (j, cs.drop word.length) else none

mutual

/-- Read one value and what follows it; `fuel` bounds the nesting and the elements. -/
def readValue (fuel : Nat) (cs : List Char) : Option (Json × List Char) :=
  match fuel with
  | 0 => none
  | fuel + 1 =>
    match skipBlanks cs with
    | 'n' :: rest => expect "null" .null ('n' :: rest)
    | 't' :: rest => expect "true" (.bool true) ('t' :: rest)
    | 'f' :: rest => expect "false" (.bool false) ('f' :: rest)
    | '"' :: rest => (readString [] rest).map fun (s, rest) => (.string s, rest)
    | '[' :: rest =>
      match skipBlanks rest with
      | ']' :: rest => some (.array [], rest)
      | rest => (readItems fuel rest).map fun (items, rest) => (.array items, rest)
    | '\x7b' :: rest =>
      match skipBlanks rest with
      | '\x7d' :: rest => some (.object [], rest)
      | rest => (readFields fuel rest).map fun (fields, rest) => (.object fields, rest)
    | cs => readNumber cs

/-- Read elements up to the closing bracket. -/
def readItems (fuel : Nat) (cs : List Char) : Option (List Json × List Char) :=
  match fuel with
  | 0 => none
  | fuel + 1 => do
    let (j, rest) ← readValue fuel cs
    match skipBlanks rest with
    | ',' :: rest =>
      let (items, rest) ← readItems fuel rest
      return (j :: items, rest)
    | ']' :: rest => return ([j], rest)
    | _ => none

/-- Read fields up to the closing brace. -/
def readFields (fuel : Nat) (cs : List Char) : Option (List (String × Json) × List Char) :=
  match fuel with
  | 0 => none
  | fuel + 1 =>
    match skipBlanks cs with
    | '"' :: rest => do
      let (name, rest) ← readString [] rest
      match skipBlanks rest with
      | ':' :: rest =>
        let (j, rest) ← readValue fuel rest
        match skipBlanks rest with
        | ',' :: rest =>
          let (fields, rest) ← readFields fuel rest
          return ((name, j) :: fields, rest)
        | '\x7d' :: rest => return ([(name, j)], rest)
        | _ => none
      | _ => none
    | _ => none

end

/-- The tree a text writes, if it writes exactly one. -/
def parse (text : String) : Option Json :=
  let cs := text.toList
  match readValue (cs.length + 1) cs with
  | some (j, rest) => if skipBlanks rest = [] then some j else none
  | none => none

end Fixtures.Json
