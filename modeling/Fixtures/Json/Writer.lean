import Fixtures.Decimal.Notation
import Fixtures.Json.Basic
import Fixtures.Text.Quoted
/-!
# Writing JSON

The compact text of a JSON tree. Fractional numbers are written with the
fewest digits that read back, and a value that is no number as `null`.
-/

namespace Fixtures.Json

/-- Numbers from 10⁻⁵ up to below 10¹⁶ are written without an exponent and never without a point. -/
def numbers : Decimal.Notation where
  digits := .inl .even
  positional scale := -5 < scale && scale ≤ 16
  wholeSuffix := ".0"
  exponentWidth := 1
  nan := "null"
  infinity := "null"

/-- The text of a fractional number. -/
def numberText (x : Float) : String := if x.isFinite then numbers.render x else numbers.nan

/-- The written form of one character of a string. -/
def escapeChar (c : Char) : List Char :=
  match c with
  | '"' => ['\\', '"']
  | '\\' => ['\\', '\\']
  | '\n' => ['\\', 'n']
  | '\r' => ['\\', 'r']
  | '\t' => ['\\', 't']
  | '\x08' => ['\\', 'b']
  | '\x0c' => ['\\', 'f']
  | c =>
    if c.toNat < 32 then
      let digits := Text.hex c.toNat
      ['\\', 'u'] ++ List.replicate (4 - digits.length) '0' ++ digits
    else [c]

/-- A string with its quotes. -/
def stringText (s : String) : String := String.ofList ('"' :: s.toList.flatMap escapeChar ++ ['"'])

/-- The texts of the elements, separated by commas. -/
def commaJoined (texts : List String) : String := ",".intercalate texts

mutual

/-- The compact text of a tree. -/
def render : Json → String
  | .null => "null"
  | .bool b => if b then "true" else "false"
  | .int n => toString n
  | .float x => numberText x
  | .string s => stringText s
  | .array items => "[" ++ commaJoined (renderItems items) ++ "]"
  | .object fields => "\x7b" ++ commaJoined (renderFields fields) ++ "\x7d"

def renderItems : List Json → List String
  | [] => []
  | j :: rest => j.render :: renderItems rest

def renderFields : List (String × Json) → List String
  | [] => []
  | (name, j) :: rest => (stringText name ++ ":" ++ j.render) :: renderFields rest

end

end Fixtures.Json
