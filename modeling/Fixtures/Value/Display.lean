import Fixtures.Decimal.Notation
import Fixtures.Text.Quoted
import Fixtures.Value.Basic
/-!
# Values as text

How values read in messages: `[1, "x", nil]`, `{name: 1}` for a map and
`User{id=1}` for an entity. Strings are quoted, names are not.
-/

namespace Fixtures

/-- Numbers are written in full, without an exponent, and whole ones without a point. -/
def Value.numbers : Decimal.Notation where
  digits := .inl .up
  positional _ := true
  wholeSuffix := ""
  exponentWidth := 1
  nan := "NaN"
  infinity := "inf"

/-- `parts` between two brackets, separated by commas. -/
def bracketed (opening : String) (parts : List String) (closing : String) : String :=
  opening ++ ", ".intercalate parts ++ closing

mutual

/-- A value as text. -/
def Value.display : Value → String
  | .nil => "nil"
  | .bool b => if b then "true" else "false"
  | .integer n => toString n.toInt
  | .number x => Value.numbers.render x
  | .string s => Text.quote s
  | .list items => bracketed "[" (displayItems items) "]"
  | .map fields => bracketed "\x7b" (displayFields ": " fields) "\x7d"
  | .entity e => e.display

/-- An entity as text: its type, then its attributes by name. -/
def Entity.display : Entity → String
  | ⟨typeName, attributes⟩ => typeName ++ bracketed "\x7b" (displayFields "=" attributes) "\x7d"

def displayItems : List Value → List String
  | [] => []
  | v :: rest => v.display :: displayItems rest

/-- Each name, the separator and its value. -/
def displayFields (separator : String) : List (String × Value) → List String
  | [] => []
  | (name, v) :: rest => (name ++ separator ++ v.display) :: displayFields separator rest

end

end Fixtures
