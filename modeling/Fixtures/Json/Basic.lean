/-!
# JSON trees

A JSON document as a tree. Whole numbers and fractional numbers are kept
apart, and the fields of an object keep the order they were written in.
-/

namespace Fixtures

inductive Json where
  | null
  | bool (b : Bool)
  | int (n : Int)
  | float (x : Float)
  | string (s : String)
  | array (items : List Json)
  | object (fields : List (String × Json))
  deriving Inhabited

namespace Json

/-- The field `name` of an object; of several the last. -/
def field? : Json → String → Option Json
  | .object fields, name => (fields.reverse.find? fun f => f.1 = name).map Prod.snd
  | _, _ => none

end Json

end Fixtures
