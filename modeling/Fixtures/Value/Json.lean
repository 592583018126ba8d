import Fixtures.Json.Basic
import Fixtures.Value.Basic
/-!
# Values as JSON

`toJson` writes a value without saying its kind; an entity becomes an object
of its type name and its attributes. `ofJson` reads any tree as a value.
-/

namespace Fixtures

mutual

/-- A value as a tree. A float that is no number becomes `null`. -/
def Value.toJson : Value → Json
  | .nil => .null
  | .bool b => .bool b
  | .integer n => .int n.toInt
  | .number x => if x.isFinite then .float x else .null
  | .string s => .string s
  | .list items => .array (itemsToJson items)
  | .map fields => .object (fieldsToJson fields)
  | .entity e => e.toJson

def Entity.toJson : Entity → Json
  | ⟨typeName, attributes⟩ =>
    .object [("entity_type", .string typeName), ("attributes", .object (fieldsToJson attributes))]

def itemsToJson : List Value → List Json
  | [] => []
  | v :: rest => v.toJson :: itemsToJson rest

def fieldsToJson : List (String × Value) → List (String × Json)
  | [] => []
  | (name, v) :: rest => (name, v.toJson) :: fieldsToJson rest

end

mutual

/-- A tree as a value: a whole number within 64 bits stays whole, any other becomes a double. -/
def Value.ofJson : Json → Value
  | .null => .nil
  | .bool b => .bool b
  | .int n =>
    match Decimal.word? n with
    | some w => .integer w
    | none => .number (Float.ofInt n)
  | .float x => .number x
  | .string s => .string s
  | .array items => .list (itemsOfJson items)
  | .object fields => .map (Dict.ofPairs (fieldsOfJson fields))

def itemsOfJson : List Json → List Value
  | [] => []
  | j :: rest => Value.ofJson j :: itemsOfJson rest

def fieldsOfJson : List (String × Json) → List (String × Value)
  | [] => []
  | (name, j) :: rest => (name, Value.ofJson j) :: fieldsOfJson rest

end

end Fixtures
