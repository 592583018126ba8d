import Fixtures.Decimal.Binary
import Fixtures.Dict
/-!
# Values

What scripts read as inputs and leave behind as outputs: plain data, and
instances of entity types. Maps and attributes list their names in ascending
order. Floats compare bit by bit under `=` and as numbers under `same`.
-/

namespace Fixtures

mutual

/-- A value bound to a script variable or an attribute. -/
inductive Value where
  | nil
  | bool (b : Bool)
  | integer (n : Int64)
  | number (x : Float)
  | string (s : String)
  | list (items : List Value)
  | map (fields : List (String × Value))
  | entity (e : Entity)

/-- An instance of an entity type: the type's name and a value for each of its attributes. -/
structure Entity where
  typeName : String
  attributes : List (String × Value)

end

instance : Inhabited Value := ⟨.nil⟩

instance : Inhabited Entity := ⟨⟨"", []⟩⟩

/-- Named values, ascending by name. -/
abbrev Variables := Dict String Value

namespace Value

/-- The word for a value's kind. -/
def kind : Value → String
  | nil => "nil"
  | bool _ => "boolean"
  | integer _ => "integer"
  | number _ => "number"
  | string _ => "string"
  | list _ => "list"
  | map _ => "map"
  | entity _ => "entity"

def isNil : Value → Bool
  | nil => true
  | _ => false

def asString? : Value → Option String
  | string s => some s
  | _ => none

def asBool? : Value → Option Bool
  | bool b => some b
  | _ => none

/-- A number that is whole, as a 64-bit integer; beyond the range the nearest end of it. -/
def asInteger? : Value → Option Int64
  | integer n => some n
  | number x => (Decimal.whole? x).map Decimal.clamp
  | _ => none

/-- A number as a double. -/
def asNumber? : Value → Option Float
  | integer n => some n.toFloat
  | number x => some x
  | _ => none

def asList? : Value → Option (List Value)
  | list items => some items
  | _ => none

def asMap? : Value → Option Variables
  | map fields => some fields
  | _ => none

def asEntity? : Value → Option Entity
  | entity e => some e
  | _ => none

mutual

/-- Equality that compares floats as numbers: a NaN equals nothing, and the two zeros are equal. -/
def same : Value → Value → Bool
  | nil, nil => true
  | bool a, bool b => a == b
  | integer a, integer b => a == b
  | number a, number b => a == b
  | string a, string b => a == b
  | list a, list b => sameItems a b
  | map a, map b => sameFields a b
  | entity ⟨t, a⟩, entity ⟨u, b⟩ => t == u && sameFields a b
  | _, _ => false

def sameItems : List Value → List Value → Bool
  | [], [] => true
  | a :: as, b :: bs => same a b && sameItems as bs
  | _, _ => false

def sameFields : List (String × Value) → List (String × Value) → Bool
  | [], [] => true
  | (k, a) :: as, (l, b) :: bs => k == l && same a b && sameFields as bs
  | _, _ => false

end

end Value

namespace Entity

/-- The value of an attribute, if the entity has it. -/
def get? (e : Entity) (name : String) : Option Value := Dict.get? e.attributes name

/-- The entity with one attribute changed; none if it has no such attribute. -/
def set? (e : Entity) (name : String) (v : Value) : Option Entity :=
  if Dict.has e.attributes name then some { e with attributes := Dict.insert e.attributes name v } else none

end Entity

end Fixtures
