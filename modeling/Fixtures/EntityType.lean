import Fixtures.Failure
/-!
# Entity types

A type has a name, an identifier attribute, a list of attributes and default
values for some of them. It is built up step by step. An instance has every
attribute, holding its default or nil.
-/

namespace Fixtures

structure EntityType where
  name : String
  idName : String
  attributes : List String
  defaults : Variables
  instantiable : Bool

namespace EntityType

/-- A type with an identifier `id` and no other attribute. -/
def new (name : String) : EntityType := ⟨name, "id", ["id"], [], true⟩

/-- The type declares an attribute. -/
def declares (t : EntityType) (name : String) : Bool := t.attributes.contains name

/-- Declare an attribute, unless it is declared. -/
def withAttribute (t : EntityType) (name : String) : EntityType :=
  if t.declares name then t else { t with attributes := t.attributes ++ [name] }

/-- Declare several attributes in order. -/
def withAttributes (t : EntityType) (names : List String) : EntityType := names.foldl withAttribute t

/-- Rename the identifier: the old name is no longer declared, the new one comes first. -/
def withId (t : EntityType) (name : String) : EntityType :=
  { t with idName := name, attributes := name :: t.attributes.filter fun a => a ≠ t.idName }

/-- Declare an attribute with a default value. -/
def withDefault (t : EntityType) (name : String) (v : Value) : EntityType :=
  let t := t.withAttribute name
  { t with defaults := t.defaults.insert name v }

/-- Rule out instances. -/
def asAbstract (t : EntityType) : EntityType := { t with instantiable := false }

/-- A fresh instance: every attribute with its default, or nil. -/
def instantiate (t : EntityType) : Except Failure Entity :=
  if t.instantiable then
    .ok ⟨t.name, Dict.ofPairs (t.attributes.map fun a => (a, (t.defaults.get? a).getD .nil))⟩
  else .error (.cannotInstantiate t.name "type is abstract and has no default constructor")

end EntityType

/-- Assign a declared attribute. -/
def Entity.set (e : Entity) (name : String) (v : Value) : Except Failure Entity :=
  match e.set? name v with
  | some e => .ok e
  | none => .error (.undeclaredAttribute e.typeName name)

/-- Assign attributes one after the other, up to the first that is not declared. -/
def Entity.setAll (e : Entity) (assignments : List (String × Value)) : Except Failure Entity :=
  assignments.foldlM (fun e (name, v) => e.set name v) e

/-- The known entity types by name. -/
abbrev Catalog := Dict String EntityType

namespace Catalog

/-- Add a type, replacing one of the same name. -/
def register (c : Catalog) (t : EntityType) : Catalog := c.insert t.name t

/-- The types in a list; of two of one name the later stays. -/
def ofTypes (types : List EntityType) : Catalog := types.foldl register []

/-- The type of a name, which must be known. -/
def require (c : Catalog) (name : String) : Except Failure EntityType :=
  match c.get? name with
  | some t => .ok t
  | none => .error (.unknownType name)

end Catalog

end Fixtures
