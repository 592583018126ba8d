import Fixtures.Store.Basic
/-!
# Access to the entities of a type

Create, find, update and delete entities of one type. Every operation is a unit
of work of its own, which joins the open transaction if there is one. What an
operation can refuse without looking into the store it refuses before.
-/

namespace Fixtures.Store

/-- The type of a name, whose entities the store keeps. -/
def access (s : Store) (typeName : String) : Except Failure EntityType :=
  match s.types.get? typeName with
  | some t => .ok t
  | none => .error (.noAccess typeName)

/-- The entity names its type as `t`. -/
def checkType (t : EntityType) (e : Entity) : Except Failure Unit :=
  if e.typeName = t.name then .ok () else .error (.foreignEntity t.name e.typeName)

/-- The value of the entity's identifier attribute, unless it is nil. -/
def idValue? (t : EntityType) (e : Entity) : Option Value := (e.get? t.idName).filter fun v => !v.isNil

/-- The identifier the entity carries. -/
def idOf (t : EntityType) (e : Entity) : Except Failure EntityId :=
  match idValue? t e with
  | some v => EntityId.ofValue v
  | none => .error (.noIdentifier t.name t.idName)

/-- The identifier a new entity gets, and the entity with it: the one it carries, or the next. -/
def assignId (t : EntityType) (e : Entity) (s : Store) : Except Failure (EntityId × Entity) × Store :=
  match idValue? t e with
  | some v =>
    match EntityId.ofValue v with
    -- The identifier counts as handed out even if the entity is refused later.
    | .ok id => (.ok (id, e), s.observeId t.name id)
    | .error f => (.error f, s)
  | none =>
    let (n, s) := s.nextId t.name
    match e.set t.idName (.integer n) with
    | .ok e => (.ok (.int n, e), s)
    | .error f => (.error f, s)

/-- Put a new entity under the identifier it gets, which must be free. -/
def putNew (t : EntityType) (e : Entity) (s : Store) : Except Failure Entity × Store :=
  match assignId t e s with
  | (.error f, s) => (.error f, s)
  | (.ok (id, e), s) =>
    if (s.lookup t.name id).isSome then (.error (.alreadyExists t.name id), s)
    else (.ok e, s.buffer fun p => p.put id e)

/-- Store a new entity and return it as stored. -/
def create (t : EntityType) (e : Entity) (s : Store) : Except Failure Entity × Store :=
  match checkType t e with
  | .error f => (.error f, s)
  | .ok () => exec (putNew t e) s

/-- Read from the store, which stays as it is. -/
def reading {α : Type} (f : Store → α) (s : Store) : Except Failure α × Store := (.ok (f s), s)

/-- The entity with an identifier, or none. -/
def findById (t : EntityType) (v : Value) (s : Store) : Except Failure (Option Entity) × Store :=
  match EntityId.ofValue v with
  | .error f => (.error f, s)
  | .ok id => exec (reading fun s => s.lookup t.name id) s

/-- All entities, by identifier. -/
def findAll (t : EntityType) (s : Store) : Except Failure (List Entity) × Store :=
  exec (reading fun s => (s.view t.name).values) s

/-- The entity that is there under an identifier, which must exist. -/
def existing (t : EntityType) (id : EntityId) (s : Store) : Except Failure Entity :=
  match s.lookup t.name id with
  | some e => .ok e
  | none => .error (.noEntity t.name id)

/-- What an entity must satisfy before it is changed: its type, and an identifier it carries. -/
def identify (t : EntityType) (e : Entity) : Except Failure EntityId :=
  match checkType t e with
  | .ok () => idOf t e
  | .error f => .error f

/-- Put an entity in the place of the one under its identifier. -/
def putBack (t : EntityType) (id : EntityId) (e : Entity) (s : Store) : Except Failure Entity × Store :=
  match s.existing t id with
  | .error f => (.error f, s)
  | .ok _ => (.ok e, s.buffer fun p => p.put id e)

/-- Replace a stored entity and return it as stored. -/
def update (t : EntityType) (e : Entity) (s : Store) : Except Failure Entity × Store :=
  match identify t e with
  | .error f => (.error f, s)
  | .ok id => exec (putBack t id e) s

/-- Take the entity under an identifier out. -/
def takeOut (t : EntityType) (id : EntityId) (s : Store) : Except Failure Entity × Store :=
  match s.existing t id with
  | .error f => (.error f, s)
  | .ok old => (.ok old, s.buffer fun p => p.delete t.name id)

/-- Remove a stored entity and return it. -/
def delete (t : EntityType) (e : Entity) (s : Store) : Except Failure Entity × Store :=
  match identify t e with
  | .error f => (.error f, s)
  | .ok id => exec (takeOut t id) s

/-- Store entities one after the other, up to the first that cannot be stored. -/
def createAll (t : EntityType) : List Entity → Store → Except Failure (List Entity) × Store
  | [], s => (.ok [], s)
  | e :: rest, s =>
    match create t e s with
    | (.error f, s) => (.error f, s)
    | (.ok e, s) =>
      match createAll t rest s with
      | (.error f, s) => (.error f, s)
      | (.ok es, s) => (.ok (e :: es), s)

/-- The entities with any of the identifiers, in the order of these; unknown ones are left out. -/
def findByIds (t : EntityType) : List Value → Store → Except Failure (List Entity) × Store
  | [], s => (.ok [], s)
  | v :: rest, s =>
    match findById t v s with
    | (.error f, s) => (.error f, s)
    | (.ok found, s) =>
      match findByIds t rest s with
      | (.error f, s) => (.error f, s)
      | (.ok es, s) => (.ok (found.toList ++ es), s)

end Fixtures.Store
