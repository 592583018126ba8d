import Fixtures.EntityType
/-!
# Buffered writes

The writes of an open transaction, kept twice: as the log of operations, which
a commit replays, and as the latest write to each entity, which reads see.
-/

namespace Fixtures

/-- The entities of one type by identifier. -/
abbrev Table := Dict EntityId Entity

/-- The tables of all types by type name. -/
abbrev Tables := Dict String Table

inductive Write where
  | put (typeName : String) (id : EntityId) (entity : Entity)
  | delete (typeName : String) (id : EntityId)

namespace Tables

/-- The entity of a type with an identifier. -/
def get (t : Tables) (typeName : String) (id : EntityId) : Option Entity :=
  (Dict.get? t typeName).bind fun table => table.get? id

/-- The table of a type, empty if there is none. -/
def table (t : Tables) (typeName : String) : Table := (Dict.get? t typeName).getD []

/-- Carry out one write. -/
def apply (t : Tables) : Write → Tables
  | .put typeName id entity => Dict.insert t typeName ((t.table typeName).insert id entity)
  | .delete typeName id =>
    match Dict.get? t typeName with
    | some table => Dict.insert t typeName (table.erase id)
    | none => t

/-- Carry out writes in order. -/
def replay (t : Tables) (log : List Write) : Tables := log.foldl apply t

end Tables

/-- The writes of an open transaction. -/
structure Pending where
  /-- The operations, oldest first. -/
  log : List Write := []
  /-- The latest write to each touched entity: what was put, or none for a deletion. -/
  latest : Dict String (Dict EntityId (Option Entity)) := []

namespace Pending

/-- Remember the latest write to an entity. -/
def note (p : Pending) (typeName : String) (id : EntityId) (entity : Option Entity) :
    Dict String (Dict EntityId (Option Entity)) :=
  p.latest.insert typeName (((p.latest.get? typeName).getD []).insert id entity)

/-- Buffer an entity under its own type's name. -/
def put (p : Pending) (id : EntityId) (e : Entity) : Pending where
  log := p.log ++ [.put e.typeName id e]
  latest := p.note e.typeName id (some e)

/-- Buffer a deletion. -/
def delete (p : Pending) (typeName : String) (id : EntityId) : Pending where
  log := p.log ++ [.delete typeName id]
  latest := p.note typeName id none

/-- The touched entities of a type by identifier. -/
def touched (p : Pending) (typeName : String) : Dict EntityId (Option Entity) :=
  (p.latest.get? typeName).getD []

/-- The latest write to an entity: none if it was not touched, `some none` if it was deleted. -/
def lookup (p : Pending) (typeName : String) (id : EntityId) : Option (Option Entity) :=
  (p.touched typeName).get? id

/-- Forget all buffered operations. -/
def clear (_ : Pending) : Pending := {}

/-- The number of buffered operations. -/
def size (p : Pending) : Nat := p.log.length

end Pending

end Fixtures
