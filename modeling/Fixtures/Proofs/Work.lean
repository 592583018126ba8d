import Fixtures.Store.Access
/-!
# Units of work

An `Operation` is what can be asked of the entities of a type. A unit of work
is a tree (`Work`): it asks operations and runs inner units of work one after
another, goes on from each answer as it likes, and ends with a result, a
failure or a panic. So every failure inside may be passed on or swallowed.
`acts` lists what a run does to the transaction around it: the writes, the
operations refused at once, and how each unit of work inside closes.
-/

namespace Fixtures

/-- What can be asked of the entities of a type, by what is answered. -/
inductive Operation : Type → Type where
  | create (e : Entity) : Operation Entity
  | find (id : Value) : Operation (Option Entity)
  | findAll : Operation (List Entity)
  | update (e : Entity) : Operation Entity
  | delete (e : Entity) : Operation Entity

/-- What is done to a transaction: a write, or the closing of a unit of work inside it. An operation that
is refused before it enters a unit of work does nothing, and is listed all the same. -/
inductive Act where
  | write (w : Write)
  | refuse
  | close (success : Bool)

namespace Act

/-- The writes among acts, in order. -/
def writes (acts : List Act) : List Write :=
  acts.filterMap fun
    | write w => some w
    | refuse | close _ => none

/-- Some unit of work closed without success. -/
def anyFailed (acts : List Act) : Bool :=
  acts.any fun
    | write _ | refuse => false
    | close success => !success

/-- Some unit of work was entered, and closed in the end. -/
def anyClosed (acts : List Act) : Bool :=
  acts.any fun
    | close _ => true
    | write _ | refuse => false

/-- Some operation was refused at once. -/
def anyRefused (acts : List Act) : Bool :=
  acts.any fun
    | refuse => true
    | write _ | close _ => false

@[simp] theorem writes_nil : writes [] = [] := rfl

@[simp] theorem writes_append (as bs : List Act) : writes (as ++ bs) = writes as ++ writes bs :=
  List.filterMap_append

@[simp] theorem writes_close (b : Bool) (as : List Act) : writes (close b :: as) = writes as := rfl

@[simp] theorem writes_map_write (ws : List Write) : writes (ws.map write) = ws := by
  induction ws with
  | nil => rfl
  | cons w ws ih => exact congrArg (w :: ·) ih

@[simp] theorem anyFailed_nil : anyFailed [] = false := rfl

@[simp] theorem anyFailed_append (as bs : List Act) : anyFailed (as ++ bs) = (anyFailed as || anyFailed bs) :=
  List.any_append

@[simp] theorem anyFailed_close (b : Bool) (as : List Act) : anyFailed (close b :: as) = (!b || anyFailed as) := rfl

@[simp] theorem anyClosed_append (as bs : List Act) : anyClosed (as ++ bs) = (anyClosed as || anyClosed bs) :=
  List.any_append

@[simp] theorem anyClosed_close (b : Bool) (as : List Act) : anyClosed (close b :: as) = true := rfl

@[simp] theorem anyFailed_map_write (ws : List Write) : anyFailed (ws.map write) = false := by
  induction ws with
  | nil => rfl
  | cons w ws ih => exact ih

end Act

namespace Operation

variable {α : Type}

/-- Carry out an operation on the entities of a type. -/
def run (t : EntityType) : {α : Type} → Operation α → Store → Except Failure α × Store
  | _, create e => Store.create t e
  | _, find id => Store.findById t id
  | _, findAll => Store.findAll t
  | _, update e => Store.update t e
  | _, delete e => Store.delete t e

/-- The unit of work an operation consists of, unless it is refused before it enters one. -/
def work (t : EntityType) : {α : Type} → Operation α → Except Failure (Store → Except Failure α × Store)
  | _, create e => (Store.checkType t e).map fun () => Store.putNew t e
  | _, find v => (EntityId.ofValue v).map fun id => Store.reading fun s => s.lookup t.name id
  | _, findAll => .ok (Store.reading fun s => (s.view t.name).values)
  | _, update e => (Store.identify t e).map fun id => Store.putBack t id e
  | _, delete e => (Store.identify t e).map fun id => Store.takeOut t id

/-- The writes an operation makes, by its answer: an entity is kept under the identifier it carries. -/
def written (t : EntityType) : {α : Type} → Operation α → Except Failure α → List Write
  | _, create _, .ok e | _, update _, .ok e => (Store.idOf t e).toOption.toList.map fun id => .put t.name id e
  | _, delete e, .ok _ => (Store.idOf t e).toOption.toList.map fun id => .delete t.name id
  | _, _, _ => []

/-- The store once the identifier is settled under which an operation writes: a new entity may draw one. -/
def assigned (t : EntityType) : {α : Type} → Operation α → Store → Store
  | _, create e, s => (Store.assignId t e s).2
  | _, find _, s | _, findAll, s | _, update _, s | _, delete _, s => s

theorem written_error (t : EntityType) (op : Operation α) (f : Failure) : op.written t (.error f) = [] := by
  cases op <;> rfl

section Written

variable {t : EntityType} {e e' : Entity} {id : EntityId}

theorem written_create (h : Store.idOf t e' = .ok id) : (create e).written t (.ok e') = [.put t.name id e'] := by
  simp [written, h, Except.toOption]

theorem written_update (h : Store.idOf t e' = .ok id) : (update e).written t (.ok e') = [.put t.name id e'] := by
  simp [written, h, Except.toOption]

theorem written_delete (h : Store.idOf t e = .ok id) : (delete e).written t (.ok e') = [.delete t.name id] := by
  simp [written, h, Except.toOption]

end Written

theorem run_eq (t : EntityType) (op : Operation α) (s : Store) :
    op.run t s = match op.work t with
      | .error f => (.error f, s)
      | .ok work => s.exec work := by
  cases op with
  | create e => cases h : Store.checkType t e <;> simp [run, work, Store.create, h, Except.map]
  | find v => cases h : EntityId.ofValue v <;> simp [run, work, Store.findById, h, Except.map]
  | findAll => rfl
  | update e => cases h : Store.identify t e <;> simp [run, work, Store.update, h, Except.map]
  | delete e => cases h : Store.identify t e <;> simp [run, work, Store.delete, h, Except.map]

end Operation

namespace Store

variable {α : Type}

/-- Carry out an operation on the entities of the type of a name. -/
def perform (s : Store) (typeName : String) (op : Operation α) : Except Failure α × Store :=
  match s.access typeName with
  | .error f => (.error f, s)
  | .ok t => op.run t s

/-- What an operation does to the transaction around it. -/
def acts (s : Store) (typeName : String) (op : Operation α) : List Act :=
  match s.access typeName with
  | .error _ => []
  | .ok t =>
    match op.work t with
    | .error _ => [.refuse]
    | .ok work =>
      let r := (work s.openScope.2).1
      (op.written t r).map .write ++ [.close (Ending.succeeded r)]

end Store

/-- A unit of work: what it asks of the store, and how it goes on from each answer. -/
inductive Work : Type → Type 1 where
  /-- End with a result, a failure or a panic. -/
  | done {α : Type} (r : Except Interruption α) : Work α
  /-- Count the entities of a type. -/
  | count {α : Type} (typeName : String) (next : Nat → Work α) : Work α
  /-- Carry out an operation. -/
  | perform {α β : Type} (typeName : String) (op : Operation β) (next : Except Failure β → Work α) : Work α
  /-- Run a unit of work inside. A panic in it may be passed on, or caught like a failure. -/
  | exec {α β : Type} (inner : Work β) (next : Except Interruption β → Work α) : Work α

namespace Work

/-- Run a unit of work, in the scope that is open. -/
def run : {α : Type} → Work α → Store → Except Interruption α × Store
  | _, done r, s => (r, s)
  | _, count typeName next, s => (next (s.count typeName)).run s
  | _, perform typeName op next, s =>
    let (r, s) := s.perform typeName op
    (next r).run s
  | _, exec inner next, s =>
    let (r, s) := s.exec inner.run
    (next r).run s

/-- What the run of a unit of work does to the transaction it is in. -/
def acts : {α : Type} → Work α → Store → List Act
  | _, done _, _ => []
  | _, count typeName next, s => (next (s.count typeName)).acts s
  | _, perform typeName op next, s =>
    let (r, s') := s.perform typeName op
    s.acts typeName op ++ (next r).acts s'
  | _, exec inner next, s =>
    let (r, s') := s.exec inner.run
    let opened := s.openScope.2
    inner.acts opened ++ [.close (Ending.succeeded (inner.run opened).1)] ++ (next r).acts s'

end Work

end Fixtures
