import Fixtures.Failure
/-!
# Transactions

A transaction is free in how it treats a unit of work: it may run it once,
several times or never, look at what each run returned, and end with a result
of its own. `runIn` runs work that returns a value inside any transaction.
-/

namespace Fixtures

/-- What a transaction does with its work from here on: end, or run it and go on from the outcome. -/
inductive Conduct (σ : Type) where
  | finish (result : Except Failure Unit) (state : σ)
  | run (state : σ) (next : Except Failure Unit → σ → Conduct σ)

/-- A transaction over the state `σ`. -/
abbrev Transaction (σ : Type) := σ → Conduct σ

/-- Carry out a conduct, where `work` keeps a private state of type `τ` from run to run. -/
def Conduct.perform {σ τ : Type} (work : τ → σ → Except Failure Unit × τ × σ) :
    Conduct σ → τ → Except Failure Unit × τ × σ
  | .finish result s, t => (result, t, s)
  | .run s next, t =>
    let (result, t, s) := work t s
    perform work (next result s) t

/-- What is known of work that may run only once. -/
inductive Slot (α : Type) where
  | waiting
  | failed
  | returned (a : α)

/-- One call of the closure handed to a transaction: the first call runs the work, later ones do nothing. -/
def Slot.call {σ α : Type} (work : σ → Except Failure α × σ) :
    Slot α → σ → Except Failure Unit × Slot α × σ
  | .waiting, s =>
    match work s with
    | (.ok a, s) => (.ok (), .returned a, s)
    | (.error e, s) => (.error e, .failed, s)
  | slot, s => (.ok (), slot, s)

/-- Run work that returns a value inside a transaction. -/
def runIn {σ α : Type} (transaction : Transaction σ) (work : σ → Except Failure α × σ) (s : σ) :
    Except Failure α × σ :=
  match (transaction s).perform (Slot.call work) .waiting with
  | (.error e, _, s) => (.error e, s)
  | (.ok (), .returned a, s) => (.ok a, s)
  | (.ok (), _, s) => (.error .workNotRun, s)

/-- How a unit of work can end: whether that is a success, and what becomes of the ending if the
transaction around it fails all the same. -/
class Ending (ρ : Type) where
  succeeded : ρ → Bool
  overruled : ρ → Failure → ρ

instance {α : Type} : Ending (Except Failure α) where
  succeeded
    | .ok _ => true
    | .error _ => false
  overruled _ f := .error f

/-- Something returned beside the ending stays as it is. -/
instance {ρ β : Type} [Ending ρ] : Ending (ρ × β) where
  succeeded r := Ending.succeeded r.1
  overruled r f := (Ending.overruled r.1 f, r.2)

/-- How work can break off: with a failure, or by a panic that unwinds without one. -/
inductive Interruption where
  | failure (f : Failure)
  | panic

instance {α : Type} : Ending (Except Interruption α) where
  succeeded
    | .ok _ => true
    | .error _ => false
  overruled _ f := .error (.failure f)

end Fixtures
