import Fixtures.Failure
/-!
# Failures inside scripts

A function of this library that fails raises a fault. A script can catch it
and raise it again; `toFailure` gets back the failure it was raised for, however
many calls it has crossed.
-/

namespace Fixtures.Script

inductive Fault where
  | failure (f : Failure)
  /-- An argument was of no use. -/
  | badArgument (reason : String)
  /-- A fault that crossed a call. -/
  | within (cause : Fault)
  deriving DecidableEq

namespace Fault

/-- The failure that a fault stands for. -/
def toFailure : Fault → Failure
  | failure f => f
  | badArgument reason => .script ("bad argument " ++ reason)
  | within cause => cause.toFailure

/-- What the fault says of itself in a script. -/
def display : Fault → String
  | failure f => f.message
  | badArgument reason => "bad argument " ++ reason
  | within cause => cause.display

/-- Wrapped in `n` calls. -/
def wrapped (f : Fault) : Nat → Fault
  | 0 => f
  | n + 1 => within (f.wrapped n)

theorem toFailure_wrapped (f : Fault) (n : Nat) : (f.wrapped n).toFailure = f.toFailure := by
  induction n with
  | zero => rfl
  | succ n ih => exact ih

end Fault

/-- What becomes of a failure in a script. -/
inductive Fate where
  | raised (f : Failure)
  | caught (f : Failure)
  /-- It is set aside while something is closed on its way. Unless it is raised again it is lost. -/
  | aside (f : Failure)
  deriving DecidableEq

/-- The failure it is about. -/
def Fate.failure : Fate → Failure
  | raised f | caught f | aside f => f

end Fixtures.Script
