import Fixtures.Script.Exchange
import Fixtures.Program
/-!
# Running scripts: effects

A running script reads and changes its heap, asks its surroundings for rows,
entities and other scripts, and ends with a result or a raised value. The heap
is kept when a value is raised.
-/

namespace Fixtures.Script

/-- A computation of a script. -/
def Eval (α : Type) : Type 1 := Heap → Program (Except Val α × Heap)

/-- A line of a script. -/
structure Position where
  chunk : Text.Bytes
  line : Nat

/-- Where each running function was left, innermost first. A function that no script wrote has no line. -/
abbrev Trace := List (Option Position)

/-- Where the function called last was called from, as the beginning of a message. -/
def Trace.place (trace : Trace) : Text.Bytes :=
  match trace with
  | some p :: _ => p.chunk ++ Text.encode (":" ++ toString p.line ++ ": ")
  | _ => []

/-- A message about the place a function was called from. -/
def Trace.complaint (trace : Trace) (message : String) : Val := .string (trace.place ++ Text.encode message)

/-- A computation that does no more than look at the heap, and ends with a result or a value to raise. -/
abbrev Look := ReaderT Heap (Except Val)

/-- Raise a message about the place a function was called from. -/
def Look.complain {α : Type} (trace : Trace) (message : String) : Look α := throw (trace.complaint message)

/-- How to call a value with arguments. -/
abbrev Caller := Val → List Val → Trace → Eval (List Val)

namespace Eval

instance : Monad Eval where
  pure a h := .done (.ok a, h)
  bind x f h := (x h).bind fun
    | (.ok a, h) => f a h
    | (.error v, h) => .done (.error v, h)

/-- Raise a value. -/
def raise {α : Type} (v : Val) : Eval α := fun h => .done (.error v, h.mark .raised v)

/-- Run to the end, and return what was raised, if anything was. What becomes of it is up to the caller. -/
def attempt {α : Type} (fate : Failure → Fate) (x : Eval α) : Eval (Except Val α) := fun h =>
  (x h).bind fun
    | (.ok a, h) => .done (.ok (.ok a), h)
    | (.error v, h) => .done (.ok (.error v), h.mark fate v)

/-- Look at the heap. -/
def look {α : Type} (f : Heap → α) : Eval α := fun h => .done (.ok (f h), h)

/-- Change the heap. -/
def change (f : Heap → Heap) : Eval Unit := fun h => .done (.ok (), f h)

/-- Make something new on the heap. -/
def make {α : Type} (f : Heap → α × Heap) : Eval α := fun h =>
  let (a, h) := f h
  .done (.ok a, h)

/-- Ask the surroundings. -/
def ask {α : Type} (p : Program α) : Eval α := fun h => p.bind fun a => .done (.ok a, h)

/-- Raise a fault, which has crossed the call of what failed. -/
def fault {α : Type} (f : Fault) : Eval α := do raise (← make fun h => h.newObject (.fault (.within f)))

/-- Raise a failure. -/
def fail {α : Type} (f : Failure) : Eval α := fault (.failure f)

/-- The result, unless it is a failure. -/
def orFail {α : Type} : Except Failure α → Eval α
  | .ok a => pure a
  | .error f => fail f

/-- Pass on what was reported, and the result. -/
def report {α : Type} (f : Heap → Reported α) : Eval α := do
  let r ← look f
  ask (Program.noteAll r.events)
  orFail r.result

/-- Raise a message about the place a function was called from. -/
def complain {α : Type} (trace : Trace) (message : String) : Eval α := raise (trace.complaint message)

/-- A computation that only looks, among others that do more. -/
instance : MonadLift Look Eval where
  monadLift x := do
    match ← look x with
    | .ok a => return a
    | .error v => raise v

end Eval

end Fixtures.Script
