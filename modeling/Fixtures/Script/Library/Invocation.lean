import Fixtures.Script.Operation
/-!
# Calls of library functions

What a library function is called with, and how it reads its arguments.
Positions of arguments count from one.
-/

namespace Fixtures.Script

structure Invocation where
  call : Caller
  /-- The name of the function in messages. -/
  name : String
  args : List Val
  callers : Trace

namespace Invocation

variable (c : Invocation)

/-- The callers of what the function calls in turn. -/
def inner : Trace := none :: c.callers

/-- An argument, `nil` if it is missing. -/
def arg (i : Nat) : Val := c.args.getD (i - 1) .nil

def complain {α : Type} (message : String) : Look α := .complain c.callers message

/-- An argument is of no use. -/
def bad {α : Type} (i : Nat) (reason : String) : Look α :=
  c.complain s!"bad argument #{i} to '{c.name}' ({reason})"

/-- An argument is of the wrong kind. -/
def mismatch {α : Type} (i : Nat) (expected : String) : Look α :=
  let given := if c.args.length < i then "no value" else (c.arg i).kind
  c.bad i s!"{expected} expected, got {given}"

/-- An argument that has to be given. -/
def any (i : Nat) : Look Val := if c.args.length < i then c.bad i "value expected" else pure (c.arg i)

def table (i : Nat) : Look Nat :=
  match c.arg i with
  | .table id => pure id
  | _ => c.mismatch i "table"

def number (i : Nat) : Look Number :=
  match (c.arg i).asNumber? with
  | some n => pure n
  | none => c.mismatch i "number"

def integer (i : Nat) : Look Int64 := do
  match (← c.number i).word? with
  | some n => return n
  | none => c.bad i "number has no integer representation"

/-- An integer argument that may be missing. -/
def integerOr (i : Nat) (default : Int64) : Look Int64 :=
  if c.arg i = .nil then pure default else c.integer i

def bytes (i : Nat) : Look Text.Bytes :=
  match (c.arg i).asBytes? with
  | some s => pure s
  | none => c.mismatch i "string"

/-- What a value holds under a key, handlers included. -/
def get (v k : Val) : Eval Val := index c.call c.inner v k

/-- Store a value under a key, handlers included. -/
def set (v k x : Val) : Eval Unit := setIndex c.call c.inner v k x

/-- The length of a table as its handler or its entries tell it. -/
def lengthOf (v : Val) : Eval Int64 := do
  match ← length c.call c.inner v with
  | .number (.int n) => return n
  | _ => c.complain "object length is not an integer"

end Invocation

end Fixtures.Script
