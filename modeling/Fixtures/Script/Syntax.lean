import Fixtures.Script.Number
import Fixtures.Text.Utf8
/-!
# Scripts as trees

A script is a function body. Expressions and statements that can fail while the
script runs carry the line a message about them names.

## The supported part of the language

Scripts are written in Lua 5.4. Whatever is said about every script is said
about this part of it:

- There are no labels, no attributes of variables and no operators on bits. A
  text that has any of them is not read as a script.
- Of the standard libraries, `Builtin` lists the functions that do something.
  The others are there by name, and calling one raises an error
  (`Builtin.idle`); `xpcall` is among them, and all that compiles text, matches
  patterns or reaches the system.
- A thread can be made, but not run.
- The one value that is closed is the closing value of a loop over an iterator.
- Garbage is not collected before the state of a script is given up. Then the
  finalizers of all tables that have one are called in one go, the table that
  got its finalizer last first. A table that gets one meanwhile keeps it for
  nothing. Tables are never weak.
- A traversal follows the order in which the keys of a table came in. Addresses
  are made up, messages have no traceback, and there is one NaN.

Results about any engine do not depend on this choice.
-/

namespace Fixtures.Script

inductive Unary where
  | negate
  | not
  | length
  deriving DecidableEq

inductive Binary where
  | arith (op : Arith)
  | concat
  | eq
  | ne
  | lt
  | le
  | gt
  | ge
  | and
  | or
  deriving DecidableEq

mutual

inductive Exp where
  | nil
  | bool (b : Bool)
  | number (n : Number)
  | string (bytes : Text.Bytes)
  /-- The extra arguments of the function around it. -/
  | rest
  | function (f : Function)
  | name (name : String) (line : Nat)
  | index (table key : Exp) (line : Nat)
  | call (c : Call)
  | unary (op : Unary) (a : Exp) (line : Nat)
  | binary (op : Binary) (a b : Exp) (line : Nat)
  | table (fields : List Field)
  /-- Parentheses, which keep one value of many. -/
  | first (e : Exp)

inductive Call where
  | plain (f : Exp) (args : List Exp) (line : Nat)
  /-- A call of what an object holds under a name, with the object as first argument. -/
  | method (object : Exp) (name : String) (args : List Exp) (line : Nat)

/-- An entry of a table expression: the next position, or a key. -/
inductive Field where
  | item (e : Exp)
  | keyed (key value : Exp) (line : Nat)

inductive Function where
  | mk (params : List String) (takesRest : Bool) (body : List Stat)

/-- What an assignment changes. -/
inductive Target where
  | name (name : String)
  | index (table key : Exp)

inductive Stat where
  | declare (names : List String) (values : List Exp)
  | declareFunction (name : String) (f : Function)
  | assign (targets : List Target) (values : List Exp) (line : Nat)
  | call (c : Call)
  | block (body : List Stat)
  | branch (condition : Exp) (yes no : List Stat)
  | while (condition : Exp) (body : List Stat)
  /-- The condition sees the names the body declares. -/
  | repeat (body : List Stat) (condition : Exp)
  | count (name : String) (start limit step : Exp) (body : List Stat) (line : Nat)
  /-- The first values are the iterator, its state and where it starts; the fourth is closed after the loop. The
  first line is that of the whole loop, the second that of its head. -/
  | each (names : List String) (values : List Exp) (body : List Stat) (line head : Nat)
  | return (values : List Exp)
  /-- End with the results of a call, which takes the place of the function around it. -/
  | returnCall (c : Call)
  | break

end

instance : Inhabited Exp := ⟨.nil⟩

instance : Inhabited Stat := ⟨.break⟩

instance : Inhabited Function := ⟨.mk [] true []⟩

namespace Function

def params : Function → List String
  | mk params _ _ => params

def takesRest : Function → Bool
  | mk _ takesRest _ => takesRest

def body : Function → List Stat
  | mk _ _ body => body

end Function

end Fixtures.Script
