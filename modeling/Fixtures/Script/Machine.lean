import Fixtures.Script.Evaluation
import Fixtures.Script.Library.Basic
import Fixtures.Script.Library.Maths
import Fixtures.Script.Library.Sequence
import Fixtures.Script.Library.Text
import Fixtures.Script.Vocabulary
/-!
# Calling values

`callWithin` ties evaluation and library functions together. It bounds the
calls that are open at a time, and more narrowly those made by operators and
by functions that no script wrote. A call that a function ends with takes no
room.
-/

namespace Fixtures.Script

/-- The name of a library function in messages. -/
def Builtin.name : Builtin → String
  | assert => "assert"
  | error => "error"
  | getmetatable => "getmetatable"
  | ipairs => "ipairs"
  | ipairsStep | next => "for iterator"
  | pairs => "pairs"
  | pcall => "pcall"
  | rawequal => "rawequal"
  | rawget => "rawget"
  | rawlen => "rawlen"
  | rawset => "rawset"
  | select => "select"
  | setmetatable => "setmetatable"
  | tonumber => "tonumber"
  | tostring => "tostring"
  | type | mathType => "type"
  | byte => "byte"
  | char => "char"
  | len => "len"
  | lower => "lower"
  | rep => "rep"
  | reverse => "reverse"
  | sub => "sub"
  | upper => "upper"
  | concat => "concat"
  | insert => "insert"
  | pack => "pack"
  | remove => "remove"
  | unpack => "unpack"
  | abs => "abs"
  | ceil => "ceil"
  | floor => "floor"
  | max => "max"
  | min => "min"
  | tointeger => "tointeger"
  | newThread => "create"
  | openTable => "table"
  | row => "row"
  | find => "find"
  | load => "load"
  | idle name => name

/-- What a library function does. -/
def Builtin.run (types : Catalog) (call : Caller) (b : Builtin) (args : List Val) (callers : Trace) :
    Eval (List Val) :=
  let c : Invocation := ⟨call, b.name, args, callers⟩
  match b with
  | .assert => Library.assert c
  | .error => Library.error c
  | .getmetatable => Library.getmetatable c
  | .ipairs => Library.ipairs c
  | .ipairsStep => Library.ipairsStep c
  | .next => Library.next c
  | .pairs => Library.pairs c
  | .pcall => Library.pcall c
  | .rawequal => Library.rawequal c
  | .rawget => Library.rawget c
  | .rawlen => Library.rawlen c
  | .rawset => Library.rawset c
  | .select => Library.select c
  | .setmetatable => Library.setmetatable c
  | .tonumber => Library.tonumber c
  | .tostring => Library.tostring c
  | .type => Library.type c
  | .byte => Library.byte c
  | .char => Library.char c
  | .len => Library.len c
  | .lower => Library.lower c
  | .rep => Library.rep c
  | .reverse => Library.reverse c
  | .sub => Library.sub c
  | .upper => Library.upper c
  | .concat => Library.concat c
  | .insert => Library.insert c
  | .pack => Library.pack c
  | .remove => Library.remove c
  | .unpack => Library.unpack c
  | .abs => Library.abs c
  | .ceil => Library.ceil c
  | .floor => Library.floor c
  | .max => Library.maximum c
  | .min => Library.minimum c
  | .mathType => Library.mathType c
  | .tointeger => Library.tointeger c
  | .newThread =>
    if isFunction (c.arg 1) then do return [← Eval.make Heap.newThread] else c.mismatch 1 "function"
  | .openTable => Vocabulary.table types call args callers
  | .row => Vocabulary.row args
  | .find => Vocabulary.find types args
  | .load => Vocabulary.load args
  | .idle name => c.complain (name ++ " is not available to scripts")

/-- How many more calls may be open at a time. -/
structure Room where
  calls : Nat
  /-- Those of them that operators, loops over iterators and library functions may make. -/
  innerCalls : Nat

/-- The room a script starts with. -/
def Room.full : Room := ⟨200000, 198⟩

/-- The most calls of a script. -/
def callLimit : Nat := Nat.pow 2 62

/-- Call a value, with a bound on the calls that are made in turn. -/
def callWithin (types : Catalog) : Nat → Room → Caller
  | 0, _, _, _, callers => .complain callers "stack overflow"
  | limit + 1, room, f, args, callers =>
    match room.calls, room.innerCalls with
    | 0, _ => .complain callers "stack overflow"
    | _, 0 => .complain callers "C stack overflow"
    | calls + 1, innerCalls + 1 => do
      -- What operators and library functions call takes room of both kinds.
      let inner := callWithin types limit ⟨calls, innerCalls⟩
      match f with
      | .function id =>
        match ← Eval.look fun h => h.closure? id with
        | some c => c.run (callWithin types limit { room with calls }) inner (callWithin types limit room) args callers
        | none => unfit callers "call" f
      | .builtin b => b.run types inner args callers
      | f =>
        match ← Eval.look fun h => h.handler f "__call" with
        | .nil => unfit callers "call" f
        | handler => callWithin types limit { room with calls } handler (f :: args) callers

/-- Call a value. -/
def call (types : Catalog) : Caller := callWithin types callLimit .full

end Fixtures.Script
