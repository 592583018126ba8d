import Fixtures.Script.Eval
import Fixtures.Text.Quoted
import Fixtures.Value.Display
/-!
# Operators of scripts

Looking up, storing, arithmetic, comparison and conversion to text. An operand
that an operator cannot handle by itself is asked for a handler, which its
metatable holds under the name of the event.
-/

namespace Fixtures.Script

/-- The first of several results. -/
def firstOf (vs : List Val) : Val := vs.headD .nil

/-- How often a handler may pass a look-up on to another value. -/
def handlerLimit : Nat := 2000

/-- The value a table holds under a key, metatables aside. -/
def Heap.rawGet (h : Heap) (id : Nat) (k : Val) : Val :=
  match k.key? with
  | some k => (h.table id).get k
  | none => .nil

/-- Store a value in a table, metatables aside. -/
def rawSet (trace : Trace) (id : Nat) (k v : Val) : Eval Unit :=
  match k.key? with
  | some k => .change fun h => h.put id k v
  | none => .complain trace (if k = .nil then "table index is nil" else "table index is NaN")

def isFunction : Val → Bool
  | .function _ | .builtin _ => true
  | _ => false

/-- A value whose kind an operator cannot handle. -/
def unfit {α : Type} (trace : Trace) (deed : String) (v : Val) : Eval α :=
  .complain trace s!"attempt to {deed} a {v.kind} value"

/-- What an object holds under a name. -/
def field (trace : Trace) (o : Object) (k : Val) : Eval Val :=
  let named (f : String → Eval Val) : Eval Val :=
    match k.asBytes?.bind Text.decode? with
    | some name => f name
    | none => .fault (.badArgument s!"#2: a {k.kind} is no name")
  match o with
  | .entity e => named fun name =>
    match e.get? name with
    | some v => .make fun h => h.receive v
    | none => pure .nil
  | .entityType t => named fun name =>
    pure (if name = "name" then .text t.name else if name = "id_attribute" then .text t.idName else .nil)
  | .stream => pure .nil
  | .fault _ => .complain trace "attempt to index a userdata value"

/-- What `v` holds under `k`, or what its handlers answer. -/
def indexWithin (call : Caller) (trace : Trace) : Nat → Val → Val → Eval Val
  | 0, _, _ => .complain trace "'__index' chain too long; possibly a loop"
  | steps + 1, v, k => do
    let onward (orElse : Eval Val) : Eval Val := do
      match ← Eval.look fun h => h.handler v "__index" with
      | .nil => orElse
      | handler =>
        if isFunction handler then return firstOf (← call handler [v, k] trace)
        else indexWithin call trace steps handler k
    match v with
    | .table id =>
      match ← Eval.look fun h => h.rawGet id k with
      | .nil => onward (pure .nil)
      | found => return found
    | .object id => field trace (← Eval.look fun h => h.object id) k
    | v => onward (unfit trace "index" v)

/-- What `v` holds under `k`. -/
def index (call : Caller) (trace : Trace) (v k : Val) : Eval Val := indexWithin call trace handlerLimit v k

/-- Store `x` under `k` in `v`, or hand it to the handler for new keys. -/
def setIndexWithin (call : Caller) (trace : Trace) : Nat → Val → Val → Val → Eval Unit
  | 0, _, _, _ => .complain trace "'__newindex' chain too long; possibly a loop"
  | steps + 1, v, k, x => do
    let onward (orElse : Eval Unit) : Eval Unit := do
      match ← Eval.look fun h => h.handler v "__newindex" with
      | .nil => orElse
      | handler =>
        if isFunction handler then
          let _ ← call handler [v, k, x] trace
          return ()
        else setIndexWithin call trace steps handler k x
    match v with
    | .table id =>
      match ← Eval.look fun h => h.rawGet id k with
      | .nil => onward (rawSet trace id k x)
      | _ => rawSet trace id k x
    | v => onward (unfit trace "index" v)

/-- Store `x` under `k` in `v`. -/
def setIndex (call : Caller) (trace : Trace) (v k x : Val) : Eval Unit :=
  setIndexWithin call trace handlerLimit v k x

/-- What the handler of one operand or the other makes of both. -/
def byHandler (call : Caller) (trace : Trace) (event : String) (a b : Val) (orElse : Eval Val) : Eval Val := do
  let handler ← Eval.look fun h =>
    match h.handler a event with
    | .nil => h.handler b event
    | f => f
  match handler with
  | .nil => orElse
  | f => return firstOf (← call f [a, b] trace)

/-- The name of the event of an arithmetic operator. -/
def eventOf : Arith → String
  | .add => "__add"
  | .sub => "__sub"
  | .mul => "__mul"
  | .div => "__div"
  | .mod => "__mod"
  | .pow => "__pow"
  | .floorDiv => "__idiv"

def arith (call : Caller) (trace : Trace) (op : Arith) (a b : Val) : Eval Val :=
  match a.asNumber?, b.asNumber? with
  | some x, some y =>
    match Number.arith op x y with
    | some r => pure (.number r)
    | none => .complain trace (if op = .mod then "attempt to perform 'n%%0'" else "attempt to perform 'n//0'")
  | x, _ =>
    byHandler call trace (eventOf op) a b (unfit trace "perform arithmetic on" (if x.isSome then b else a))

def negate (call : Caller) (trace : Trace) (a : Val) : Eval Val :=
  match a.asNumber? with
  | some x => pure (.number x.negate)
  | none => byHandler call trace "__unm" a a (unfit trace "perform arithmetic on" a)

def concat (call : Caller) (trace : Trace) (a b : Val) : Eval Val :=
  match a.asBytes?, b.asBytes? with
  | some x, some y => pure (.string (x ++ y))
  | x, _ => byHandler call trace "__concat" a b (unfit trace "concatenate" (if x.isSome then b else a))

def length (call : Caller) (trace : Trace) (a : Val) : Eval Val := do
  match a, ← Eval.look fun h => h.handler a "__len" with
  | .string s, _ => return .nat s.length
  | .table id, .nil => Eval.look fun h => .nat (h.table id).border
  | _, .nil => unfit trace "get length of" a
  | _, f => return firstOf (← call f [a] trace)

def equal (call : Caller) (trace : Trace) (a b : Val) : Eval Bool :=
  match a, b with
  | .table i, .table j =>
    if i = j then pure true
    else do return (← byHandler call trace "__eq" a b (pure (.bool false))).isTrue
  | a, b => pure (a.same b)

/-- Compare two numbers or two texts, or ask a handler. -/
def ordered (call : Caller) (trace : Trace) (event : String) (numbers : Number → Number → Bool)
    (texts : List UInt8 → List UInt8 → Bool) (a b : Val) : Eval Bool :=
  match a, b with
  | .number x, .number y => pure (numbers x y)
  | .string x, .string y => pure (texts x y)
  | a, b => do
    let refused : Eval Val :=
      if a.kind = b.kind then .complain trace s!"attempt to compare two {a.kind} values"
      else .complain trace s!"attempt to compare {a.kind} with {b.kind}"
    return (← byHandler call trace event a b refused).isTrue

def less (call : Caller) (trace : Trace) : Val → Val → Eval Bool :=
  ordered call trace "__lt" Number.less fun x y => x < y

def atMost (call : Caller) (trace : Trace) : Val → Val → Eval Bool :=
  ordered call trace "__le" Number.atMost fun x y => x ≤ y

/-- A made-up address, for things that have no text of their own. -/
def address (kind : String) (id : Nat) : String :=
  let digits := Text.hex (0x560000000000 + 64 * id)
  kind ++ ": 0x" ++ String.ofList digits

/-- A value as text. -/
def display (call : Caller) (trace : Trace) (v : Val) : Eval Text.Bytes := do
  match ← Eval.look fun h => h.handler v "__tostring" with
  | .nil =>
    match v with
    | .nil => return Text.encode "nil"
    | .bool b => return Text.encode (if b then "true" else "false")
    | .number n => return Text.encode n.text
    | .string s => return s
    | .table id => return Text.encode (address "table" id)
    | .function id => return Text.encode (address "function" id)
    | .builtin _ => return Text.encode (address "function: builtin" 0)
    | .thread id => return Text.encode (address "thread" id)
    | .object id =>
      match ← Eval.look fun h => h.object id with
      | .entity e => return Text.encode e.display
      | .entityType t => return Text.encode t.name
      | .fault f => return Text.encode f.display
      | .stream => return Text.encode (address "file" id)
  | f =>
    match firstOf (← call f [v] trace) with
    | .string s => return s
    | .number n => return Text.encode n.text
    | _ => .complain trace "'__tostring' must return a string"

end Fixtures.Script
