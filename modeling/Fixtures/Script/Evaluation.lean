import Fixtures.Script.Operation
/-!
# Running statements

Evaluation follows the tree of a script (see `Fixtures.Script.Syntax` for the
supported part of Lua). What calling a value does is a parameter, so that only
calls, and not loops or nesting, need a bound on how deep they go; the calls
that operators and loops over iterators make of themselves are a second
parameter. Every variable is a cell of the heap, fresh each time its declaration
is reached.
-/

namespace Fixtures.Script

/-- A running function. -/
structure Activation where
  chunk : Text.Bytes
  scope : Scope
  /-- Arguments beyond the parameters. -/
  extra : List Val
  callers : Trace

/-- How a statement ends. -/
inductive Flow where
  | next
  | broke
  | returned (vs : List Val)
  /-- Return what a call at this line gives. -/
  | calling (f : Val) (args : List Val) (line : Nat)

/-- The most rounds of a loop that is not counted in advance. -/
def roundLimit : Nat := Nat.pow 2 62

/-- Repeat a step until it ends the loop. -/
def rounds {σ : Type} (step : σ → Eval (Flow ⊕ σ)) : Nat → σ → Eval Flow
  | 0, _ => .complain [] "loop does not end"
  | fuel + 1, s => do
    match ← step s with
    | .inl flow => return flow
    | .inr s => rounds step fuel s

/-- Run the rounds `i`, `i + 1`, … of a counted loop, as many as are left. -/
def counted (body : Nat → Eval Flow) (i : Nat) : (left : Nat) → Eval Flow
  | 0 => pure .next
  | left + 1 => do
    match ← body i with
    | .next => counted body (i + 1) left
    | .broke => return .next
    | flow => return flow

/-- How a loop goes on after a run of its body: out of it, or to what comes next. -/
def afterBody {σ : Type} (flow : Flow) (next : σ) : Flow ⊕ σ :=
  match flow with
  | .next => .inr next
  | .broke => .inl .next
  | flow => .inl flow

/-- Exactly `n` values: missing ones are `nil`, others are dropped. -/
def adjust : Nat → List Val → List Val
  | 0, _ => []
  | n + 1, vs => firstOf vs :: adjust n vs.tail

/-- The callers of a function called at a line of this one. -/
def Activation.calling (a : Activation) (line : Nat) : Trace := some ⟨a.chunk, line⟩ :: a.callers

/-- A new variable. -/
def Activation.declare (a : Activation) (name : String) (v : Val) : Eval Activation := do
  let id ← Eval.make fun h => h.newCell v
  return { a with scope := (name, id) :: a.scope }

/-- A new variable for each name. -/
def Activation.declareAll (a : Activation) : List String → List Val → Eval Activation
  | [], _ => pure a
  | name :: names, vs => do (← a.declare name (firstOf vs)).declareAll names vs.tail

/-- The value that global names are looked up in. -/
def Activation.environment (a : Activation) : Eval Val :=
  match a.scope.lookup "_ENV" with
  | some id => Eval.look fun h => h.cell id
  | none => pure .nil

/-- The only value, or the first. -/
def single (x : Eval (List Val)) : Eval Val := do return firstOf (← x)

section

variable (call handle : Caller)

/-- The value of a name. -/
def Activation.valueOf (a : Activation) (name : String) (line : Nat) : Eval Val :=
  match a.scope.lookup name with
  | some id => Eval.look fun h => h.cell id
  | none => do index handle (a.calling line) (← a.environment) (.text name)

/-- What an assignment changes, its parts evaluated. -/
inductive Slot where
  | cell (id : Nat)
  | entry (table key : Val)

/-- Store a value in a slot. -/
def Slot.store (a : Activation) (line : Nat) (v : Val) : Slot → Eval Unit
  | .cell id => .change fun h => h.setCell id v
  | .entry t k => setIndex handle (a.calling line) t k v

/-- Store values in slots, the last slot first. -/
def storeAll (a : Activation) (line : Nat) : List Slot → List Val → Eval Unit
  | [], _ => pure ()
  | s :: slots, vs => do
    storeAll a line slots vs.tail
    s.store handle a line (firstOf vs)

/-- An operator on two values. -/
def operate (trace : Trace) (op : Binary) (x y : Val) : Eval Val :=
  match op with
  | .arith op => arith handle trace op x y
  | .concat => concat handle trace x y
  | .eq => return .bool (← equal handle trace x y)
  | .ne => return .bool (!(← equal handle trace x y))
  | .lt => return .bool (← less handle trace x y)
  | .le => return .bool (← atMost handle trace x y)
  | .gt => return .bool (← less handle trace y x)
  | .ge => return .bool (← atMost handle trace y x)
  | .and => pure (if x.isTrue then y else x)
  | .or => pure (if x.isTrue then x else y)

/-- How to run a counted loop: the first value, the step and the number of rounds for integers, otherwise
the first value, the limit and the step. -/
inductive Range where
  | ints (start step : Int64) (rounds : Nat)
  | floats (start limit step : Float)

/-- The integer that bounds a loop of integers, rounded toward the start; none for what is no number. -/
def limitOf (upward : Bool) : Number → Option Int
  | .int n => some n.toInt
  | .float x =>
    match if upward then Decimal.floor? x else Decimal.ceil? x with
    | some n => some n
    | none =>
      if x > 0 then some (Int64.maxValue.toInt + 1)
      else if x < 0 then some (Int64.minValue.toInt - 1)
      else none

/-- The range of a counted loop. -/
def rangeOf (trace : Trace) (start limit step : Val) : Look Range := do
  let number (v : Val) (what : String) : Look Number :=
    match v.asNumber? with
    | some n => pure n
    | none => .complain trace s!"bad 'for' {what} (number expected, got {v.kind})"
  let still {α : Type} : Look α := .complain trace "'for' step is zero"
  match start, step with
  | .number (.int i), .number (.int d) =>
    if d = 0 then still
    else
      match limitOf (0 < d) (← number limit "limit") with
      | none => return .ints i d 0
      | some last =>
        if (if 0 < d then last < i.toInt else i.toInt < last) then return .ints i d 0
        else return .ints i d (((Decimal.clamp last).toInt - i.toInt).natAbs / d.toInt.natAbs + 1)
  | _, _ =>
    let limit ← number limit "limit"
    let step ← number step "step"
    let start ← number start "initial value"
    if step.toFloat == 0 then still
    else return .floats start.toFloat limit.toFloat step.toFloat

/-- Call what a value names to be called when it is closed, and tell it why that is. -/
def close (trace : Trace) (v reason : Val) : Eval Unit := do
  let f ← Eval.look fun h => h.handler v "__close"
  let _ ← handle f [v, reason] trace
  return ()

/-- Run a loop and close a value after it, however the loop ends. What the loop raises is raised again, unless
closing raises something else. -/
def closing (a : Activation) (line : Nat) (v : Val) (loop : Eval Flow) : Eval Flow := do
  if ← Eval.look fun h => h.staysOpen v then loop
  else if (← Eval.look fun h => h.handler v "__close") = .nil then
    .complain (a.calling line) "variable '(for state)' got a non-closable value"
  else
    match ← loop.attempt .aside with
    | .ok flow =>
      close handle (a.calling line) v .nil
      return flow
    | .error e =>
      -- The functions up to the one that catches have been left by now.
      close handle (a.callers.dropWhile Option.isSome) v e
      .raise e

mutual

/-- The values of an expression: one, or as many as a call or `...` gives. -/
def values (a : Activation) : Exp → Eval (List Val)
  | .nil => return [.nil]
  | .bool b => return [.bool b]
  | .number n => return [.number n]
  | .string s => return [.string s]
  | .rest => return a.extra
  | .function f => return [← Eval.make fun h => h.newClosure ⟨f, a.scope, a.chunk⟩]
  | .name n line => return [← a.valueOf handle n line]
  | .index t k line => do
    let t ← single (values a t)
    let k ← single (values a k)
    return [← index handle (a.calling line) t k]
  | .call c => do
    let (f, args, line) ← calls a c
    call f args (a.calling line)
  | .unary op e line => do
    let x ← single (values a e)
    match op with
    | .not => return [.bool (!x.isTrue)]
    | .negate => return [← negate handle (a.calling line) x]
    | .length => return [← length handle (a.calling line) x]
  | .binary op e e' line => do
    let x ← single (values a e)
    -- The second operand may not be evaluated at all.
    match op, x.isTrue with
    | .and, false => return [x]
    | .or, true => return [x]
    | _, _ => return [← operate handle (a.calling line) op x (← single (values a e'))]
  | .table fields => do
    let t ← Eval.make fun h => h.addTable .empty
    let items ← entries a t fields
    -- Positions are filled last, over keyed entries of the same place.
    Eval.change fun h => h.setTable t { (h.table t).setAll (Table.numbered 1 items) with room := items.length }
    return [.table t]
  | .first e => return [firstOf (← values a e)]

/-- The values of expressions: one each, and all of the last. -/
def valueList (a : Activation) : List Exp → Eval (List Val)
  | [] => return []
  | e :: rest => do
    let vs ← values a e
    match rest with
    | [] => return vs
    | _ => return firstOf vs :: (← valueList a rest)

/-- The function of a call, its arguments and its line. -/
def calls (a : Activation) : Call → Eval (Val × List Val × Nat)
  | .plain f args line => do
    let f ← single (values a f)
    return (f, ← valueList a args, line)
  | .method o name args line => do
    let o ← single (values a o)
    let f ← index handle (a.calling line) o (.text name)
    return (f, o :: (← valueList a args), line)

/-- Store the keyed entries of a table expression, and return the values of the others. -/
def entries (a : Activation) (t : Nat) : List Field → Eval (List Val)
  | [] => return []
  | .keyed k v line :: rest => do
    let k ← single (values a k)
    let v ← single (values a v)
    rawSet (a.calling line) t k v
    entries a t rest
  | .item e :: rest => do
    let vs ← values a e
    match rest with
    | [] => return vs
    | _ => return firstOf vs :: (← entries a t rest)

end

/-- What an assignment changes. -/
def slotOf (a : Activation) : Target → Eval Slot
  | .name n =>
    match a.scope.lookup n with
    | some id => return .cell id
    | none => return .entry (← a.environment) (.text n)
  | .index t k => do
    let t ← single (values call handle a t)
    return .entry t (← single (values call handle a k))

/-- What an assignment changes, in order. -/
def slotsOf (a : Activation) : List Target → Eval (List Slot)
  | [] => return []
  | t :: rest => do
    let s ← slotOf call handle a t
    return s :: (← slotsOf a rest)

mutual

/-- Run statements in order; return how they ended, and the names in sight then. -/
def run (a : Activation) : List Stat → Eval (Flow × Scope)
  | [] => return (.next, a.scope)
  | s :: rest => do
    match ← perform a s with
    | (.next, scope) => run { a with scope } rest
    | ended => return ended

/-- Run one statement. -/
def perform (a : Activation) : Stat → Eval (Flow × Scope)
  | .declare names es => do
    let vs ← valueList call handle a es
    let a ← a.declareAll names vs
    return (.next, a.scope)
  | .declareFunction name f => do
    let a ← a.declare name .nil
    -- The variable is there before the function, which can so call itself.
    let v ← Eval.make fun h => h.newClosure ⟨f, a.scope, a.chunk⟩
    match a.scope with
    | (_, id) :: _ => Eval.change fun h => h.setCell id v
    | [] => pure ()
    return (.next, a.scope)
  | .assign targets es line => do
    let slots ← slotsOf call handle a targets
    storeAll handle a line slots (← valueList call handle a es)
    return (.next, a.scope)
  | .call c => do
    let (f, args, line) ← calls call handle a c
    let _ ← call f args (a.calling line)
    return (.next, a.scope)
  | .block body => do return ((← run a body).1, a.scope)
  | .branch condition yes no => do
    if (← single (values call handle a condition)).isTrue then return ((← run a yes).1, a.scope)
    else return ((← run a no).1, a.scope)
  | .while condition body => do
    let round (_ : Unit) : Eval (Flow ⊕ Unit) := do
      if (← single (values call handle a condition)).isTrue then return afterBody (← run a body).1 ()
      else return .inl .next
    return (← rounds round roundLimit (), a.scope)
  | .repeat body condition => do
    let round (_ : Unit) : Eval (Flow ⊕ Unit) := do
      match ← run a body with
      | (.next, scope) =>
        if (← single (values call handle { a with scope } condition)).isTrue then return .inl .next
        else return .inr ()
      | (flow, _) => return afterBody flow ()
    return (← rounds round roundLimit (), a.scope)
  | .count name start limit step body line => do
    let start ← single (values call handle a start)
    let limit ← single (values call handle a limit)
    let step ← single (values call handle a step)
    let body (v : Val) : Eval Flow := do return (← run (← a.declare name v) body).1
    match ← rangeOf (a.calling line) start limit step with
    -- The rounds are counted in advance, so that the variable never runs past the limit.
    | .ints start step n =>
      return (← counted (fun i => body (.int (start + Int64.ofNat i * step))) 0 n, a.scope)
    | .floats start limit step =>
      let round (x : Float) : Eval (Flow ⊕ Float) := do
        if (if 0 < step then x ≤ limit else limit ≤ x) then
          return afterBody (← body (.number (.float x))) (x + step)
        else return .inl .next
      return (← rounds round roundLimit start, a.scope)
  | .each names es body line head => do
    match adjust 4 (← valueList call handle a es) with
    | [f, state, start, kept] =>
      let round (control : Val) : Eval (Flow ⊕ Val) := do
        let vs ← handle f [state, control] (a.calling line)
        match firstOf vs with
        | .nil => return .inl .next
        | control => return afterBody (← run (← a.declareAll names vs) body).1 control
      let loop : Eval Flow := do
        match ← rounds round roundLimit start with
        -- A call whose results are returned is made inside the loop, before anything is closed.
        | .calling f args line => return .returned (← call f args (a.calling line))
        | flow => return flow
      return (← closing handle a head kept loop, a.scope)
    | _ => return (.next, a.scope)
  | .return es => return (.returned (← valueList call handle a es), a.scope)
  | .returnCall c => do
    let (f, args, line) ← calls call handle a c
    return (.calling f args line, a.scope)
  | .break => return (.broke, a.scope)

end

end

/-- Run a function of a script. A call that it ends with takes its place, room and callers, if that is again
a call of a function of a script. -/
def Closure.run (call handle replace : Caller) (c : Closure) (args : List Val) (callers : Trace) :
    Eval (List Val) := do
  let params := c.function.params
  let a : Activation := ⟨c.chunk, c.scope, if c.function.takesRest then args.drop params.length else [], callers⟩
  let a ← a.declareAll params args
  match (← Script.run call handle a c.function.body).1 with
  | .returned vs => return vs
  | .calling f args line =>
    match f with
    | .function _ => replace f args callers
    | f => call f args (a.calling line)
  | _ => return []

end Fixtures.Script
