import Fixtures.Script.Syntax
import Fixtures.Script.Token
/-!
# Reading scripts

A recursive-descent reader over the words of a script. Every call of a reader
uses up one unit of fuel; between two words at most a dozen readers are
entered, so `Chunk.parse` starts with more fuel than any script can use up.
Statements and expressions may nest up to a fixed number of levels.
-/

namespace Fixtures.Script

/-- Why a text is not a script. -/
inductive Malformed where
  | ungrammatical (line : Nat)
  | tooDeep
  deriving DecidableEq

/-- Words still to be read, and the line of the word read last. -/
structure Words where
  ahead : List Lexeme
  last : Nat := 1

abbrev Parse (α : Type) := StateT Words (Except Malformed) α

/-- What surrounds the text being read. -/
structure Place where
  /-- How many more statements and expressions may be opened inside. -/
  levels : Nat
  inLoop : Bool
  takesRest : Bool

namespace Parse

def fail {α : Type} : Parse α := do throw (.ungrammatical (← get).last)

/-- The word to be read next. -/
def peek : Parse (Option Token) := return ((← get).ahead.head?.map Lexeme.token)

/-- The line of the word to be read next. -/
def line : Parse Nat := do
  let w ← get
  return (w.ahead.head?.map Lexeme.line).getD w.last

/-- The line of the word read last. -/
def last : Parse Nat := return (← get).last

/-- Take the next word. -/
def take : Parse Unit := modify fun w =>
  match w.ahead with
  | l :: ahead => ⟨ahead, l.line⟩
  | [] => w

def sees (mark : String) : Parse Bool := return (← peek) = some (.mark mark)

/-- Take a mark if it is next. -/
def accept (mark : String) : Parse Bool := do
  let found ← sees mark
  if found then take
  return found

/-- Take a mark that has to be next. -/
def expect (mark : String) : Parse Unit := do
  unless ← accept mark do fail

/-- Take a name, which has to be next. -/
def name : Parse String := do
  match ← peek with
  | some (.name n) => take; return n
  | _ => fail

/-- Go one level deeper. -/
def deeper (p : Place) : Parse Place :=
  match p.levels with
  | 0 => throw .tooDeep
  | levels + 1 => return { p with levels }

/-- Read names between commas. -/
def names (first : String) : Nat → Parse (List String)
  | 0 => fail
  | fuel + 1 => do
    if ← accept "," then
      let next ← name
      return first :: (← names next fuel)
    else return [first]

/-- The words that end a block. -/
def blockEnds : Parse Bool := do
  match ← peek with
  | none => return true
  | some (.mark m) => return ["else", "elseif", "end", "until"].contains m
  | _ => return false

/-- How strongly a binary operator holds on to its left and right. -/
def binary? : Token → Option (Binary × Nat × Nat)
  | .mark "or" => some (.or, 1, 1)
  | .mark "and" => some (.and, 2, 2)
  | .mark "==" => some (.eq, 3, 3)
  | .mark "~=" => some (.ne, 3, 3)
  | .mark "<" => some (.lt, 3, 3)
  | .mark "<=" => some (.le, 3, 3)
  | .mark ">" => some (.gt, 3, 3)
  | .mark ">=" => some (.ge, 3, 3)
  | .mark ".." => some (.concat, 9, 8)
  | .mark "+" => some (.arith .add, 10, 10)
  | .mark "-" => some (.arith .sub, 10, 10)
  | .mark "*" => some (.arith .mul, 11, 11)
  | .mark "/" => some (.arith .div, 11, 11)
  | .mark "//" => some (.arith .floorDiv, 11, 11)
  | .mark "%" => some (.arith .mod, 11, 11)
  | .mark "^" => some (.arith .pow, 14, 13)
  | _ => none

def unary? : Token → Option Unary
  | .mark "not" => some .not
  | .mark "-" => some .negate
  | .mark "#" => some .length
  | _ => none

/-- How strongly a unary operator holds on to its operand. -/
def unaryStrength : Nat := 12

/-- An operator whose failure is reported at its own line, not at the end of its operands. -/
def marksLine : Binary → Bool
  | .arith _ | .concat => true
  | _ => false

/-- An expression as the left side of an assignment. -/
def target? : Exp → Option Target
  | .name x _ => some (.name x)
  | .index t k _ => some (.index t k)
  | _ => none

def keyOf (name : String) : Exp := .string (Text.encode name)

mutual

/-- An expression whose operators hold on more strongly than `limit`. -/
def expression : Nat → Nat → Place → Parse Exp
  | 0, _, _ => fail
  | fuel + 1, limit, p => do
    let inner ← deeper p
    match (← peek).bind unary? with
    | some op =>
      let l ← line
      take
      operators fuel limit inner (.unary op (← expression fuel unaryStrength inner) l)
    | none => operators fuel limit inner (← simple fuel inner)

/-- The binary operators that follow an operand. -/
def operators : Nat → Nat → Place → Exp → Parse Exp
  | 0, _, _, _ => fail
  | fuel + 1, limit, p, left => do
    match (← peek).bind binary? with
    | some (op, before, after) =>
      if limit < before then
        let l ← line
        take
        let right ← expression fuel after p
        let l ← if marksLine op then pure l else last
        operators fuel limit p (.binary op left right l)
      else return left
    | none => return left

/-- An operand. -/
def simple : Nat → Place → Parse Exp
  | 0, _ => fail
  | fuel + 1, p => do
    match ← peek with
    | some (.number n) => take; return .number n
    | some (.string s) => take; return .string s
    | some (.mark "nil") => take; return .nil
    | some (.mark "true") => take; return .bool true
    | some (.mark "false") => take; return .bool false
    | some (.mark "...") =>
      unless p.takesRest do fail
      take
      return .rest
    | some (.mark "\x7b") => take; return .table (← fields fuel p)
    | some (.mark "function") => take; return .function (← function fuel p [])
    | _ => suffixed fuel p

/-- A name or an expression in parentheses, with what is looked up in it or called on it. -/
def suffixed : Nat → Place → Parse Exp
  | 0, _ => fail
  | fuel + 1, p => do
    match ← peek with
    | some (.name n) =>
      take
      suffixes fuel p (.name n (← last))
    | some (.mark "(") =>
      take
      let e ← expression fuel 0 p
      expect ")"
      suffixes fuel p (.first e)
    | _ => fail

def suffixes : Nat → Place → Exp → Parse Exp
  | 0, _, _ => fail
  | fuel + 1, p, e => do
    match ← peek with
    | some (.mark ".") =>
      take
      let n ← name
      suffixes fuel p (.index e (keyOf n) (← last))
    | some (.mark "[") =>
      take
      let key ← expression fuel 0 p
      expect "]"
      suffixes fuel p (.index e key (← last))
    | some (.mark ":") =>
      take
      let n ← name
      let l ← line
      suffixes fuel p (.call (.method e n (← arguments fuel p) l))
    | some (.mark "(") | some (.mark "\x7b") | some (.string _) =>
      let l ← line
      suffixes fuel p (.call (.plain e (← arguments fuel p) l))
    | _ => return e

/-- The arguments of a call. -/
def arguments : Nat → Place → Parse (List Exp)
  | 0, _ => fail
  | fuel + 1, p => do
    match ← peek with
    | some (.string s) => take; return [.string s]
    | some (.mark "\x7b") => take; return [.table (← fields fuel p)]
    | some (.mark "(") =>
      take
      if ← accept ")" then return []
      else
        let args ← expressions fuel p
        expect ")"
        return args
    | _ => fail

/-- Expressions between commas. -/
def expressions : Nat → Place → Parse (List Exp)
  | 0, _ => fail
  | fuel + 1, p => do
    let e ← expression fuel 0 p
    if ← accept "," then return e :: (← expressions fuel p) else return [e]

/-- The entries of a table expression, up to its closing brace. -/
def fields : Nat → Place → Parse (List Field)
  | 0, _ => fail
  | fuel + 1, p => do
    if ← accept "\x7d" then return []
    else
      let entry ← field fuel p
      if (← accept ",") || (← accept ";") then return entry :: (← fields fuel p)
      else
        expect "\x7d"
        return [entry]

def field : Nat → Place → Parse Field
  | 0, _ => fail
  | fuel + 1, p => do
    match (← get).ahead.map Lexeme.token with
    | .name n :: .mark "=" :: _ =>
      take
      take
      let value ← expression fuel 0 p
      return .keyed (keyOf n) value (← last)
    | .mark "[" :: _ =>
      take
      let key ← expression fuel 0 p
      expect "]"
      expect "="
      let value ← expression fuel 0 p
      return .keyed key value (← last)
    | _ => return .item (← expression fuel 0 p)

/-- Parameters and body of a function, `implicit` parameters before those written. -/
def function : Nat → Place → List String → Parse Function
  | 0, _, _ => fail
  | fuel + 1, p, implicit => do
    expect "("
    let (written, takesRest) ← parameters fuel
    let body ← block fuel { p with inLoop := false, takesRest }
    expect "end"
    return .mk (implicit ++ written) takesRest body

/-- Parameters up to the closing parenthesis, and whether extra arguments are taken. -/
def parameters : Nat → Parse (List String × Bool)
  | 0 => fail
  | fuel + 1 => do
    if ← accept ")" then return ([], false)
    else if ← accept "..." then
      expect ")"
      return ([], true)
    else
      let n ← name
      if ← accept "," then
        if ← sees ")" then fail
        else
          let (more, takesRest) ← parameters fuel
          return (n :: more, takesRest)
      else
        expect ")"
        return ([n], false)

/-- Statements up to a word that ends a block. -/
def block : Nat → Place → Parse (List Stat)
  | 0, _ => fail
  | fuel + 1, p => do
    if ← blockEnds then return []
    else if ← accept ";" then block fuel p
    else if ← accept "return" then
      let values ← if (← blockEnds) || (← sees ";") then pure [] else expressions fuel p
      let _ ← accept ";"
      unless ← blockEnds do fail
      match values with
      | [.call c] => return [.returnCall c]
      | _ => return [.return values]
    else
      let s ← statement fuel p
      return s :: (← block fuel p)

def statement : Nat → Place → Parse Stat
  | 0, _ => fail
  | fuel + 1, p => do
    let p ← deeper p
    let loop := { p with inLoop := true }
    let start ← line
    match ← peek with
    | some (.mark "if") => take; branch fuel p
    | some (.mark "while") =>
      take
      let condition ← expression fuel 0 p
      expect "do"
      let body ← block fuel loop
      expect "end"
      return .while condition body
    | some (.mark "do") =>
      take
      let body ← block fuel p
      expect "end"
      return .block body
    | some (.mark "for") => take; counted fuel loop start
    | some (.mark "repeat") =>
      take
      let body ← block fuel loop
      expect "until"
      return .repeat body (← expression fuel 0 loop)
    | some (.mark "function") => take; named fuel p start
    | some (.mark "local") =>
      take
      if ← accept "function" then
        let n ← name
        return .declareFunction n (← function fuel p [])
      else
        let ns ← names (← name) fuel
        let values ← if ← accept "=" then expressions fuel p else pure []
        return .declare ns values
    | some (.mark "break") =>
      unless p.inLoop do fail
      take
      return .break
    -- What begins with no word of its own is an assignment or a call.
    | _ =>
      let e ← suffixed fuel p
      if (← sees "=") || (← sees ",") then assignment fuel p [e]
      else
        -- Only a call is a statement by itself.
        match e with
        | .call c => return .call c
        | _ => fail

/-- A condition, its block, and what else there is to an `if`. -/
def branch : Nat → Place → Parse Stat
  | 0, _ => fail
  | fuel + 1, p => do
    let condition ← expression fuel 0 p
    expect "then"
    let yes ← block fuel p
    if ← accept "elseif" then return .branch condition yes [← branch fuel p]
    else
      let no ← if ← accept "else" then block fuel p else pure []
      expect "end"
      return .branch condition yes no

/-- A loop over numbers or over what an iterator gives. -/
def counted : Nat → Place → Nat → Parse Stat
  | 0, _, _ => fail
  | fuel + 1, p, start => do
    let n ← name
    if ← accept "=" then
      let first ← expression fuel 0 p
      expect ","
      let limit ← expression fuel 0 p
      let step ← if ← accept "," then expression fuel 0 p else pure (.number (.int 1))
      expect "do"
      let body ← block fuel p
      expect "end"
      return .count n first limit step body start
    else
      let ns ← names n fuel
      expect "in"
      let values ← expressions fuel p
      expect "do"
      let head ← last
      let body ← block fuel p
      expect "end"
      return .each ns values body start head

/-- A function stored under a name, in a field or as a method. -/
def named : Nat → Place → Nat → Parse Stat
  | 0, _, _ => fail
  | fuel + 1, p, start => do
    let n ← name
    path fuel p start n (.name n (← last)) (.name n)

def path : Nat → Place → Nat → String → Exp → Target → Parse Stat
  | 0, _, _, _, _, _ => fail
  | fuel + 1, p, start, n, e, target => do
    if ← accept "." then
      let field ← name
      path fuel p start n (.index e (keyOf field) (← last)) (.index e (keyOf field))
    else if ← accept ":" then
      let field ← name
      return .assign [.index e (keyOf field)] [.function (← function fuel p ["self"])] start
    else return .assign [target] [.function (← function fuel p [])] start

/-- The rest of an assignment; `left` holds what was read of its left side, last first. -/
def assignment : Nat → Place → List Exp → Parse Stat
  | 0, _, _ => fail
  | fuel + 1, p, left => do
    if ← accept "," then
      let e ← suffixed fuel p
      assignment fuel (← deeper p) (e :: left)
    else
      expect "="
      let values ← expressions fuel p
      match left.reverse.mapM target? with
      | some targets => return .assign targets values (← last)
      | none => fail

end

end Parse

namespace Chunk

/-- How deep statements and expressions of a script may nest. -/
def nesting : Nat := 197

/-- Read a whole script. -/
def parse (text : String) : Except Malformed Function :=
  match Token.scan 1 text.toList with
  | none => .error (.ungrammatical 1)
  | some words =>
    let whole : Parse (List Stat) := do
      let body ← Parse.block (16 * (words.length + 1)) ⟨nesting, false, true⟩
      if (← Parse.peek).isSome then Parse.fail else return body
    match whole.run ⟨words, 1⟩ with
    | .ok (body, _) => .ok (.mk [] true body)
    | .error e => .error e

end Chunk

end Fixtures.Script
