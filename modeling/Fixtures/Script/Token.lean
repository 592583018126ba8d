import Fixtures.Script.Number
import Fixtures.Text.Utf8
/-!
# Words of a script

`scan` splits a script into words and notes the line each ends on. Blanks and
comments separate words and are dropped.
-/

namespace Fixtures.Script

inductive Token where
  | name (text : String)
  /-- A reserved word, an operator or a bracket. -/
  | mark (text : String)
  | number (n : Number)
  | string (bytes : Text.Bytes)
  deriving DecidableEq

structure Lexeme where
  token : Token
  line : Nat

namespace Token

def reserved : List String :=
  ["and", "break", "do", "else", "elseif", "end", "false", "for", "function", "goto", "if", "in", "local", "nil",
    "not", "or", "repeat", "return", "then", "true", "until", "while"]

/-- Operators and brackets, longer ones before those they begin with. -/
def marks : List String :=
  ["...", "..", "==", "~=", "<=", ">=", "//", "::", "<<", ">>", "+", "-", "*", "/", "%", "^", "#", "&", "~", "|",
    "<", ">", "=", "(", ")", "\x7b", "\x7d", "[", "]", ";", ":", ",", "."]

def isLetter (c : Char) : Bool := ('a' ≤ c && c ≤ 'z') || ('A' ≤ c && c ≤ 'Z') || c = '_'

def isNewline (c : Char) : Bool := c = '\n' || c = '\r'

/-- What follows a line break, which may be written as two different characters. -/
def afterNewline : List Char → List Char
  | '\r' :: '\n' :: rest | '\n' :: '\r' :: rest => rest
  | _ :: rest => rest
  | [] => []

theorem length_afterNewline (c : Char) (cs : List Char) : (afterNewline (c :: cs)).length ≤ cs.length := by
  unfold afterNewline
  split <;> simp_all

/-- What a scanner is left with: the line it is on, and the characters to come. -/
abbrev Rest := Nat × List Char

/-- The number of `=` in an opening bracket `[==[` whose first `[` has been read, and what follows it. -/
def openBracket? (cs : List Char) : Option (Nat × List Char) :=
  match cs.dropWhile (· = '=') with
  | '[' :: rest => some ((cs.takeWhile (· = '=')).length, rest)
  | _ => none

/-- The text up to a closing bracket with `level` times `=`. Line breaks count as one character. -/
def longText (level : Nat) (acc : List Char) (line : Nat) : List Char → Option (List Char × Rest)
  | [] => none
  | c :: cs =>
    if c = ']' ∧ cs.takeWhile (· = '=') = List.replicate level '=' ∧ (cs.drop level).head? = some ']' then
      some (acc.reverse, line, cs.drop (level + 1))
    else if isNewline c then longText level ('\n' :: acc) (line + 1) (afterNewline (c :: cs))
    else longText level (c :: acc) line cs
termination_by cs => cs.length
decreasing_by
  · have := length_afterNewline c cs
    simp only [List.length_cons]
    omega
  · simp

/-- The text of a long bracket after its opening; a line break right there is dropped. -/
def longBracket (level line : Nat) (cs : List Char) : Option (List Char × Rest) :=
  match cs with
  | c :: _ => if isNewline c then longText level [] (line + 1) (afterNewline cs) else longText level [] line cs
  | [] => none

/-- A code point in the UTF-8 scheme, extended to 31 bits. -/
def encoded (n : Nat) : List UInt8 :=
  if n < 0x80 then [n.toUInt8]
  else
    let tails :=
      if n < 0x800 then 1 else if n < 0x10000 then 2 else if n < 0x200000 then 3 else if n < 0x4000000 then 4 else 5
    let lead := 256 - Nat.pow 2 (7 - tails) + n / Nat.pow 64 tails
    lead.toUInt8 :: ((List.range tails).reverse.map fun i => (0x80 + n / Nat.pow 64 i % 64).toUInt8)

/-- The bytes an escape stands for, and how many characters it takes after the backslash. Line breaks and
`\z` are not among these. -/
def escape? : List Char → Option (List UInt8 × Nat)
  | 'a' :: _ => some ([7], 1)
  | 'b' :: _ => some ([8], 1)
  | 'f' :: _ => some ([12], 1)
  | 'n' :: _ => some ([10], 1)
  | 'r' :: _ => some ([13], 1)
  | 't' :: _ => some ([9], 1)
  | 'v' :: _ => some ([11], 1)
  | '\\' :: _ => some ([92], 1)
  | '"' :: _ => some ([34], 1)
  | '\'' :: _ => some ([39], 1)
  | 'x' :: a :: b :: _ => do
    let high ← Number.hexDigit? a
    let low ← Number.hexDigit? b
    return ([(high * 16 + low).toUInt8], 3)
  | 'u' :: '\x7b' :: rest =>
    let digits := rest.takeWhile fun c => (Number.hexDigit? c).isSome
    let n := Number.ofDigits 16 digits
    if digits ≠ [] ∧ n < 0x80000000 ∧ (rest.drop digits.length).head? = some '\x7d' then
      some (encoded n, digits.length + 3)
    else none
  | cs =>
    let digits := (cs.take 3).takeWhile Number.isDigit
    let n := Number.ofDigits 10 digits
    if digits ≠ [] ∧ n < 256 then some ([n.toUInt8], digits.length) else none

def bytesOf (c : Char) : Text.Bytes := Text.encode (String.singleton c)

/-- Skip blanks, counting lines. -/
def skipBlanks (line : Nat) : List Char → Rest
  | [] => (line, [])
  | c :: cs =>
    if isNewline c then skipBlanks (line + 1) (afterNewline (c :: cs))
    else if Number.isBlank c then skipBlanks line cs
    else (line, c :: cs)
termination_by cs => cs.length
decreasing_by
  · have := length_afterNewline c cs
    simp only [List.length_cons]
    omega
  · simp

theorem length_skipBlanks (line : Nat) (cs : List Char) : (skipBlanks line cs).2.length ≤ cs.length := by
  fun_induction skipBlanks line cs with
  | case1 => simp
  | case2 line c cs _ ih =>
    have := length_afterNewline c cs
    simp only [List.length_cons]
    omega
  | case3 line c cs _ _ ih =>
    simp only [List.length_cons]
    omega
  | case4 => simp

/-- The bytes of a string up to its closing quote. -/
def quoted (quote : Char) (acc : List UInt8) (line : Nat) : List Char → Option (List UInt8 × Rest)
  | [] => none
  | c :: cs =>
    if c = quote then some (acc.reverse, line, cs)
    else if isNewline c then none
    else if c = '\\' then
      match cs with
      | [] => none
      | d :: rest =>
        if isNewline d then quoted quote (10 :: acc) (line + 1) (afterNewline (d :: rest))
        else if d = 'z' then quoted quote acc (skipBlanks line rest).1 (skipBlanks line rest).2
        else
          match escape? (d :: rest) with
          | none => none
          | some (bytes, n) => quoted quote (bytes.reverse ++ acc) line ((d :: rest).drop n)
    else quoted quote ((bytesOf c).reverse ++ acc) line cs
termination_by cs => cs.length
decreasing_by
  · have := length_afterNewline d rest
    simp only [List.length_cons]
    omega
  · have := length_skipBlanks line rest
    simp only [List.length_cons]
    omega
  · simp only [List.length_cons, List.length_drop]
    omega
  · simp

/-- The length of a numeral: digits, points, and letters of an exponent, which a sign may follow. -/
def numeralLength (isMarker : Char → Bool) (signed : Bool) : List Char → Nat
  | [] => 0
  | c :: rest =>
    if signed ∧ (c = '+' ∨ c = '-') then numeralLength isMarker false rest + 1
    else if isMarker c then numeralLength isMarker true rest + 1
    else if (Number.hexDigit? c).isSome ∨ c = '.' then numeralLength isMarker false rest + 1
    else 0

/-- A numeral and what follows it. A letter that touches it makes it malformed. -/
def numeral? (cs : List Char) : Option (Number × List Char) :=
  let n := match cs with
    | '0' :: x :: rest =>
      if x = 'x' ∨ x = 'X' then numeralLength (fun c => c = 'p' || c = 'P') false rest + 2
      else numeralLength (fun c => c = 'e' || c = 'E') false cs
    | _ => numeralLength (fun c => c = 'e' || c = 'E') false cs
  if ((cs.drop n).head?.map isLetter).getD false then none
  else (Number.ofText? (String.ofList (cs.take n))).map fun number => (number, cs.drop n)

/-- What reading one word came to. -/
inductive Reading where
  | malformed
  | ended
  | word (t : Token) (rest : Rest)
  | comment (rest : Rest)

/-- Read the word or the comment that comes first after blanks. -/
def read (line : Nat) (cs : List Char) : Reading :=
  let (line, cs) := skipBlanks line cs
  match cs with
  | [] => .ended
  | '-' :: '-' :: rest =>
    let toNewline := Reading.comment (line, rest.dropWhile fun c => !isNewline c)
    match rest with
    | '[' :: inner =>
      match openBracket? inner with
      | some (level, inner) =>
        match longBracket level line inner with
        | some (_, rest) => .comment rest
        | none => .malformed
      | none => toNewline
    | _ => toNewline
  | c :: rest =>
    let pointed := c = '.' ∧ (rest.head?.map Number.isDigit).getD false
    if isLetter c then
      let isPart (c : Char) := isLetter c || Number.isDigit c
      let text := String.ofList (cs.takeWhile isPart)
      .word (if reserved.contains text then .mark text else .name text) (line, cs.dropWhile isPart)
    else if Number.isDigit c ∨ pointed then
      match numeral? cs with
      | some (n, rest) => .word (.number n) (line, rest)
      | none => .malformed
    else if c = '"' ∨ c = '\'' then
      match quoted c [] line rest with
      | some (bytes, rest) => .word (.string bytes) rest
      | none => .malformed
    else
      -- A bracket that opens no long text is a mark.
      match if c = '[' then openBracket? rest else none with
      | some (level, inner) =>
        match longBracket level line inner with
        | some (text, rest) => .word (.string (Text.encode (String.ofList text))) rest
        | none => .malformed
      | none =>
        match marks.find? fun m => m.toList.isPrefixOf cs with
        | some m => .word (.mark m) (line, cs.drop m.length)
        | none => .malformed

/-- The words of a script, if all are well formed. Each takes characters, so the list ends. -/
def scan (line : Nat) (cs : List Char) : Option (List Lexeme) :=
  match read line cs with
  | .malformed => none
  | .ended => some []
  | .word t (line, rest) =>
    if _h : rest.length < cs.length then (scan line rest).map (⟨t, line⟩ :: ·) else none
  | .comment (line, rest) => if _h : rest.length < cs.length then scan line rest else none
termination_by cs.length

end Token

end Fixtures.Script
