import Fixtures.Script.Number
import Fixtures.Text.Utf8
/-!
# Values of scripts

Text is a sequence of bytes. Tables, functions, objects and threads live on a
heap and are told apart by their place there.
-/

namespace Fixtures.Script

/-- Functions that are not written in a script. -/
inductive Builtin where
  | assert
  | error
  | getmetatable
  | ipairs
  | ipairsStep
  | next
  | pairs
  | pcall
  | rawequal
  | rawget
  | rawlen
  | rawset
  | select
  | setmetatable
  | tonumber
  | tostring
  | type
  | byte
  | char
  | len
  | lower
  | rep
  | reverse
  | sub
  | upper
  | concat
  | insert
  | pack
  | remove
  | unpack
  | abs
  | ceil
  | floor
  | max
  | min
  | mathType
  | tointeger
  | newThread
  | openTable
  | row
  | find
  | load
  /-- A function that is there by name only. -/
  | idle (name : String)
  deriving DecidableEq

inductive Val where
  | nil
  | bool (b : Bool)
  | number (n : Number)
  | string (bytes : Text.Bytes)
  | table (id : Nat)
  | function (id : Nat)
  | builtin (b : Builtin)
  | object (id : Nat)
  | thread (id : Nat)
  deriving DecidableEq

namespace Val

instance : Inhabited Val := ⟨nil⟩

/-- Text as a value. -/
def text (s : String) : Val := string (Text.encode s)

def int (n : Int64) : Val := number (.int n)

/-- A place in a list as a value. -/
def nat (n : Nat) : Val := int (Int64.ofNat n)

/-- Anything but `nil` and `false` counts as true. -/
def isTrue : Val → Bool
  | nil | bool false => false
  | _ => true

/-- Equality of scripts where no metatable has a say: numbers compare by value. -/
def same : Val → Val → Bool
  | number a, number b => a.same b
  | a, b => a = b

/-- The value as a key of a table: a whole float counts as the integer, `nil` and a NaN are no keys. -/
def key? : Val → Option Val
  | nil => none
  | number (.float x) =>
    match Number.word? (.float x) with
    | some w => some (int w)
    | none => if x == x then some (number (.float x)) else none
  | k => some k

/-- The name of the type of a value. -/
def kind : Val → String
  | nil => "nil"
  | bool _ => "boolean"
  | number _ => "number"
  | string _ => "string"
  | table _ => "table"
  | function _ | builtin _ => "function"
  | object _ => "userdata"
  | thread _ => "thread"

/-- A number, or text that writes one. -/
def asNumber? : Val → Option Number
  | number n => some n
  | string s => (Text.decode? s).bind Number.ofText?
  | _ => none

/-- An integer, or a number or text of the same value as one. -/
def asInteger? (v : Val) : Option Int64 := v.asNumber?.bind Number.word?

/-- Text, or a number as text. -/
def asBytes? : Val → Option Text.Bytes
  | string s => some s
  | number n => some (Text.encode n.text)
  | _ => none

/-- Text, or a number as text, for messages and names. -/
def asText? (v : Val) : Option String := v.asBytes?.map Text.decode

end Val

end Fixtures.Script
