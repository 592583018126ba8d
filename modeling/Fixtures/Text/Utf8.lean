/-!
# Reading bytes as UTF-8

`decode` reads bytes as text. Where they are not UTF-8, each longest run of
bytes that could still have begun a character, or else a single byte, becomes
one replacement character. `decode_encode` says that text survives.
-/

namespace Fixtures.Text

abbrev Bytes := List UInt8

/-- A byte that continues a character. -/
def isTail (b : UInt8) : Bool := 0x80 ≤ b && b ≤ 0xBF

/-- A second byte that may follow the first byte `a` of a character of three or four bytes. -/
def maySecond (a b : UInt8) : Bool :=
  if a = 0xE0 then 0xA0 ≤ b && b ≤ 0xBF
  else if a = 0xED then 0x80 ≤ b && b ≤ 0x9F
  else if a = 0xF0 then 0x90 ≤ b && b ≤ 0xBF
  else if a = 0xF4 then 0x80 ≤ b && b ≤ 0x8F
  else isTail b

/-- The number of bytes of a character whose first byte is `a`; zero if no character starts so. -/
def widthOf (a : UInt8) : Nat :=
  if a < 0x80 then 1
  else if 0xC2 ≤ a && a ≤ 0xDF then 2
  else if 0xE0 ≤ a && a ≤ 0xEF then 3
  else if 0xF0 ≤ a && a ≤ 0xF4 then 4
  else 0

/-- The bytes of `rest` that continue the character begun by `a`. -/
def tailsOf (a : UInt8) (rest : List UInt8) : List UInt8 :=
  match widthOf a, rest with
  | 0, _ | 1, _ | _, [] => []
  | 2, b :: _ => if isTail b then [b] else []
  | n + 3, b :: more => if maySecond a b then b :: (more.take (n + 1)).takeWhile isTail else []

/-- The character `a` begins, given all its tails: the low bits of every byte put together. -/
def charOf (a : UInt8) (tails : List UInt8) : Char :=
  if tails.length + 1 = widthOf a then
    let lead := if tails = [] then a.toNat else a.toNat % Nat.pow 2 (6 - tails.length)
    Char.ofNat (tails.foldl (fun n b => n * 64 + b.toNat % 64) lead)
  else '\uFFFD'

/-- Decode the characters of a byte list, a replacement character for what is none. -/
def decodeList : List UInt8 → List Char
  | [] => []
  | a :: rest =>
    let tails := tailsOf a rest
    charOf a tails :: decodeList (rest.drop tails.length)
termination_by l => l.length
decreasing_by
  simp only [List.length_drop, List.length_cons]
  omega

/-- Text as bytes. -/
def encode (s : String) : Bytes := s.toUTF8.data.toList

/-- Bytes as text, if they are UTF-8. -/
def decode? (b : Bytes) : Option String := String.fromUTF8? ⟨b.toArray⟩

/-- Bytes as text. -/
def decode (b : Bytes) : String := (decode? b).getD (String.ofList (decodeList b))

/-- Written text is UTF-8. -/
theorem decode?_encode (s : String) : decode? (encode s) = some s := by
  have h : String.fromUTF8? s.toByteArray = some s := by
    simp only [String.fromUTF8?, String.fromUTF8, s.isValidUTF8, dite_true]
  rw [decode?, encode, Array.toArray_toList]
  exact h

/-- Text survives being written as bytes. -/
theorem decode_encode (s : String) : decode (encode s) = s := by
  simp only [decode, decode?_encode, Option.getD_some]

end Fixtures.Text
