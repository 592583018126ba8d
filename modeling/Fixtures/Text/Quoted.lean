import Fixtures.Text.Unprintable
/-!
# Quoted text

Text between double quotes: a quote, a backslash and the common controls are
escaped by a backslash, other characters without a glyph by their code point
in hexadecimal.
-/

namespace Fixtures.Text

/-- `n` in lowercase hexadecimal. -/
def hex (n : Nat) : List Char := Nat.toDigits 16 n

/-- The written form of one character between quotes. -/
def quoteChar (c : Char) : List Char :=
  match c with
  | '"' => ['\\', '"']
  | '\\' => ['\\', '\\']
  | '\n' => ['\\', 'n']
  | '\r' => ['\\', 'r']
  | '\t' => ['\\', 't']
  | '\x00' => ['\\', '0']
  | c => if unprintable c then ['\\', 'u', '\x7b'] ++ hex c.toNat ++ ['\x7d'] else [c]

/-- `s` between quotes. -/
def quote (s : String) : String := String.ofList ('"' :: s.toList.flatMap quoteChar ++ ['"'])

end Fixtures.Text
