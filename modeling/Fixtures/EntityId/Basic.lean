import Fixtures.Text.Quoted
import Fixtures.Value.Basic
/-!
# Entity identifiers

Entities of a type are kept apart by an identifier, a number or a text. Whole
floats count as the integers they are. Numbers come before texts.
-/

namespace Fixtures

inductive EntityId where
  | int (n : Int64)
  | text (s : String)
  deriving DecidableEq

namespace EntityId

/-- Integers in their order, then texts in theirs. -/
instance : Ord EntityId where
  compare
    | int a, int b => compare a b
    | int _, text _ => .lt
    | text _, int _ => .gt
    | text a, text b => compare a b

@[simp] theorem compare_int (a b : Int64) : compare (int a) (int b) = compare a b := rfl
@[simp] theorem compare_int_text (a : Int64) (b : String) : compare (int a) (text b) = .lt := rfl
@[simp] theorem compare_text_int (a : String) (b : Int64) : compare (text a) (int b) = .gt := rfl
@[simp] theorem compare_text (a b : String) : compare (text a) (text b) = compare a b := rfl

instance : Std.OrientedOrd EntityId where
  eq_swap {a b} := by
    cases a <;> cases b <;> simp
    · exact Std.OrientedCmp.eq_swap
    · exact Std.OrientedCmp.eq_swap

instance : Std.TransOrd EntityId where
  isLE_trans {a b c} := by
    cases a <;> cases b <;> cases c <;> simp
    · exact Std.TransCmp.isLE_trans
    · exact Std.TransCmp.isLE_trans

instance : Std.LawfulEqOrd EntityId where
  eq_of_compare {a b} h := by
    cases a <;> cases b <;> simp at h ⊢ <;> exact h

/-- An identifier as an attribute value. -/
def toValue : EntityId → Value
  | int n => .integer n
  | text s => .string s

/-- A value as an identifier: numbers that are whole, and strings. -/
def ofValue? (v : Value) : Option EntityId :=
  match v.asInteger? with
  | some n => some (.int n)
  | none => v.asString?.map text

/-- An identifier as text; a textual one is quoted. -/
def display : EntityId → String
  | int n => toString n.toInt
  | text s => Text.quote s

end EntityId

end Fixtures
