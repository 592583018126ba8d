/-!
# References to scripts

A script is referred to by its name, and by a label if its outputs are to be
kept apart under it. An empty label counts as none.
-/

namespace Fixtures

structure ScriptRef where
  name : String
  label : Option String := none
  deriving DecidableEq

namespace ScriptRef

/-- The label, unless it is empty. -/
def namespace? (r : ScriptRef) : Option String := r.label.filter fun label => label ≠ ""

/-- The reference as text. -/
def display (r : ScriptRef) : String :=
  match r.namespace? with
  | some label => r.name ++ " as " ++ label
  | none => r.name

end ScriptRef

end Fixtures
