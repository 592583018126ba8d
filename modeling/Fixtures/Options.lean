import Fixtures.Failure
import Fixtures.Text.Path
/-!
# Options of a loader

Where scripts lie, which variables every script sees, and how deep loads
started by scripts may nest.
-/

namespace Fixtures

structure Options where
  scriptDirectory : Option String := none
  inputs : Variables := []
  maxLoadDepth : Nat := 32

namespace Options

/-- Add one input variable. -/
def withInput (o : Options) (name : String) (v : Value) : Options := { o with inputs := o.inputs.insert name v }

/-- Where the script of a name lies. -/
def resolve (o : Options) (name : String) : String :=
  match o.scriptDirectory with
  | some dir => Text.join dir name
  | none => name

/-- The first thing wrong with the options. -/
def validate (o : Options) : Except Failure Unit :=
  if o.maxLoadDepth = 0 then .error .noLoadDepth
  else if o.scriptDirectory = some "" then .error .emptyScriptDirectory
  else if o.inputs.keys.any (· = "") then .error .emptyInputName
  else .ok ()

end Options

end Fixtures
