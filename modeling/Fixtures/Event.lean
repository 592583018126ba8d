import Fixtures.Failure
import Fixtures.ScriptRef
/-!
# The journal

What the library reports while it works. An event has a level and a text;
how long a script took is known only to whoever writes the journal out.
-/

namespace Fixtures

inductive Level where
  | debug
  | info
  | warn
  deriving DecidableEq

inductive Event where
  | committing (writes : Nat)
  | rollingBack (writes : Nat)
  | closingOutOfOrder (depth openedAt : Nat)
  | loading (script : ScriptRef) (path : String)
  | scriptFailed (script : ScriptRef) (failure : Failure)
  | scriptDone (script : ScriptRef) (captured : Nat)
  | skippedCycle
  | skippedKey (kind : String)
  | skippedEntry (key kind : String)
  | notCaptured (name kind : String)
  deriving DecidableEq

namespace Event

def level : Event → Level
  | rollingBack _ | closingOutOfOrder .. | scriptFailed .. => .warn
  | scriptDone .. => .info
  | _ => .debug

/-- An event in words, given how long its script took. -/
def text (elapsed : String) : Event → String
  | committing writes => s!"Committing {writes} buffered write(s)"
  | rollingBack writes => s!"Rolling back {writes} buffered write(s)"
  | closingOutOfOrder depth openedAt =>
    s!"Entity context stack depth is {depth} while closing frame opened at depth {openedAt}"
  | loading script path => s!"Loading fixture script {script.display} from {path}"
  | scriptFailed script failure => s!"Fixture script {script.display} failed: {failure.message}"
  | scriptDone script captured =>
    s!"Fixture script {script.display} executed successfully in {elapsed} ({captured} variable(s) captured)"
  | skippedCycle => "Skipping self-referencing table"
  | skippedKey kind => s!"Skipping table entry with {kind} key"
  | skippedEntry key kind => s!"Skipping table entry '{key}' holding a {kind}"
  | notCaptured name kind => s!"Not capturing '{name}': a {kind} is not data"

end Event

end Fixtures
