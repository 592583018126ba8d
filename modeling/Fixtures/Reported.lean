import Fixtures.Event
/-!
# Results with a report

Work that may fail and reports events on its way. What was reported before a
failure stays reported.
-/

namespace Fixtures

/-- The events reported, and the result. -/
def Reported (α : Type) : Type := List Event × Except Failure α

namespace Reported

instance : Monad Reported where
  pure a := ([], .ok a)
  bind x f :=
    match x with
    | (events, .ok a) => (events ++ (f a).1, (f a).2)
    | (events, .error e) => (events, .error e)

def note (e : Event) : Reported Unit := ([e], .ok ())

def fail {α : Type} (f : Failure) : Reported α := ([], .error f)

/-- What was reported. -/
def events {α : Type} (r : Reported α) : List Event := r.1

def result {α : Type} (r : Reported α) : Except Failure α := r.2

end Reported

end Fixtures
