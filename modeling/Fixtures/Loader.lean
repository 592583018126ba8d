import Fixtures.Options
import Fixtures.Session
import Fixtures.Source
/-!
# Loading batches of scripts

Scripts of a batch run in order, each on an engine state of its own and in a
transaction of its own. A script sees the inputs and what the scripts before it
left behind; its own outputs are merged into these, under its label if it has
one. A script may load others while it runs: they run the same way, with no
context open, inside the transaction of the script that loads them.

When a script is done its state is given up. An engine may let the script have
a last word then, which can ask for all that the script could ask for. By then
the transaction of the script is closed.
-/

namespace Fixtures

/-- What runs scripts: `σ` is the state a script runs on. -/
structure Engine (σ : Type) where
  /-- A fresh state that knows the entity types and the variables. -/
  prepare : Catalog → Variables → σ
  /-- The run of a script's text under its name: how it ended, and the state then. -/
  execute : (name text : String) → σ → Program (Except Failure Unit × σ)
  /-- The outputs of a script, and what was reported while collecting them. -/
  capture : σ → List Event × Except Failure Variables
  /-- What is still done when a state is given up. Nobody is told how it ends. -/
  discard : σ → Program Unit

/-- A loader: the types scripts know, where their text comes from, and its options. -/
structure Loader where
  types : Catalog
  source : Source := .shelf []
  options : Options := {}

namespace Loader

/-- Add a script's outputs to the variables. -/
def merge (vars : Variables) (script : ScriptRef) (outputs : Variables) : Variables :=
  match script.namespace? with
  | some label => vars.insert label (.map outputs)
  | none => vars.extend outputs

/-- Answer loads from inside a script: the loaded scripts have no context open. -/
def withoutContexts {α : Type} (work : Session → α × Session) (s : Session) : α × Session :=
  let (a, s') := work { s with contexts := [] }
  (a, { s' with contexts := s.contexts })

/-- Run the text of a script, given what its own loads do: how it ends, and the state then. -/
def body {σ : Type} (engine : Engine σ) (l : Loader)
    (load : List ScriptRef → Session → Except Failure Variables × Session)
    (vars : Variables) (script : ScriptRef) (text : String) (s : Session) : (Except Failure Unit × σ) × Session :=
  (engine.execute script.name text (engine.prepare l.types vars)).runIn (fun scripts => withoutContexts (load scripts)) s

/-- Report how a script ended, and return its outputs beside its state. -/
def conclude {σ : Type} (engine : Engine σ) (script : ScriptRef) :
    (Except Failure Unit × σ) × Session → (Except Failure Variables × σ) × Session
  | ((.error f, state), s) => ((.error f, state), s.note (.scriptFailed script f))
  | ((.ok (), state), s) =>
    -- The script has committed by now, so outputs that cannot be read do not undo it.
    let (events, outputs) := engine.capture state
    let s := s.noteAll events
    match outputs with
    | .error f => ((.error f, state), s)
    | .ok outputs => ((.ok outputs, state), s.note (.scriptDone script outputs.length))

/-- Run one script in a transaction of its own, given what its own loads do, and return its outputs beside the
state that is to be given up. -/
def produce {σ : Type} (engine : Engine σ) (l : Loader)
    (load : List ScriptRef → Session → Except Failure Variables × Session)
    (vars : Variables) (script : ScriptRef) (s : Session) : (Except Failure Variables × σ) × Session :=
  let path := l.options.resolve script.name
  let s := s.note (.loading script path)
  match l.source.read path with
  | .error f => ((.error f, engine.prepare l.types vars), s)
  | .ok text => conclude engine script (s.exec (l.body engine load vars script text))

/-- Give up the state of a script, given what its own loads do. What is asked for then is no longer part of the
transaction of the script. -/
def giveUp {σ : Type} (engine : Engine σ)
    (load : List ScriptRef → Session → Except Failure Variables × Session) (state : σ) (s : Session) : Session :=
  ((engine.discard state).runIn (fun scripts => withoutContexts (load scripts)) s).2

/-- Run one script and return its outputs, given what its own loads do. -/
def runScript {σ : Type} (engine : Engine σ) (l : Loader)
    (load : List ScriptRef → Session → Except Failure Variables × Session)
    (vars : Variables) (script : ScriptRef) (s : Session) : Except Failure Variables × Session :=
  let ((outputs, state), s) := l.produce engine load vars script s
  (outputs, giveUp engine load state s)

/-- Run scripts in order, each with the variables so far, up to the first that fails. -/
def runAll (run : Variables → ScriptRef → Session → Except Failure Variables × Session) :
    Variables → List ScriptRef → Session → Except Failure Variables × Session
  | vars, [], s => (.ok vars, s)
  | vars, script :: rest, s =>
    match run vars script s with
    | (.error f, s) => (.error f, s)
    | (.ok outputs, s) => runAll run (merge vars script outputs) rest s

/-- Too many loads are under way to load these scripts as well. -/
def tooDeep (l : Loader) (scripts : List ScriptRef) : Failure :=
  .loadTooDeep l.options.maxLoadDepth (scripts.map ScriptRef.display)

/-- Load scripts, given what their own loads do, unless too many loads are under way. -/
def loadOnce {σ : Type} (engine : Engine σ) (l : Loader)
    (load : List ScriptRef → Session → Except Failure Variables × Session)
    (scripts : List ScriptRef) (s : Session) : Except Failure Variables × Session :=
  match l.options.validate with
  | .error f => (.error f, s)
  | .ok () =>
    if l.options.maxLoadDepth < s.loadDepth + 1 then (.error (l.tooDeep scripts), s)
    else
      let s := { s with loadDepth := s.loadDepth + 1 }
      let (result, s) := runAll (l.runScript engine load) l.options.inputs scripts s
      (result, { s with loadDepth := s.loadDepth - 1 })

/-- Load scripts, with at most so many levels of loads inside. The session counts the loads; the levels
bound the recursion and are never used up first, since they start from the greatest count allowed. -/
def loadWithin {σ : Type} (engine : Engine σ) (l : Loader) :
    Nat → List ScriptRef → Session → Except Failure Variables × Session
  | 0 => l.loadOnce engine fun scripts s => (.error (l.tooDeep scripts), s)
  | levels + 1 => l.loadOnce engine (loadWithin engine l levels)

/-- Load scripts in order and return the accumulated variables. -/
def load {σ : Type} (engine : Engine σ) (l : Loader) (scripts : List ScriptRef) (s : Session) :
    Except Failure Variables × Session :=
  loadWithin engine l l.options.maxLoadDepth scripts s

end Loader

end Fixtures
