import Fixtures.Proofs.Blocks
import Fixtures.Proofs.Conduct
import Fixtures.Proofs.Nesting
import Fixtures.Proofs.Prebound
/-!
# Failures that no script catches

Outside of scripts a failure is a result, inside them it is a raised value that
stands for it. It changes from one to the other at every block, script and load
that it leaves, and stays the same failure all the way to the host: see
`uncaught_failure_returned`. A value that stands for no failure becomes one at
the first of these boundaries.

What becomes of failures inside scripts is up to the engine, which has to tell
it truly (`Engine.Tells`): they are caught, or set aside while something is
closed on their way, and may be raised again after that. The engine of the
supported part of Lua (see `Fixtures.Script.Syntax`) does (`engine_tells`).
Scripts can lose failures they do not catch (`failures_lost_in_scripts`): to
what a value raises that is closed meanwhile, and in finalizers.
-/

namespace Fixtures

open Script

/-! ## Scopes and blocks -/

theorem Store.closeScope_failed (scope : Scope) (s : Store) : (s.closeScope scope false).1 = .ok () := by
  obtain ⟨_ | _⟩ := scope
  · rw [closeScope_inside]
  · rw [closeScope_rollback (.inl rfl)]
    rfl

namespace Session

/-- A unit of work that fails ends with its own failure, whatever else its scope would have to say. -/
theorem exec_failed {α β : Type} {work : Session → (Except Failure α × β) × Session} {s : Session} {f : Failure}
    (h : (work s.entered).1.1 = .error f) : (s.exec work).1.1 = .error f := by
  have hfailed : Ending.succeeded (work s.entered).1 = false := by
    show Ending.succeeded (work s.entered).1.1 = false
    rw [h]
    rfl
  rw [exec_fst, hfailed, Store.closeScope_failed]
  exact h

theorem table_failed {β : Type} {schema : Schema} {block : Session → (Except Failure Unit × β) × Session}
    {s : Session} {f : Failure} (h : (block (s.inBlock schema)).1.1 = .error f) :
    (s.table schema block).1.1 = .error f :=
  congrArg (created · _) h

end Session

/-- A call that fails is among the requests of a run that are refused. -/
theorem Program.mem_refusals {α : Type} {load : List ScriptRef → Session → Except Failure Variables × Session}
    {call : LoadCall} {f : Failure} (hf : (load call.scripts call.session).1 = .error f) (p : Program α) {s : Session}
    (hcall : call ∈ p.calls load s) : f ∈ p.refusals load s := by
  induction p generalizing s with
  | done a => cases hcall
  | note e next ih => exact ih () hcall
  | row _ _ ih | find _ _ _ ih => exact List.mem_append_right _ (ih _ hcall)
  | load scripts next ih =>
    rcases List.mem_cons.1 hcall with rfl | hcall
    · refine List.mem_append_left _ ?_
      rw [hf]
      exact List.mem_singleton_self f
    · exact List.mem_append_right _ (ih _ hcall)
  | table schema block next ihBlock ih =>
    rcases List.mem_append.1 hcall with hcall | hcall
    · exact List.mem_append_left _ (List.mem_append_left _ (ihBlock hcall))
    · exact List.mem_append_right _ (ih _ _ hcall)

/-! ## Where a raised value becomes a failure -/

namespace Script

variable {types : Catalog} {load : List ScriptRef → Session → Except Failure Variables × Session}

/-- What a raised value is told as: the failure it stands for, or else one of the script with its text. -/
inductive Told (types : Catalog) (load : List ScriptRef → Session → Except Failure Variables × Session) (v : Val)
    (h : Heap) (s : Session) : Failure → Prop
  | stands {f : Failure} (hf : h.failure? v = some f) : Told types load v h s f
  | shown {text : Text.Bytes} (hf : h.failure? v = none)
    (ht : ((display (call types) [none] v h).runIn load s).1.1 = .ok text) :
    Told types load v h s (Vocabulary.plainFailure text)

theorem Told.failureOf {v : Val} {h : Heap} {s : Session} {f : Failure} (ht : Told types load v h s f) :
    ((Vocabulary.failureOf (call types) Vocabulary.raiseLimit v h).runIn load s).1.1 = f := by
  unfold Vocabulary.raiseLimit Vocabulary.failureOf
  cases ht with
  | stands hf =>
    rw [hf]
    rfl
  | shown hf ht =>
    rw [hf]
    dsimp only
    rw [Program.runIn_bind]
    rcases hd : (display (call types) [none] v h).runIn load s with ⟨⟨w | text, h'⟩, s'⟩
    · rw [hd] at ht
      cases ht
    · rw [hd] at ht
      cases ht
      rfl

/-- What ends with a raised value is settled as a failure. -/
theorem settle_told {α : Type} {x : Eval α} {h h' : Heap} {s s' : Session} {v : Val} {f : Failure}
    (hx : (x h).runIn load s = ((.error v, h'), s')) (ht : Told types load v h' s' f) :
    ((Vocabulary.settle (call types) x h).runIn load s).1.1 = .error f := by
  unfold Vocabulary.settle
  rw [Program.runIn_bind, hx]
  dsimp only
  rw [Program.runIn_bind]
  exact congrArg Except.error ht.failureOf

/-- A block that ends with a raised value raises one that stands for the failure it is told as. -/
theorem block_told {schema : Schema} {body : Eval Unit} {h h' : Heap} {s s' : Session} {v : Val} {f : Failure}
    (hx : (body h).runIn load (s.inBlock schema) = ((.error v, h'), s')) (ht : Told types load v h' s' f) :
    ∃ w h'', ((Vocabulary.block (call types) schema body h).runIn load s).1 = (.error w, h'') ∧
      h''.failure? w = some f ∧ h''.fates.head? = some (.raised f) := by
  let settled := (Vocabulary.settle (call types) body h).runIn load
  have htable : (s.table schema settled).1.1 = .error f := Session.table_failed (settle_told hx ht)
  obtain ⟨w, h'', hraise, hw, hfates⟩ := @Eval.fault_eq (List Entity) (.failure f) (s.table schema settled).1.2
  refine ⟨w, h'', ?_, hw, hfates ▸ rfl⟩
  show (Program.runIn load ((Eval.orFail (s.table schema settled).1.1 : Eval (List Entity))
    (s.table schema settled).1.2) (s.table schema settled).2).1 = _
  rw [htable]
  show (Program.runIn load ((Eval.fault (.failure f) : Eval (List Entity)) _) _).1 = _
  rw [hraise]
  rfl

end Script

/-! ## What scripts let pass -/

/-- An engine tells truly what becomes of failures in the scripts it runs: all that a script is refused is raised in it,
nothing else comes between that and what becomes of it, and a script ends with the failure that was raised last if
nothing has become of it. -/
def Engine.Tells {σ : Type} (engine : Engine σ) (tell : σ → List Fate) : Prop :=
  ∀ types vars name text, (engine.execute name text (engine.prepare types vars)).Ends fun fs (result, state) =>
    (∀ f ∈ fs, .raised f ∈ tell state) ∧ Fate.Coherent (tell state) ∧
      ∀ f, Fate.inFlight (tell state) = some f → result = .error f

namespace Loader

section Passing

variable {σ : Type} (engine : Engine σ) (tell : σ → List Fate) (l : Loader)

/-- What the loads of a script do. -/
def answers (scripts : List ScriptRef) : Session → Except Failure Variables × Session :=
  withoutContexts (l.load engine scripts)

/-- What a script does. -/
def program (run : ScriptRun) (text : String) : Program (Except Failure Unit × σ) :=
  engine.execute run.script.name text (engine.prepare l.types run.vars)

/-- What became of failures in a script, last first. -/
def fates (run : ScriptRun) : List Fate :=
  match l.source.read (l.options.resolve run.script.name) with
  | .error _ => []
  | .ok text => tell ((l.program engine run text).runIn (l.answers engine) (l.opened run.script run.session)).1.2

/-- The failures of what a script asks for: rows, finds, blocks and loads. -/
def refusals (run : ScriptRun) : List Failure :=
  match l.source.read (l.options.resolve run.script.name) with
  | .error _ => []
  | .ok text => (l.program engine run text).refusals (l.answers engine) (l.opened run.script run.session)

/-- A script does not catch a failure, or raises it again after that. -/
def LetsPass (run : ScriptRun) (f : Failure) : Prop := Fate.last? (l.fates engine tell run) f ≠ some (.caught f)

/-- A script does not lose a failure while something is closed on its way. -/
def Keeps (run : ScriptRun) (f : Failure) : Prop := Fate.last? (l.fates engine tell run) f ≠ some (.aside f)

instance (run : ScriptRun) (f : Failure) : Decidable (l.LetsPass engine tell run f) :=
  inferInstanceAs (Decidable (_ ≠ _))

instance (run : ScriptRun) (f : Failure) : Decidable (l.Keeps engine tell run f) :=
  inferInstanceAs (Decidable (_ ≠ _))

/-- A call is made by a running script that lets a failure pass and does not lose it. -/
def Exposed (f : Failure) (outer inner : LoadCall) : Prop :=
  ∃ run ∈ l.started engine outer, inner ∈ l.asked engine run ∧ l.LetsPass engine tell run f ∧ l.Keeps engine tell run f

variable {engine tell l}

/-- All that a script is refused is raised in it, and the failure that is in flight when it ends is its result. -/
theorem outcome_told (hengine : engine.Tells tell) {run : ScriptRun} {text : String}
    (ht : l.source.read (l.options.resolve run.script.name) = .ok text) :
    (∀ f ∈ l.refusals engine run, .raised f ∈ l.fates engine tell run) ∧ Fate.Coherent (l.fates engine tell run) ∧
      ∀ f, Fate.inFlight (l.fates engine tell run) = some f →
        ((l.program engine run text).runIn (l.answers engine) (l.opened run.script run.session)).1.1 = .error f := by
  simp only [refusals, fates, ht]
  exact (hengine l.types run.vars run.script.name text).runIn (l.answers engine) (l.opened run.script run.session)

/-- How the text of a script ends is how the script ends, if it fails. -/
theorem produced_failed {run : ScriptRun} {text : String} {f : Failure}
    (ht : l.source.read (l.options.resolve run.script.name) = .ok text)
    (hf : ((l.program engine run text).runIn (l.answers engine) (l.opened run.script run.session)).1.1 = .error f) :
    (l.produced engine run).1.1 = .error f := by
  have hended : ((l.announced run.script run.session).exec
      (l.body engine (l.load engine) run.vars run.script text)).1.1 = .error f := Session.exec_failed hf
  rw [produced, produce_eq engine l _ _ ht, conclude_outputs, hended]
  rfl

/-- A script ends with a failure that it leaves raised. -/
theorem script_failed (hengine : engine.Tells tell) {run : ScriptRun} {f : Failure}
    (hf : f ∈ l.refusals engine run ∨ .raised f ∈ l.fates engine tell run) (hpass : l.LetsPass engine tell run f)
    (hkeep : l.Keeps engine tell run f) : (l.produced engine run).1.1 = .error f := by
  cases ht : l.source.read (l.options.resolve run.script.name) with
  | error g => simp only [refusals, fates, ht, List.not_mem_nil, or_self] at hf
  | ok text =>
    obtain ⟨hraised, hcoherent, hend⟩ := outcome_told hengine ht
    have hlast := Fate.last?_of_raised (hf.elim (hraised f) id) hpass hkeep
    exact produced_failed ht (hend f (hcoherent.inFlight_of_last hlast))

/-- The first script that fails ends the batch. -/
theorem runAll_failed {run : Variables → ScriptRef → Session → Except Failure Variables × Session} {f : Failure}
    {r : ScriptRun} (hr : (run r.vars r.script r.session).1 = .error f) (vars : Variables) (scripts : List ScriptRef)
    (s : Session) (hmem : r ∈ runs run vars scripts s) : (runAll run vars scripts s).1 = .error f := by
  induction scripts generalizing vars s with
  | nil => cases hmem
  | cons script rest ih =>
    unfold runs at hmem
    unfold runAll
    rcases hs : run vars script s with ⟨g | outputs, s'⟩
    · rw [hs] at hmem
      obtain rfl := List.mem_singleton.1 hmem
      rw [hs] at hr
      exact hr
    · rw [hs] at hmem
      rcases List.mem_cons.1 hmem with rfl | hmem
      · rw [hs] at hr
        cases hr
      · exact ih _ _ hmem

theorem load_failed_of_started {call : LoadCall} {run : ScriptRun} {f : Failure} (hrun : run ∈ l.started engine call)
    (hf : (l.produced engine run).1.1 = .error f) : (l.load engine call.scripts call.session).1 = .error f := by
  rw [load_eq, loadOnce]
  unfold started at hrun
  cases hv : l.options.validate with
  | error g =>
    rw [hv] at hrun
    cases hrun
  | ok u =>
    simp only [hv] at hrun
    by_cases hd : l.options.maxLoadDepth < call.session.loadDepth + 1
    · rw [if_pos hd] at hrun
      cases hrun
    · rw [if_neg hd] at hrun
      simp only [if_neg hd]
      exact runAll_failed hf _ _ _ hrun

/-- A failure that a script gets from a load it makes, and lets pass, is what the load around it returns. -/
theorem Exposed.failed (hengine : engine.Tells tell) {f : Failure} {outer inner : LoadCall}
    (h : l.Exposed engine tell f outer inner) (hf : (l.load engine inner.scripts inner.session).1 = .error f) :
    (l.load engine outer.scripts outer.session).1 = .error f := by
  obtain ⟨run, hrun, hcall, hpass, hkeep⟩ := h
  refine load_failed_of_started hrun (script_failed hengine (.inl ?_) hpass hkeep)
  cases ht : l.source.read (l.options.resolve run.script.name) with
  | error g => simp only [asked, ht, List.not_mem_nil] at hcall
  | ok text =>
    simp only [asked, ht] at hcall
    simp only [refusals, ht]
    obtain ⟨call, hmem, rfl⟩ := List.mem_map.1 hcall
    exact Program.mem_refusals (show (l.answers engine call.scripts call.session).1 = .error f from hf) _ hmem

end Passing

end Loader

namespace Script

/-! ## The engine of scripts -/

/-- What became of failures in a script, last first. -/
def Prepared.fates (p : Prepared) : List Fate := p.binding.heap.fates

/-- A script starts with nothing raised. -/
theorem prepare_settled (types : Catalog) (vars : Variables) : (prepare types vars).binding.heap.Settled := by
  have hstart := startCapture_bound types vars
  unfold Binding.startCapture at hstart
  split at hstart
  · cases hstart
  · have hfates : (prepare types vars).binding.heap.fates = [] := by
      rw [← Except.ok.inj hstart]
    constructor <;> rw [hfates]
    · exact .nil
    · rfl

theorem engine_tells : engine.Tells Prepared.fates := by
  intro types vars name text
  refine Program.Ends.bind (evaluate_accounts _ name text (prepare_settled types vars)) ?_
  rintro fs ⟨result, h⟩ ⟨ha, hf⟩
  refine ⟨fun f hmem => ?_, ha.coherent, fun f hfly => ?_⟩
  · exact ha.raised f (List.append_nil fs ▸ hmem)
  · rw [hf f hfly]
    rfl

end Script

namespace Loader

variable {l : Loader}

/-- A script fails by itself: its text cannot be read as one, or it ends with a raised value. -/
inductive Breaks (l : Loader) (run : ScriptRun) (f : Failure) : Prop
  | unread {text : String} (ht : l.source.read (l.options.resolve run.script.name) = .ok text)
    (hc : compile run.script.name text (prepare l.types run.vars).binding.heap = .error f)
  | raised {text : String} {fn v : Val} {h h' : Heap} {s : Session}
    (ht : l.source.read (l.options.resolve run.script.name) = .ok text)
    (hc : compile run.script.name text (prepare l.types run.vars).binding.heap = .ok (fn, h))
    (hrun : (Script.call l.types fn [] [] h).runIn (l.answers Script.engine) (l.opened run.script run.session) =
      ((.error v, h'), s))
    (hv : Told l.types (l.answers Script.engine) v h' s f)

theorem Breaks.failed {run : ScriptRun} {f : Failure} (hb : l.Breaks run f) :
    (l.produced Script.engine run).1.1 = .error f := by
  obtain ⟨text, ht, hevaluated⟩ : ∃ text, l.source.read (l.options.resolve run.script.name) = .ok text ∧
      ((evaluate l.types run.script.name text (prepare l.types run.vars).binding.heap).runIn (l.answers Script.engine)
        (l.opened run.script run.session)).1.1 = .error f := by
    obtain ⟨ht, hc⟩ | ⟨ht, hc, hrun, hv⟩ := hb
    · refine ⟨_, ht, ?_⟩
      rw [evaluate, hc]
      rfl
    · refine ⟨_, ht, ?_⟩
      rw [evaluate, hc]
      exact settle_told hrun hv
  refine produced_failed ht ?_
  show (Program.runIn _ (Prepared.execute _ text (prepare l.types run.vars)) _).1.1 = _
  rw [Prepared.execute, Program.runIn_bind]
  exact congrArg (Except.map fun _ => ()) hevaluated

end Loader

/-- A text that cannot be read is the fault of the script. -/
theorem Script.compile_failed {name text : String} {h : Heap} {f : Failure} (hc : compile name text h = .error f) :
    ∃ message, f = .script message := by
  unfold compile at hc
  split at hc
  · cases hc
    exact ⟨_, rfl⟩
  · split at hc
    · cases hc
      rename_i m _
      cases m <;> exact ⟨_, rfl⟩
    · cases hc

open Loader

/-- What a script raises or is refused, and neither catches nor loses, is what the load that runs it returns, and so on
through the loads around it to the host: for every engine that tells truly what becomes of failures, as that of scripts
does. Whatever a script ends with is returned as well; if it breaks it ends with a failure of its own. It is the same
failure all the way: values that stand for it are told as it, whatever calls they have crossed, and neither blocks nor
scopes that are rolled back put another in its place. A raised value that stands for no failure becomes one of its
script where it first leaves a block or a script. -/
theorem uncaught_failure_returned (l : Loader) :
    (∀ (σ : Type) (engine : Engine σ) (tell : σ → List Fate), engine.Tells tell →
      (∀ f host call, Relation.ReflTransGen (l.Exposed engine tell f) host call →
        (l.load engine call.scripts call.session).1 = .error f →
        (l.load engine host.scripts host.session).1 = .error f) ∧
      ∀ f call, ∀ run ∈ l.started engine call,
        f ∈ l.refusals engine run ∨ .raised f ∈ l.fates engine tell run →
        l.LetsPass engine tell run f → l.Keeps engine tell run f →
        (l.load engine call.scripts call.session).1 = .error f) ∧
    Script.engine.Tells Prepared.fates ∧
    (∀ (σ : Type) (engine : Engine σ) f call, ∀ run ∈ l.started engine call, ∀ text,
      l.source.read (l.options.resolve run.script.name) = .ok text →
      ((l.program engine run text).runIn (l.answers engine) (l.opened run.script run.session)).1.1 = .error f →
      (l.load engine call.scripts call.session).1 = .error f) ∧
    (∀ f call, ∀ run ∈ l.started Script.engine call, l.Breaks run f →
      (l.load Script.engine call.scripts call.session).1 = .error f) ∧
    (∀ name text h f, compile name text h = .error f → ∃ message, f = .script message) ∧
    (∀ load schema (body : Eval Unit) h s v h' s' f, (body h).runIn load (s.inBlock schema) = ((.error v, h'), s') →
      Told l.types load v h' s' f →
      ∃ w h'', ((Vocabulary.block (Script.call l.types) schema body h).runIn load s).1 = (.error w, h'') ∧
        h''.failure? w = some f ∧ h''.fates.head? = some (.raised f)) ∧
    (∀ (h : Heap) id (fault : Fault) n, h.object id = .fault (fault.wrapped n) →
      h.failure? (.object id) = some fault.toFailure) ∧
    (∀ (α β : Type) (work : Session → (Except Failure α × β) × Session) (s : Session) f,
      (work s.entered).1.1 = .error f → (s.exec work).1.1 = .error f) ∧
    ∀ (β : Type) schema (block : Session → (Except Failure Unit × β) × Session) (s : Session) f,
      (block (s.inBlock schema)).1.1 = .error f → (s.table schema block).1.1 = .error f := by
  refine ⟨fun σ engine tell hengine => ⟨fun f host call hchain hf => ?_, fun f call run hrun hf hpass hkeep => ?_⟩,
    engine_tells, fun σ engine f call run hrun text ht hf => ?_, fun f call run hrun hbreaks => ?_,
    fun _ _ _ _ => compile_failed, fun _ _ _ _ _ _ _ _ _ => block_told, fun _ _ _ _ => Heap.failure?_wrapped,
    fun _ _ _ _ _ => Session.exec_failed, fun _ _ _ _ _ => Session.table_failed⟩
  · induction hchain using Relation.ReflTransGen.head_induction_on with
    | refl => exact hf
    | head hexposed _ ih => exact hexposed.failed hengine ih
  · exact load_failed_of_started hrun (script_failed hengine hf hpass hkeep)
  · exact load_failed_of_started hrun (produced_failed ht hf)
  · exact load_failed_of_started hrun hbreaks.failed

namespace Loader

/-- A script that creates a user and loads another in the same block. -/
def relayed : String := "table(User, \x7b'name'\x7d, function() row('ann') load('b') end)"

/-- The other script catches a failure and raises it again. -/
def relaying : Loader :=
  { single relayed with
    source := .shelf (Shelf.put "b" "ok, e = pcall(find, User, true) error(e)" (Shelf.put "a" relayed [])) }

/-- The host gets the failure of the other script, and not that its own transaction was rolled back. -/
theorem relayed_failure_returned :
    let host : LoadCall := ⟨[only], relaying.fresh⟩
    let f : Failure := .unusableIdentifier "boolean"
    (∃ call, relaying.Exposed Script.engine Prepared.fates f host call ∧
      ∃ run ∈ relaying.started Script.engine call,
        .caught f ∈ relaying.fates Script.engine Prepared.fates run ∧
        .raised f ∈ relaying.fates Script.engine Prepared.fates run ∧
        relaying.LetsPass Script.engine Prepared.fates run f ∧ relaying.Keeps Script.engine Prepared.fates run f) ∧
      (relaying.load Script.engine host.scripts host.session).1 = .error f := by
  intro host f
  have hrun : ((relaying.started Script.engine host).any fun outer =>
      relaying.LetsPass Script.engine Prepared.fates outer f && (relaying.Keeps Script.engine Prepared.fates outer f &&
      (relaying.asked Script.engine outer).any fun call => (relaying.started Script.engine call).any fun run =>
        .caught f ∈ relaying.fates Script.engine Prepared.fates run &&
          (.raised f ∈ relaying.fates Script.engine Prepared.fates run &&
          (relaying.LetsPass Script.engine Prepared.fates run f &&
          relaying.Keeps Script.engine Prepared.fates run f)))) = true := by
    decide +kernel
  simp only [List.any_eq_true, Bool.and_eq_true, decide_eq_true_eq] at hrun
  obtain ⟨outer, houter, hpass, hkeep, call, hcall, run, hstarted, hcaught, hraised, hagain, hkept⟩ := hrun
  have hexposed : relaying.Exposed Script.engine Prepared.fates f host call :=
    ⟨outer, houter, hcall, hpass, hkeep⟩
  obtain ⟨hreturned, htells, -⟩ := uncaught_failure_returned relaying
  obtain ⟨hchain, hstart⟩ := hreturned _ Script.engine Prepared.fates htells
  refine ⟨⟨call, hexposed, run, hstarted, hcaught, hraised, hagain, hkept⟩, ?_⟩
  exact hchain f host call (.single hexposed) (hstart f call run hstarted (.inr hraised) hagain hkept)

/-- A row outside of blocks fails, and what is closed on the way raises another error. -/
def closedBadly : String :=
  "local c = setmetatable(\x7b\x7d, \x7b__close = function() error('other') end\x7d) " ++
    "for k in next, \x7b1\x7d, nil, c do row('x') end"

/-- A row outside of blocks fails in a finalizer. -/
def finalizedBadly : String := "setmetatable(\x7b\x7d, \x7b__gc = function() row('x') end\x7d)"

/-- The first script never catches the failure of its row, and ends with another one. In the second the row is asked for
when its state is given up, and nobody is told. -/
theorem failures_lost_in_scripts :
    let f : Failure := .rowOutsideTable
    let closed := single closedBadly
    let finalized := single finalizedBadly
    let left := finalized.produced Script.engine (singleRun finalizedBadly)
    (f ∈ closed.refusals Script.engine (singleRun closedBadly) ∧
      .caught f ∉ closed.fates Script.engine Prepared.fates (singleRun closedBadly) ∧
      ∃ g, (loadSingle closedBadly).1 = .error g ∧ g ≠ f) ∧
    f ∈ (Script.engine.discard left.1.2).refusals (finalized.answers Script.engine) left.2 ∧
    ∃ vars, (loadSingle finalizedBadly).1 = .ok vars := by
  intro f closed finalized left
  have hrun : (f ∈ closed.refusals Script.engine (singleRun closedBadly) ∧
      .caught f ∉ closed.fates Script.engine Prepared.fates (singleRun closedBadly) ∧
      (loadSingle closedBadly).1.toOption.isNone = true ∧
      ((loadSingle closedBadly).1 matches .error .rowOutsideTable) = false) ∧
      f ∈ (Script.engine.discard left.1.2).refusals (finalized.answers Script.engine) left.2 ∧
      (loadSingle finalizedBadly).1.toOption.isSome = true := by
    revert f closed finalized left
    decide +kernel
  obtain ⟨⟨hrefused, huncaught, hfails, hother⟩, hlast, hok⟩ := hrun
  obtain ⟨g, hg⟩ := eq_error_of_isNone hfails
  refine ⟨⟨hrefused, huncaught, g, hg, ?_⟩, hlast, eq_ok_of_isSome hok⟩
  rintro rfl
  rw [hg] at hother
  cases hother

end Loader

end Fixtures
