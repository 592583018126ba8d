import Fixtures.Proofs.OnlyLoads
import Fixtures.Proofs.Uncaught
/-!
# Chains of scripts

A script may do nothing but load another, which does nothing but load a third,
and so on. Every load counts, the outermost as well, so that such a chain is
loaded if it has no more scripts than loads may nest; with one more script the
load of the first that is too many is refused, and this refusal is what the
outermost load returns (`chain_loaded_below_depth`).
-/

namespace Fixtures

/-- A unit of work that succeeds, with all units of work inside it, keeps its result wherever it runs. -/
theorem Session.exec_ok {ρ : Type} [Ending ρ] {work : Session → ρ × Session} {s : Session} {acts : List Act}
    (hw : Steps s.entered.store acts (work s.entered).2.store)
    (hok : Ending.succeeded (work s.entered).1 = true) (hf : Act.anyFailed acts = false) :
    (s.exec work).1 = (work s.entered).1 := by
  cases htransaction : s.store.inTransaction with
  | false => exact (exec_committed htransaction hw hok hf).1
  | true =>
    have hdepth : 0 < s.store.depth := of_decide_eq_true htransaction
    rw [exec_fst, Store.openScope_inside hdepth, Store.closeScope_inside]

namespace Loader

variable {σ : Type} {engine : Engine σ} {l : Loader}

/-! ## Loads of one script -/

section Single

variable (hv : l.options.validate = .ok ()) {s : Session} (hd : s.loadDepth < l.options.maxLoadDepth)
variable (script : ScriptRef)

include hv hd

/-- A load of one script that is let through returns what the script leaves, or fails with it. -/
theorem load_single :
    (l.load engine [script] s).1 =
      (l.produced engine ⟨l.options.inputs, script, s.loading⟩).1.1.map (merge l.options.inputs script) := by
  have hlet : ¬l.options.maxLoadDepth < s.loadDepth + 1 := by omega
  have hone := l.runScript_eq engine ⟨l.options.inputs, script, s.loading⟩
  rw [load_eq, loadOnce, hv]
  dsimp only at hone ⊢
  rw [if_neg hlet]
  unfold Session.loading at hone ⊢
  simp only [runAll, hone]
  split <;> rename_i hrun <;> rw [(Prod.mk.inj hrun).1] <;> rfl

/-- All it does to a transaction is what the script does. -/
theorem acts_single : (l.inner engine).acts [script] s =
    l.scriptActs engine (l.inner engine) l.options.inputs script s.loading := by
  have hlet : ¬l.options.maxLoadDepth < s.loadDepth + 1 := by omega
  rw [(inner_agree engine l s.loadDepth).acts _ _ rfl]
  show l.actsOnce engine (l.inner engine) [script] s = _
  rw [actsOnce, hv]
  dsimp only
  rw [if_neg hlet, allActs]
  split <;> exact List.append_nil _

/-- The calls inside it are those the script makes. -/
theorem inside_single :
    l.inside engine ⟨[script], s⟩ =
      l.asked engine ⟨l.options.inputs, script, s.loading⟩ ++
        l.partingCalls engine ⟨l.options.inputs, script, s.loading⟩ := by
  have hlet : ¬l.options.maxLoadDepth < s.loadDepth + 1 := by omega
  rw [inside, started, hv]
  dsimp only
  rw [if_neg hlet, runs]
  split <;> exact List.append_nil _

end Single

/-! ## Scripts that load the next -/

variable (engine l)

/-- A script does nothing but load another. If that load returns, the script ends with outputs that can be read, and
else with the failure of the load. -/
def Relays (script next : ScriptRef) : Prop :=
  ∃ text, l.source.read (l.options.resolve script.name) = .ok text ∧
    (engine.execute script.name text (engine.prepare l.types l.options.inputs)).LoadsOnly [next] engine.Relayed

/-- A load returns variables, and no unit of work in it has failed. -/
def Completes (call : LoadCall) : Prop :=
  (∃ vars, (l.load engine call.scripts call.session).1 = .ok vars) ∧
    Act.anyFailed ((l.inner engine).acts call.scripts call.session) = false

variable {engine l}

section Body

variable (run : ScriptRun) {text : String} (ht : l.source.read (l.options.resolve run.script.name) = .ok text)
variable {ending : Except Failure Unit × σ}
variable (hrun : ((engine.execute run.script.name text (engine.prepare l.types run.vars)).runIn
  (l.inner engine).withoutContexts.run (l.opened run.script run.session)).1 = ending)

include hrun in
/-- The body of a script ends as the run of its text does. -/
theorem body_fst :
    (l.body engine (l.load engine) run.vars run.script text (l.opened run.script run.session)).1 = ending := by
  rw [← hrun, ← inner_run]
  rfl

include ht hrun

/-- If the state that it ends with asks for nothing, nothing is done when this is given up. -/
theorem parting_silent (hrests : engine.Rests ending.2) :
    l.partingCalls engine run = [] ∧ l.partingActs engine run = [] := by
  have hstate : (l.produced engine run).1.2 = ending.2 := by
    rw [produced_state engine l run ht, body_fst run hrun]
  obtain ⟨-, hcalls, hacts⟩ := hrests.run (l.inner engine).withoutContexts (l.produced engine run).2
  rw [partingCalls, partingActs, giveUpActs, hstate]
  refine ⟨?_, hacts⟩
  rw [← inner_run]
  exact congrArg (List.map _) hcalls

/-- A script leaves its outputs if its body succeeds with all units of work inside it. -/
theorem produced_outputs {outputs : Variables} (hok : ending.1 = .ok ())
    (hf : Act.anyFailed (l.bodyActs engine (l.inner engine) run.vars run.script text (l.opened run.script run.session)) =
      false)
    (hcapture : (engine.capture ending.2).2 = .ok outputs) : (l.produced engine run).1.1 = .ok outputs := by
  have hbody := body_fst run hrun
  have hsucc : Ending.succeeded
      (l.body engine (l.load engine) run.vars run.script text (l.opened run.script run.session)).1.1 = true := by
    rw [hbody, hok]
    rfl
  have hsteps := body_steps engine l (inner_steps engine l) run.vars run.script text (l.opened run.script run.session)
  rw [inner_run] at hsteps
  have hexec : ((l.announced run.script run.session).exec
      (l.body engine (l.load engine) run.vars run.script text)).1 = ending :=
    (Session.exec_ok hsteps hsucc hf).trans hbody
  rw [produced, produce_eq engine l _ _ ht, conclude_outputs, hexec, hok]
  exact hcapture

end Body

/-- The load of a script whose body succeeds with all units of work inside it completes. -/
theorem completes_of_body (hv : l.options.validate = .ok ()) {script : ScriptRef} {text : String}
    (ht : l.source.read (l.options.resolve script.name) = .ok text) {s : Session}
    (hd : s.loadDepth < l.options.maxLoadDepth) {ending : Except Failure Unit × σ}
    (hrun : ((engine.execute script.name text (engine.prepare l.types l.options.inputs)).runIn
      (l.inner engine).withoutContexts.run (l.opened script s.loading)).1 = ending) (hends : engine.EndsWell ending)
    (hf : Act.anyFailed (l.bodyActs engine (l.inner engine) l.options.inputs script text (l.opened script s.loading)) =
      false) : l.Completes engine ⟨[script], s⟩ := by
  obtain ⟨hok, ⟨outputs, hcapture⟩, hrests⟩ := hends
  let run : ScriptRun := ⟨l.options.inputs, script, s.loading⟩
  have hacts := l.scriptActs_eq engine run
  rw [(parting_silent run ht hrun hrests).2, List.append_nil] at hacts
  constructor
  · rw [load_single hv hd, produced_outputs run ht hrun hok hf hcapture]
    exact ⟨_, rfl⟩
  · rw [acts_single hv hd, hacts, produceActs, ht]
    dsimp only
    rw [Act.anyFailed_append, hf, inner_run, body_fst run hrun]
    show (!Ending.succeeded ending.1 || false) = false
    rw [hok]
    rfl

section Relay

variable (hv : l.options.validate = .ok ()) {script next : ScriptRef} (hrelay : l.Relays engine script next)
variable {s : Session} (hd : s.loadDepth < l.options.maxLoadDepth)

include hv hrelay hd

/-- The run of a script that relays makes one call, which decides how it ends. Nothing is asked for after that. -/
theorem Relays.runs : ∃ (text : String) (inner : LoadCall) (ending : Except Failure Unit × σ),
    l.source.read (l.options.resolve script.name) = .ok text ∧
    ((engine.execute script.name text (engine.prepare l.types l.options.inputs)).runIn
      (l.inner engine).withoutContexts.run (l.opened script s.loading)).1 = ending ∧
    engine.Relayed (l.load engine inner.scripts inner.session).1 ending ∧
    inner.scripts = [next] ∧ l.inside engine ⟨[script], s⟩ = [inner] ∧
    l.scriptActs engine (l.inner engine) l.options.inputs script s.loading =
      l.produceActs engine (l.inner engine) l.options.inputs script s.loading ∧
    l.bodyActs engine (l.inner engine) l.options.inputs script text (l.opened script s.loading) =
      (l.inner engine).acts inner.scripts inner.session := by
  obtain ⟨text, ht, hloads⟩ := hrelay
  let run : ScriptRun := ⟨l.options.inputs, script, s.loading⟩
  obtain ⟨s₁, hruns⟩ := hloads.run (l.opened script s.loading)
  obtain ⟨hrelayed, hcalls, hacts⟩ := hruns (l.inner engine).withoutContexts
  let inner : LoadCall := ⟨[next], { s₁ with contexts := [] }⟩
  have hanswer : ((l.inner engine).withoutContexts.run [next] s₁).1 = (l.load engine inner.scripts inner.session).1 := by
    rw [← inner_run]
    rfl
  rw [hanswer] at hrelayed
  obtain ⟨hnocalls, hnoacts⟩ := parting_silent run ht rfl hrelayed.rests
  refine ⟨text, inner, _, ht, rfl, hrelayed, rfl, ?_, ?_, hacts⟩
  · rw [inside_single hv hd, hnocalls, List.append_nil, asked, ht, ← inner_run]
    exact congrArg (List.map _) hcalls
  · rw [l.scriptActs_eq engine run, hnoacts, List.append_nil]

/-- So the load of such a script calls one load and fails with it, and it completes just when that load does. -/
theorem Relays.call : ∃ inner : LoadCall, inner.scripts = [next] ∧ inner.session.loadDepth = s.loadDepth + 1 ∧
    l.inside engine ⟨[script], s⟩ = [inner] ∧
    (∀ f, (l.load engine inner.scripts inner.session).1 = .error f → (l.load engine [script] s).1 = .error f) ∧
    (l.Completes engine ⟨[script], s⟩ ↔ l.Completes engine inner) := by
  obtain ⟨text, inner, ending, ht, hended, hrelayed, hscripts, hinside, hscriptActs, hbodyActs⟩ := hrelay.runs hv hd
  let run : ScriptRun := ⟨l.options.inputs, script, s.loading⟩
  have hfails (f : Failure) (hf : (l.load engine inner.scripts inner.session).1 = .error f) :
      (l.load engine [script] s).1 = .error f := by
    rw [hf] at hrelayed
    have hbody := body_fst run hended
    have hfailed : (l.produced engine run).1.1 = .error f :=
      produced_failed ht ((congrArg Prod.fst hbody).trans hrelayed.1)
    rw [load_single hv hd, hfailed]
    rfl
  refine ⟨inner, hscripts, (of_inside (hinside ▸ List.mem_singleton_self inner)).2.2, hinside, hfails, ?_, ?_⟩
  · rintro ⟨⟨vars, hvars⟩, hnofailure⟩
    constructor
    · cases hload : (l.load engine inner.scripts inner.session).1 with
      | ok vars => exact ⟨vars, rfl⟩
      | error f => cases hvars.symm.trans (hfails f hload)
    · dsimp only at hnofailure
      rw [acts_single hv hd, hscriptActs, produceActs, ht] at hnofailure
      dsimp only at hnofailure
      rw [Act.anyFailed_append, Bool.or_eq_false_iff, hbodyActs] at hnofailure
      exact hnofailure.1
  · rintro ⟨⟨vars, hvars⟩, hnofailure⟩
    rw [hvars] at hrelayed
    exact completes_of_body hv ht hd hended hrelayed (hbodyActs ▸ hnofailure)

end Relay

/-- A script that asks for nothing and ends well completes wherever it is loaded. -/
theorem completes_of_silent (hv : l.options.validate = .ok ()) {script : ScriptRef} {text : String}
    (ht : l.source.read (l.options.resolve script.name) = .ok text)
    (hsilent : (engine.execute script.name text (engine.prepare l.types l.options.inputs)).Silent engine.EndsWell)
    {s : Session} (hd : s.loadDepth < l.options.maxLoadDepth) : l.Completes engine ⟨[script], s⟩ := by
  obtain ⟨hends, -, hacts⟩ := hsilent.run (l.inner engine).withoutContexts (l.opened script s.loading)
  refine completes_of_body hv ht hd rfl hends ?_
  rw [bodyActs, hacts]
  rfl

/-! ## Chains -/

section Chain

variable (hv : l.options.validate = .ok ())

include hv

/-- In a chain that is too long the first script that is too many is not loaded, and the outermost load fails with
that. -/
theorem chain_refused {first : ScriptRef} {rest : List ScriptRef} (hchain : (first :: rest).IsChain (l.Relays engine))
    {s : Session} (hd : l.options.maxLoadDepth ≤ s.loadDepth + rest.length) :
    ∃ script, (first :: rest)[l.options.maxLoadDepth - s.loadDepth]? = some script ∧
      (l.load engine [first] s).1 = .error (l.tooDeep [script]) := by
  induction rest generalizing first s with
  | nil =>
    have hnone : l.options.maxLoadDepth - s.loadDepth = 0 := Nat.sub_eq_zero_of_le hd
    rw [hnone]
    exact ⟨first, rfl, congrArg Prod.fst (@load_refused σ engine l hv ⟨[first], s⟩ hd).1⟩
  | cons next rest ih =>
    rw [List.length_cons] at hd
    obtain ⟨hrelay, hrest⟩ := List.isChain_cons_cons.1 hchain
    by_cases hlet : s.loadDepth < l.options.maxLoadDepth
    · -- The first script is let through, and the load it makes fails as the rest of the chain does.
      obtain ⟨⟨_, inner⟩, rfl, hdepth, -, hfails, -⟩ := hrelay.call hv hlet
      dsimp only at hdepth
      obtain ⟨script, hscript, hload⟩ := ih hrest (s := inner) (by omega)
      have hlater : l.options.maxLoadDepth - s.loadDepth = l.options.maxLoadDepth - inner.loadDepth + 1 := by omega
      rw [hlater]
      exact ⟨script, hscript, hfails _ hload⟩
    · have hnone : l.options.maxLoadDepth - s.loadDepth = 0 := Nat.sub_eq_zero_of_le (Nat.not_lt.1 hlet)
      rw [hnone]
      exact ⟨first, rfl, congrArg Prod.fst (@load_refused σ engine l hv ⟨[first], s⟩ (Nat.not_lt.1 hlet)).1⟩

/-- A chain that is not too long is loaded down to its last script, and completes if the load of this one does. -/
theorem chain_reached {first : ScriptRef} {rest : List ScriptRef} (hchain : (first :: rest).IsChain (l.Relays engine))
    {s : Session} (hd : s.loadDepth + rest.length < l.options.maxLoadDepth) :
    ∃ calls, l.IsNest engine (⟨[first], s⟩ :: calls) ∧
      (LoadCall.mk [first] s :: calls).map LoadCall.scripts = (first :: rest).map ([·]) ∧
      (l.Completes engine ⟨[first], s⟩ ↔
        l.Completes engine ((LoadCall.mk [first] s :: calls).getLast (List.cons_ne_nil _ _))) := by
  induction rest generalizing first s with
  | nil => exact ⟨[], .singleton _, rfl, Iff.rfl⟩
  | cons next rest ih =>
    rw [List.length_cons] at hd
    obtain ⟨hrelay, hrest⟩ := List.isChain_cons_cons.1 hchain
    obtain ⟨⟨_, inner⟩, rfl, hdepth, hinside, -, hcompletes⟩ := hrelay.call hv (s := s) (by omega)
    dsimp only at hdepth
    obtain ⟨calls, hnest, hscripts, hlast⟩ := ih hrest (s := inner) (by omega)
    refine ⟨⟨[next], inner⟩ :: calls, List.isChain_cons_cons.2 ⟨?_, hnest⟩, ?_, ?_⟩
    · rw [hinside]
      exact List.mem_singleton_self _
    · rw [List.map_cons, hscripts]
      rfl
    · rw [List.getLast_cons_cons]
      exact hcompletes.trans hlast

/-- If the last script of a chain that is not too long does well wherever it is loaded, the chain does. -/
theorem chain_completes {first : ScriptRef} {rest : List ScriptRef} (hchain : (first :: rest).IsChain (l.Relays engine))
    {s : Session} (hd : s.loadDepth + rest.length < l.options.maxLoadDepth)
    (hlast : ∀ s' : Session, s'.loadDepth < l.options.maxLoadDepth →
      l.Completes engine ⟨[(first :: rest).getLast (List.cons_ne_nil _ _)], s'⟩) : l.Completes engine ⟨[first], s⟩ := by
  induction rest generalizing first s with
  | nil => exact hlast s hd
  | cons next rest ih =>
    rw [List.length_cons] at hd
    obtain ⟨hrelay, hrest⟩ := List.isChain_cons_cons.1 hchain
    obtain ⟨⟨_, inner⟩, rfl, hdepth, -, -, hcompletes⟩ := hrelay.call hv (s := s) (by omega)
    dsimp only at hdepth
    rw [List.getLast_cons_cons] at hlast
    exact hcompletes.2 (ih hrest (by omega) hlast)

end Chain

end Loader

open Loader

/-- A script whose text is just the call of `load` with a name does nothing but load that script. Take a chain of
scripts of which each but the last does nothing but load the next, and let a host load the first. If there are as many
loads inside as may nest, this fails for wrong use, since the first script that is too many is refused. If there are
fewer, the last script is loaded, and the load of the first completes just when this one does. So if the last script
does well wherever it is loaded, a chain is loaded just when fewer loads are made inside than may nest: the outermost
counts as well. -/
theorem chain_loaded_below_depth (l : Loader) (hv : l.options.validate = .ok ()) :
    (∀ (script : ScriptRef) text next, l.source.read (l.options.resolve script.name) = .ok text →
      Script.Chunk.loads? text = some next → Script.zeroByte? script.name = none →
      l.options.inputs.get? "load" = none → l.Relays Script.engine script ⟨next, none⟩) ∧
    ∀ first rest (s : Session), s.loadDepth = 0 → (first :: rest).IsChain (l.Relays Script.engine) →
      let host : LoadCall := ⟨[first], s⟩
      (l.options.maxLoadDepth ≤ rest.length → ∃ script, (first :: rest)[l.options.maxLoadDepth]? = some script ∧
        (l.load Script.engine [first] s).1 = .error (l.tooDeep [script]) ∧ (l.tooDeep [script]).kind = .usage) ∧
      (rest.length < l.options.maxLoadDepth → ∃ calls, l.IsNest Script.engine (host :: calls) ∧
        (host :: calls).map LoadCall.scripts = (first :: rest).map ([·]) ∧
        (l.Completes Script.engine host ↔
          l.Completes Script.engine ((host :: calls).getLast (List.cons_ne_nil _ _)))) ∧
      ((∀ s' : Session, s'.loadDepth < l.options.maxLoadDepth →
          l.Completes Script.engine ⟨[(first :: rest).getLast (List.cons_ne_nil _ _)], s'⟩) →
        ((∃ vars, (l.load Script.engine [first] s).1 = .ok vars) ↔ rest.length < l.options.maxLoadDepth)) := by
  refine ⟨fun script text next ht hloads hname hinput => ⟨text, ht, Script.execute_loads hloads hname hinput⟩, ?_⟩
  intro first rest s hs hchain host
  have hrefused (hd : l.options.maxLoadDepth ≤ rest.length) : ∃ script,
      (first :: rest)[l.options.maxLoadDepth]? = some script ∧
        (l.load Script.engine [first] s).1 = .error (l.tooDeep [script]) := by
    obtain ⟨script, hscript, hload⟩ := chain_refused hv hchain (s := s) (by omega)
    rw [hs, Nat.sub_zero] at hscript
    exact ⟨script, hscript, hload⟩
  refine ⟨fun hd => ?_, fun hd => chain_reached hv hchain (by omega), fun hlast => ⟨fun hok => ?_, fun hd => ?_⟩⟩
  · obtain ⟨script, hscript, hload⟩ := hrefused hd
    exact ⟨script, hscript, hload, rfl⟩
  · by_contra hd
    obtain ⟨vars, hvars⟩ := hok
    obtain ⟨script, -, hload⟩ := hrefused (Nat.not_lt.1 hd)
    cases hvars.symm.trans hload
  · exact (chain_completes hv hchain (by omega) hlast).1

namespace Loader

/-- Scripts by name of which two do nothing but load the next, with so many loads that may nest. -/
def handing (depth : Nat) : Loader where
  types := []
  source := .shelf (Shelf.put "c" "x = 1" (Shelf.put "b" "load('c')" (Shelf.put "a" "load('b')" [])))
  options := { maxLoadDepth := depth }

/-- Three loads may nest, so that a chain of three scripts is loaded; if only two may, the last is refused. -/
theorem three_scripts_loaded :
    let chain : List ScriptRef := [⟨"a", none⟩, ⟨"b", none⟩, ⟨"c", none⟩]
    (chain.IsChain ((handing 3).Relays Script.engine) ∧
      ∃ vars, ((handing 3).load Script.engine [⟨"a", none⟩] {}).1 = .ok vars) ∧
    chain.IsChain ((handing 2).Relays Script.engine) ∧
      ((handing 2).load Script.engine [⟨"a", none⟩] {}).1 = .error ((handing 2).tooDeep [⟨"c", none⟩]) := by
  intro chain
  obtain ⟨htext₃, hchains₃⟩ := chain_loaded_below_depth (handing 3) rfl
  obtain ⟨htext₂, hchains₂⟩ := chain_loaded_below_depth (handing 2) rfl
  have hloads : Script.Chunk.loads? "load('b')" = some "b" ∧ Script.Chunk.loads? "load('c')" = some "c" := by
    decide +kernel
  have hchain₃ : chain.IsChain ((handing 3).Relays Script.engine) := by
    refine List.isChain_cons_cons.2 ⟨?_, List.isChain_pair.2 ?_⟩
    · exact htext₃ _ _ _ rfl hloads.1 (by decide) rfl
    · exact htext₃ _ _ _ rfl hloads.2 (by decide) rfl
  have hchain₂ : chain.IsChain ((handing 2).Relays Script.engine) := by
    refine List.isChain_cons_cons.2 ⟨?_, List.isChain_pair.2 ?_⟩
    · exact htext₂ _ _ _ rfl hloads.1 (by decide) rfl
    · exact htext₂ _ _ _ rfl hloads.2 (by decide) rfl
  refine ⟨⟨hchain₃, ?_⟩, hchain₂, ?_⟩
  · obtain ⟨-, -, hlast⟩ := hchains₃ _ _ {} rfl hchain₃
    exact (hlast fun _ hd => completes_of_silent rfl rfl (by decide +kernel) hd).2 (by decide)
  · obtain ⟨hrefused, -, -⟩ := hchains₂ _ _ {} rfl hchain₂
    obtain ⟨script, hscript, hload, -⟩ := hrefused (by decide)
    obtain rfl := Option.some.inj hscript
    exact hload

/-- One load may nest, and the only load that is made by a script is refused. -/
theorem only_load_of_script_refused :
    let l : Loader := handing 1
    let chain : List ScriptRef := [⟨"b", none⟩, ⟨"c", none⟩]
    l.options.validate = .ok () ∧ chain.length = l.options.maxLoadDepth + 1 ∧ chain.IsChain (l.Relays Script.engine) ∧
      (∀ s : Session, s.loadDepth < l.options.maxLoadDepth → l.Completes Script.engine ⟨[⟨"c", none⟩], s⟩) ∧
      (l.load Script.engine [⟨"b", none⟩] {}).1 = .error (l.tooDeep [⟨"c", none⟩]) := by
  intro l chain
  have ht : (handing 1).source.read ((handing 1).options.resolve "b") = .ok "load('c')" := by decide +kernel
  have ht' : (handing 1).source.read ((handing 1).options.resolve "c") = .ok "x = 1" := by decide +kernel
  have hloads : Script.Chunk.loads? "load('c')" = some "c" := by decide +kernel
  have hchain : chain.IsChain (l.Relays Script.engine) :=
    List.isChain_pair.2 ⟨_, ht, Script.execute_loads hloads (by decide) rfl⟩
  refine ⟨rfl, rfl, hchain, fun s hd => completes_of_silent rfl ht' (by decide +kernel) hd, ?_⟩
  obtain ⟨script, hscript, hload⟩ := chain_refused rfl hchain (s := {}) (by decide)
  obtain rfl := Option.some.inj hscript
  exact hload

end Loader

end Fixtures
