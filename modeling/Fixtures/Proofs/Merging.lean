import Fixtures.Proofs.Capture
import Fixtures.Proofs.Nesting
/-!
# Merged outputs

Every script of a batch binds some names: a script without a label those of its
outputs, one with a label just that, to all its outputs. A load that succeeds
returns each name as the last script bound it, or else as an input, and every
script has started with what the scripts before it had bound
(`last_binding_stays`).
-/

namespace Fixtures

open Script

/-- What a script that leaves these outputs binds a name to. -/
def ScriptRef.binds (script : ScriptRef) (outputs : Variables) (k : String) : Option Value :=
  match script.label with
  | none | some "" => outputs.get? k
  | some label => if k = label then some (.map outputs) else none

namespace Loader

/-- What a name is bound to on top of the inputs, once scripts have left these outputs. -/
def lastBound (inputs : Variables) (done : List (ScriptRun × Variables)) (k : String) : Option Value :=
  (done.reverse.findSome? fun d => d.1.script.binds d.2 k).or (inputs.get? k)

/-- Outputs added one after the other. -/
def mergeAll (inputs : Variables) (done : List (ScriptRun × Variables)) : Variables :=
  done.foldl (fun vars d => merge vars d.1.script d.2) inputs

variable {engine : Engine Prepared} {l : Loader} {run : ScriptRun}

/-- The text of a script is run to its end, and these outputs are captured. -/
def Leaves (engine : Engine Prepared) (l : Loader) (run : ScriptRun) (outputs : Variables) : Prop :=
  ∃ text state, l.source.read (l.options.resolve run.script.name) = .ok text ∧
    (l.body engine (l.load engine) run.vars run.script text (l.opened run.script run.session)).1 = (.ok (), state) ∧
    state.binding.captured.result = .ok outputs

theorem Leaves.ascending {outputs : Variables} (h : l.Leaves engine run outputs) : outputs.Ascending := by
  obtain ⟨_, _, _, _, hcaptured⟩ := h
  exact Binding.captured_ascending hcaptured

/-! ## Merging -/

section Merge

variable {vars outputs inputs : Variables} {done : List (ScriptRun × Variables)}

theorem get?_merge (script : ScriptRef) (ho : outputs.Ascending) (k : String) :
    (merge vars script outputs).get? k = (script.binds outputs k).or (vars.get? k) := by
  obtain ⟨name, label⟩ := script
  match label with
  | none => exact Dict.get?_extend vars ho.distinct k
  | some label =>
    by_cases hlabel : label = ""
    · subst hlabel
      exact Dict.get?_extend vars ho.distinct k
    · have hname : (ScriptRef.mk name (some label)).namespace? = some label := by
        simp [ScriptRef.namespace?, hlabel]
      simp only [merge, hname, ScriptRef.binds, Dict.get?_insert, Std.LawfulEqCmp.compare_eq_iff_eq]
      split <;> rfl

theorem merge_ascending (script : ScriptRef) (hv : vars.Ascending) : (merge vars script outputs).Ascending := by
  unfold merge
  split
  · exact Dict.ascending_insert hv _ _
  · exact Dict.ascending_extend hv outputs

theorem mergeAll_concat (inputs : Variables) (done : List (ScriptRun × Variables)) (d : ScriptRun × Variables) :
    mergeAll inputs (done ++ [d]) = merge (mergeAll inputs done) d.1.script d.2 :=
  List.foldl_concat ..

theorem mergeAll_ascending (hi : inputs.Ascending) (done : List (ScriptRun × Variables)) :
    (mergeAll inputs done).Ascending := by
  induction done using List.reverseRecOn with
  | nil => exact hi
  | append_singleton done d ih =>
    rw [mergeAll_concat]
    exact merge_ascending _ ih

/-- Of outputs added one after the other, the last that bind a name count. -/
theorem get?_mergeAll (ho : ∀ d ∈ done, d.2.Ascending) (k : String) :
    (mergeAll inputs done).get? k = lastBound inputs done k := by
  induction done using List.reverseRecOn with
  | nil => rfl
  | append_singleton done d ih =>
    obtain ⟨hdone, hd⟩ := List.forall_mem_append.1 ho
    rw [mergeAll_concat, get?_merge _ (hd d List.mem_cons_self), ih hdone, lastBound, lastBound, List.reverse_append,
      List.reverse_singleton, List.singleton_append, List.findSome?_cons]
    cases d.1.script.binds d.2 k <;> rfl

/-- A name is bound exactly when it is an input or some script binds it. -/
theorem lastBound_isSome (k : String) :
    (lastBound inputs done k).isSome ↔ inputs.has k ∨ ∃ d ∈ done, (d.1.script.binds d.2 k).isSome := by
  unfold lastBound Dict.has
  simp only [Option.isSome_or, Bool.or_eq_true, List.findSome?_isSome_iff, List.mem_reverse]
  exact or_comm

end Merge

/-! ## Scripts of a batch -/

/-- Scripts that run to the end of a batch leave outputs that are merged, each before the next script runs. -/
theorem runAll_merges {run : Variables → ScriptRef → Session → Except Failure Variables × Session}
    {inputs vars : Variables} {scripts : List ScriptRef} {s s' : Session}
    (h : runAll run inputs scripts s = (.ok vars, s')) :
    ∃ done : List (ScriptRun × Variables),
      done.map Prod.fst = runs run inputs scripts s ∧ done.map (fun d => d.1.script) = scripts ∧
      vars = mergeAll inputs done ∧
      ∀ before d after, done = before ++ d :: after →
        d.1.vars = mergeAll inputs before ∧ (run d.1.vars d.1.script d.1.session).1 = .ok d.2 := by
  induction scripts generalizing inputs s with
  | nil =>
    cases h
    exact ⟨[], rfl, rfl, rfl, fun before d after hdone => by simp at hdone⟩
  | cons script rest ih =>
    rw [runAll] at h
    split at h
    · cases h
    · rename_i outputs s₁ hrun
      obtain ⟨done, hruns, hscripts, hvars, hall⟩ := ih h
      refine ⟨(⟨inputs, script, s⟩, outputs) :: done, ?_, congrArg (script :: ·) hscripts, hvars, ?_⟩
      · rw [runs, hrun]
        exact congrArg _ hruns
      · intro before d after hdone
        cases before with
        | nil =>
          obtain ⟨rfl, -⟩ := List.cons.inj hdone
          exact ⟨rfl, congrArg Prod.fst hrun⟩
        | cons first before =>
          obtain ⟨rfl, hrest⟩ := List.cons.inj hdone
          exact hall before d after hrest

/-- A script that returns outputs has run to its end. -/
theorem produced_leaves (hc : engine.capture = Script.engine.capture) {outputs : Variables}
    (h : (l.produced engine run).1.1 = .ok outputs) : l.Leaves engine run outputs := by
  unfold produced at h
  cases ht : l.source.read (l.options.resolve run.script.name) with
  | error f =>
    rw [produce_unread engine l _ _ ht] at h
    cases h
  | ok text =>
    rw [produce_eq engine l _ _ ht, conclude_outputs, hc] at h
    rcases hr : ((l.announced run.script run.session).exec (l.body engine (l.load engine) run.vars run.script text)).1
      with ⟨f | u, state⟩
    · rw [hr] at h
      cases h
    · rw [hr] at h
      rw [Session.exec_fst] at hr
      split at hr
      · exact ⟨text, state, ht, hr, h⟩
      · -- A transaction that failed to close would have overruled the result.
        cases congrArg Prod.fst hr

/-- A batch that loads returns each name as the last script that binds it bound it, or else as an input. So a name is
there exactly when it is an input or some script binds it: its label, or any of its outputs if it has no label. Each
script runs to its end with the names so bound before it as its variables, and finds all of them as they were built for
it; under any other name it finds what a script without variables finds, and nothing if that is no verb, no entity type
and no standard global. However scripts are run, all that counts is what they start from and how outputs are read. -/
theorem last_binding_stays {engine : Engine Prepared} (hp : engine.prepare = Script.prepare)
    (hc : engine.capture = Script.engine.capture) {l : Loader} {scripts : List ScriptRef} {s s' : Session}
    {vars : Variables} (hi : l.options.inputs.Ascending) (h : l.load engine scripts s = (.ok vars, s')) :
    ∃ done : List (ScriptRun × Variables),
      done.map Prod.fst = l.started engine ⟨scripts, s⟩ ∧ done.map (fun d => d.1.script) = scripts ∧
      (∀ k, vars.get? k = lastBound l.options.inputs done k) ∧
      (∀ k, vars.has k ↔ l.options.inputs.has k ∨ ∃ d ∈ done, (d.1.script.binds d.2 k).isSome) ∧
      ∀ before run outputs after, done = before ++ (run, outputs) :: after →
        l.Leaves engine run outputs ∧
        ∀ k, run.vars.get? k = lastBound l.options.inputs before k ∧
          let h := (engine.prepare l.types run.vars).binding.heap
          (∀ v, run.vars.get? k = some v → ∃ x, h.Finds k x ∧ h.Bears x v) ∧
          (run.vars.get? k = none → ∃ x, h.Finds k x ∧ (engine.prepare l.types []).binding.heap.Finds k x ∧
            (k ∉ ["table", "row", "find", "load"] → (∀ t ∈ l.types.values, t.name ≠ k) →
              Heap.fresh.globalTable.get (.text k) = .nil → x = .nil)) := by
  have hrun := (load_inv engine l h).2.2
  obtain ⟨done, hruns, hscripts, rfl, hall⟩ := runAll_merges hrun
  have hleaves : ∀ d ∈ done, l.Leaves engine d.1 d.2 := by
    intro d hmem
    obtain ⟨before, after, hdone⟩ := List.append_of_mem hmem
    exact produced_leaves hc (hall before d after hdone).2
  have hget {part : List (ScriptRun × Variables)} (hpart : ∀ d ∈ part, d ∈ done) (k : String) :
      (mergeAll l.options.inputs part).get? k = lastBound l.options.inputs part k :=
    get?_mergeAll (fun d hmem => (hleaves d (hpart d hmem)).ascending) k
  refine ⟨done, ?_, hscripts, hget fun _ hmem => hmem, fun k => ?_, ?_⟩
  · rw [hruns, started_eq engine l h]
  · rw [← lastBound_isSome, ← hget fun _ hmem => hmem]
    rfl
  · intro before run outputs after hdone
    have hbefore := (hall before (run, outputs) after hdone).1
    have hvars : run.vars.Ascending := by
      rw [hbefore]
      exact mergeAll_ascending hi before
    rw [hp]
    refine ⟨hleaves (run, outputs) ?_, fun k => ⟨?_, prepare_finds l.types hvars.distinct k⟩⟩
    · rw [hdone]
      exact List.mem_append_right _ List.mem_cons_self
    · rw [hbefore]
      refine hget (fun d hmem => ?_) k
      rw [hdone]
      exact List.mem_append_left _ hmem

/-- A loader with an input and two scripts. -/
def mixed : Loader where
  types := []
  source := .shelf (Shelf.put "count" "n = 1" (Shelf.put "tag" "seen = n n = env" []))
  options.inputs := [("env", .string "test")]

/-- A script runs under a label that the next one binds anew, and again under another label. -/
def relabelled : List ScriptRef := [⟨"tag", some "n"⟩, ⟨"count", some ""⟩, ⟨"tag", some "out"⟩]

/-- The later binding of the name stays, and no output of a labelled script is bound by its own name. -/
theorem label_bound_anew :
    mixed.options.inputs.Ascending ∧ ∃ vars s' done,
      mixed.load Script.engine relabelled mixed.fresh = (.ok vars, s') ∧ vars.keys = ["env", "n", "out"] ∧
      done.map (fun d => d.1.script) = relabelled ∧ (∀ d ∈ done, mixed.Leaves Script.engine d.1 d.2) ∧
      (lastBound mixed.options.inputs done "n") matches some (.integer _) ∧
      (lastBound mixed.options.inputs done "out") matches some (.map [("n", .string _), ("seen", .integer _)]) ∧
      lastBound mixed.options.inputs done "seen" = none := by
  have hi : mixed.options.inputs.Ascending := List.pairwise_singleton ..
  have hrun : (mixed.load Script.engine relabelled mixed.fresh).1.toOption.any fun vars =>
      decide (vars.keys = ["env", "n", "out"]) && (vars.get? "n" matches some (.integer _)) &&
      (vars.get? "out" matches some (.map [("n", .string _), ("seen", .integer _)])) && (vars.get? "seen").isNone := by
    decide +kernel
  rcases hload : mixed.load Script.engine relabelled mixed.fresh with ⟨f | vars, s'⟩
  · rw [hload] at hrun
    cases hrun
  · obtain ⟨done, -, hscripts, hvars, -, hall⟩ := last_binding_stays rfl rfl hi hload
    rw [hload] at hrun
    simp only [Except.toOption, Option.any_some, Bool.and_eq_true, hvars, decide_eq_true_eq, Option.isNone_iff_eq_none]
      at hrun
    obtain ⟨⟨⟨hkeys, hn⟩, hout⟩, hseen⟩ := hrun
    refine ⟨hi, vars, s', done, rfl, hkeys, hscripts, fun d hmem => ?_, hn, hout, hseen⟩
    obtain ⟨before, after, hdone⟩ := List.append_of_mem hmem
    exact (hall before d.1 d.2 after hdone).1

end Loader

end Fixtures
