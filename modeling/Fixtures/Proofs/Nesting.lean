import Fixtures.Proofs.Batches
import Mathlib.Data.List.Chain
import Mathlib.Order.WellFounded
/-!
# Chains of loads

Scripts load scripts that load others, and so on. `Loader.inside` lists the calls
that a call makes through its scripts; what it returns depends on these alone
(`loadOnce_congr`). Each is made one level deeper than the call around it, and
below the greatest depth there are none, so chains of calls end, whatever
scripts load each other.
-/

namespace Fixtures

/-- The call as a script makes it: what it loads has no context open. -/
def LoadCall.bare (call : LoadCall) : LoadCall := { call with session.contexts := [] }

/-! ## Calls of programs -/

namespace Program

variable {α : Type} {load load' : List ScriptRef → Session → Except Failure Variables × Session}

/-- The loads that the run of a program asks for, in order. -/
def calls (load : List ScriptRef → Session → Except Failure Variables × Session) :
    {α : Type} → Program α → Session → List LoadCall
  | _, .done _, _ => []
  | _, .note e next, s => (next ()).calls load (s.note e)
  | _, .row values next, s =>
    let (r, s') := s.row values
    (next r).calls load s'
  | _, .find type id next, s =>
    let (r, s') := s.find type id
    (next r).calls load s'
  | _, .load scripts next, s =>
    let (r, s') := load scripts s
    ⟨scripts, s⟩ :: (next r).calls load s'
  | _, .table schema block next, s =>
    let ((r, b), s') := s.table schema (block.runIn load)
    block.calls load (s.inBlock schema) ++ (next r b).calls load s'

/-- A run depends on loads only by the answers to the calls it makes. -/
theorem runIn_congr (p : Program α) (s : Session)
    (h : ∀ call ∈ p.calls load s, load' call.scripts call.session = load call.scripts call.session) :
    p.runIn load' s = p.runIn load s := by
  induction p generalizing s with
  | done a => rfl
  | note e next ih => exact ih () (s.note e) h
  | row values next ih => exact ih _ _ h
  | find type id next ih => exact ih _ _ h
  | load scripts next ih =>
    obtain ⟨hcall, hrest⟩ := List.forall_mem_cons.1 h
    unfold runIn
    rw [hcall]
    exact ih _ _ hrest
  | table schema block next ihBlock ih =>
    obtain ⟨hblock, hrest⟩ := List.forall_mem_append.1 h
    unfold runIn
    rw [Session.table_congr (ihBlock (s.inBlock schema) hblock)]
    exact ih _ _ _ hrest

theorem runIn_loadDepth (h : ∀ scripts s, (load scripts s).2.loadDepth = s.loadDepth) (p : Program α) (s : Session) :
    (p.runIn load s).2.loadDepth = s.loadDepth := by
  let loads : Loads := ⟨load, fun _ _ => []⟩
  have hself : loads.Agree loads s.loadDepth := ⟨fun _ _ _ => rfl, fun _ _ _ => rfl, fun _ _ hs => hs ▸ h _ _⟩
  exact (p.agree hself s rfl).2.2

/-- A program makes all its calls as many loads deep as it runs. -/
theorem calls_loadDepth (h : ∀ scripts s, (load scripts s).2.loadDepth = s.loadDepth) (p : Program α) (s : Session) :
    ∀ call ∈ p.calls load s, call.session.loadDepth = s.loadDepth := by
  induction p generalizing s with
  | done a => exact fun _ hcall => absurd hcall List.not_mem_nil
  | note e next ih => exact ih () (s.note e)
  | row values next ih => exact fun call hcall => (ih _ _ call hcall).trans (s.row_loadDepth values)
  | find type id next ih => exact fun call hcall => (ih _ _ call hcall).trans (s.find_loadDepth type id)
  | load scripts next ih =>
    exact List.forall_mem_cons.2 ⟨rfl, fun call hcall => (ih _ _ call hcall).trans (h scripts s)⟩
  | table schema block next ihBlock ih =>
    have hkept : (s.table schema (block.runIn load)).2.loadDepth = s.loadDepth :=
      (Session.table_loadDepth ..).trans (block.runIn_loadDepth h _)
    exact List.forall_mem_append.2 ⟨ihBlock (s.inBlock schema), fun call hcall => (ih _ _ _ call hcall).trans hkept⟩

end Program

namespace Loader

variable {σ : Type} (engine : Engine σ) (l : Loader)

/-- The calls that a script makes while it runs. -/
def asked (run : ScriptRun) : List LoadCall :=
  match l.source.read (l.options.resolve run.script.name) with
  | .error _ => []
  | .ok text =>
    ((engine.execute run.script.name text (engine.prepare l.types run.vars)).calls
      (fun scripts => withoutContexts (l.load engine scripts)) (l.opened run.script run.session)).map LoadCall.bare

/-- The calls that are made when the state of a script is given up. -/
def partingCalls (run : ScriptRun) : List LoadCall :=
  ((engine.discard (l.produced engine run).1.2).calls
    (fun scripts => withoutContexts (l.load engine scripts)) (l.produced engine run).2).map LoadCall.bare

/-- The calls that a call makes through its scripts. -/
def inside (call : LoadCall) : List LoadCall :=
  (l.started engine call).flatMap fun run => l.asked engine run ++ l.partingCalls engine run

variable {engine l}

/-- What scripts load has no context open. -/
theorem asked_contexts (run : ScriptRun) :
    ∀ call ∈ l.asked engine run ++ l.partingCalls engine run, call.session.contexts = [] := by
  refine List.forall_mem_append.2 ⟨?_, List.forall_mem_map.2 fun _ _ => rfl⟩
  unfold asked
  split
  · exact fun _ hcall => absurd hcall List.not_mem_nil
  · exact List.forall_mem_map.2 fun _ _ => rfl

/-! ## What a load depends on -/

section

variable {load : List ScriptRef → Session → Except Failure Variables × Session}

theorem runIn_bare_congr {α : Type} {p : Program α} {s : Session}
    (h : ∀ call ∈ (p.calls (fun scripts => withoutContexts (l.load engine scripts)) s).map LoadCall.bare,
      load call.scripts call.session = l.load engine call.scripts call.session) :
    p.runIn (fun scripts => withoutContexts (load scripts)) s =
      p.runIn (fun scripts => withoutContexts (l.load engine scripts)) s := by
  refine p.runIn_congr s fun call hcall => ?_
  have hsame := h call.bare (List.mem_map_of_mem hcall)
  unfold LoadCall.bare at hsame
  simp only [withoutContexts, hsame]

theorem produce_congr {run : ScriptRun}
    (h : ∀ call ∈ l.asked engine run, load call.scripts call.session = l.load engine call.scripts call.session) :
    l.produce engine load run.vars run.script run.session = l.produced engine run := by
  unfold asked at h
  rw [produced]
  cases ht : l.source.read (l.options.resolve run.script.name) with
  | error f => rw [produce_unread engine l load run.vars ht, produce_unread engine l (l.load engine) run.vars ht]
  | ok text =>
    simp only [ht] at h
    have hbody : l.body engine load run.vars run.script text (l.opened run.script run.session) =
        l.body engine (l.load engine) run.vars run.script text (l.opened run.script run.session) := runIn_bare_congr h
    rw [produce_eq engine l load run.vars ht, produce_eq engine l (l.load engine) run.vars ht,
      Session.exec_congr hbody]

theorem runScript_congr {run : ScriptRun}
    (h : ∀ call ∈ l.asked engine run ++ l.partingCalls engine run,
      load call.scripts call.session = l.load engine call.scripts call.session) :
    l.runScript engine load run.vars run.script run.session =
      l.runScript engine (l.load engine) run.vars run.script run.session := by
  obtain ⟨hasked, hparting⟩ := List.forall_mem_append.1 h
  have hgiven : giveUp engine load (l.produced engine run).1.2 (l.produced engine run).2 = l.left engine run :=
    congrArg Prod.snd (runIn_bare_congr hparting)
  rw [runScript, produce_congr hasked, runScript_eq]
  exact congrArg (Prod.mk _) hgiven

theorem runAll_congr {vars : Variables} {scripts : List ScriptRef} {s : Session}
    (h : ∀ run ∈ runs (l.runScript engine (l.load engine)) vars scripts s,
      ∀ call ∈ l.asked engine run ++ l.partingCalls engine run,
      load call.scripts call.session = l.load engine call.scripts call.session) :
    runAll (l.runScript engine load) vars scripts s = runAll (l.runScript engine (l.load engine)) vars scripts s := by
  induction scripts generalizing vars s with
  | nil => rfl
  | cons script rest ih =>
    obtain ⟨hfirst, hrest⟩ := List.forall_mem_cons.1 h
    have hscript := runScript_congr hfirst
    dsimp only at hscript
    rw [runAll, runAll, hscript]
    split
    · rfl
    · rename_i outputs s' hrun
      rw [hrun] at hrest
      exact ih hrest

/-- A call depends on loads only by the answers to the calls inside it. -/
theorem loadOnce_congr {call : LoadCall}
    (h : ∀ inner ∈ l.inside engine call,
      load inner.scripts inner.session = l.load engine inner.scripts inner.session) :
    l.loadOnce engine load call.scripts call.session = l.load engine call.scripts call.session := by
  rw [load_eq, loadOnce, loadOnce]
  simp only [inside, started, List.forall_mem_flatMap] at h
  cases hv : l.options.validate with
  | error f => rfl
  | ok u =>
    simp only [hv] at h
    by_cases hd : l.options.maxLoadDepth < call.session.loadDepth + 1
    · simp only [if_pos hd]
    · simp only [if_neg hd] at h ⊢
      have hall := runAll_congr h
      unfold Session.loading at hall
      rw [hall]

end

/-! ## Depth -/

theorem bare_loadDepth {α : Type} (p : Program α) (s : Session) :
    ∀ call ∈ (p.calls (fun scripts => withoutContexts (l.load engine scripts)) s).map LoadCall.bare,
      call.session.loadDepth = s.loadDepth := by
  refine List.forall_mem_map.2 (Program.calls_loadDepth (fun scripts s => ?_) p s)
  exact load_loadDepth engine l scripts { s with contexts := [] }

theorem asked_loadDepth (run : ScriptRun) :
    ∀ call ∈ l.asked engine run ++ l.partingCalls engine run, call.session.loadDepth = run.session.loadDepth := by
  refine List.forall_mem_append.2 ⟨?_, fun call hcall => ?_⟩
  · unfold asked
    split
    · exact fun _ hcall => absurd hcall List.not_mem_nil
    · exact bare_loadDepth _ _
  · have hkept := (produce_agree engine l (inner_agree engine l run.session.loadDepth) run.vars run.script run.session
      rfl).2.2
    rw [← produced_eq] at hkept
    exact (bare_loadDepth _ _ call hcall).trans hkept

theorem runs_loadDepth (vars : Variables) (scripts : List ScriptRef) (s : Session) :
    ∀ run ∈ runs (l.runScript engine (l.load engine)) vars scripts s, run.session.loadDepth = s.loadDepth := by
  induction scripts generalizing vars s with
  | nil => exact fun _ hrun => absurd hrun List.not_mem_nil
  | cons script rest ih =>
    have hkept := (runScript_agree engine l (inner_agree engine l s.loadDepth) vars script s rfl).2.2
    rw [inner_run] at hkept
    refine List.forall_mem_cons.2 ⟨rfl, ?_⟩
    split
    · exact fun _ hrun => absurd hrun List.not_mem_nil
    · rename_i outputs s' hrun
      rw [hrun] at hkept
      exact hkept ▸ ih _ s'

/-- A call that runs scripts has been let through, and they run one level deeper. -/
theorem of_started {call : LoadCall} {run : ScriptRun} (h : run ∈ l.started engine call) :
    l.options.validate = .ok () ∧ call.session.loadDepth + 1 ≤ l.options.maxLoadDepth ∧
      run.session.loadDepth = call.session.loadDepth + 1 := by
  unfold started at h
  split at h
  · cases h
  · rename_i hv
    split at h
    · cases h
    · exact ⟨hv, by omega, runs_loadDepth _ _ _ run h⟩

theorem of_inside {outer inner : LoadCall} (h : inner ∈ l.inside engine outer) :
    l.options.validate = .ok () ∧ outer.session.loadDepth + 1 ≤ l.options.maxLoadDepth ∧
      inner.session.loadDepth = outer.session.loadDepth + 1 := by
  obtain ⟨run, hrun, hcall⟩ := List.mem_flatMap.1 h
  obtain ⟨hv, hd, hdepth⟩ := of_started hrun
  exact ⟨hv, hd, (asked_loadDepth run inner hcall).trans hdepth⟩

/-- A call of greatest depth fails at once. -/
theorem load_refused (hv : l.options.validate = .ok ()) {call : LoadCall}
    (hd : l.options.maxLoadDepth ≤ call.session.loadDepth) :
    l.load engine call.scripts call.session = (.error (l.tooDeep call.scripts), call.session) ∧
      l.started engine call = [] := by
  have hlt : l.options.maxLoadDepth < call.session.loadDepth + 1 := by omega
  rw [load_eq, loadOnce, started, hv]
  simp only [if_pos hlt]
  exact ⟨trivial, trivial⟩

/-! ## Chains -/

variable (engine l)

/-- Each call but the first is made by the call before it. -/
def IsNest (calls : List LoadCall) : Prop := calls.IsChain fun outer inner => inner ∈ l.inside engine outer

/-- A call runs scripts. -/
def Running (call : LoadCall) : Prop := l.started engine call ≠ []

variable {engine l} {call : LoadCall} {calls : List LoadCall}

theorem IsNest.loadDepth (h : l.IsNest engine (call :: calls)) (i : Nat) (hi : i < (call :: calls).length) :
    (call :: calls)[i].session.loadDepth = call.session.loadDepth + i := by
  induction calls generalizing call i with
  | nil =>
    obtain rfl : i = 0 := Nat.lt_one_iff.1 hi
    rfl
  | cons next rest ih =>
    obtain ⟨hnext, hrest⟩ := List.isChain_cons_cons.1 h
    match i with
    | 0 => rfl
    | i + 1 =>
      refine (ih hrest i (Nat.lt_of_succ_lt_succ hi)).trans ?_
      rw [(of_inside hnext).2.2]
      omega

/-- A call that is not the outermost is made by one that was let through. -/
theorem IsNest.valid (h : l.IsNest engine (call :: calls)) {i : Nat} (h0 : 0 < i) (hi : i < (call :: calls).length) :
    l.options.validate = .ok () := by
  match calls with
  | [] => exact absurd (Nat.lt_one_iff.1 hi) h0.ne'
  | next :: rest => exact (of_inside (List.isChain_cons_cons.1 h).1).1

open Classical in
/-- As many calls can run scripts at once as there are levels left. -/
theorem IsNest.running (h : l.IsNest engine (call :: calls)) :
    (call :: calls).countP (fun c => l.Running engine c) + call.session.loadDepth ≤
      max l.options.maxLoadDepth call.session.loadDepth := by
  induction calls generalizing call with
  | nil =>
    by_cases hrun : l.Running engine call
    · obtain ⟨run, hmem⟩ := List.exists_mem_of_ne_nil _ hrun
      have hd := (of_started hmem).2.1
      simp only [List.countP_cons, List.countP_nil, hrun, decide_true, if_true]
      omega
    · simp only [List.countP_cons, List.countP_nil, hrun, decide_false, Bool.false_eq_true, if_false]
      omega
  | cons next rest ih =>
    obtain ⟨hnext, hrest⟩ := List.isChain_cons_cons.1 h
    obtain ⟨-, hd, hdepth⟩ := of_inside hnext
    have hcount := ih hrest
    rw [List.countP_cons]
    split <;> omega

/-- No call is inside itself, however deep. -/
theorem inside_wellFounded : WellFounded fun inner outer => inner ∈ l.inside engine outer := by
  refine Subrelation.wf (fun {inner outer} h => ?_)
    (measure fun c : LoadCall => l.options.maxLoadDepth - c.session.loadDepth).wf
  obtain ⟨-, hd, hdepth⟩ := of_inside h
  show l.options.maxLoadDepth - inner.session.loadDepth < l.options.maxLoadDepth - outer.session.loadDepth
  omega

/-- There is one way to load that answers the loads inside scripts as it answers itself. -/
theorem load_unique {load : List ScriptRef → Session → Except Failure Variables × Session}
    (h : ∀ scripts s, load scripts s = l.loadOnce engine load scripts s) : load = l.load engine := by
  have hcall (call : LoadCall) : load call.scripts call.session = l.load engine call.scripts call.session := by
    induction call using (@inside_wellFounded σ engine l).induction with
    | _ call ih => exact (h _ _).trans (loadOnce_congr ih)
  funext scripts s
  exact hcall ⟨scripts, s⟩

open Classical in
/-- On every chain of nested calls that starts outside of scripts, each call is made as deep as its place in the chain,
and no more of them run scripts than loads may nest. A call beyond that fails for wrong use, changes nothing and runs
none of its scripts. However a load ends, the depth is what it was. So chains of calls are finite, and loads have the
results that their recursion defines. -/
theorem nested_loads_end (hmax : 1 ≤ l.options.maxLoadDepth) (host : LoadCall) (hhost : host.session.loadDepth = 0) :
    (∀ calls, l.IsNest engine (host :: calls) →
      (host :: calls).countP (fun c => l.Running engine c) ≤ l.options.maxLoadDepth ∧
      ∀ i (hi : i < (host :: calls).length),
        let call := (host :: calls)[i]
        call.session.loadDepth = i ∧
        (l.options.maxLoadDepth ≤ i →
          l.load engine call.scripts call.session = (.error (l.tooDeep call.scripts), call.session) ∧
          (l.tooDeep call.scripts).kind = .usage ∧ ¬l.Running engine call)) ∧
    (∀ scripts s, (l.load engine scripts s).2.loadDepth = s.loadDepth) ∧
    (WellFounded fun inner outer => inner ∈ l.inside engine outer) ∧
    ∀ load, (∀ scripts s, load scripts s = l.loadOnce engine load scripts s) ↔ load = l.load engine := by
  refine ⟨fun calls hnest => ⟨?_, fun i hi => ?_⟩, load_loadDepth engine l, inside_wellFounded, fun load => ?_⟩
  · have hcount := hnest.running
    omega
  · have hdepth : (host :: calls)[i].session.loadDepth = i := by
      rw [hnest.loadDepth i hi, hhost, Nat.zero_add]
    refine ⟨hdepth, fun hlimit => ?_⟩
    have hv : l.options.validate = .ok () := hnest.valid (by omega) hi
    obtain ⟨hload, hnone⟩ := @load_refused σ engine l hv _ (hlimit.trans hdepth.ge)
    exact ⟨hload, rfl, not_not.2 hnone⟩
  · refine ⟨load_unique, ?_⟩
    rintro rfl
    exact load_eq engine l

/-- A loader whose only script loads itself. -/
def looping : Loader := { single "load('a')" with options.maxLoadDepth := 1 }

/-- The script asks for a load inside the load, and this is refused. -/
theorem looping_script_ends :
    1 ≤ looping.options.maxLoadDepth ∧ ∃ inner : LoadCall,
      looping.IsNest Script.engine [⟨[only], looping.fresh⟩, inner] ∧ inner.session.loadDepth = 1 ∧
      looping.load Script.engine inner.scripts inner.session =
        (.error (looping.tooDeep inner.scripts), inner.session) := by
  have hcalls : 0 < (looping.inside Script.engine ⟨[only], looping.fresh⟩).length := by decide +kernel
  obtain ⟨inner, hinner⟩ := List.exists_mem_of_length_pos hcalls
  have hnest : looping.IsNest Script.engine [⟨[only], looping.fresh⟩, inner] :=
    List.isChain_cons_cons.2 ⟨hinner, .singleton inner⟩
  have hchain := (nested_loads_end (l := looping) (by decide) ⟨[only], looping.fresh⟩ rfl).1 [inner] hnest
  obtain ⟨hdepth, hrefused⟩ := hchain.2 1 Nat.one_lt_two
  exact ⟨by decide, inner, hnest, hdepth, (hrefused (by decide)).1⟩

end Loader

end Fixtures
