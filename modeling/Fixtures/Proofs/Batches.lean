import Fixtures.Proofs.Atomicity
import Fixtures.Proofs.Levels
import Fixtures.Proofs.Reachable
import Fixtures.Script.Engine
import Mathlib.Algebra.GroupWithZero.Nat
/-!
# Batches of scripts

Each script of a batch runs in a transaction of its own, which the scripts it
loads join (`scripts_all_or_nothing`). A batch is its scripts one after the
other, up to the first that fails. What remains of a failed script depends on
when it failed, since its outputs are read after its transaction
(`failed_script_keeps_tables`). The state of a script is given up last, and
what is asked for then, if anything is, belongs to no script's transaction.
-/

namespace Fixtures

/-- A call that loads scripts, and the session it is made in. -/
structure LoadCall where
  scripts : List ScriptRef
  session : Session

/-- A script that is run, the variables it sees, and the session it starts in. -/
structure ScriptRun where
  vars : Variables
  script : ScriptRef
  session : Session

/-! ## Events do not touch transactions -/

theorem Session.noteAll_store (events : List Event) (s : Session) :
    ∃ j, (s.noteAll events).store = { s.store with journal := j } := by
  induction events generalizing s with
  | nil => exact ⟨s.store.journal, rfl⟩
  | cons e events ih => exact ih (s.note e)

theorem Committed.noteAll {s : Store} {ws : List Write} {s' : Session} (h : Committed s ws s'.store)
    (events : List Event) : Committed s ws (s'.noteAll events).store := by
  obtain ⟨j, hj⟩ := s'.noteAll_store events
  rw [hj]
  exact ⟨h.tables, h.commits, h.rollbacks, h.closed⟩

theorem Committed.of_note {s s' : Store} {e : Event} {ws : List Write} (h : Committed (s.note e) ws s') :
    Committed s ws s' :=
  ⟨h.tables, h.commits, h.rollbacks, h.closed⟩

theorem RolledBack.of_note {s s' : Store} {e : Event} (h : RolledBack (s.note e) s') : RolledBack s s' :=
  ⟨h.tables, h.commits, h.rollbacks, h.closed⟩

theorem RolledBack.noteAll {s : Store} {s' : Session} (h : RolledBack s s'.store) (events : List Event) :
    RolledBack s (s'.noteAll events).store := by
  obtain ⟨j, hj⟩ := s'.noteAll_store events
  rw [hj]
  exact ⟨h.tables, h.commits, h.rollbacks, h.closed⟩

/-! ## Outermost units of work of a session -/

namespace Session

variable {ρ : Type} [Ending ρ] {work : Session → ρ × Session} {s : Session} {acts : List Act}

theorem exec_committed (h : s.store.inTransaction = false)
    (hw : Steps s.entered.store acts (work s.entered).2.store)
    (hok : Ending.succeeded (work s.entered).1 = true) (hf : Act.anyFailed acts = false) :
    (s.exec work).1 = (work s.entered).1 ∧ Committed s.store (Act.writes acts) (s.exec work).2.store := by
  obtain ⟨hres, hstate⟩ := Store.closeScope_committed h (Store.within_opened h hw) hf
  rw [exec_fst, exec_store, hok, hres]
  exact ⟨rfl, hstate⟩

theorem exec_rolledBack (h : s.store.inTransaction = false)
    (hw : Steps s.entered.store acts (work s.entered).2.store)
    (hf : Ending.succeeded (work s.entered).1 = false ∨ Act.anyFailed acts = true) :
    (s.exec work).1 =
        (if Ending.succeeded (work s.entered).1 then Ending.overruled (work s.entered).1 .rolledBack
          else (work s.entered).1) ∧
      RolledBack s.store (s.exec work).2.store := by
  obtain ⟨hres, hstate⟩ := Store.closeScope_rolledBack h (Store.within_opened h hw) _ hf
  rw [exec_fst, exec_store, hres]
  refine ⟨?_, hstate⟩
  cases Ending.succeeded (work s.entered).1 <;> rfl

end Session

namespace Loader

variable {σ : Type} (engine : Engine σ) (l : Loader)

/-! ## One script -/

theorem conclude_outputs (script : ScriptRef) (r : (Except Failure Unit × σ) × Session) :
    (conclude engine script r).1.1 = r.1.1.bind fun () => (engine.capture r.1.2).2 := by
  obtain ⟨⟨f | u, state⟩, s⟩ := r
  · rfl
  · unfold conclude
    dsimp only [Except.bind]
    split <;> simp_all

theorem conclude_state (script : ScriptRef) (r : (Except Failure Unit × σ) × Session) :
    (conclude engine script r).1.2 = r.1.2 := by
  obtain ⟨⟨f | u, state⟩, s⟩ := r
  · rfl
  · unfold conclude
    dsimp only
    split <;> rfl

/-- The body of a script succeeds, and so does every unit of work inside it. -/
def Succeeds (loads : Loads) (vars : Variables) (script : ScriptRef) (text : String) (s : Session) : Prop :=
  (l.body engine loads.run vars script text (l.opened script s)).1.1 = .ok () ∧
    Act.anyFailed (l.bodyActs engine loads vars script text (l.opened script s)) = false

section Script

variable {loads : Loads} (hl : loads.Stepwise)
variable (vars : Variables) {script : ScriptRef} {text : String} {s : Session}

include hl in
/-- A script that succeeds commits, and returns the outputs that are read then. -/
theorem produce_committed (ht : l.source.read (l.options.resolve script.name) = .ok text)
    (h : s.store.inTransaction = false) (hs : l.Succeeds engine loads vars script text s) :
    (l.produce engine loads.run vars script s).1.1 =
        (engine.capture (l.body engine loads.run vars script text (l.opened script s)).1.2).2 ∧
      Committed s.store (Act.writes (l.bodyActs engine loads vars script text (l.opened script s)))
        (l.produce engine loads.run vars script s).2.store := by
  obtain ⟨hok, hf⟩ := hs
  have hsucc : Ending.succeeded (l.body engine loads.run vars script text (l.opened script s)).1.1 = true := by
    rw [hok]
    rfl
  obtain ⟨hres, hc⟩ := Session.exec_committed (s := l.announced script s) h
    (body_steps engine l hl vars script text (l.opened script s)) hsucc hf
  obtain ⟨events, he⟩ := conclude_store engine script
    ((l.announced script s).exec (l.body engine loads.run vars script text))
  change l.body engine loads.run vars script text (l.announced script s).entered |>.1.1 = .ok () at hok
  rw [produce_eq engine l loads.run vars ht, conclude_outputs, he, hres, hok]
  exact ⟨rfl, hc.of_note.noteAll events⟩

include hl in
/-- A script that does not succeed fails and is rolled back. -/
theorem produce_rolledBack (ht : l.source.read (l.options.resolve script.name) = .ok text)
    (h : s.store.inTransaction = false) (hs : ¬ l.Succeeds engine loads vars script text s) :
    (∃ f, (l.produce engine loads.run vars script s).1.1 = .error f) ∧
      RolledBack s.store (l.produce engine loads.run vars script s).2.store := by
  unfold Succeeds opened at hs
  have hf : Ending.succeeded (l.body engine loads.run vars script text (l.announced script s).entered).1 = false ∨
      Act.anyFailed (l.bodyActs engine loads vars script text (l.announced script s).entered) = true := by
    rcases hb : (l.body engine loads.run vars script text (l.announced script s).entered).1 with ⟨f | u, state⟩
    · exact .inl rfl
    · rw [hb] at hs
      exact .inr (by simpa using hs)
  obtain ⟨hres, hb⟩ := Session.exec_rolledBack (s := l.announced script s) h
    (body_steps engine l hl vars script text (l.announced script s).entered) hf
  obtain ⟨events, he⟩ := conclude_store engine script
    ((l.announced script s).exec (l.body engine loads.run vars script text))
  rw [produce_eq engine l loads.run vars ht, conclude_outputs, he, hres]
  refine ⟨?_, hb.of_note.noteAll events⟩
  rcases (l.body engine loads.run vars script text (l.announced script s).entered).1 with ⟨f | u, state⟩
  · exact ⟨f, rfl⟩
  · exact ⟨.rolledBack, rfl⟩

end Script

/-! ## Runs -/

/-- The scripts of a batch that are run, in order: all up to the first that fails. -/
def runs (run : Variables → ScriptRef → Session → Except Failure Variables × Session) :
    Variables → List ScriptRef → Session → List ScriptRun
  | _, [], _ => []
  | vars, script :: rest, s =>
    ⟨vars, script, s⟩ ::
      match run vars script s with
      | (.error _, _) => []
      | (.ok outputs, s') => runs run (merge vars script outputs) rest s'

/-- The scripts that a call runs: none if it is refused. -/
def started (call : LoadCall) : List ScriptRun :=
  match l.options.validate with
  | .error _ => []
  | .ok () =>
    if l.options.maxLoadDepth < call.session.loadDepth + 1 then []
    else runs (l.runScript engine (l.load engine)) l.options.inputs call.scripts call.session.loading

variable (run : ScriptRun)

/-- How a run of a script ends, its state, and the session then. The state is still to be given up. -/
def produced : (Except Failure Variables × σ) × Session :=
  l.produce engine (l.load engine) run.vars run.script run.session

/-- The session a run of a script leaves in the end. -/
def left : Session := (l.runScript engine (l.load engine) run.vars run.script run.session).2

/-- What giving up the state of a script does to the transaction around it. -/
def partingActs : List Act :=
  giveUpActs engine (l.inner engine) (l.produced engine run).1.2 (l.produced engine run).2

/-- Giving up the state of a script enters no unit of work. -/
def Quiet : Prop := Act.anyClosed (l.partingActs engine run) = false

/-- How often giving up the state of a script commits. -/
def partingCommits : Nat := (l.left engine run).store.commits - (l.produced engine run).2.store.commits

/-- How often giving up the state of a script rolls back. -/
def partingRollbacks : Nat := (l.left engine run).store.rollbacks - (l.produced engine run).2.store.rollbacks

theorem runScript_eq (run : ScriptRun) :
    l.runScript engine (l.load engine) run.vars run.script run.session =
      ((l.produced engine run).1.1, l.left engine run) := rfl

theorem produced_eq (run : ScriptRun) :
    l.produced engine run = l.produce engine (l.inner engine).run run.vars run.script run.session := by
  rw [inner_run, produced]

/-- The state of a script is the one that the run of its text ends with. -/
theorem produced_state (run : ScriptRun) {text : String}
    (ht : l.source.read (l.options.resolve run.script.name) = .ok text) :
    (l.produced engine run).1.2 =
      (l.body engine (l.load engine) run.vars run.script text (l.opened run.script run.session)).1.2 := by
  rw [produced, produce_eq engine l _ _ ht, conclude_state, Session.exec_beside]
  rfl

theorem scriptActs_eq (run : ScriptRun) :
    l.scriptActs engine (l.inner engine) run.vars run.script run.session =
      l.produceActs engine (l.inner engine) run.vars run.script run.session ++ l.partingActs engine run := by
  rw [scriptActs, ← produced_eq, partingActs]

theorem left_steps (run : ScriptRun) :
    Steps (l.produced engine run).2.store (l.partingActs engine run) (l.left engine run).store := by
  have hsteps := giveUp_steps engine (inner_steps engine l) (l.produced engine run).1.2 (l.produced engine run).2
  rw [inner_run] at hsteps
  exact hsteps

variable {run}

/-- A state that is given up without units of work leaves no more than reports. -/
theorem Quiet.left (h : l.Quiet engine run) :
    ∃ j, (l.left engine run).store = { (l.produced engine run).2.store with journal := j } :=
  (l.left_steps engine run).reported h

theorem Quiet.partingCommits (h : l.Quiet engine run) : l.partingCommits engine run = 0 := by
  obtain ⟨j, hj⟩ := h.left
  rw [Loader.partingCommits, hj]
  exact Nat.sub_self _

theorem Quiet.partingRollbacks (h : l.Quiet engine run) : l.partingRollbacks engine run = 0 := by
  obtain ⟨j, hj⟩ := h.left
  rw [Loader.partingRollbacks, hj]
  exact Nat.sub_self _

/-- A script that returns outputs has committed, and what is counted beyond that belongs to its state. -/
theorem left_ok (run : ScriptRun) (h : run.session.store.inTransaction = false) {outputs : Variables}
    (hr : (l.produced engine run).1.1 = .ok outputs) :
    (l.left engine run).store.inTransaction = false ∧
      (l.left engine run).store.commits = run.session.store.commits + 1 + l.partingCommits engine run ∧
      (l.left engine run).store.rollbacks = run.session.store.rollbacks + l.partingRollbacks engine run := by
  obtain ⟨ws, hc⟩ : ∃ ws, Committed run.session.store ws (l.produced engine run).2.store := by
    rw [produced_eq] at hr ⊢
    cases ht : l.source.read (l.options.resolve run.script.name) with
    | error f =>
      rw [produce_unread engine l _ run.vars ht] at hr
      cases hr
    | ok text =>
      by_cases hs : l.Succeeds engine (l.inner engine) run.vars run.script text run.session
      · exact ⟨_, (produce_committed engine l (inner_steps engine l) run.vars ht h hs).2⟩
      · obtain ⟨⟨f, hf⟩, -⟩ := produce_rolledBack engine l (inner_steps engine l) run.vars ht h hs
        rw [hr] at hf
        cases hf
  have honward := (l.left_steps engine run).onward hc.closed
  refine ⟨honward.closed, ?_, ?_⟩
  · rw [← hc.commits, partingCommits]
    exact (Nat.add_sub_cancel' honward.commits).symm
  · rw [← hc.rollbacks, partingRollbacks]
    exact (Nat.add_sub_cancel' honward.rollbacks).symm

/-- Scripts that all return outputs have committed one transaction each. -/
theorem runAll_ok {scripts : List ScriptRef} {vars vars' : Variables} {s s' : Session}
    (h : s.store.inTransaction = false)
    (hr : runAll (l.runScript engine (l.load engine)) vars scripts s = (.ok vars', s')) :
    let ran := runs (l.runScript engine (l.load engine)) vars scripts s
    s'.store.inTransaction = false ∧
      s'.store.commits = s.store.commits + scripts.length + (ran.map (l.partingCommits engine)).sum ∧
      s'.store.rollbacks = s.store.rollbacks + (ran.map (l.partingRollbacks engine)).sum := by
  induction scripts generalizing vars s with
  | nil =>
    cases hr
    exact ⟨h, rfl, rfl⟩
  | cons script rest ih =>
    have hone := l.runScript_eq engine ⟨vars, script, s⟩
    rcases hs : l.runScript engine (l.load engine) vars script s with ⟨f | outputs, s₁⟩
    · simp only [runAll, hs] at hr
      cases hr
    · simp only [runAll, hs] at hr
      rw [hs, Prod.mk.injEq] at hone
      obtain ⟨hout, rfl⟩ := hone
      obtain ⟨hclosed, hcommits, hrollbacks⟩ := left_ok engine l ⟨vars, script, s⟩ h hout.symm
      dsimp only at hcommits hrollbacks
      obtain ⟨hclosed', hcommits', hrollbacks'⟩ := ih hclosed hr
      simp only [runs, hs, List.map_cons, List.sum_cons, List.length_cons]
      refine ⟨hclosed', ?_, ?_⟩
      · rw [hcommits', hcommits]
        omega
      · rw [hrollbacks', hrollbacks]
        omega

/-! ## Batches -/

theorem runAll_append (run : Variables → ScriptRef → Session → Except Failure Variables × Session)
    (vars : Variables) (pre rest : List ScriptRef) (s : Session) :
    runAll run vars (pre ++ rest) s =
      match runAll run vars pre s with
      | (.error f, s) => (.error f, s)
      | (.ok vars, s) => runAll run vars rest s := by
  induction pre generalizing vars s with
  | nil => rfl
  | cons script pre ih =>
    rw [List.cons_append, runAll, runAll]
    split
    · rfl
    · exact ih _ _

/-- What holds in every reachable state holds after a load from one, and between its scripts. -/
theorem load_reachable {scopes : List Scope} {s : Session} (h : Reachable scopes s.store) (scripts : List ScriptRef) :
    Reachable scopes (l.load engine scripts s).2.store := by
  have hsteps := inner_steps engine l scripts s
  rw [inner_run] at hsteps
  exact hsteps.reachable h

section Batch

variable {pre : List ScriptRef} {vars : Variables} {s s₁ : Session}

/-- A load that returns variables ran its scripts to the end. -/
theorem load_inv {scripts : List ScriptRef} (h : l.load engine scripts s = (.ok vars, s₁)) :
    l.options.validate = .ok () ∧ s.loadDepth + 1 ≤ l.options.maxLoadDepth ∧
      runAll (l.runScript engine (l.load engine)) l.options.inputs scripts s.loading = (.ok vars, s₁.loading) := by
  rw [load_eq, loadOnce] at h
  cases hv : l.options.validate with
  | error f => simp [hv] at h
  | ok u =>
    by_cases hd : l.options.maxLoadDepth < s.loadDepth + 1
    · simp [hv, hd] at h
    · have hk := (runAll_agree engine l (inner_agree engine l (s.loadDepth + 1)) l.options.inputs scripts
        s.loading rfl).2.2
      rw [inner_run] at hk
      rcases hr : runAll (l.runScript engine (l.load engine)) l.options.inputs scripts s.loading
        with ⟨r, store, contexts, d⟩
      rw [hr] at hk
      -- The count came back raised by one, so lowering it loses nothing.
      obtain rfl : d = s.loadDepth + 1 := hk
      unfold Session.loading at hr
      simp only [hv, hd, if_false, hr, Prod.mk.injEq] at h
      obtain ⟨rfl, rfl⟩ := h
      exact ⟨rfl, by omega, rfl⟩

/-- Scripts loaded after others run where these end. -/
theorem load_append (h : l.load engine pre s = (.ok vars, s₁)) (rest : List ScriptRef) :
    l.load engine (pre ++ rest) s =
      ((runAll (l.runScript engine (l.load engine)) vars rest s₁.loading).1,
        { (runAll (l.runScript engine (l.load engine)) vars rest s₁.loading).2 with
          loadDepth := (runAll (l.runScript engine (l.load engine)) vars rest s₁.loading).2.loadDepth - 1 }) := by
  obtain ⟨hv, hd, hr⟩ := load_inv engine l h
  unfold Session.loading at hr
  rw [load_eq, loadOnce]
  simp only [hv, if_neg (Nat.not_lt.2 hd), runAll_append, hr]
  rfl

theorem started_eq {scripts : List ScriptRef} (h : l.load engine scripts s = (.ok vars, s₁)) :
    l.started engine ⟨scripts, s⟩ =
      runs (l.runScript engine (l.load engine)) l.options.inputs scripts s.loading := by
  obtain ⟨hv, hd, -⟩ := load_inv engine l h
  simp only [started, hv, if_neg (Nat.not_lt.2 hd)]

/-- Scripts that all load commit one transaction each. -/
theorem load_ok {scripts : List ScriptRef} (h : s.store.inTransaction = false)
    (hr : l.load engine scripts s = (.ok vars, s₁)) :
    let ran := l.started engine ⟨scripts, s⟩
    s₁.store.inTransaction = false ∧
      s₁.store.commits = s.store.commits + scripts.length + (ran.map (l.partingCommits engine)).sum ∧
      s₁.store.rollbacks = s.store.rollbacks + (ran.map (l.partingRollbacks engine)).sum := by
  rw [started_eq engine l hr]
  have hall := runAll_ok engine l (s := s.loading) h (load_inv engine l hr).2.2
  exact hall

/-- After a script that fails no other is run. -/
theorem load_failed (h : l.load engine pre s = (.ok vars, s₁)) {script : ScriptRef} {f : Failure} {s₂ : Session}
    (hf : l.runScript engine (l.load engine) vars script s₁.loading = (.error f, s₂)) (post : List ScriptRef) :
    l.load engine (pre ++ script :: post) s = (.error f, { s₂ with loadDepth := s₂.loadDepth - 1 }) := by
  rw [load_append engine l h]
  simp only [runAll, hf]

/-- The last script of a batch decides what the batch leaves in the store, and whether it fails. -/
theorem load_snoc (h : l.load engine pre s = (.ok vars, s₁)) (script : ScriptRef) :
    let run : ScriptRun := ⟨vars, script, s₁.loading⟩
    (l.load engine (pre ++ [script]) s).2.store = (l.left engine run).store ∧
      ∀ f, (l.load engine (pre ++ [script]) s).1 = .error f → (l.produced engine run).1.1 = .error f := by
  intro run
  have hrun : l.runScript engine (l.load engine) vars script s₁.loading =
      ((l.produced engine run).1.1, l.left engine run) := l.runScript_eq engine run
  rw [load_append engine l h]
  cases hout : (l.produced engine run).1.1 with
  | error f =>
    rw [hout] at hrun
    simp only [runAll, hrun]
    exact ⟨trivial, fun f hf => hf⟩
  | ok outputs =>
    rw [hout] at hrun
    simp only [runAll, hrun]
    refine ⟨trivial, fun f hf => ?_⟩
    cases hf

end Batch

/-! ## All or nothing -/

/-- A script of a batch commits, in one transaction, all that it and the scripts it loads write, if its
body succeeds and so does every unit of work opened inside it; else it changes no table and is rolled
back once. Then its state is given up: what is asked for at that point comes after this, in units of work
of its own. So a batch that loads commits once for each script and rolls nothing back, apart from what giving
up states adds. After a script that fails no other is run. -/
theorem scripts_all_or_nothing (s : Session) (h : s.store.inTransaction = false) :
    (∀ pre script text vars s₁, l.load engine pre s = (.ok vars, s₁) →
      l.source.read (l.options.resolve script.name) = .ok text →
      let run : ScriptRun := ⟨vars, script, s₁.loading⟩
      let acts := l.bodyActs engine (l.inner engine) vars script text (l.opened script s₁.loading)
      let closed := (l.produced engine run).2.store
      let after := (l.load engine (pre ++ [script]) s).2.store
      (l.Succeeds engine (l.inner engine) vars script text s₁.loading →
        Committed s₁.store (Act.writes acts) closed) ∧
      (¬ l.Succeeds engine (l.inner engine) vars script text s₁.loading → RolledBack s₁.store closed) ∧
      Steps closed (l.partingActs engine run) after ∧
      (l.Quiet engine run → ∃ j, after = { closed with journal := j })) ∧
    (∀ scripts vars s', l.load engine scripts s = (.ok vars, s') →
      let ran := l.started engine ⟨scripts, s⟩
      s'.store.commits = s.store.commits + scripts.length + (ran.map (l.partingCommits engine)).sum ∧
      s'.store.rollbacks = s.store.rollbacks + (ran.map (l.partingRollbacks engine)).sum ∧
      ((∀ run ∈ ran, l.Quiet engine run) →
        s'.store.commits = s.store.commits + scripts.length ∧ s'.store.rollbacks = s.store.rollbacks)) ∧
    ∀ pre script post vars s₁ f, l.load engine pre s = (.ok vars, s₁) →
      (l.load engine (pre ++ [script]) s).1 = .error f →
      l.load engine (pre ++ script :: post) s = l.load engine (pre ++ [script]) s := by
  refine ⟨?_, ?_, ?_⟩
  · intro pre script text vars s₁ hpre ht run acts closed after
    have hclosed : s₁.loading.store.inTransaction = false := (load_ok engine l h hpre).1
    have hafter : after = (l.left engine run).store := (load_snoc engine l hpre script).1
    have hproduced : closed = (l.produce engine (l.inner engine).run vars script s₁.loading).2.store := by
      unfold closed
      rw [produced_eq]
    rw [hafter]
    refine ⟨fun hs => ?_, fun hs => ?_, l.left_steps engine run, fun hq => hq.left⟩
    · rw [hproduced]
      exact (produce_committed engine l (inner_steps engine l) vars ht hclosed hs).2
    · rw [hproduced]
      exact (produce_rolledBack engine l (inner_steps engine l) vars ht hclosed hs).2
  · intro scripts vars s' hr ran
    obtain ⟨-, hcommits, hrollbacks⟩ := load_ok engine l h hr
    refine ⟨hcommits, hrollbacks, fun hq => ?_⟩
    have hnone : (ran.map (l.partingCommits engine)).sum = 0 ∧ (ran.map (l.partingRollbacks engine)).sum = 0 := by
      constructor
      · exact List.sum_eq_zero_iff_forall_eq_nat.2 <| List.forall_mem_map.2 fun run hrun => (hq run hrun).partingCommits
      · exact List.sum_eq_zero_iff_forall_eq_nat.2 <|
          List.forall_mem_map.2 fun run hrun => (hq run hrun).partingRollbacks
    rw [hcommits, hrollbacks, hnone.1, hnone.2]
    exact ⟨rfl, rfl⟩
  · intro pre script post vars s₁ f hpre hf
    have hrun := l.runScript_eq engine ⟨vars, script, s₁.loading⟩
    rw [(load_snoc engine l hpre script).2 f hf] at hrun
    rw [load_failed engine l hpre hrun post, load_failed engine l hpre hrun []]

/-- A loader that knows users with a name, and a single script. -/
def single (text : String) : Loader where
  types := Catalog.ofTypes [(EntityType.new "User").withAttribute "name"]
  source := .shelf (Shelf.put "a" text [])

/-- The single script. -/
def only : ScriptRef := ⟨"a", none⟩

/-- A session on a store without entities of a loader's types. -/
def fresh (l : Loader) : Session := { store := { types := l.types } }

/-- The load of a single script into an empty store. -/
def loadSingle (text : String) : Except Failure Variables × Session :=
  (single text).load Script.engine [only] (single text).fresh

/-- What the body of a single script does. -/
def singleActs (text : String) : List Act :=
  (single text).bodyActs Script.engine ((single text).inner Script.engine) [] only text
    ((single text).opened only (single text).fresh.loading)

/-- How the body of a single script ends. -/
def singleBody (text : String) : Except Failure Unit :=
  ((single text).body Script.engine ((single text).inner Script.engine).run [] only text
    ((single text).opened only (single text).fresh.loading)).1.1

/-- The run of a single script. -/
def singleRun (text : String) : ScriptRun := ⟨[], only, (single text).fresh.loading⟩

theorem eq_ok_of_isSome {ε α : Type} {r : Except ε α} (h : r.toOption.isSome = true) : ∃ a, r = .ok a := by
  cases r with
  | error e => cases h
  | ok a => exact ⟨a, rfl⟩

theorem eq_error_of_isNone {ε α : Type} {r : Except ε α} (h : r.toOption.isNone = true) : ∃ e, r = .error e := by
  cases r with
  | error e => exact ⟨e, rfl⟩
  | ok a => cases h

/-- A script that creates a user. -/
def creating : String := "table(User, \x7b'name'\x7d, function() row('ann') end)"

theorem single_read (text : String) :
    (single text).source.read ((single text).options.resolve only.name) = .ok text :=
  (Shelf.read_put "a" text "a" []).trans (if_pos rfl)

theorem created_row_commits :
    (single creating).fresh.store.inTransaction = false ∧ (Act.writes (singleActs creating)).length = 1 ∧
      (single creating).Quiet Script.engine (singleRun creating) ∧
      Committed (single creating).fresh.store (Act.writes (singleActs creating))
        ((single creating).produced Script.engine (singleRun creating)).2.store := by
  have hrun : (singleBody creating).toOption.isSome = true ∧ Act.anyFailed (singleActs creating) = false ∧
      (Act.writes (singleActs creating)).length = 1 ∧
      Act.anyClosed ((single creating).partingActs Script.engine (singleRun creating)) = false := by
    decide +kernel
  obtain ⟨hok, hf, hw, hq⟩ := hrun
  have hpre : (single creating).load Script.engine [] (single creating).fresh = (.ok [], (single creating).fresh) := rfl
  have hone := (scripts_all_or_nothing Script.engine (single creating) (single creating).fresh rfl).1
    [] only creating [] _ hpre (single_read creating)
  obtain ⟨u, hu⟩ := eq_ok_of_isSome hok
  exact ⟨rfl, hw, hq, hone.1 ⟨hu, hf⟩⟩

/-- A find with an unusable identifier fails before it opens a unit of work. -/
def catchingFind : String := creating ++ " ok = pcall(find, User, true)"

/-- A script that catches the failure of such a find commits all the same. -/
theorem refused_find_commits :
    Act.anyRefused (singleActs catchingFind) = true ∧ (loadSingle catchingFind).2.store.count "User" = 1 ∧
      ¬ RolledBack (single catchingFind).fresh.store (loadSingle catchingFind).2.store := by
  have hrun : Act.anyRefused (singleActs catchingFind) = true ∧ (loadSingle catchingFind).2.store.count "User" = 1 ∧
      (loadSingle catchingFind).2.store.commits = 1 := by
    decide +kernel
  obtain ⟨hrefused, hcount, hcommits⟩ := hrun
  refine ⟨hrefused, hcount, fun hr => ?_⟩
  have h := hcommits.symm.trans hr.commits
  cases h

/-- A script whose state still has a finalizer that creates a user. -/
def finalizing : String :=
  "math.kept = setmetatable(\x7b\x7d, \x7b__gc = function() " ++ creating ++ " end\x7d) x = 1"

/-- Such a row comes after the transaction of its script, in one of its own. -/
theorem finalizer_commits_apart :
    (loadSingle finalizing).1.toOption.isSome = true ∧ (loadSingle finalizing).2.store.commits = 2 ∧
      (Act.writes (singleActs finalizing)).length = 0 ∧ (loadSingle finalizing).2.store.count "User" = 1 := by
  decide +kernel

/-! ## Failed scripts -/

/-- The transaction of a script commits, and then its outputs cannot be read. -/
def FailsAfterCommit (run : ScriptRun) : Prop :=
  ∃ text f, l.source.read (l.options.resolve run.script.name) = .ok text ∧
    l.Succeeds engine (l.inner engine) run.vars run.script text run.session ∧
    (engine.capture
      (l.body engine (l.load engine) run.vars run.script text (l.opened run.script run.session)).1.2).2 = .error f

section Failed

variable {engine l} {run : ScriptRun} (h : run.session.store.inTransaction = false)

include h

/-- A script that fails in any other way leaves the tables as they were. -/
theorem produced_kept {f : Failure} (hf : (l.produced engine run).1.1 = .error f)
    (hn : ¬ l.FailsAfterCommit engine run) :
    (l.produced engine run).2.store.tables = run.session.store.tables ∧
      (l.produced engine run).2.store.commits = run.session.store.commits := by
  rw [produced_eq] at hf ⊢
  cases ht : l.source.read (l.options.resolve run.script.name) with
  | error g =>
    rw [produce_unread engine l _ run.vars ht]
    exact ⟨rfl, rfl⟩
  | ok text =>
    by_cases hs : l.Succeeds engine (l.inner engine) run.vars run.script text run.session
    · -- The script committed, so what failed is reading its outputs.
      have hc := (produce_committed engine l (inner_steps engine l) run.vars ht h hs).1
      rw [hf, inner_run] at hc
      exact absurd ⟨text, f, ht, hs, hc.symm⟩ hn
    · have hb := (produce_rolledBack engine l (inner_steps engine l) run.vars ht h hs).2
      exact ⟨hb.tables, hb.commits⟩

theorem FailsAfterCommit.committed (hc : l.FailsAfterCommit engine run) :
    Committed run.session.store
      (Act.writes (l.produceActs engine (l.inner engine) run.vars run.script run.session))
      (l.produced engine run).2.store := by
  obtain ⟨text, f, ht, hs, -⟩ := hc
  rw [produced_eq, produceActs, ht, Act.writes_append, Act.writes_close, Act.writes_nil, List.append_nil]
  exact (produce_committed engine l (inner_steps engine l) run.vars ht h hs).2

end Failed

/-- A script that fails leaves the tables as the scripts before it left them, unless it fails after its
transaction: then all that it wrote is committed. What is written beyond that is what giving up its state
asks for, and there is none if this enters no unit of work. -/
theorem failed_script_keeps_tables {s s₁ : Session} (h : s.store.inTransaction = false) {pre : List ScriptRef}
    {vars : Variables} (hpre : l.load engine pre s = (.ok vars, s₁)) {script : ScriptRef} {f : Failure}
    (hf : (l.load engine (pre ++ [script]) s).1 = .error f) (post : List ScriptRef) :
    let run : ScriptRun := ⟨vars, script, s₁.loading⟩
    let closed := (l.produced engine run).2.store
    let after := (l.load engine (pre ++ script :: post) s).2.store
    (l.load engine (pre ++ script :: post) s).1 = .error f ∧
    (¬ l.FailsAfterCommit engine run → closed.tables = s₁.store.tables ∧ closed.commits = s₁.store.commits) ∧
    (l.FailsAfterCommit engine run →
      Committed s₁.store (Act.writes (l.produceActs engine (l.inner engine) vars script s₁.loading)) closed) ∧
    Steps closed (l.partingActs engine run) after ∧
    (l.Quiet engine run →
      (¬ l.FailsAfterCommit engine run → after.tables = s₁.store.tables ∧ after.commits = s₁.store.commits) ∧
      (l.FailsAfterCommit engine run →
        Committed s₁.store (Act.writes (l.produceActs engine (l.inner engine) vars script s₁.loading)) after)) := by
  intro run closed after
  have hclosed : s₁.loading.store.inTransaction = false := (load_ok engine l h hpre).1
  have hout := (load_snoc engine l hpre script).2 f hf
  have hrun := l.runScript_eq engine run
  rw [hout] at hrun
  have hload := load_failed engine l hpre hrun post
  have hafter : after = (l.left engine run).store := by
    unfold after
    rw [hload]
  have hkept : ¬ l.FailsAfterCommit engine run →
      closed.tables = s₁.store.tables ∧ closed.commits = s₁.store.commits := produced_kept hclosed hout
  rw [hload]
  refine ⟨rfl, hkept, fun hc => hc.committed hclosed, hafter ▸ l.left_steps engine run, fun hq => ?_⟩
  obtain ⟨j, hj⟩ := hq.left
  rw [hafter, hj]
  refine ⟨hkept, fun hc => ?_⟩
  have hstate := hc.committed hclosed
  exact ⟨hstate.tables, hstate.commits, hstate.rollbacks, hstate.closed⟩

/-- A script that creates a user and then raises an error. -/
def raising : String := creating ++ " error('no')"

theorem raised_error_drops_rows :
    (single raising).fresh.store.inTransaction = false ∧ (∃ f, (loadSingle raising).1 = .error f) ∧
      (loadSingle raising).2.store.tables = [] := by
  have hrun : (singleBody raising).toOption.isNone = true ∧ (loadSingle raising).1.toOption.isNone = true ∧
      Act.anyClosed ((single raising).partingActs Script.engine (singleRun raising)) = false := by
    decide +kernel
  obtain ⟨hbody, hfail, hq⟩ := hrun
  obtain ⟨g, hg⟩ := eq_error_of_isNone hbody
  obtain ⟨f, hf⟩ := eq_error_of_isNone hfail
  have hn : ¬ (single raising).FailsAfterCommit Script.engine (singleRun raising) := by
    rintro ⟨text, f', ht, ⟨hb, -⟩, -⟩
    obtain rfl : raising = text := Except.ok.inj ((single_read raising).symm.trans ht)
    cases hg.symm.trans hb
  have hpre : (single raising).load Script.engine [] (single raising).fresh = (.ok [], (single raising).fresh) := rfl
  obtain ⟨-, -, -, -, hkept⟩ := failed_script_keeps_tables Script.engine (single raising) rfl hpre hf []
  exact ⟨rfl, ⟨f, hf⟩, ((hkept hq).1 hn).1⟩

/-- A script that creates a user and leaves an output that is nested too deep to be read. -/
def nesting : String := creating ++ " for i = 1, 65 do x = \x7bx\x7d end"

/-- Such a script fails and its row stays. -/
theorem unread_output_keeps_row :
    (∃ f, (loadSingle nesting).1 = .error f) ∧
      (loadSingle nesting).2.store.tables ≠
        ((single nesting).load Script.engine [] (single nesting).fresh).2.store.tables := by
  have hrun : (loadSingle nesting).1.toOption.isNone = true ∧
      ((loadSingle nesting).2.store.tables.table "User").length = 1 := by
    decide +kernel
  obtain ⟨hfail, hrow⟩ := hrun
  refine ⟨eq_error_of_isNone hfail, fun he => ?_⟩
  have hnone :
      (((single nesting).load Script.engine [] (single nesting).fresh).2.store.tables.table "User").length = 0 := rfl
  rw [← he, hrow] at hnone
  cases hnone

end Loader

end Fixtures
