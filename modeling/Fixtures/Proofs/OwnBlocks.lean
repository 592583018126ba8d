import Fixtures.Proofs.Independence
import Fixtures.Proofs.Nesting
import Fixtures.Proofs.Unfolding
/-!
# Rows outside of a script's own blocks

A row that a script asks for while it has no block of its own open (`bareRows`)
finds the stack of contexts that its load was made on. Scripts that are loaded
by scripts start without contexts, so there it is refused and does nothing. A
load by a host starts on the stack of the host: if that has a block open, the
row is created in the innermost context. `Records` says what such rows make of
the stack, and nothing else of it changes.
-/

namespace Fixtures

/-! ## Rows in no block -/

/-- A row that is asked for, and the session it is asked in. -/
structure RowRequest where
  values : List Value
  session : Session

namespace RowRequest

def result (r : RowRequest) : Except Failure Entity := (r.session.row r.values).1

/-- The entities that were created for rows, in order. -/
def created (rows : List RowRequest) : List Entity := rows.filterMap fun r => r.result.toOption

end RowRequest

open RowRequest

/-- The rows that a program asks for with none of its blocks open. -/
def Program.bareRows (load : List ScriptRef → Session → Except Failure Variables × Session) :
    {α : Type} → Program α → Session → List RowRequest
  | _, .done _, _ => []
  | _, .note e next, s => (next ()).bareRows load (s.note e)
  | _, .row values next, s =>
    let (r, s') := s.row values
    ⟨values, s⟩ :: (next r).bareRows load s'
  | _, .find type id next, s =>
    let (r, s') := s.find type id
    (next r).bareRows load s'
  | _, .load scripts next, s =>
    let (r, s') := load scripts s
    (next r).bareRows load s'
  | _, .table schema block next, s =>
    let ((r, b), s') := s.table schema (block.runIn load)
    (next r b).bareRows load s'

namespace Loader

variable {σ : Type} (engine : Engine σ) (l : Loader) (run : ScriptRun)

/-- The rows that a script asks for while it runs with no block of its own open. -/
def bodyRows : List RowRequest :=
  match l.source.read (l.options.resolve run.script.name) with
  | .error _ => []
  | .ok text =>
    (engine.execute run.script.name text (engine.prepare l.types run.vars)).bareRows
      (fun scripts => withoutContexts (l.load engine scripts)) (l.opened run.script run.session)

/-- The rows that a script asks for with no block of its own open, up to when its state is given up. -/
def bareRows : List RowRequest :=
  l.bodyRows engine run ++ (engine.discard (l.produced engine run).1.2).bareRows
    (fun scripts => withoutContexts (l.load engine scripts)) (l.produced engine run).2

end Loader

/-! ## What they make of the stack -/

/-- Rows are asked for one after the other against a stack, which records those that are created. -/
def Records : ContextStack → List RowRequest → ContextStack → Prop
  | before, [], after => after = before
  | before, r :: rows, after =>
    r.session.contexts = before ∧ Records (before.recordAll r.result.toOption.toList) rows after

namespace Records

variable {before middle after : ContextStack} {rows rows' : List RowRequest}

theorem append (h : Records before rows middle) (h' : Records middle rows' after) :
    Records before (rows ++ rows') after := by
  induction rows generalizing before with
  | nil =>
    obtain rfl : middle = before := h
    exact h'
  | cons r rows ih => exact ⟨h.1, ih h.2⟩

theorem created_cons (r : RowRequest) (rows : List RowRequest) :
    created (r :: rows) = r.result.toOption.toList ++ created rows := by
  cases h : r.result.toOption <;> simp [created, h]

/-- In the end the innermost context has the entities created, and the others are as they were. -/
theorem eq (h : Records before rows after) : after = before.recordAll (created rows) := by
  induction rows generalizing before with
  | nil => exact h.trans before.recordAll_nil.symm
  | cons r rows ih => rw [ih h.2, created_cons, ContextStack.recordAll_append]

/-- So it is at each of the rows. -/
theorem at_row {pre post : List RowRequest} {r : RowRequest} (h : Records before (pre ++ r :: post) after) :
    r.session.contexts = before.recordAll (created pre) := by
  induction pre generalizing before with
  | nil => exact h.1.trans before.recordAll_nil.symm
  | cons r' pre ih => rw [ih h.2, created_cons, ContextStack.recordAll_append]

end Records

theorem Session.row_records (values : List Value) (s : Session) :
    Records s.contexts [⟨values, s⟩] (s.row values).2.contexts := by
  obtain ⟨-, hend⟩ := s.row_fills values
  rw [RowCall.landed?, if_pos ⟨rfl, rfl⟩] at hend
  exact ⟨rfl, hend⟩

/-- Without a context a row is refused and nothing happens. -/
theorem Session.row_refused {s : Session} (h : s.contexts = []) (values : List Value) :
    s.row values = (.error .rowOutsideTable, s) := by
  unfold Session.row
  rw [h]

section

variable {α : Type} {load : List ScriptRef → Session → Except Failure Variables × Session}

/-- Blocks and loads leave the stack alone, so only rows in no block make something of it. -/
theorem Program.records (hl : ∀ scripts s, (load scripts s).2.contexts = s.contexts) (p : Program α) (s : Session) :
    Records s.contexts (p.bareRows load s) (p.runIn load s).2.contexts := by
  induction p generalizing s with
  | done a => rfl
  | note e next ih => exact ih () (s.note e)
  | row values next ih => exact (s.row_records values).append (ih _ _)
  | find type id next ih =>
    have h := ih (s.find type id).1 (s.find type id).2
    rw [s.find_contexts type id] at h
    exact h
  | load scripts next ih =>
    have h := ih (load scripts s).1 (load scripts s).2
    rw [hl scripts s] at h
    exact h
  | table schema block next _ ih =>
    have hfaithful : Watched.Faithful ⟨load, fun _ _ => []⟩ := fun scripts s => hl scripts s
    have hkept := (Session.table_contexts (block.fills hfaithful (s.inBlock schema))).1
    have h := ih (s.table schema (block.runIn load)).1.1 (s.table schema (block.runIn load)).1.2
      (s.table schema (block.runIn load)).2
    rw [hkept] at h
    exact h

end

namespace Loader

variable {σ : Type} (engine : Engine σ) (l : Loader)

theorem produced_records (run : ScriptRun) :
    Records run.session.contexts (l.bodyRows engine run) (l.produced engine run).2.contexts := by
  unfold bodyRows produced
  cases ht : l.source.read (l.options.resolve run.script.name) with
  | error f =>
    rw [produce_unread engine l (l.load engine) run.vars ht]
    rfl
  | ok text =>
    rw [produce_eq engine l (l.load engine) run.vars ht, conclude_contexts, Session.exec_contexts]
    exact Program.records (fun scripts s => rfl) _ (l.opened run.script run.session)

theorem left_records (run : ScriptRun) :
    Records run.session.contexts (l.bareRows engine run) (l.left engine run).contexts :=
  (l.produced_records engine run).append (Program.records (fun _ _ => rfl) _ _)

theorem runAll_records (vars : Variables) (scripts : List ScriptRef) (s : Session) :
    Records s.contexts
      ((runs (l.runScript engine (l.load engine)) vars scripts s).flatMap (l.bareRows engine))
      (runAll (l.runScript engine (l.load engine)) vars scripts s).2.contexts := by
  induction scripts generalizing vars s with
  | nil => rfl
  | cons script rest ih =>
    have h := left_records engine l ⟨vars, script, s⟩
    unfold left at h
    rcases hr : l.runScript engine (l.load engine) vars script s with ⟨f | outputs, s'⟩
    · rw [hr] at h
      simp only [runs, runAll, hr, List.flatMap_cons, List.flatMap_nil, List.append_nil]
      exact h
    · rw [hr] at h
      simp only [runs, runAll, hr, List.flatMap_cons]
      exact h.append (ih _ _)

/-- The rows in no block of the scripts that a call runs. -/
def callRows (call : LoadCall) : List RowRequest := (l.started engine call).flatMap (l.bareRows engine)

theorem load_records (call : LoadCall) :
    Records call.session.contexts (l.callRows engine call) (l.load engine call.scripts call.session).2.contexts := by
  unfold callRows started
  rw [load_eq, loadOnce]
  cases l.options.validate with
  | error f => rfl
  | ok u =>
    by_cases hd : l.options.maxLoadDepth < call.session.loadDepth + 1
    · simp only [if_pos hd]
      rfl
    · simp only [if_neg hd]
      exact runAll_records engine l l.options.inputs call.scripts call.session.loading

end Loader

/-! ## Calls from scripts -/

namespace Script

variable {α β : Type} (load : List ScriptRef → Session → Except Failure Variables × Session)

theorem Eval.runIn_bind (x : Eval α) (f : α → Eval β) (heap : Heap) (s : Session) :
    ((x >>= f) heap).runIn load s =
      match (x heap).runIn load s with
      | ((.ok a, heap), s) => (f a heap).runIn load s
      | ((.error v, heap), s) => ((.error v, heap), s) := by
  show ((x heap).bind _).runIn load s = _
  rw [Program.runIn_bind]
  rcases (x heap).runIn load s with ⟨⟨v | a, heap'⟩, s'⟩ <;> rfl

theorem Eval.runIn_report (f : Heap → Reported α) (heap : Heap) (s : Session) :
    (Eval.report f heap).runIn load s =
      match (f heap).result with
      | .ok a => ((.ok a, heap), s.noteAll (f heap).events)
      | .error e => (heap.raised e, s.noteAll (f heap).events) := by
  have hnoted : ((Eval.ask (Program.noteAll (f heap).events)) heap).runIn load s =
      ((.ok (), heap), s.noteAll (f heap).events) := by
    unfold Eval.ask
    rw [Program.runIn_bind, Program.runIn_noteAll]
    rfl
  show ((Eval.ask (Program.noteAll (f heap).events) >>= fun _ => Eval.orFail (f heap).result) heap).runIn load s = _
  rw [Eval.runIn_bind, hnoted]
  cases (f heap).result <;> rfl

/-- Reading a value fails only for its nesting. -/
theorem Heap.valueOf_usage {heap : Heap} {v : Val} {f : Failure} (h : (heap.valueOf v).result = .error f) :
    f.kind = .usage := by
  classical
  rw [Heap.valueOf, Reported.result_of_quiet (heap.quiet_read nestingLimit [] v)] at h
  split at h
  · cases h
  · cases h
    rfl

/-- The values of a row are read, or refused for wrong use. -/
theorem rowValues_run (args : List Val) (position : Nat) (heap : Heap) (s : Session) :
    ∃ events, (∃ values, (Vocabulary.rowValues position args heap).runIn load s =
        ((.ok values, heap), s.noteAll events)) ∨
      ∃ f, f.kind = .usage ∧ (Vocabulary.rowValues position args heap).runIn load s =
        (heap.raised f, s.noteAll events) := by
  induction args generalizing position s with
  | nil => exact ⟨[], .inl ⟨[], rfl⟩⟩
  | cons v rest ih =>
    unfold Vocabulary.rowValues
    rw [Eval.runIn_bind, Eval.runIn_report]
    cases hv : (heap.valueOf v).result with
    | error f => exact ⟨_, .inr ⟨f, Heap.valueOf_usage hv, rfl⟩⟩
    | ok value? =>
      cases value? with
      | none => exact ⟨_, .inr ⟨.rowValueNotData position (heap.kindOf v), rfl, rfl⟩⟩
      | some value =>
        obtain ⟨events, hrest⟩ := ih (position + 1) (s.noteAll (heap.valueOf v).events)
        refine ⟨(heap.valueOf v).events ++ events, ?_⟩
        dsimp only
        rw [Eval.runIn_bind, Session.noteAll_append]
        obtain ⟨values, hrest⟩ | ⟨f, hf, hrest⟩ := hrest
        · rw [hrest]
          exact .inl ⟨value :: values, rfl⟩
        · rw [hrest]
          exact .inr ⟨f, hf, rfl⟩

/-- A call of `row` in a session without contexts raises a failure of wrong use, and only reports are left of it. -/
theorem row_outside (args : List Val) (heap : Heap) {s : Session} (h : s.contexts = []) :
    ∃ f events, f.kind = .usage ∧
      (Vocabulary.row args heap).runIn load s = (heap.raised f, s.noteAll events) := by
  obtain ⟨events, ⟨values, hv⟩ | ⟨f, hf, hv⟩⟩ := rowValues_run load args 1 heap s
  · have hrow := Session.row_refused ((s.noteAll_contexts events).trans h) values
    refine ⟨.rowOutsideTable, events, rfl, ?_⟩
    unfold Vocabulary.row
    rw [Eval.runIn_bind, hv]
    dsimp only
    rw [Eval.runIn_bind]
    have hask : (Eval.ask (.row values .done) heap).runIn load (s.noteAll events) =
        ((.ok (.error .rowOutsideTable), heap), s.noteAll events) := by
      unfold Eval.ask
      rw [Program.runIn_bind]
      simp only [Program.runIn, hrow]
    rw [hask]
    rfl
  · refine ⟨f, events, hf, ?_⟩
    unfold Vocabulary.row
    rw [Eval.runIn_bind, hv]
    rfl

end Script

open Script

/-- A row that a script asks for with no block of its own open finds the stack its load was made on, as the rows before
it left that. On an empty stack it is refused for wrong use, creates nothing and leaves the session as it was; so it is
in every script that a script loads, and the contexts of the script that loads stay as they are. Only a load by a host
finds other contexts: the innermost of them is given the entities of such rows, in order, and the others stay. -/
theorem rows_need_own_block {σ : Type} (engine : Engine σ) (l : Loader) :
    (∀ call : LoadCall,
      let rows := l.callRows engine call
      let after := (l.load engine call.scripts call.session).2.contexts
      (call.session.contexts = [] →
        after = [] ∧ ∀ r ∈ rows, r.session.row r.values = (.error .rowOutsideTable, r.session)) ∧
      (∀ pre r post, rows = pre ++ r :: post → r.session.contexts = call.session.contexts.recordAll (created pre)) ∧
      after = call.session.contexts.recordAll (created rows) ∧
      ∀ inner ∈ l.inside engine call, inner.session.contexts = []) ∧
    (∀ scripts s, (Loader.withoutContexts (l.load engine scripts) s).2.contexts = s.contexts) ∧
    Failure.rowOutsideTable.kind = .usage ∧
    ∀ load args heap (s : Session), s.contexts = [] → ∃ f events, f.kind = .usage ∧
      (Vocabulary.row args heap).runIn load s = (heap.raised f, s.noteAll events) := by
  refine ⟨fun call => ?_, fun scripts s => rfl, rfl, fun load args heap s hs => row_outside load args heap hs⟩
  intro rows after
  have hrecords := Loader.load_records engine l call
  have hat (pre : List RowRequest) (r : RowRequest) (post : List RowRequest) (hrows : rows = pre ++ r :: post) :
      r.session.contexts = call.session.contexts.recordAll (created pre) := by
    unfold rows at hrows
    rw [hrows] at hrecords
    exact hrecords.at_row
  refine ⟨fun hnone => ⟨?_, fun r hr => ?_⟩, hat, hrecords.eq, fun inner hinner => ?_⟩
  · unfold after
    rw [hrecords.eq, hnone]
    rfl
  · obtain ⟨pre, post, hrows⟩ := List.append_of_mem hr
    refine Session.row_refused ?_ r.values
    rw [hat pre r post hrows, hnone]
    rfl
  · obtain ⟨run, -, hcall⟩ := List.mem_flatMap.1 hinner
    exact Loader.asked_contexts run inner hcall

namespace Loader

/-- A script that asks for a row in no block. -/
def bare : String := "row('ann')"

/-- A host has a block of users open and loads a script that has none: its row is a user of the block. -/
theorem row_joins_block_of_host :
    let block : Context := ⟨(EntityType.new "User").withAttribute "name", ["name"], []⟩
    let s : Session := { (single bare).fresh with contexts := [block] }
    let answer := (single bare).load Script.engine [only] s
    (∃ vars, answer.1 = .ok vars) ∧ answer.2.store.count "User" = 1 ∧ answer.2.contexts ≠ s.contexts := by
  intro block s answer
  have hrun : answer.1.toOption.isSome = true ∧ answer.2.store.count "User" = 1 ∧
      answer.2.contexts.map (fun c => c.created.length) = [1] := by
    decide +kernel
  obtain ⟨hok, hcount, hcontexts⟩ := hrun
  refine ⟨eq_ok_of_isSome hok, hcount, fun he => ?_⟩
  rw [he] at hcontexts
  cases hcontexts

end Loader

end Fixtures
