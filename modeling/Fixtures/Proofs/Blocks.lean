import Fixtures.Proofs.Loads
/-!
# Table blocks and their rows

Rows find their context on top of the stack of open contexts, whatever pushed
it there. `rowCalls` lists the row calls of a run with the stacks they ran
against. `Fills` says what such calls make of a stack: whatever is opened above
it is gone in the end, and its top context has the entities of the rows that
ran when it was on top. So a block leaves the stack as it was and lists its own
rows.
-/

namespace Fixtures

/-! ## Stacks and calls -/

/-- The stack with entities recorded in its innermost context. -/
def ContextStack.recordAll : ContextStack → List Entity → ContextStack
  | [], _ => []
  | c :: rest, es => { c with created := c.created ++ es } :: rest

namespace ContextStack

@[simp] theorem length_recordAll (stack : ContextStack) (es : List Entity) :
    (stack.recordAll es).length = stack.length := by
  cases stack <;> rfl

@[simp] theorem recordAll_nil (stack : ContextStack) : stack.recordAll [] = stack := by
  cases stack with
  | nil => rfl
  | cons c rest => simp only [recordAll, List.append_nil]

theorem recordAll_append (stack : ContextStack) (es es' : List Entity) :
    stack.recordAll (es ++ es') = (stack.recordAll es).recordAll es' := by
  cases stack with
  | nil => rfl
  | cons c rest => simp only [recordAll, List.append_assoc]

end ContextStack

/-- A call of `row`. -/
structure RowCall where
  /-- It was made in a script that a script loaded, on a stack of that script's own. -/
  apart : Bool
  /-- The stack it ran against. -/
  contexts : ContextStack
  result : Except Failure Entity

namespace RowCall

/-- The entity returned, if the call ran against the stack in question while that had so many contexts. -/
def landed? (height : Nat) (call : RowCall) : Option Entity :=
  if call.apart = false ∧ call.contexts.length = height then call.result.toOption else none

/-- The entities that calls returned while the stack had so many contexts, in the order of the calls. -/
def landed (height : Nat) (calls : List RowCall) : List Entity := calls.filterMap (landed? height)

/-- The call as one on another stack than the one in question. -/
def setApart (call : RowCall) : RowCall := { call with apart := true }

theorem landed_cons (height : Nat) (call : RowCall) (calls : List RowCall) :
    landed height (call :: calls) = (call.landed? height).toList ++ landed height calls := by
  cases h : call.landed? height <;> simp [landed, h]

end RowCall

open RowCall

/-- What row calls make of a stack: each call finds the stack as the calls before it left it, perhaps below
other contexts, and records its entity there if it finds no other. -/
def Fills : ContextStack → List RowCall → ContextStack → Prop
  | before, [], after => after = before
  | before, call :: calls, after =>
    (call.apart = false → ∃ inner, call.contexts = inner ++ before) ∧
      Fills (before.recordAll (call.landed? before.length).toList) calls after

namespace Fills

variable {before middle after : ContextStack} {calls calls' : List RowCall}

theorem append (h : Fills before calls middle) (h' : Fills middle calls' after) :
    Fills before (calls ++ calls') after := by
  induction calls generalizing before with
  | nil =>
    obtain rfl : middle = before := h
    exact h'
  | cons call calls ih => exact ⟨h.1, ih h.2⟩

/-- In the end the stack is what it was, with the entities of the calls that found no other context on it. -/
theorem eq (h : Fills before calls after) : after = before.recordAll (landed before.length calls) := by
  induction calls generalizing before with
  | nil => exact h.trans before.recordAll_nil.symm
  | cons call calls ih =>
    rw [ih h.2, landed_cons, ContextStack.recordAll_append, ContextStack.length_recordAll]

/-- So it is at each call. -/
theorem at_call {pre post : List RowCall} {call : RowCall} (h : Fills before (pre ++ call :: post) after)
    (hc : call.apart = false) : ∃ inner, call.contexts = inner ++ before.recordAll (landed before.length pre) := by
  induction pre generalizing before with
  | nil =>
    rw [show landed before.length [] = [] from rfl, ContextStack.recordAll_nil]
    exact h.1 hc
  | cons call' pre ih =>
    obtain ⟨inner, hi⟩ := ih h.2
    refine ⟨inner, ?_⟩
    rw [hi, landed_cons, ContextStack.recordAll_append, ContextStack.length_recordAll]

/-- Calls above a context leave the stack below it alone. -/
theorem below {own : Context} (h : Fills (own :: before) calls after) : Fills before calls before := by
  induction calls generalizing own with
  | nil => rfl
  | cons call calls ih =>
    obtain ⟨hcall, hrest⟩ := h
    refine ⟨fun hc => ?_, ?_⟩
    · obtain ⟨inner, hi⟩ := hcall hc
      exact ⟨inner ++ [own], by rw [hi, List.append_assoc, List.singleton_append]⟩
    · have hnone : call.landed? before.length = none := by
        refine if_neg fun ⟨hc, hl⟩ => ?_
        obtain ⟨inner, hi⟩ := hcall hc
        rw [hi, List.length_append, List.length_cons] at hl
        omega
      rw [hnone, Option.toList_none, ContextStack.recordAll_nil]
      exact ih hrest

/-- Calls on other stacks leave this one alone. -/
theorem setApart (stack : ContextStack) (calls : List RowCall) : Fills stack (calls.map RowCall.setApart) stack := by
  induction calls with
  | nil => rfl
  | cons call calls ih =>
    refine ⟨fun hc => (nomatch hc), ?_⟩
    have hnone : call.setApart.landed? stack.length = none := if_neg fun ⟨hc, _⟩ => (nomatch hc)
    rw [hnone, Option.toList_none, ContextStack.recordAll_nil]
    exact ih

end Fills

/-! ## The row calls of a run -/

/-- How loads are answered, and the row calls that are made meanwhile. -/
structure Watched where
  run : List ScriptRef → Session → Except Failure Variables × Session
  rowCalls : List ScriptRef → Session → List RowCall

/-- The row calls of a program. -/
def Program.rowCalls (loads : Watched) : {α : Type} → Program α → Session → List RowCall
  | _, .done _, _ => []
  | _, .note e next, s => (next ()).rowCalls loads (s.note e)
  | _, .row values next, s =>
    let (r, s') := s.row values
    ⟨false, s.contexts, r⟩ :: (next r).rowCalls loads s'
  | _, .find type id next, s =>
    let (r, s') := s.find type id
    (next r).rowCalls loads s'
  | _, .load scripts next, s =>
    let (r, s') := loads.run scripts s
    loads.rowCalls scripts s ++ (next r).rowCalls loads s'
  | _, .table schema block next, s =>
    let ((r, b), s') := s.table schema (block.runIn loads.run)
    block.rowCalls loads (s.inBlock schema) ++ (next r b).rowCalls loads s'

/-- Loads as a script sees them: the loaded scripts have a stack of their own. -/
def Watched.withoutContexts (loads : Watched) : Watched where
  run scripts := Loader.withoutContexts (loads.run scripts)
  rowCalls scripts s := (loads.rowCalls scripts { s with contexts := [] }).map RowCall.setApart

namespace Loader

variable {σ : Type} (engine : Engine σ) (l : Loader) (loads : Watched)

/-- The row calls of a script, up to its outputs. -/
def produceRowCalls (vars : Variables) (script : ScriptRef) (s : Session) : List RowCall :=
  match l.source.read (l.options.resolve script.name) with
  | .error _ => []
  | .ok text =>
    (engine.execute script.name text (engine.prepare l.types vars)).rowCalls loads.withoutContexts (l.opened script s)

/-- The row calls of a script, those that are made when its state is given up among them. -/
def scriptRowCalls (vars : Variables) (script : ScriptRef) (s : Session) : List RowCall :=
  let ((_, state), s') := l.produce engine loads.run vars script s
  l.produceRowCalls engine loads vars script s ++ (engine.discard state).rowCalls loads.withoutContexts s'

/-- The row calls of scripts that run in order, up to the first that fails. -/
def allRowCalls : Variables → List ScriptRef → Session → List RowCall
  | _, [], _ => []
  | vars, script :: rest, s =>
    l.scriptRowCalls engine loads vars script s ++
      match l.runScript engine loads.run vars script s with
      | (.error _, _) => []
      | (.ok outputs, s') => allRowCalls (merge vars script outputs) rest s'

/-- How loads are watched, given how the loads inside them are. -/
def watchedOnce : Watched where
  run := l.loadOnce engine loads.run
  rowCalls scripts s :=
    match l.options.validate with
    | .error _ => []
    | .ok () =>
      if l.options.maxLoadDepth < s.loadDepth + 1 then []
      else l.allRowCalls engine loads l.options.inputs scripts s.loading

/-- How loads are watched, with at most so many levels of loads inside. -/
def watched : Nat → Watched
  | 0 => l.watchedOnce engine ⟨fun scripts s => (.error (l.tooDeep scripts), s), fun _ _ => []⟩
  | levels + 1 => l.watchedOnce engine (watched levels)

theorem watched_run (levels : Nat) : (l.watched engine levels).run = loadWithin engine l levels := by
  induction levels with
  | zero => rfl
  | succ levels ih =>
    show l.loadOnce engine (l.watched engine levels).run = _
    rw [ih]
    rfl

end Loader

/-! ## Runs fill the stack -/

namespace Session

theorem noteAll_contexts (events : List Event) (s : Session) : (s.noteAll events).contexts = s.contexts := by
  induction events generalizing s with
  | nil => rfl
  | cons e events ih => exact ih (s.note e)

theorem find_contexts (type : EntityType) (id : Value) (s : Session) : (s.find type id).2.contexts = s.contexts := by
  rw [find_eq]
  rfl

theorem exec_contexts {ρ : Type} [Ending ρ] (work : Session → ρ × Session) (s : Session) :
    (s.exec work).2.contexts = (work s.entered).2.contexts := by
  unfold exec
  dsimp only
  split <;> rfl

/-- A row is recorded in the innermost context if it succeeds. -/
theorem row_fills (values : List Value) (s : Session) :
    Fills s.contexts [⟨false, s.contexts, (s.row values).1⟩] (s.row values).2.contexts := by
  refine ⟨fun _ => ⟨[], rfl⟩, ?_⟩
  rw [landed?, if_pos ⟨rfl, rfl⟩]
  unfold row
  cases hs : s.contexts with
  | nil => exact hs
  | cons c rest =>
    dsimp only
    cases instanceOf c values with
    | error f =>
      show s.contexts = _
      rw [hs]
      exact (ContextStack.recordAll_nil _).symm
    | ok e =>
      simp only [createNamed_eq, onStore]
      rcases s.store.perform e.typeName (.create e) with ⟨f | e', store⟩
      · show s.contexts = _
        rw [hs]
        exact (ContextStack.recordAll_nil _).symm
      · simp only [hs, ContextStack.record]
        rfl

/-- Rows are created alike in sessions with the same contexts, related in a way that creating and recording keep. -/
theorem row_related {r : Session → Session → Prop} {s s' : Session} (h : r s s')
    (hcontexts : ∀ {s s'}, r s s' → s'.contexts = s.contexts)
    (hcreate : ∀ e, (s'.createNamed e).1 = (s.createNamed e).1 ∧ r (s.createNamed e).2 (s'.createNamed e).2)
    (hrecord : ∀ {s s'} (contexts : ContextStack), r s s' → r { s with contexts } { s' with contexts })
    (values : List Value) : (s'.row values).1 = (s.row values).1 ∧ r (s.row values).2 (s'.row values).2 := by
  unfold row
  rw [hcontexts h]
  cases s.contexts with
  | nil => exact ⟨rfl, h⟩
  | cons c rest =>
    dsimp only
    cases instanceOf c values with
    | error f => exact ⟨rfl, h⟩
    | ok e =>
      obtain ⟨hresult, hafter⟩ := hcreate e
      rcases hc : s.createNamed e with ⟨r, s₁⟩
      rcases hc' : s'.createNamed e with ⟨r', s₁'⟩
      rw [hc, hc'] at hresult hafter
      obtain rfl : r' = r := hresult
      cases r' with
      | error f =>
        simp only [hc, hc']
        exact ⟨trivial, hafter⟩
      | ok e' =>
        have hstack : s₁'.contexts = s₁.contexts := hcontexts hafter
        simp only [hc, hc', hstack]
        cases s₁.contexts.record e' with
        | none => exact ⟨rfl, hafter⟩
        | some contexts => exact ⟨rfl, hrecord contexts hafter⟩

/-- Closing a frame takes the innermost context off. -/
theorem close_eq {s : Session} {c : Context} {rest : ContextStack} (h : s.contexts = c :: rest) (frame : Frame) :
    (s.close frame).1 = some c ∧ (s.close frame).2.contexts = rest := by
  have hnote := s.noteAll_contexts (s.contexts.closingReport frame)
  rw [h] at hnote
  unfold close
  dsimp only
  rw [h, hnote]
  exact ⟨rfl, rfl⟩

/-- A block leaves the stack as it was and returns what was recorded in its context. -/
theorem table_contexts {β : Type} {schema : Schema} {block : Session → (Except Failure Unit × β) × Session}
    {s : Session} {calls : List RowCall}
    (h : Fills (s.inBlock schema).contexts calls (block (s.inBlock schema)).2.contexts) :
    (s.table schema block).2.contexts = s.contexts ∧
      (s.table schema block).1 =
        ((block (s.inBlock schema)).1.1.map fun () => landed (s.contexts.length + 1) calls,
          (block (s.inBlock schema)).1.2) := by
  have hstack : (block (s.inBlock schema)).2.contexts =
      ⟨schema.type, schema.columns, landed (s.contexts.length + 1) calls⟩ :: s.contexts := h.eq
  obtain ⟨hcontext, hrest⟩ := close_eq hstack ⟨s.contexts.length + 1⟩
  have hcall : s.table schema block =
      ((created (block (s.inBlock schema)).1.1 ((block (s.inBlock schema)).2.close ⟨s.contexts.length + 1⟩).1,
        (block (s.inBlock schema)).1.2), ((block (s.inBlock schema)).2.close ⟨s.contexts.length + 1⟩).2) := rfl
  rw [hcall, hcontext]
  refine ⟨hrest, ?_⟩
  cases (block (s.inBlock schema)).1.1 <;> rfl

/-- Blocks in sessions with the same contexts return the same if they end alike. -/
theorem table_related {β : Type} {schema : Schema} {block block' : Session → (Except Failure Unit × β) × Session}
    {s s' : Session} (h : s'.contexts = s.contexts)
    (hresult : (block' (s'.inBlock schema)).1 = (block (s.inBlock schema)).1)
    (hcontexts : (block' (s'.inBlock schema)).2.contexts = (block (s.inBlock schema)).2.contexts) :
    (s'.table schema block').1 = (s.table schema block).1 ∧
      (s'.table schema block').2.contexts = (s.table schema block).2.contexts := by
  have hlength : s'.contexts.length = s.contexts.length := congrArg List.length h
  unfold inBlock at hresult hcontexts
  unfold table withContext ContextStack.enter close
  simp only [hresult, hlength, hcontexts, noteAll_contexts, and_self]

end Session

/-- Every answer fills the stack by its row calls. -/
def Watched.Faithful (loads : Watched) : Prop :=
  ∀ scripts s, Fills s.contexts (loads.rowCalls scripts s) (loads.run scripts s).2.contexts

/-- A run of a program fills the stack if loads do. -/
theorem Program.fills {loads : Watched} (hl : loads.Faithful) {α : Type} (p : Program α) (s : Session) :
    Fills s.contexts (p.rowCalls loads s) (p.runIn loads.run s).2.contexts := by
  induction p generalizing s with
  | done a => exact rfl
  | note e next ih => exact ih () (s.note e)
  | row values next ih => exact (s.row_fills values).append (ih _ _)
  | find type id next ih =>
    have h := ih (s.find type id).1 (s.find type id).2
    rw [s.find_contexts type id] at h
    exact h
  | load scripts next ih => exact (hl scripts s).append (ih _ _)
  | table schema block next ihBlock ih =>
    have hblock := ihBlock (s.inBlock schema)
    have h := ih (s.table schema (block.runIn loads.run)).1.1 (s.table schema (block.runIn loads.run)).1.2
      (s.table schema (block.runIn loads.run)).2
    rw [(Session.table_contexts hblock).1] at h
    exact hblock.below.append h

/-- Loads that scripts ask for leave the stack alone, whatever they do. -/
theorem Watched.withoutContexts_faithful (loads : Watched) : loads.withoutContexts.Faithful :=
  fun scripts s => .setApart s.contexts (loads.rowCalls scripts { s with contexts := [] })

namespace Loader

variable {σ : Type} (engine : Engine σ) (l : Loader) (loads : Watched)

theorem conclude_contexts (script : ScriptRef) (r : (Except Failure Unit × σ) × Session) :
    (conclude engine script r).2.contexts = r.2.contexts := by
  obtain ⟨⟨f | u, state⟩, s⟩ := r
  · rfl
  · have h := Session.noteAll_contexts (engine.capture state).1 s
    unfold conclude
    dsimp only
    split <;> exact h

theorem produce_fills (vars : Variables) (script : ScriptRef) (s : Session) :
    Fills s.contexts (l.produceRowCalls engine loads vars script s)
      (l.produce engine loads.run vars script s).2.contexts := by
  unfold produceRowCalls
  cases ht : l.source.read (l.options.resolve script.name) with
  | error f =>
    rw [produce_unread engine l loads.run vars ht]
    rfl
  | ok text =>
    rw [produce_eq engine l loads.run vars ht, conclude_contexts, Session.exec_contexts]
    exact Program.fills loads.withoutContexts_faithful _ (l.opened script s)

theorem runScript_fills (vars : Variables) (script : ScriptRef) (s : Session) :
    Fills s.contexts (l.scriptRowCalls engine loads vars script s)
      (l.runScript engine loads.run vars script s).2.contexts :=
  (produce_fills engine l loads vars script s).append (Program.fills loads.withoutContexts_faithful _ _)

theorem runAll_fills (vars : Variables) (scripts : List ScriptRef) (s : Session) :
    Fills s.contexts (l.allRowCalls engine loads vars scripts s)
      (runAll (l.runScript engine loads.run) vars scripts s).2.contexts := by
  induction scripts generalizing vars s with
  | nil => rfl
  | cons script rest ih =>
    have h := runScript_fills engine l loads vars script s
    rcases hr : l.runScript engine loads.run vars script s with ⟨f | outputs, s'⟩
    · rw [hr] at h
      simp only [allRowCalls, runAll, hr, List.append_nil]
      exact h
    · rw [hr] at h
      simp only [allRowCalls, runAll, hr]
      exact h.append (ih _ _)

theorem watchedOnce_faithful : (l.watchedOnce engine loads).Faithful := by
  intro scripts s
  unfold watchedOnce loadOnce
  cases l.options.validate with
  | error f => rfl
  | ok u =>
    by_cases hd : l.options.maxLoadDepth < s.loadDepth + 1
    · simp only [hd, if_true]
      rfl
    · simp only [hd, if_false]
      exact runAll_fills engine l loads l.options.inputs scripts s.loading

theorem watched_faithful (levels : Nat) : (l.watched engine levels).Faithful := by
  cases levels with
  | zero => exact watchedOnce_faithful engine l _
  | succ levels => exact watchedOnce_faithful engine l _

end Loader

/-! ## Blocks -/

namespace Program

variable {α γ : Type}

theorem runIn_bind (load : List ScriptRef → Session → Except Failure Variables × Session) (p : Program α)
    (f : α → Program γ) (s : Session) :
    (p.bind f).runIn load s = (f (p.runIn load s).1).runIn load (p.runIn load s).2 := by
  induction p generalizing s with
  | done a => rfl
  | note e next ih => exact ih () f _
  | row values next ih => exact ih _ f _
  | find type id next ih => exact ih _ f _
  | load scripts next ih => exact ih _ f _
  | table schema block next _ ih => exact ih _ _ f _

theorem rowCalls_bind (loads : Watched) (p : Program α) (f : α → Program γ) (s : Session) :
    (p.bind f).rowCalls loads s =
      p.rowCalls loads s ++ (f (p.runIn loads.run s).1).rowCalls loads (p.runIn loads.run s).2 := by
  induction p generalizing s with
  | done a => rfl
  | note e next ih => exact ih () f _
  | row values next ih => exact congrArg (List.cons _) (ih _ f _)
  | find type id next ih => exact ih _ f _
  | load scripts next ih => exact (congrArg (_ ++ ·) (ih _ f _)).trans (List.append_assoc ..).symm
  | table schema block next _ ih => exact (congrArg (_ ++ ·) (ih _ _ f _)).trans (List.append_assoc ..).symm

/-- A block as `table` runs it: a panic is no failure and goes on to the caller. -/
def asBlock (block : Program (Except Interruption Unit)) : Program (Except Failure Unit × Except Interruption Unit) :=
  block.bind fun
    | .ok () => .done (.ok (), .ok ())
    | .error (.failure f) => .done (.error f, .error (.failure f))
    | .error .panic => .done (.ok (), .error .panic)

/-- A call of `table`. -/
def tableCall (type : EntityType) (columns : List String) (block : Program (Except Interruption Unit)) :
    Program (Except Interruption (List Entity)) :=
  match Schema.ofColumns type columns with
  | .error f => .done (.error (.failure f))
  | .ok schema => .table schema block.asBlock fun created ended =>
      .done (ended.bind fun () => created.mapError .failure)

variable (loads : Watched) (block : Program (Except Interruption Unit)) (s : Session)

theorem rowCalls_asBlock : block.asBlock.rowCalls loads s = block.rowCalls loads s := by
  rw [asBlock, rowCalls_bind]
  rcases (block.runIn loads.run s).1 with ⟨f | _⟩ | _ <;> exact List.append_nil _

/-- When `table` returns, it was the block that returned. -/
theorem asBlock_failure {α : Type} (listed : List α) :
    ((block.asBlock.runIn loads.run s).1.2.bind fun () =>
        ((block.asBlock.runIn loads.run s).1.1.map fun () => listed).mapError Interruption.failure) =
      (block.runIn loads.run s).1.map fun () => listed := by
  rw [asBlock, runIn_bind]
  rcases (block.runIn loads.run s).1 with ⟨f | _⟩ | _ <;> rfl

end Program

/-- Loads as they are answered to a host, or to a script. -/
def Loader.loadFrom {σ : Type} (engine : Engine σ) (l : Loader) (levels : Nat) (inScript : Bool) :
    List ScriptRef → Session → Except Failure Variables × Session :=
  if inScript then fun scripts => withoutContexts (loadWithin engine l levels scripts) else loadWithin engine l levels

/-- How these loads are watched. -/
def Loader.watchedFrom {σ : Type} (engine : Engine σ) (l : Loader) (levels : Nat) (inScript : Bool) : Watched :=
  if inScript then (l.watched engine levels).withoutContexts else l.watched engine levels

section

variable {σ : Type} (engine : Engine σ) (l : Loader) (levels : Nat) (inScript : Bool)

theorem Loader.watchedFrom_run :
    (l.watchedFrom engine levels inScript).run = l.loadFrom engine levels inScript := by
  cases inScript with
  | false => exact l.watched_run engine levels
  | true =>
    show (fun scripts => withoutContexts ((l.watched engine levels).run scripts)) = _
    rw [l.watched_run engine levels]
    rfl

theorem Loader.watchedFrom_faithful : (l.watchedFrom engine levels inScript).Faithful := by
  cases inScript with
  | false => exact l.watched_faithful engine levels
  | true => exact (l.watched engine levels).withoutContexts_faithful

/-- Row calls in a block, unless they are on another stack, find the context of the block with the rows so far:
on top, or with the contexts of blocks inside above it. -/
def FindBlock (schema : Schema) (s : Session) (calls : List RowCall) : Prop :=
  ∀ pre call post, calls = pre ++ call :: post → call.apart = false → ∃ inner,
    call.contexts = inner ++ ⟨schema.type, schema.columns, landed (s.contexts.length + 1) pre⟩ :: s.contexts

/-- A block leaves the stack of contexts as it was, however it ends. If it returns, it lists the entities of those
row calls that returned one while its own context was on top of the stack, in the order of the calls. -/
theorem table_lists_own_rows (s : Session) :
    let load := l.loadFrom engine levels inScript
    let loads := l.watchedFrom engine levels inScript
    (∀ (β : Type) (schema : Schema) (block : Program (Except Failure Unit × β)),
      let calls := block.rowCalls loads (s.inBlock schema)
      let ended := block.runIn load (s.inBlock schema)
      FindBlock schema s calls ∧
        (s.table schema (block.runIn load)).2.contexts = s.contexts ∧
        (s.table schema (block.runIn load)).1 =
          (ended.1.1.map fun () => landed (s.contexts.length + 1) calls, ended.1.2)) ∧
    ∀ (type : EntityType) (columns : List String) (block : Program (Except Interruption Unit)),
      ((Program.tableCall type columns block).runIn load s).2.contexts = s.contexts ∧
        match Schema.ofColumns type columns with
        | .error f => ((Program.tableCall type columns block).runIn load s).1 = .error (.failure f)
        | .ok schema =>
          let calls := block.rowCalls loads (s.inBlock schema)
          FindBlock schema s calls ∧
            ((Program.tableCall type columns block).runIn load s).1 =
              (block.runIn load (s.inBlock schema)).1.map fun () => landed (s.contexts.length + 1) calls := by
  intro load loads
  have hrun : loads.run = load := l.watchedFrom_run engine levels inScript
  have hblock : ∀ (β : Type) (schema : Schema) (block : Program (Except Failure Unit × β)),
      Fills (s.inBlock schema).contexts (block.rowCalls loads (s.inBlock schema))
        (block.runIn load (s.inBlock schema)).2.contexts :=
    fun β schema block => hrun ▸ block.fills (l.watchedFrom_faithful engine levels inScript) (s.inBlock schema)
  have hfind : ∀ (β : Type) (schema : Schema) (block : Program (Except Failure Unit × β)),
      FindBlock schema s (block.rowCalls loads (s.inBlock schema)) :=
    fun β schema block pre call post hcalls hc => (hcalls ▸ hblock β schema block).at_call hc
  refine ⟨fun β schema block => ⟨hfind β schema block, Session.table_contexts (hblock β schema block)⟩,
    fun type columns block => ?_⟩
  unfold Program.tableCall
  cases Schema.ofColumns type columns with
  | error f => exact ⟨rfl, rfl⟩
  | ok schema =>
    obtain ⟨hcontexts, hresult⟩ := Session.table_contexts (hblock _ schema block.asBlock)
    have hcalls := block.rowCalls_asBlock loads (s.inBlock schema)
    refine ⟨hcontexts, hcalls ▸ hfind _ schema block.asBlock, ?_⟩
    rw [← hcalls, ← hrun, ← block.asBlock_failure, hrun]
    exact congrArg (fun r => r.2.bind fun () => r.1.mapError Interruption.failure) hresult

end

end Fixtures
