import Fixtures.Loader
import Fixtures.Proofs.Steps
/-!
# What loads do to the store

A script asks the store through its program, and its loads run other scripts
the same way, so a load is steps of the store (`Loader.inner_steps`). `acts`
follow the runs and list what these do to the transaction around them.
-/

namespace Fixtures

/-! ## Programs -/

/-- How loads are answered, and what this does to the transaction around them. -/
structure Loads where
  run : List ScriptRef → Session → Except Failure Variables × Session
  acts : List ScriptRef → Session → List Act

/-- Every answer is steps of the store. -/
def Loads.Stepwise (loads : Loads) : Prop :=
  ∀ scripts s, Steps s.store (loads.acts scripts s) (loads.run scripts s).2.store

namespace Session

/-- What creating a row does to the transaction around it. -/
def rowActs (values : List Value) (s : Session) : List Act :=
  match s.contexts with
  | [] => []
  | c :: _ =>
    match instanceOf c values with
    | .error _ => []
    | .ok e => s.store.acts e.typeName (.create e)

/-- The session a block starts in. -/
def inBlock (schema : Schema) (s : Session) : Session :=
  { s with contexts := s.contexts.push schema.type schema.columns }

theorem noteAll_steps (events : List Event) (s : Session) : Steps s.store [] (s.noteAll events).store := by
  induction events generalizing s with
  | nil => exact .refl _
  | cons e events ih => exact .trans (.note s.store e) (ih (s.note e))

theorem noteAll_append (es es' : List Event) (s : Session) : s.noteAll (es ++ es') = (s.noteAll es).noteAll es' :=
  List.foldl_append

theorem createNamed_eq (e : Entity) (s : Session) :
    s.createNamed e = s.onStore fun store => store.perform e.typeName (.create e) := by
  unfold createNamed onStore
  simp only [Store.perform]
  cases s.store.access e.typeName <;> rfl

theorem find_eq (type : EntityType) (id : Value) (s : Session) :
    s.find type id = s.onStore fun store => store.perform type.name (.find id) := by
  unfold find onStore
  simp only [Store.perform]
  cases s.store.access type.name <;> rfl

/-- A row changes nothing, or the store by a create and the contexts by what it records. -/
theorem row_cases (values : List Value) (s : Session) :
    (s.rowActs values = [] ∧ (s.row values).2 = s) ∨
      ∃ e contexts, s.rowActs values = s.store.acts e.typeName (.create e) ∧
        (s.row values).2 = { s with store := (s.store.perform e.typeName (.create e)).2, contexts } := by
  unfold rowActs row
  cases s.contexts with
  | nil => exact .inl ⟨rfl, rfl⟩
  | cons c rest =>
    dsimp only
    cases instanceOf c values with
    | error f => exact .inl ⟨rfl, rfl⟩
    | ok e =>
      refine .inr ⟨e, ?_⟩
      simp only [createNamed_eq, onStore]
      rcases s.store.perform e.typeName (.create e) with ⟨f | e', store⟩
      · exact ⟨s.contexts, trivial, rfl⟩
      · dsimp only
        split <;> exact ⟨_, trivial, rfl⟩

theorem row_steps (values : List Value) (s : Session) : Steps s.store (s.rowActs values) (s.row values).2.store := by
  rcases s.row_cases values with ⟨ha, hr⟩ | ⟨e, contexts, ha, hr⟩
  · rw [ha, hr]
    exact .refl _
  · rw [ha, hr]
    exact .perform s.store e.typeName (.create e)

theorem table_steps {β : Type} {schema : Schema} {block : Session → (Except Failure Unit × β) × Session}
    {s : Session} {acts : List Act} (h : Steps s.store acts (block (s.inBlock schema)).2.store) :
    Steps s.store acts (s.table schema block).2.store := by
  have hclose := noteAll_steps
    ((block (s.inBlock schema)).2.contexts.closingReport ⟨s.contexts.length + 1⟩) (block (s.inBlock schema)).2
  have := h.trans hclose
  rwa [List.append_nil] at this

end Session

/-- What the run of a program does to the transaction around it. -/
def Program.acts (loads : Loads) : {α : Type} → Program α → Session → List Act
  | _, .done _, _ => []
  | _, .note e next, s => (next ()).acts loads (s.note e)
  | _, .row values next, s =>
    let (r, s') := s.row values
    s.rowActs values ++ (next r).acts loads s'
  | _, .find type id next, s =>
    let (r, s') := s.find type id
    s.store.acts type.name (.find id) ++ (next r).acts loads s'
  | _, .load scripts next, s =>
    let (r, s') := loads.run scripts s
    loads.acts scripts s ++ (next r).acts loads s'
  | _, .table schema block next, s =>
    let ((r, b), s') := s.table schema (block.runIn loads.run)
    block.acts loads (s.inBlock schema) ++ (next r b).acts loads s'

/-- A run of a program is steps if loads are. -/
theorem Program.steps {loads : Loads} (hl : loads.Stepwise) {α : Type} (p : Program α) (s : Session) :
    Steps s.store (p.acts loads s) (p.runIn loads.run s).2.store := by
  induction p generalizing s with
  | done a => exact .refl _
  | note e next ih => exact .trans (.note s.store e) (ih () (s.note e))
  | row values next ih => exact .trans (s.row_steps values) (ih _ _)
  | find type id next ih =>
    have h : Steps s.store (s.store.acts type.name (.find id)) (s.find type id).2.store := by
      rw [Session.find_eq]
      exact .perform s.store type.name (.find id)
    exact .trans h (ih _ _)
  | load scripts next ih => exact .trans (hl scripts s) (ih _ _)
  | table schema block next ihBlock ih => exact .trans (Session.table_steps (ihBlock (s.inBlock schema))) (ih _ _ _)

/-! ## Scripts and batches -/

namespace Session

/-- One more load is under way. -/
def loading (s : Session) : Session := { s with loadDepth := s.loadDepth + 1 }

/-- The session a unit of work runs in: its scope has been opened. -/
def entered (s : Session) : Session := { s with store := s.store.openScope.2 }

/-- A unit of work leaves the store that its run leaves when its scope closes. -/
theorem exec_store {ρ : Type} [Ending ρ] (work : Session → ρ × Session) (s : Session) :
    (s.exec work).2.store =
      ((work s.entered).2.store.closeScope s.store.openScope.1
        (Ending.succeeded (work s.entered).1)).2 := by
  unfold exec entered
  dsimp only
  split <;> simp_all

/-- The result of a unit of work is that of its run, unless its scope overrules it. -/
theorem exec_fst {ρ : Type} [Ending ρ] (work : Session → ρ × Session) (s : Session) :
    (s.exec work).1 =
      match ((work s.entered).2.store.closeScope s.store.openScope.1
        (Ending.succeeded (work s.entered).1)).1 with
      | .ok () => (work s.entered).1
      | .error f => Ending.overruled (work s.entered).1 f := by
  unfold exec entered
  dsimp only
  split <;> simp_all

/-- What is returned beside the ending of a unit of work is not touched by its scope. -/
theorem exec_beside {ρ β : Type} [Ending ρ] (work : Session → (ρ × β) × Session) (s : Session) :
    (s.exec work).1.2 = (work s.entered).1.2 := by
  rw [exec_fst]
  split <;> rfl

end Session

/-- Loads as a script sees them: the loaded scripts have no context open. -/
def Loads.withoutContexts (loads : Loads) : Loads where
  run scripts := Loader.withoutContexts (loads.run scripts)
  acts scripts s := loads.acts scripts { s with contexts := [] }

namespace Loader

variable {σ : Type} (engine : Engine σ) (l : Loader) (loads : Loads)

/-- The session a script starts in: that it is loaded has been reported. -/
def announced (script : ScriptRef) (s : Session) : Session :=
  s.note (.loading script (l.options.resolve script.name))

/-- The session the body of a script runs in: its transaction has been opened. -/
def opened (script : ScriptRef) (s : Session) : Session := (l.announced script s).entered

/-- What the body of a script does to the transaction it runs in. -/
def bodyActs (vars : Variables) (script : ScriptRef) (text : String) (s : Session) : List Act :=
  (engine.execute script.name text (engine.prepare l.types vars)).acts loads.withoutContexts s

/-- What a script does to the transaction around it, up to its outputs. -/
def produceActs (vars : Variables) (script : ScriptRef) (s : Session) : List Act :=
  match l.source.read (l.options.resolve script.name) with
  | .error _ => []
  | .ok text =>
    l.bodyActs engine loads vars script text (l.opened script s) ++
      [.close (Ending.succeeded (l.body engine loads.run vars script text (l.opened script s)).1)]

/-- What giving up a state does to the transaction around it. -/
def giveUpActs (state : σ) (s : Session) : List Act := (engine.discard state).acts loads.withoutContexts s

/-- What a script does to the transaction around it. -/
def scriptActs (vars : Variables) (script : ScriptRef) (s : Session) : List Act :=
  let ((_, state), s') := l.produce engine loads.run vars script s
  l.produceActs engine loads vars script s ++ giveUpActs engine loads state s'

/-- What scripts do that run in order, up to the first that fails. -/
def allActs (run : Variables → ScriptRef → Session → Except Failure Variables × Session)
    (acts : Variables → ScriptRef → Session → List Act) : Variables → List ScriptRef → Session → List Act
  | _, [], _ => []
  | vars, script :: rest, s =>
    acts vars script s ++
      match run vars script s with
      | (.error _, _) => []
      | (.ok outputs, s') => allActs run acts (merge vars script outputs) rest s'

/-- What loading scripts does, given how their own loads are answered. -/
def actsOnce (scripts : List ScriptRef) (s : Session) : List Act :=
  match l.options.validate with
  | .error _ => []
  | .ok () =>
    if l.options.maxLoadDepth < s.loadDepth + 1 then []
    else
      allActs (l.runScript engine loads.run) (l.scriptActs engine loads) l.options.inputs scripts s.loading

/-- How loads inside scripts are answered when they may go no deeper. -/
def refusing : Loads := ⟨fun scripts s => (.error (l.tooDeep scripts), s), fun _ _ => []⟩

/-- How loads are answered, given how the loads inside them are. -/
def once : Loads := ⟨l.loadOnce engine loads.run, l.actsOnce engine loads⟩

/-- How loads are answered, with at most so many levels of loads inside. -/
def within : Nat → Loads
  | 0 => l.once engine l.refusing
  | levels + 1 => l.once engine (within levels)

/-- How loads are answered. -/
def inner : Loads := l.within engine l.options.maxLoadDepth

theorem within_run (levels : Nat) : (l.within engine levels).run = loadWithin engine l levels := by
  induction levels with
  | zero => rfl
  | succ levels ih =>
    show l.loadOnce engine (l.within engine levels).run = _
    rw [ih]
    rfl

theorem inner_run : (l.inner engine).run = l.load engine := within_run engine l _

variable {loads}
variable (hl : loads.Stepwise)

include hl in
theorem body_steps (vars : Variables) (script : ScriptRef) (text : String) (s : Session) :
    Steps s.store (l.bodyActs engine loads vars script text s) (l.body engine loads.run vars script text s).2.store :=
  Program.steps (fun scripts s => hl scripts { s with contexts := [] }) _ s

/-- A script whose text is found runs in a transaction. -/
theorem produce_eq (load : List ScriptRef → Session → Except Failure Variables × Session) (vars : Variables)
    {script : ScriptRef} {text : String} (ht : l.source.read (l.options.resolve script.name) = .ok text) (s : Session) :
    l.produce engine load vars script s =
      conclude engine script ((l.announced script s).exec (l.body engine load vars script text)) := by
  simp only [produce, ht]
  rfl

/-- A script whose text is not found fails, and only that it is loaded has been reported. -/
theorem produce_unread (load : List ScriptRef → Session → Except Failure Variables × Session) (vars : Variables)
    {script : ScriptRef} {f : Failure} (ht : l.source.read (l.options.resolve script.name) = .error f) (s : Session) :
    l.produce engine load vars script s = ((.error f, engine.prepare l.types vars), l.announced script s) := by
  simp only [produce, ht]
  rfl

/-- After the transaction of a script only events are reported before its state is given up. -/
theorem conclude_store (script : ScriptRef) (r : (Except Failure Unit × σ) × Session) :
    ∃ events, (conclude engine script r).2.store = (r.2.noteAll events).store := by
  obtain ⟨⟨f | u, state⟩, s⟩ := r
  · exact ⟨[.scriptFailed script f], rfl⟩
  · unfold conclude
    dsimp only
    split
    · exact ⟨(engine.capture state).1, rfl⟩
    · rename_i outputs ho
      refine ⟨(engine.capture state).1 ++ [.scriptDone script outputs.length], ?_⟩
      rw [Session.noteAll_append]
      rfl

include hl in
theorem produce_steps (vars : Variables) (script : ScriptRef) (s : Session) :
    Steps s.store (l.produceActs engine loads vars script s) (l.produce engine loads.run vars script s).2.store := by
  have hnote : Steps s.store [] (l.announced script s).store := .note s.store _
  cases ht : l.source.read (l.options.resolve script.name) with
  | error f =>
    rw [produceActs, ht, produce_unread engine l loads.run vars ht]
    exact hnote
  | ok text =>
    obtain ⟨events, he⟩ := conclude_store engine script
      ((l.announced script s).exec (l.body engine loads.run vars script text))
    have hbody := body_steps engine l hl vars script text (l.opened script s)
    have hexec : Steps (l.announced script s).store (l.produceActs engine loads vars script s)
        ((l.announced script s).exec (l.body engine loads.run vars script text)).2.store := by
      rw [produceActs, ht, Session.exec_store]
      exact .exec _ hbody
    have hall := (hnote.trans hexec).trans (Session.noteAll_steps events _)
    rw [List.append_nil] at hall
    rw [produce_eq engine l loads.run vars ht, he]
    exact hall

include hl in
theorem giveUp_steps (state : σ) (s : Session) :
    Steps s.store (giveUpActs engine loads state s) (giveUp engine loads.run state s).store :=
  Program.steps (fun scripts s => hl scripts { s with contexts := [] }) _ s

include hl in
theorem runScript_steps (vars : Variables) (script : ScriptRef) (s : Session) :
    Steps s.store (l.scriptActs engine loads vars script s) (l.runScript engine loads.run vars script s).2.store :=
  (produce_steps engine l hl vars script s).trans (giveUp_steps engine hl _ _)

include hl in
theorem runAll_steps (vars : Variables) (scripts : List ScriptRef) (s : Session) :
    Steps s.store (allActs (l.runScript engine loads.run) (l.scriptActs engine loads) vars scripts s)
      (runAll (l.runScript engine loads.run) vars scripts s).2.store := by
  induction scripts generalizing vars s with
  | nil => exact .refl _
  | cons script rest ih =>
    have h := runScript_steps engine l hl vars script s
    rcases hr : l.runScript engine loads.run vars script s with ⟨f | outputs, s'⟩
    · rw [hr] at h
      simp only [allActs, runAll, hr, List.append_nil]
      exact h
    · rw [hr] at h
      simp only [allActs, runAll, hr]
      exact h.trans (ih _ _)

include hl in
theorem once_steps : (l.once engine loads).Stepwise := by
  intro scripts s
  unfold once actsOnce loadOnce
  cases l.options.validate with
  | error f => exact .refl _
  | ok u =>
    by_cases hd : l.options.maxLoadDepth < s.loadDepth + 1
    · simp only [hd, if_true]
      exact .refl _
    · simp only [hd, if_false]
      exact runAll_steps engine l hl l.options.inputs scripts s.loading

/-- A load is steps of the store. -/
theorem inner_steps : (l.inner engine).Stepwise := by
  unfold inner
  induction l.options.maxLoadDepth with
  | zero => exact once_steps engine l fun _ s => .refl s.store
  | succ levels ih => exact once_steps engine l ih

end Loader

end Fixtures
