import Fixtures.Proofs.Likeness
import Fixtures.Proofs.Batches
import Fixtures.Proofs.Blocks
import Fixtures.Script.Vocabulary
/-!
# Loads do not depend on who loads

Inside a transaction, scripts cannot tell sessions apart whose stores are alike
in every type: however the data is split between tables and buffer, whether the
transaction is doomed already, whatever the counters are. Work that treats such
sessions alike is `Impartial`. Requests are, and so is whatever is put together
from them: programs, scripts, batches, and loads with loads inside. A load from
a script starts without contexts, so it does not depend on the blocks that are
open around it either.
-/

namespace Fixtures

open Store

/-- Sessions in a transaction that scripts cannot tell apart. -/
structure Session.Alike (scopes scopes' : List Scope) (s s' : Session) : Prop where
  sound : Sound scopes s.store
  sound' : Sound scopes' s'.store
  stores : ∀ name, s.store.Alike name s'.store
  contexts : s'.contexts = s.contexts
  loadDepth : s'.loadDepth = s.loadDepth

/-- Inside transactions the work gives the same from sessions that are alike, and leaves them alike. -/
structure Impartial {ρ : Type} (work : Session → ρ × Session) : Prop where
  run : ∀ {scope scopes scope' scopes' s s'}, Session.Alike (scope :: scopes) (scope' :: scopes') s s' →
    (work s').1 = (work s).1 ∧ Session.Alike (scope :: scopes) (scope' :: scopes') (work s).2 (work s').2

variable {ρ ρ' α β : Type}

/-! ## Requests -/

namespace Session

/-- What is reported makes no difference. -/
theorem Alike.noteAll {scopes scopes' : List Scope} {s s' : Session} (h : s.Alike scopes scopes' s')
    (events events' : List Event) : (s.noteAll events).Alike scopes scopes' (s'.noteAll events') := by
  induction events generalizing s with
  | nil =>
    induction events' generalizing s' with
    | nil => exact h
    | cons e events' ih =>
      exact ih ⟨h.sound, h.sound'.note e, fun name => (h.stores name).trans (.note name _ e), h.contexts, h.loadDepth⟩
  | cons e events ih =>
    exact ih ⟨h.sound.note e, h.sound', fun name => (Store.Alike.note name _ e).symm.trans (h.stores name),
      h.contexts, h.loadDepth⟩

theorem noteAll_withContexts (events : List Event) (s : Session) (contexts : ContextStack) :
    noteAll { s with contexts } events = { s.noteAll events with contexts } := by
  induction events generalizing s with
  | nil => rfl
  | cons e events ih => exact ih (s.note e)

end Session

namespace Impartial

theorem pure (r : ρ) : Impartial fun s => (r, s) := ⟨fun h => ⟨rfl, h⟩⟩

theorem bind {work : Session → ρ × Session} {next : ρ → Session → ρ' × Session} (h : Impartial work)
    (hn : ∀ r, Impartial (next r)) : Impartial fun s => next (work s).1 (work s).2 := by
  refine ⟨fun {scope scopes scope' scopes' s s'} ha => ?_⟩
  obtain ⟨hr, ha'⟩ := h.run ha
  rw [hr]
  exact (hn _).run ha'

theorem note (e : Event) : Impartial fun s => ((), s.note e) := ⟨fun h => ⟨rfl, h.noteAll [e] [e]⟩⟩

theorem onStore {name : String} {work : Store → Except Failure α × Store} (hw : Confined name work) :
    Impartial (Session.onStore work) where
  run h :=
    ⟨hw.answer h.sound h.sound' (h.stores name), hw.sound h.sound, hw.sound h.sound',
      hw.throughout h.sound h.sound' h.stores, h.contexts, h.loadDepth⟩

theorem find (type : EntityType) (id : Value) : Impartial fun s => s.find type id := by
  have heq : (fun s : Session => s.find type id) =
      Session.onStore fun store => store.perform type.name (.find id) := funext (Session.find_eq type id)
  rw [heq]
  exact onStore (confined_perform type.name (.find id))

theorem createNamed (e : Entity) : Impartial (Session.createNamed e) := by
  rw [funext (Session.createNamed_eq e)]
  exact onStore (confined_perform e.typeName (.create e))

theorem row (values : List Value) : Impartial fun s => s.row values where
  run h := Session.row_related h (fun h => h.contexts) (fun e => (createNamed e).run h)
    (fun _ h => ⟨h.sound, h.sound', h.stores, rfl, h.loadDepth⟩) values

/-- A block gives the same if its work does. -/
theorem table {block : Session → (Except Failure Unit × β) × Session} (h : Impartial block) (schema : Schema) :
    Impartial fun s => s.table schema block := by
  refine ⟨fun {scope scopes scope' scopes' s s'} ha => ?_⟩
  have hin : (s.inBlock schema).Alike (scope :: scopes) (scope' :: scopes') (s'.inBlock schema) :=
    ⟨ha.sound, ha.sound', ha.stores, congrArg (ContextStack.push · schema.type schema.columns) ha.contexts,
      ha.loadDepth⟩
  obtain ⟨hr, hout⟩ := h.run hin
  obtain ⟨hresult, hcontexts⟩ := Session.table_related ha.contexts hr hout.contexts
  have hclose := hout.noteAll ((block (s.inBlock schema)).2.contexts.closingReport ⟨s.contexts.length + 1⟩)
    ((block (s'.inBlock schema)).2.contexts.closingReport ⟨s'.contexts.length + 1⟩)
  exact ⟨hresult, hclose.sound, hclose.sound', hclose.stores, hcontexts, hclose.loadDepth⟩

/-- A unit of work in a transaction gives what its run gives. -/
theorem exec [Ending ρ] {work : Session → ρ × Session} (h : Impartial work) : Impartial (Session.exec work) := by
  refine ⟨fun {scope scopes scope' scopes' s s'} ha => ?_⟩
  have hin : s.entered.Alike (s.store.openScope.1 :: scope :: scopes) (s'.store.openScope.1 :: scope' :: scopes')
      s'.entered :=
    ⟨ha.sound.enter, ha.sound'.enter, fun name => (ha.stores name).entered ha.sound ha.sound', ha.contexts,
      ha.loadDepth⟩
  obtain ⟨hr, hout⟩ := h.run hin
  -- An inner scope has no verdict of its own, and keeps what is in sight.
  have hend {scope scopes} {s : Session} (hs : Sound (s.store.openScope.1 :: scope :: scopes) (work s.entered).2.store) :
      (s.exec work).1 = (work s.entered).1 ∧ Sound (scope :: scopes) (s.exec work).2.store ∧
        ∀ name, (work s.entered).2.store.Alike name (s.exec work).2.store := by
    obtain ⟨hok, hseen⟩ := hs.leave_kept (Ending.succeeded (work s.entered).1) (fun hn => (nomatch hn))
    rw [Session.exec_fst, Session.exec_store, hok]
    refine ⟨rfl, hs.leave _, fun name => ⟨(closeScope_kept ..).1, by rw [hseen], ?_⟩⟩
    exact sequence_congr (closeScope_kept ..).2 name
  obtain ⟨hres, hsound, hstore⟩ := hend hout.sound
  obtain ⟨hres', hsound', hstore'⟩ := hend hout.sound'
  refine ⟨by rw [hres, hres', hr], hsound, hsound', ?_, ?_, ?_⟩
  · exact fun name => (hstore name).symm.trans ((hout.stores name).trans (hstore' name))
  · rw [Session.exec_contexts, Session.exec_contexts, hout.contexts]
  · rw [Session.exec_loadDepth, Session.exec_loadDepth, hout.loadDepth]

end Impartial

/-! ## Programs, scripts and batches -/

/-- A program gives the same from sessions that are alike if the loads in it do. -/
theorem Program.impartial {load : List ScriptRef → Session → Except Failure Variables × Session}
    (hl : ∀ scripts, Impartial (load scripts)) (p : Program α) : Impartial (p.runIn load) := by
  induction p with
  | done a => exact .pure a
  | note e next ih => exact (Impartial.note e).bind fun _ => ih ()
  | row values next ih => exact (Impartial.row values).bind ih
  | find type id next ih => exact (Impartial.find type id).bind ih
  | load scripts next ih => exact (hl scripts).bind ih
  | table schema block next ihBlock ih => exact (ihBlock.table schema).bind fun r => ih r.1 r.2

namespace Loader

variable {σ : Type} (engine : Engine σ) (l : Loader)
variable {load : List ScriptRef → Session → Except Failure Variables × Session}

/-- Sessions need not be alike in their contexts for a load that starts without any. -/
theorem withoutContexts_impartial (hl : ∀ scripts, Impartial (load scripts)) (scripts : List ScriptRef) :
    Impartial (withoutContexts (load scripts)) := by
  refine ⟨fun {scope scopes scope' scopes' s s'} h => ?_⟩
  have hin : Session.Alike (scope :: scopes) (scope' :: scopes') { s with contexts := [] } { s' with contexts := [] } :=
    ⟨h.sound, h.sound', h.stores, rfl, h.loadDepth⟩
  obtain ⟨hr, ha⟩ := (hl scripts).run hin
  exact ⟨hr, ha.sound, ha.sound', ha.stores, h.contexts, ha.loadDepth⟩

theorem body_impartial (hl : ∀ scripts, Impartial (load scripts)) (vars : Variables) (script : ScriptRef)
    (text : String) : Impartial (l.body engine load vars script text) :=
  Program.impartial (withoutContexts_impartial hl) (engine.execute script.name text (engine.prepare l.types vars))

theorem conclude_impartial (script : ScriptRef) (r : Except Failure Unit × σ) :
    Impartial fun s => conclude engine script (r, s) := by
  refine ⟨fun {scope scopes scope' scopes' s s'} h => ?_⟩
  obtain ⟨result, state⟩ := r
  cases result with
  | error f => exact ⟨rfl, h.noteAll [.scriptFailed script f] [.scriptFailed script f]⟩
  | ok u =>
    have hnoted := h.noteAll (engine.capture state).1 (engine.capture state).1
    unfold conclude
    dsimp only
    cases (engine.capture state).2 with
    | error f => exact ⟨rfl, hnoted⟩
    | ok outputs =>
      exact ⟨rfl, hnoted.noteAll [.scriptDone script outputs.length] [.scriptDone script outputs.length]⟩

theorem produce_impartial (hl : ∀ scripts, Impartial (load scripts)) (vars : Variables) (script : ScriptRef) :
    Impartial (l.produce engine load vars script) := by
  cases ht : l.source.read (l.options.resolve script.name) with
  | error f =>
    rw [funext (produce_unread engine l load vars ht)]
    exact (Impartial.note (.loading script (l.options.resolve script.name))).bind fun _ =>
      .pure (Except.error f, engine.prepare l.types vars)
  | ok text =>
    rw [funext (produce_eq engine l load vars ht)]
    exact (Impartial.note (.loading script (l.options.resolve script.name))).bind fun _ =>
      (body_impartial engine l hl vars script text).exec.bind (conclude_impartial engine script)

/-- Giving up a state shows in the session alone. -/
theorem runScript_impartial (hl : ∀ scripts, Impartial (load scripts)) (vars : Variables) (script : ScriptRef) :
    Impartial (l.runScript engine load vars script) :=
  (produce_impartial engine l hl vars script).bind fun r =>
    (Program.impartial (withoutContexts_impartial hl) (engine.discard r.2)).bind fun _ => .pure r.1

theorem runAll_impartial (hl : ∀ scripts, Impartial (load scripts)) (vars : Variables) (scripts : List ScriptRef) :
    Impartial (runAll (l.runScript engine load) vars scripts) := by
  induction scripts generalizing vars with
  | nil => exact .pure (Except.ok vars)
  | cons script rest ih =>
    refine ⟨fun {scope scopes scope' scopes' s s'} h => ?_⟩
    obtain ⟨hr, ha⟩ := (runScript_impartial engine l hl vars script).run h
    rcases hs : l.runScript engine load vars script s with ⟨r, s₁⟩
    rcases hs' : l.runScript engine load vars script s' with ⟨r', s₁'⟩
    rw [hs, hs'] at hr ha
    obtain rfl : r' = r := hr
    cases r' with
    | error f =>
      simp only [runAll, hs, hs']
      exact ⟨trivial, ha⟩
    | ok outputs =>
      simp only [runAll, hs, hs']
      exact (ih (merge vars script outputs)).run ha

theorem loadOnce_impartial (hl : ∀ scripts, Impartial (load scripts)) (scripts : List ScriptRef) :
    Impartial (l.loadOnce engine load scripts) := by
  refine ⟨fun {scope scopes scope' scopes' s s'} h => ?_⟩
  unfold loadOnce
  cases l.options.validate with
  | error f => exact ⟨rfl, h⟩
  | ok u =>
    by_cases hd : l.options.maxLoadDepth < s.loadDepth + 1
    · simp only [h.loadDepth, hd, if_true]
      exact ⟨trivial, h⟩
    · have hin : s.loading.Alike (scope :: scopes) (scope' :: scopes') s'.loading :=
        ⟨h.sound, h.sound', h.stores, h.contexts, congrArg (· + 1) h.loadDepth⟩
      obtain ⟨hr, ha⟩ := (runAll_impartial engine l hl l.options.inputs scripts).run hin
      have hd' : ¬ l.options.maxLoadDepth < s'.loadDepth + 1 := h.loadDepth.symm ▸ hd
      simp only [hd, hd', if_false]
      exact ⟨hr, ha.sound, ha.sound', ha.stores, ha.contexts, congrArg (· - 1) ha.loadDepth⟩

theorem load_impartial (scripts : List ScriptRef) : Impartial (l.load engine scripts) := by
  have hrefused (scripts : List ScriptRef) :
      Impartial fun s => ((.error (l.tooDeep scripts), s) : Except Failure Variables × Session) := .pure _
  have hwithin (levels : Nat) (scripts : List ScriptRef) : Impartial (loadWithin engine l levels scripts) := by
    induction levels generalizing scripts with
    | zero => exact loadOnce_impartial engine l hrefused scripts
    | succ levels ih => exact loadOnce_impartial engine l ih scripts
  exact hwithin l.options.maxLoadDepth scripts

end Loader

/-! ## Calls from scripts -/

namespace Program

theorem bind_assoc {γ : Type} (p : Program α) (f : α → Program β) (g : β → Program γ) :
    (p.bind f).bind g = p.bind fun a => (f a).bind g := by
  induction p with
  | done a => rfl
  | note e next ih => exact congrArg (Program.note e) (funext fun u => ih u f)
  | row values next ih => exact congrArg (Program.row values) (funext fun r => ih r f)
  | find type id next ih => exact congrArg (Program.find type id) (funext fun r => ih r f)
  | load scripts next ih => exact congrArg (Program.load scripts) (funext fun r => ih r f)
  | table schema block next _ ih => exact congrArg (Program.table schema block) (funext fun r => funext fun b => ih r b f)

theorem runIn_noteAll (load : List ScriptRef → Session → Except Failure Variables × Session) (events : List Event)
    (s : Session) : (noteAll events).runIn load s = ((), s.noteAll events) := by
  induction events generalizing s with
  | nil => rfl
  | cons e events ih => exact ih (s.note e)

end Program

namespace Script

/-- The arguments of a call name these scripts. -/
def Names (args : List Val) (heap : Heap) (scripts : List ScriptRef) : Prop :=
  ∃ events, Vocabulary.loadArguments args heap =
    (Program.noteAll events).bind fun _ => .done (.ok scripts, heap)

/-- What is left when a failure is raised: a new fault, and a record that it was raised. -/
def Heap.raised (heap : Heap) (f : Failure) : Except Val α × Heap :=
  let (v, heap) := heap.newObject (.fault (.within (.failure f)))
  (.error v, heap.mark .raised v)

/-- What a call gets from a load: a new table of the variables, or the failure raised. -/
def Heap.delivered (heap : Heap) : Except Failure Variables → Except Val (List Val) × Heap
  | .ok vars =>
    let (v, heap) := heap.receiveVariables vars
    (.ok [v], heap)
  | .error f => heap.raised f

/-- Texts name the scripts called so. -/
theorem names_texts (texts : List Text.Bytes) (hne : texts ≠ []) (heap : Heap) :
    Names (texts.map .string) heap (texts.map fun text => ⟨Text.decode text, none⟩) := by
  have hnames (texts : List Text.Bytes) :
      Vocabulary.scriptNames (texts.map .string) heap =
        .done (.ok (texts.map fun text => ⟨Text.decode text, none⟩), heap) := by
    induction texts with
    | nil => rfl
    | cons text rest ih =>
      show (Vocabulary.scriptNames (rest.map .string) heap).bind _ = _
      rw [ih]
      rfl
  obtain ⟨text, rest, rfl⟩ := List.exists_cons_of_ne_nil hne
  exact ⟨[], hnames (text :: rest)⟩

/-- A call asks for the scripts its arguments name, and delivers the answer. -/
theorem load_run {args : List Val} {heap : Heap} {scripts : List ScriptRef} (h : Names args heap scripts) :
    ∃ events, ∀ load s, (Vocabulary.load args heap).runIn load s =
      (heap.delivered (load scripts (s.noteAll events)).1, (load scripts (s.noteAll events)).2) := by
  obtain ⟨events, he⟩ := h
  refine ⟨events, fun load s => ?_⟩
  have hload : Vocabulary.load args heap = (Program.noteAll events).bind fun _ =>
      .load scripts fun answer => .done (heap.delivered answer) := by
    unfold Vocabulary.load
    show (Vocabulary.loadArguments args heap).bind _ = _
    rw [he, Program.bind_assoc]
    congr 1
    funext u
    show Program.load scripts _ = _
    congr 1
    funext answer
    cases answer <;> rfl
  rw [hload, Program.runIn_bind, Program.runIn_noteAll]
  rfl

end Script

open Script

/-- What a call of `load` gives a script, inside a transaction, does not depend on the script: calls that name the same
scripts, at the same depth and on stores alike in every type, get the same variables or the same failure, and leave the
stores alike in every type. The blocks open around either call are as they were. -/
theorem load_ignores_caller {σ : Type} (engine : Engine σ) (l : Loader) {scope scope' : Scope}
    {scopes scopes' : List Scope} {s s' : Session} (h : Reachable (scope :: scopes) s.store)
    (h' : Reachable (scope' :: scopes') s'.store) (alike : ∀ name, s.store.Alike name s'.store)
    (depth : s'.loadDepth = s.loadDepth) {args args' : List Val} {heap heap' : Heap} {scripts : List ScriptRef}
    (hn : Names args heap scripts) (hn' : Names args' heap' scripts) :
    let call (args : List Val) (heap : Heap) (s : Session) :=
      (Vocabulary.load args heap).runIn (fun scripts => Loader.withoutContexts (l.load engine scripts)) s
    ∃ answer,
      (call args heap s).1 = heap.delivered answer ∧ (call args' heap' s').1 = heap'.delivered answer ∧
      (∀ name, (call args heap s).2.store.Alike name (call args' heap' s').2.store) ∧
      (call args heap s).2.contexts = s.contexts ∧ (call args' heap' s').2.contexts = s'.contexts := by
  intro call
  obtain ⟨events, hcall⟩ := load_run hn
  obtain ⟨events', hcall'⟩ := load_run hn'
  -- The loaded scripts start alike: neither the blocks around the calls nor what these report is in sight.
  have hstart : Session.Alike (scope :: scopes) (scope' :: scopes') { s with contexts := [] } { s' with contexts := [] } :=
    ⟨h.sound, h'.sound, alike, rfl, depth⟩
  have hnoted := hstart.noteAll events events'
  rw [Session.noteAll_withContexts events s, Session.noteAll_withContexts events' s'] at hnoted
  obtain ⟨hr, ha⟩ := (Loader.load_impartial engine l scripts).run hnoted
  refine ⟨(l.load engine scripts { s.noteAll events with contexts := [] }).1, ?_, ?_, ?_, ?_, ?_⟩
  · exact congrArg Prod.fst (hcall _ s)
  · rw [← hr]
    exact congrArg Prod.fst (hcall' _ s')
  · rw [show call args heap s = _ from hcall _ s, show call args' heap' s' = _ from hcall' _ s']
    exact ha.stores
  · rw [show call args heap s = _ from hcall _ s]
    exact s.noteAll_contexts events
  · rw [show call args' heap' s' = _ from hcall' _ s']
    exact s'.noteAll_contexts events'

/-- A user may be committed, with the transaction doomed and a block open, or still be buffered: a script that is loaded
finds it all the same. -/
theorem buffered_user_found_like_committed :
    let l := Loader.single "found = find(User, 1)"
    let user := (EntityType.new "User").withAttribute "name"
    let ann : Entity := ⟨"User", [("id", .integer 1), ("name", .string "ann")]⟩
    let empty : Store := { types := l.types }
    let doomed := ((empty.perform "User" (.create ann)).2.openScope.2.perform "User" (.create ann)).2
    let buffered := (empty.openScope.2.perform "User" (.create ann)).2
    let s : Session := ⟨doomed, [⟨user, ["name"], []⟩], 1⟩
    let s' : Session := ⟨buffered, [], 1⟩
    let call (s : Session) := (Vocabulary.load [.string (Text.encode "a")] {}).runIn
      (fun scripts => Loader.withoutContexts (l.load Script.engine scripts)) s
    Reachable [⟨true⟩] doomed ∧ Reachable [⟨true⟩] buffered ∧ doomed.rollbackOnly = true ∧
      buffered.rollbackOnly = false ∧ buffered.tables = [] ∧ (∀ name, doomed.Alike name buffered) ∧
      ∃ vars, (call s).1 = Heap.delivered {} (.ok vars) ∧ (call s').1 = Heap.delivered {} (.ok vars) ∧
        (call s).2.contexts = s.contexts := by
  intro l user ann empty doomed buffered s s' call
  have hcommitted : Reachable [] (empty.perform "User" (.create ann)).2 := (Reachable.start [user]).perform "User" _
  have hdoomed : Reachable [⟨true⟩] doomed := by
    have ho : (empty.perform "User" (.create ann)).2.openScope.1 = ⟨true⟩ := by
      unfold empty l ann
      rfl
    exact ho ▸ hcommitted.enter.perform "User" (.create ann)
  have hbuffered : Reachable [⟨true⟩] buffered := (Reachable.start [user]).enter.perform "User" (.create ann)
  have hseen : buffered.visible = doomed.visible := by
    unfold buffered doomed empty l ann
    rfl
  have hnumbers : buffered.sequences = doomed.sequences := by
    unfold buffered doomed empty l ann
    rfl
  have htypes : buffered.types = doomed.types := by
    unfold buffered doomed empty l ann
    rfl
  have halike (name : String) : doomed.Alike name buffered :=
    ⟨htypes, congrArg (Tables.table · name) hseen, sequence_congr hnumbers name⟩
  have hnames : Names [.string (Text.encode "a")] {} [⟨Text.decode (Text.encode "a"), none⟩] :=
    names_texts [Text.encode "a"] (List.cons_ne_nil _ _) {}
  obtain ⟨answer, hs, hs', -, hc, -⟩ :=
    load_ignores_caller Script.engine l (show Reachable [⟨true⟩] s.store from hdoomed)
      (show Reachable [⟨true⟩] s'.store from hbuffered) halike rfl hnames hnames
  have hok : (call s).1.1.toOption.isSome = true := by decide +kernel
  obtain ⟨vars, rfl⟩ : ∃ vars, answer = .ok vars := by
    cases answer with
    | ok vars => exact ⟨vars, rfl⟩
    | error f =>
      rw [hs] at hok
      cases hok
  refine ⟨hdoomed, hbuffered, ?_, ?_, ?_, halike, vars, hs, hs', hc⟩
  · unfold doomed empty l ann
    rfl
  · unfold buffered empty l ann
    rfl
  · unfold buffered empty l ann
    rfl

end Fixtures
