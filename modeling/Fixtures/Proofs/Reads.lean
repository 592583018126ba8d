import Fixtures.Proofs.Batches
import Fixtures.Proofs.Blocks
import Fixtures.Proofs.Interleaving
/-!
# Reads leave no trace

Every read is a unit of work of its own: outside a transaction it opens one and
commits it, inside it joins the one that is open. All that is left of it is the
commit. `Activity` is a run of store operations with reads put in anywhere,
whose answers are ignored; `Activity.bare` is the run without them. A run with
reads goes on from a store that is a `Twin` of the one without: the same but
for the counter of commits, the journal, and outside a transaction the mark
that the last one was doomed.
-/

namespace Fixtures

open Store

/-! ## Runs with reads in them -/

/-- What is asked of a session. -/
inductive Question where
  | count (typeName : String)
  | request (q : Request)
  /-- A find as scripts make it. -/
  | seek (type : EntityType) (id : Value)
  | row (values : List Value)

namespace Question

def Answer : Question → Type
  | count _ => Nat
  | request q => Except Failure q.demand.Answer
  | seek _ _ => Except Failure (Option Entity)
  | row _ => Except Failure Entity

def run : (q : Question) → Session → q.Answer × Session
  | count typeName, s => (s.store.count typeName, s)
  | request q, s => s.onStore q.run
  | seek type id, s => s.find type id
  | row values, s => s.row values

end Question

/-- The questions that only read. -/
inductive Read where
  | count (typeName : String)
  | find (typeName : String) (id : Value)
  | findByIds (typeName : String) (ids : List Value)
  | findAll (typeName : String)
  | seek (type : EntityType) (id : Value)

namespace Read

def question : Read → Question
  | count typeName => .count typeName
  | find typeName id => .request ⟨typeName, .find id⟩
  | findByIds typeName ids => .request ⟨typeName, .findByIds ids⟩
  | findAll typeName => .request ⟨typeName, .findAll⟩
  | seek type id => .seek type id

/-- Read, whatever the answer. -/
def run (r : Read) (s : Session) : Session := (r.question.run s).2

/-- A value can be an identifier. -/
def usable (v : Value) : Bool := (EntityId.ofValue? v).isSome

/-- How many units of work a read enters: one to find all, one for each look-up with a usable identifier, and none if
the type is not known. Of several look-ups those after an unusable identifier are not made. -/
def units (types : Catalog) : Read → Nat
  | count _ => 0
  | find typeName id => if types.has typeName then if usable id then 1 else 0 else 0
  | findByIds typeName ids => if types.has typeName then (ids.takeWhile usable).length else 0
  | findAll typeName => if types.has typeName then 1 else 0
  | seek type id => if types.has type.name then if usable id then 1 else 0 else 0

/-- The commits of a read: one for each unit of work, if these are outermost. -/
def commits (r : Read) (s : Store) : Nat := if s.inTransaction then 0 else r.units s.types

end Read

/-- What is asked of a session, how it goes on from each answer, and reads in between. -/
inductive Activity : Type → Type 1 where
  /-- End with a result. -/
  | done {α : Type} (a : α) : Activity α
  /-- Read something, and go on as if nothing had been read. -/
  | read {α : Type} (r : Read) (next : Activity α) : Activity α
  | ask {α : Type} (q : Question) (next : q.Answer → Activity α) : Activity α
  /-- Run a unit of work, which ends with a result, a failure or a panic. -/
  | exec {α β : Type} (inner : Activity (Except Interruption β)) (next : Except Interruption β → Activity α) :
      Activity α
  /-- Run a block in a context of its own. -/
  | table {α β : Type} (schema : Schema) (block : Activity (Except Failure Unit × β))
      (next : Except Failure (List Entity) × β → Activity α) : Activity α

/-- What was answered on the way. -/
inductive Answered : Type 1 where
  | question (q : Question) (answer : q.Answer)
  | exec {β : Type} (outcome : Except Interruption β)
  | table {β : Type} (returned : Except Failure (List Entity) × β)

namespace Activity

def run : {α : Type} → Activity α → Session → α × Session
  | _, done a, s => (a, s)
  | _, read r next, s => next.run (r.run s)
  | _, ask q next, s =>
    let (a, s) := q.run s
    (next a).run s
  | _, exec inner next, s =>
    let (r, s) := s.exec inner.run
    (next r).run s
  | _, table schema block next, s =>
    let (r, s) := s.table schema block.run
    (next r).run s

/-- The run without its reads. -/
def bare : {α : Type} → Activity α → Activity α
  | _, done a => done a
  | _, read _ next => next.bare
  | _, ask q next => ask q fun a => (next a).bare
  | _, exec inner next => exec inner.bare fun r => (next r).bare
  | _, table schema block next => table schema block.bare fun r => (next r).bare

/-- What is answered to all but the reads, in order. -/
def told : {α : Type} → Activity α → Session → List Answered
  | _, done _, _ => []
  | _, read r next, s => next.told (r.run s)
  | _, ask q next, s =>
    let (a, s') := q.run s
    .question q a :: (next a).told s'
  | _, exec inner next, s =>
    let (r, s') := s.exec inner.run
    inner.told s.entered ++ .exec r :: (next r).told s'
  | _, table schema block next, s =>
    let (r, s') := s.table schema block.run
    block.told (s.inBlock schema) ++ .table r :: (next r).told s'

/-- The commits of all reads. -/
def extra : {α : Type} → Activity α → Session → Nat
  | _, done _, _ => 0
  | _, read r next, s => r.commits s.store + next.extra (r.run s)
  | _, ask q next, s =>
    let (a, s') := q.run s
    (next a).extra s'
  | _, exec inner next, s =>
    let (r, s') := s.exec inner.run
    inner.extra s.entered + (next r).extra s'
  | _, table schema block next, s =>
    let (r, s') := s.table schema block.run
    block.extra (s.inBlock schema) + (next r).extra s'

end Activity

/-! ## Twins -/

/-- The stores are the same but for `n` more commits of the second and what was reported. In a transaction both are
doomed or neither. -/
structure Store.Twin (n : Nat) (s s' : Store) : Prop where
  types : s'.types = s.types
  tables : s'.tables = s.tables
  sequences : s'.sequences = s.sequences
  pending : s'.pending = s.pending
  depth : s'.depth = s.depth
  doomed : 0 < s.depth → s'.rollbackOnly = s.rollbackOnly
  commits : s'.commits = s.commits + n
  rollbacks : s'.rollbacks = s.rollbacks

/-- The sessions are the same but for their stores, which are twins. -/
structure Session.Twin (n : Nat) (s s' : Session) : Prop where
  store : s.store.Twin n s'.store
  contexts : s'.contexts = s.contexts
  loadDepth : s'.loadDepth = s.loadDepth

namespace Store.Twin

variable {n m : Nat} {s s' s'' : Store} {scope : Scope} {scopes : List Scope}

theorem refl (s : Store) : Twin 0 s s := ⟨rfl, rfl, rfl, rfl, rfl, fun _ => rfl, rfl, rfl⟩

theorem trans (h : Twin n s s') (h' : Twin m s' s'') : Twin (n + m) s s'' where
  types := h'.types.trans h.types
  tables := h'.tables.trans h.tables
  sequences := h'.sequences.trans h.sequences
  pending := h'.pending.trans h.pending
  depth := h'.depth.trans h.depth
  doomed hd := (h'.doomed (h.depth ▸ hd)).trans (h.doomed hd)
  commits := by rw [h'.commits, h.commits, Nat.add_assoc]
  rollbacks := h'.rollbacks.trans h.rollbacks

theorem sound (hs : Sound scopes s) (h : Twin n s s') : Sound scopes s' where
  depth := h.depth.trans hs.depth
  nested := hs.nested
  pending := by
    rw [h.pending, hs.pending, inTransaction, inTransaction, h.depth]
  coherent := by
    rw [h.pending]
    exact hs.coherent
  sorted := by
    rw [h.tables]
    exact hs.sorted
  named := by
    rw [h.types]
    exact hs.named

theorem access (h : Twin n s s') (name : String) : s'.access name = s.access name := by
  rw [Store.access, Store.access, h.types]

theorem lookup (h : Twin n s s') (name : String) (id : EntityId) : s'.lookup name id = s.lookup name id := by
  rw [Store.lookup, Store.lookup, h.pending, h.tables]

theorem view (h : Twin n s s') (name : String) : s'.view name = s.view name := by
  rw [Store.view, Store.view, h.pending, h.tables]

/-- Entering a unit of work. -/
theorem enter (h : Twin n s s') : s'.openScope.1 = s.openScope.1 ∧ Twin n s.openScope.2 s'.openScope.2 := by
  by_cases hd : s.depth = 0
  · rw [openScope_outside hd, openScope_outside (h.depth.trans hd)]
    exact ⟨rfl, h.types, h.tables, h.sequences, rfl, rfl, fun _ => rfl, h.commits, h.rollbacks⟩
  · have hpos := Nat.pos_of_ne_zero hd
    rw [openScope_inside hpos, openScope_inside (h.depth ▸ hpos)]
    exact ⟨rfl, h.types, h.tables, h.sequences, h.pending, congrArg (· + 1) h.depth, fun _ => h.doomed hpos,
      h.commits, h.rollbacks⟩

/-- Leaving a unit of work: twins commit or roll back alike. -/
theorem leave (hd : 0 < s.depth) (h : Twin n s s') (scope : Scope) (success : Bool) :
    (s'.closeScope scope success).1 = (s.closeScope scope success).1 ∧
      Twin n (s.closeScope scope success).2 (s'.closeScope scope success).2 := by
  have hdoomed := h.doomed hd
  have hdepth : s'.depth - 1 = s.depth - 1 := congrArg (· - 1) h.depth
  obtain ⟨outermost⟩ := scope
  cases outermost with
  | false =>
    rw [closeScope_inside, closeScope_inside]
    exact ⟨rfl, h.types, h.tables, h.sequences, h.pending, hdepth, fun _ => congrArg (· || !success) hdoomed,
      h.commits, h.rollbacks⟩
  | true =>
    by_cases hf : success = false ∨ s.rollbackOnly = true
    · rw [closeScope_rollback hf, closeScope_rollback (hdoomed.symm ▸ hf)]
      exact ⟨rfl, h.types, h.tables, h.sequences, rfl, hdepth, fun _ => hdoomed, h.commits,
        congrArg (· + 1) h.rollbacks⟩
    · simp only [not_or, Bool.not_eq_false, Bool.not_eq_true] at hf
      rw [hf.1, closeScope_commit hf.2, closeScope_commit (hdoomed.trans hf.2)]
      refine ⟨rfl, h.types, ?_, h.sequences, rfl, hdepth, fun _ => hdoomed, ?_, h.rollbacks⟩
      · show s'.tables.replay _ = s.tables.replay _
        rw [h.tables, h.pending]
      · show s'.commits + 1 = s.commits + 1 + n
        rw [h.commits, Nat.add_right_comm]

end Store.Twin

/-! ## What a read leaves -/

namespace Store

variable {n : Nat} {scopes : List Scope} {s s' : Store} {α : Type}

/-- The store after `n` units of work in which nothing happened: each is a commit if it is outermost. -/
def Idled (n : Nat) (s s' : Store) : Prop := s.Twin (if s.inTransaction then 0 else n) s'

theorem Idled.refl (s : Store) : s.Idled 0 s := by
  unfold Idled
  rw [ite_self]
  exact .refl s

theorem Idled.trans {m : Nat} {s'' : Store} (h : s.Idled n s') (h' : s'.Idled m s'') : s.Idled (n + m) s'' := by
  have hsame : s'.inTransaction = s.inTransaction := by rw [inTransaction, inTransaction, Twin.depth h]
  unfold Idled at h h' ⊢
  rw [hsame] at h'
  have hboth := h.trans h'
  split
  · simpa [*] using hboth
  · simpa [*] using hboth

/-- A scope in which nothing happens. -/
theorem idle_scope (hs : Sound scopes s) :
    (s.openScope.2.closeScope s.openScope.1 true).1 = .ok () ∧
      s.Idled 1 (s.openScope.2.closeScope s.openScope.1 true).2 := by
  unfold Idled
  rw [hs.inTransaction_iff]
  cases scopes with
  | nil =>
    rw [openScope_outside hs.depth, closeScope_commit rfl]
    refine ⟨rfl, rfl, rfl, rfl, hs.unbuffered.symm, hs.depth.symm, fun hd => ?_, rfl, rfl⟩
    rw [hs.depth] at hd
    cases hd
  | cons scope scopes =>
    have hd : 0 < s.depth := by rw [hs.depth]; exact Nat.succ_pos _
    rw [openScope_inside hd, closeScope_inside]
    exact ⟨rfl, rfl, rfl, rfl, rfl, rfl, fun _ => Bool.or_false _, rfl, rfl⟩

/-- A unit of work that only reads succeeds. -/
theorem exec_reading (hs : Sound scopes s) (f : Store → α) :
    (s.exec (reading f)).1 = .ok (f s.openScope.2) ∧ s.Idled 1 (s.exec (reading f)).2 := by
  obtain ⟨hres, hidled⟩ := idle_scope hs
  rw [exec_fst, exec_snd]
  simp only [reading, Ending.succeeded_ok, hres]
  exact ⟨trivial, hidled⟩

/-- A look-up is refused at once, or is a unit of work that only reads. -/
theorem findById_cases (t : EntityType) (v : Value) (s : Store) :
    (Read.usable v = false ∧ ∃ f, findById t v s = (.error f, s)) ∨
      Read.usable v = true ∧ ∃ f, findById t v s = s.exec (reading f) := by
  unfold findById EntityId.ofValue Read.usable
  cases EntityId.ofValue? v with
  | none => exact .inl ⟨rfl, _, rfl⟩
  | some id => exact .inr ⟨rfl, _, rfl⟩

theorem findById_idled (hs : Sound scopes s) (t : EntityType) (v : Value) :
    s.Idled (if Read.usable v then 1 else 0) (findById t v s).2 := by
  rcases findById_cases t v s with ⟨hv, f, hfind⟩ | ⟨hv, f, hfind⟩
  · rw [hfind, hv]
    exact .refl s
  · rw [hfind, hv]
    exact (exec_reading hs f).2

/-- Look-ups one after the other, up to the first with an unusable identifier. -/
theorem findByIds_idled (hs : Sound scopes s) (t : EntityType) (ids : List Value) :
    s.Idled (ids.takeWhile Read.usable).length (findByIds t ids s).2 := by
  induction ids generalizing s with
  | nil => exact .refl s
  | cons v rest ih =>
    rw [findByIds_cons, andThen_eq]
    rcases findById_cases t v s with ⟨hv, f, hfind⟩ | ⟨hv, f, hfind⟩
    · rw [hfind, List.takeWhile_cons_of_neg (by simp [hv])]
      exact .refl s
    · obtain ⟨hres, hidled⟩ := exec_reading hs f
      rw [hfind, hres, List.takeWhile_cons_of_pos hv, List.length_cons, Nat.add_comm]
      exact hidled.trans (ih (Twin.sound hs hidled))

/-- Where the type is not known, nothing happens. -/
theorem request_idled {q : Request} (h : ∀ t, s.Idled n (q.demand.run t s).2) :
    s.Idled (if s.types.has q.typeName then n else 0) (q.run s).2 := by
  unfold Request.run Store.access Dict.has
  cases s.types.get? q.typeName with
  | none => exact .refl s
  | some t => exact h t

end Store

/-- A read leaves a twin, with its commits. -/
theorem Read.twin {scopes : List Scope} {s : Session} (hs : Sound scopes s.store) (r : Read) :
    s.Twin (r.commits s.store) (r.run s) := by
  have hfind (typeName : String) (id : Value) :
      s.store.Idled ((Read.find typeName id).units s.store.types) (Request.run ⟨typeName, .find id⟩ s.store).2 :=
    request_idled (q := ⟨typeName, .find id⟩) fun t => findById_idled hs t id
  cases r with
  | count typeName => exact ⟨Idled.refl s.store, rfl, rfl⟩
  | find typeName id => exact ⟨hfind typeName id, rfl, rfl⟩
  | findByIds typeName ids =>
    exact ⟨request_idled (q := ⟨typeName, .findByIds ids⟩) fun t => findByIds_idled hs t ids, rfl, rfl⟩
  | findAll typeName => exact ⟨request_idled (q := ⟨typeName, .findAll⟩) fun t => (exec_reading hs _).2, rfl, rfl⟩
  | seek type id =>
    show s.Twin _ (s.find type id).2
    rw [Session.find_eq]
    exact ⟨hfind type.name id, rfl, rfl⟩

/-! ## Twins answer alike -/

namespace Store.Twin

variable {n : Nat} {s s' : Store} {scopes : List Scope} {t : EntityType} {α : Type}

/-- The identifiers that are handed out depend on the sequences alone. -/
theorem assignId_sequences (e : Entity) (h : s'.sequences = s.sequences) :
    (assignId t e s').2.sequences = (assignId t e s).2.sequences := by
  unfold assignId
  cases idValue? t e with
  | some v =>
    dsimp only
    cases EntityId.ofValue v with
    | error f => exact h
    | ok id =>
      cases id with
      | int n =>
        show s'.sequences.insert t.name _ = s.sequences.insert t.name _
        rw [sequence_congr h, h]
      | text x => exact h
  | none =>
    have hn : (s'.nextId t.name).1 = (s.nextId t.name).1 := congrArg (· + 1) (sequence_congr h t.name)
    have hq : (s'.nextId t.name).2.sequences = (s.nextId t.name).2.sequences := by
      show s'.sequences.insert t.name _ = s.sequences.insert t.name _
      rw [sequence_congr h, h]
    simp only [hn]
    split
    · exact hq
    · exact hq

theorem work_sequences {op : Operation α} {work : Store → Except Failure α × Store} (hw : op.work t = .ok work)
    (h : s'.sequences = s.sequences) : (work s').2.sequences = (work s).2.sequences := by
  cases op with
  | create e =>
    obtain ⟨u, -, rfl⟩ := map_eq_ok hw
    rw [putNew_sequences, putNew_sequences, assignId_sequences e h]
  | find v =>
    obtain ⟨id, -, rfl⟩ := map_eq_ok hw
    exact h
  | findAll =>
    cases hw
    exact h
  | update e =>
    obtain ⟨id, -, rfl⟩ := map_eq_ok hw
    rw [putBack_sequences, putBack_sequences, h]
  | delete e =>
    obtain ⟨id, -, rfl⟩ := map_eq_ok hw
    rw [takeOut_sequences, takeOut_sequences, h]

/-- The unit of work of an operation, in the scope that is open. -/
theorem work {scope : Scope} (hs : Sound (scope :: scopes) s) (h : Twin n s s') {op : Operation α}
    {work : Store → Except Failure α × Store} (hw : op.work t = .ok work) :
    (work s').1 = (work s).1 ∧ Twin n (work s).2 (work s').2 := by
  have hresult : (work s').1 = (work s).1 :=
    (work_congr hw (h.lookup t.name) (h.view t.name) (sequence_congr h.sequences t.name)).1
  refine ⟨hresult, ?_⟩
  have hsequences := work_sequences hw h.sequences
  obtain ⟨p, hp, -⟩ := hs.buffered
  obtain ⟨q, hq⟩ := work_effect hw hp
  obtain ⟨q', hq'⟩ := work_effect hw (h.pending.trans hp)
  rw [hq, hq'] at hsequences
  rw [hq, hq', hresult]
  exact ⟨h.types, h.tables, hsequences, rfl, h.depth, h.doomed, h.commits, h.rollbacks⟩

theorem operation (hs : Sound scopes s) (h : Twin n s s') (t : EntityType) (op : Operation α) :
    (op.run t s').1 = (op.run t s).1 ∧ Twin n (op.run t s).2 (op.run t s').2 := by
  rw [op.run_eq t s, op.run_eq t s']
  cases hw : op.work t with
  | error f => exact ⟨rfl, h⟩
  | ok work =>
    obtain ⟨hscope, hin⟩ := h.enter
    obtain ⟨hresult, hout⟩ := hin.work hs.enter hw
    obtain ⟨p, hp, -⟩ := hs.enter.buffered
    have hd : 0 < (work s.openScope.2).2.depth := by
      rw [(Within.work hw hp).depth, hs.enter.depth]
      exact Nat.succ_pos _
    dsimp only
    rw [exec_fst, exec_fst, exec_snd, exec_snd, hscope, hresult]
    obtain ⟨hclose, hend⟩ := hout.leave hd s.openScope.1 (Ending.succeeded (work s.openScope.2).1)
    rw [hclose]
    exact ⟨rfl, hend⟩

end Store.Twin

/-- Work that twins do alike. -/
structure Store.Blind {α : Type} (work : Store → Except Failure α × Store) : Prop where
  run : ∀ {scopes n s s'}, Sound scopes s → Twin n s s' →
    (work s').1 = (work s).1 ∧ Twin n (work s).2 (work s').2

namespace Store.Blind

variable {α β γ : Type} {name : String} {work : Store → Except Failure α × Store}
  {rest : Store → Except Failure β × Store}

theorem pure (r : Except Failure α) : Blind fun s => (r, s) := ⟨fun _ h => ⟨rfl, h⟩⟩

theorem operation (t : EntityType) (op : Operation α) : Blind (op.run t) := ⟨fun hs h => h.operation hs t op⟩

theorem andThen (hc : Confined name work) (h : Blind work) (hr : Blind rest) (join : α → β → γ) :
    Blind (andThen work rest join) where
  run {scopes n s s'} hs htwin := by
    obtain ⟨hresult, hstep⟩ := h.run hs htwin
    rw [andThen_eq, andThen_eq, hresult]
    cases (work s).1 with
    | error f => exact ⟨rfl, hstep⟩
    | ok a =>
      obtain ⟨hresult', hstep'⟩ := hr.run (hc.sound hs) hstep
      exact ⟨congrArg (Except.map (join a)) hresult', hstep'⟩

theorem createAll (t : EntityType) (es : List Entity) : Blind (createAll t es) := by
  induction es with
  | nil => exact .pure (.ok [])
  | cons e rest ih =>
    rw [createAll_cons]
    exact .andThen ((Operation.create e).confined t) (operation t (.create e)) ih _

theorem findByIds (t : EntityType) (ids : List Value) : Blind (findByIds t ids) := by
  induction ids with
  | nil => exact .pure (.ok [])
  | cons id rest ih =>
    rw [findByIds_cons]
    exact .andThen ((Operation.find id).confined t) (operation t (.find id)) ih _

theorem demand (t : EntityType) (d : Demand) : Blind (d.run t) := by
  cases d with
  | create e => exact operation t (.create e)
  | find id => exact operation t (.find id)
  | findAll => exact operation t .findAll
  | update e => exact operation t (.update e)
  | delete e => exact operation t (.delete e)
  | createAll es => exact createAll t es
  | findByIds ids => exact findByIds t ids

theorem request (q : Request) : Blind q.run where
  run {scopes n s s'} hs h := by
    unfold Request.run
    rw [h.access]
    cases s.access q.typeName with
    | error f => exact ⟨rfl, h⟩
    | ok t => exact (demand t q.demand).run hs h

end Store.Blind

namespace Session.Twin

variable {n m : Nat} {scopes : List Scope} {s s' : Session} {α β ρ : Type}

theorem refl (s : Session) : s.Twin 0 s := ⟨.refl s.store, rfl, rfl⟩

theorem trans {s'' : Session} (h : s.Twin n s') (h' : s'.Twin m s'') : s.Twin (n + m) s'' :=
  ⟨h.store.trans h'.store, h'.contexts.trans h.contexts, h'.loadDepth.trans h.loadDepth⟩

theorem noteAll (h : s.Twin n s') (events events' : List Event) : (s.noteAll events).Twin n (s'.noteAll events') := by
  obtain ⟨j, hj⟩ := s.noteAll_store events
  obtain ⟨j', hj'⟩ := s'.noteAll_store events'
  constructor
  · rw [hj, hj']
    exact ⟨h.store.types, h.store.tables, h.store.sequences, h.store.pending, h.store.depth, h.store.doomed,
      h.store.commits, h.store.rollbacks⟩
  · rw [noteAll_contexts, noteAll_contexts, h.contexts]
  · rw [noteAll_loadDepth, noteAll_loadDepth, h.loadDepth]

theorem onStore {work : Store → Except Failure α × Store} (hw : Blind work) (hs : Sound scopes s.store)
    (h : s.Twin n s') : (s'.onStore work).1 = (s.onStore work).1 ∧ (s.onStore work).2.Twin n (s'.onStore work).2 := by
  obtain ⟨hresult, hstore⟩ := hw.run hs h.store
  exact ⟨hresult, hstore, h.contexts, h.loadDepth⟩

theorem createNamed (hs : Sound scopes s.store) (h : s.Twin n s') (e : Entity) :
    (s'.createNamed e).1 = (s.createNamed e).1 ∧ (s.createNamed e).2.Twin n (s'.createNamed e).2 := by
  rw [createNamed_eq, createNamed_eq]
  exact onStore (.request ⟨e.typeName, .create e⟩) hs h

/-- Twins give the same answer to every question. -/
theorem ask (hs : Sound scopes s.store) (h : s.Twin n s') (q : Question) :
    (q.run s').1 = (q.run s).1 ∧ (q.run s).2.Twin n (q.run s').2 := by
  cases q with
  | count typeName => exact ⟨congrArg List.length (h.store.view typeName), h⟩
  | request q => exact onStore (.request q) hs h
  | seek type id =>
    show (s'.find type id).1 = (s.find type id).1 ∧ (s.find type id).2.Twin n (s'.find type id).2
    rw [find_eq, find_eq]
    exact onStore (.request ⟨type.name, .find id⟩) hs h
  | row values =>
    exact row_related h (fun h => h.contexts) (createNamed hs h) (fun _ h => ⟨h.store, rfl, h.loadDepth⟩) values

theorem enter (h : s.Twin n s') : s.entered.Twin n s'.entered := ⟨h.store.enter.2, h.contexts, h.loadDepth⟩

theorem inBlock (h : s.Twin n s') (schema : Schema) : (s.inBlock schema).Twin n (s'.inBlock schema) :=
  ⟨h.store, congrArg (ContextStack.push · schema.type schema.columns) h.contexts, h.loadDepth⟩

/-- Units of work end alike if their runs do. -/
theorem exec [Ending ρ] {work work' : Session → ρ × Session} (h : s.Twin n s')
    (hsound : Sound (s.store.openScope.1 :: scopes) (work s.entered).2.store)
    (hresult : (work' s'.entered).1 = (work s.entered).1) (htwin : (work s.entered).2.Twin m (work' s'.entered).2) :
    (s'.exec work').1 = (s.exec work).1 ∧ (s.exec work).2.Twin m (s'.exec work').2 := by
  have hd : 0 < (work s.entered).2.store.depth := by
    rw [hsound.depth]
    exact Nat.succ_pos _
  obtain ⟨hverdict, hend⟩ := htwin.store.leave hd s.store.openScope.1 (Ending.succeeded (work s.entered).1)
  rw [exec_fst, exec_fst, h.store.enter.1, hresult, hverdict]
  refine ⟨rfl, ?_, ?_, ?_⟩
  · rw [exec_store, exec_store, h.store.enter.1, hresult]
    exact hend
  · rw [exec_contexts, exec_contexts, htwin.contexts]
  · rw [exec_loadDepth, exec_loadDepth, htwin.loadDepth]

/-- Blocks return the same if their works do. -/
theorem table {schema : Schema} {block block' : Session → (Except Failure Unit × β) × Session} (h : s.Twin n s')
    (hresult : (block' (s'.inBlock schema)).1 = (block (s.inBlock schema)).1)
    (htwin : (block (s.inBlock schema)).2.Twin m (block' (s'.inBlock schema)).2) :
    (s'.table schema block').1 = (s.table schema block).1 ∧
      (s.table schema block).2.Twin m (s'.table schema block').2 := by
  obtain ⟨hreturned, hcontexts⟩ := table_related h.contexts hresult htwin.contexts
  have hclose := htwin.noteAll ((block (s.inBlock schema)).2.contexts.closingReport ⟨s.contexts.length + 1⟩)
    ((block' (s'.inBlock schema)).2.contexts.closingReport ⟨s'.contexts.length + 1⟩)
  exact ⟨hreturned, hclose.store, hcontexts, hclose.loadDepth⟩

end Session.Twin

/-! ## Runs side by side -/

/-- A question leaves the scopes that are open. -/
theorem Question.sound {scopes : List Scope} {s : Session} (hs : Sound scopes s.store) (q : Question) :
    Sound scopes (q.run s).2.store := by
  cases q with
  | count typeName => exact hs
  | request q => exact q.confined.sound hs
  | seek type id =>
    show Sound scopes (s.find type id).2.store
    rw [Session.find_eq]
    exact hs.perform type.name (.find id)
  | row values =>
    show Sound scopes (s.row values).2.store
    rcases s.row_cases values with ⟨-, hr⟩ | ⟨e, contexts, -, hr⟩
    · rw [hr]
      exact hs
    · rw [hr]
      exact hs.perform e.typeName (.create e)

namespace Activity

variable {α : Type}

/-- From the second session the run with reads does what the run without does from the first, and goes on from a twin,
which has the commits of the reads besides. -/
structure Follows (w : Activity α) (scopes : List Scope) (n : Nat) (s s' : Session) : Prop where
  result : (w.run s').1 = (w.bare.run s).1
  told : w.told s' = w.bare.told s
  sound : Sound scopes (w.bare.run s).2.store
  twin : (w.bare.run s).2.Twin (n + w.extra s') (w.run s').2

/-- A run that goes on from an answer follows if it is the same answer and the rest follows. -/
theorem Follows.goesOn {β : Type} {w : Activity α} {next : β → Activity α} {scopes : List Scope} {n m : Nat}
    {s s' t t' : Session} {a a' : β} {before before' : List Answered} (answer : β → Answered) (ha : a' = a)
    (hbefore : before' = before) (hnext : (next a).Follows scopes (n + m) t t')
    (hrun : w.run s' = (next a').run t') (hbare : w.bare.run s = (next a).bare.run t)
    (htold : w.told s' = before' ++ answer a' :: (next a').told t')
    (htold' : w.bare.told s = before ++ answer a :: (next a).bare.told t)
    (hextra : w.extra s' = m + (next a').extra t') : w.Follows scopes n s s' := by
  subst ha hbefore
  constructor
  · rw [hrun, hbare, hnext.result]
  · rw [htold, htold', hnext.told]
  · rw [hbare]
    exact hnext.sound
  · rw [hbare, hrun, hextra, ← Nat.add_assoc]
    exact hnext.twin

/-- By induction on the run: reads leave twins, twins give the same answers, and units of work and blocks end alike if
their runs do. -/
theorem follows (w : Activity α) {scopes : List Scope} {n : Nat} {s s' : Session} (hs : Sound scopes s.store)
    (h : s.Twin n s') : w.Follows scopes n s s' := by
  induction w generalizing scopes n s s' with
  | done a => exact ⟨rfl, rfl, hs, h⟩
  | read r next ih =>
    obtain ⟨hresult, htold, hsound, htwin⟩ := ih hs (h.trans (Read.twin (h.store.sound hs) r))
    rw [Nat.add_assoc] at htwin
    exact ⟨hresult, htold, hsound, htwin⟩
  | ask q next ih =>
    obtain ⟨ha, hafter⟩ := h.ask hs q
    have hnext := ih (q.run s).1 (q.sound hs) hafter
    have hbefore : ([] : List Answered) = [] := rfl
    exact .goesOn (m := 0) (.question q) ha hbefore hnext rfl rfl rfl rfl (Nat.zero_add _).symm
  | exec inner next ihInner ih =>
    have hinner := ihInner hs.enter h.enter
    obtain ⟨hr, hafter⟩ := h.exec hinner.sound hinner.result hinner.twin
    have hleft : Sound scopes (s.exec inner.bare.run).2.store := by
      rw [Session.exec_store]
      exact hinner.sound.leave _
    have hnext := ih (s.exec inner.bare.run).1 hleft hafter
    exact .goesOn .exec hr hinner.told hnext rfl rfl rfl rfl rfl
  | table schema block next ihBlock ih =>
    have hblock := ihBlock (s := s.inBlock schema) hs (h.inBlock schema)
    obtain ⟨hr, hafter⟩ := h.table hblock.result hblock.twin
    have hleft : Sound scopes (s.table schema block.bare.run).2.store :=
      Store.Twin.sound hblock.sound ((Session.Twin.refl _).noteAll [] _).store
    have hnext := ih (s.table schema block.bare.run).1 hleft hafter
    exact .goesOn .table hr hblock.told hnext rfl rfl rfl rfl rfl

end Activity

/-- Wherever reads are put into a run, and whatever they are answered, it returns the same, every operation is
answered the same, every unit of work and every block ends the same, and the session is left the same: the tables, the
writes of the open transaction and whether it is doomed, the numbers handed out, the rollbacks and the contexts. There
are more commits, one for each unit of work that a read enters outside any transaction. -/
theorem reads_leave_no_trace {scopes : List Scope} {s : Session} (h : Reachable scopes s.store) {α : Type}
    (w : Activity α) :
    (w.run s).1 = (w.bare.run s).1 ∧ w.told s = w.bare.told s ∧ (w.bare.run s).2.Twin (w.extra s) (w.run s).2 := by
  have hfollows := w.follows h.sound (.refl s)
  have htwin := hfollows.twin
  rw [Nat.zero_add] at htwin
  exact ⟨hfollows.result, hfollows.told, htwin⟩

/-- A user is created in a unit of work and counted afterwards, with reads before, inside and after. Finding all and the
look-up of a text outside are commits of their own; the reads inside are none, nor is the look-up without identifier. -/
theorem reads_around_new_user :
    let user := EntityType.new "User"
    let s : Session := { store := { types := Catalog.ofTypes [user] } }
    let created : Question := .request ⟨"User", .create ⟨"User", [("id", .integer 1)]⟩⟩
    let inner : Activity (Except Interruption Unit) :=
      .read (.find "User" (.integer 1)) <| .ask created fun _ =>
        .read (.findByIds "User" [.integer 1, .nil]) <| .done (.ok ())
    let w : Activity Nat :=
      .read (.findAll "User") <| .exec inner fun _ =>
        .read (.seek user (.string "x")) <| .read (.find "User" .nil) <| .ask (.count "User") .done
    (w.run s).1 = 1 ∧ w.told s = w.bare.told s ∧ w.extra s = 2 ∧ (w.bare.run s).2.store.commits = 1 ∧
      (w.run s).2.store.commits = 3 ∧
      (w.run s).2.store.tables.table "User" = [(.int 1, ⟨"User", [("id", .integer 1)]⟩)] := by
  intro user s created inner w
  obtain ⟨hresult, htold, htwin⟩ := reads_leave_no_trace (s := s) (.start [user]) w
  obtain ⟨hextra, hplain, hcommits, htables⟩ : w.extra s = 2 ∧ (w.bare.run s).1 = 1 ∧
      (w.bare.run s).2.store.commits = 1 ∧
      (w.bare.run s).2.store.tables.table "User" = [(.int 1, ⟨"User", [("id", .integer 1)]⟩)] := by
    unfold w inner created s user
    exact ⟨rfl, rfl, rfl, rfl⟩
  refine ⟨hresult.trans hplain, htold, hextra, hcommits, ?_, ?_⟩
  · rw [htwin.store.commits, hcommits, hextra]
  · rw [htwin.store.tables, htables]

end Fixtures
