import Fixtures.Proofs.Reachable
/-!
# Scopes of a run

A run is taken apart into its moves: entering and leaving scopes, handing out
identifiers, buffering writes. `Move.level?` follows how many scopes are open,
and stops at a move that needs one where none is. No run stops there, so each
of its states is `Balanced`, also those in the middle of an operation.
-/

namespace Fixtures

open Store

/-- What a run does to a store, bit by bit. -/
inductive Move where
  | enter
  /-- Find out the identifier of a new entity, and hand one out if it carries none. -/
  | assign (t : EntityType) (e : Entity)
  | buffer (w : Write)
  /-- Leave the innermost scope. -/
  | leave (success : Bool)

/-- A state in a run. -/
structure Moment where
  store : Store
  /-- The open scopes, innermost first. -/
  scopes : List Scope := []
  /-- How many scopes have been closed that had no other around them. -/
  closed : Nat := 0

namespace Moment

def next (m : Moment) : Move → Moment
  | .enter => { m with store := m.store.openScope.2, scopes := m.store.openScope.1 :: m.scopes }
  | .assign t e => { m with store := (assignId t e m.store).2 }
  | .buffer w => { m with store := m.store.buffer fun p => p.add w }
  | .leave success =>
    match m.scopes with
    -- No run leaves a scope where none is open.
    | [] => m
    | scope :: rest =>
      let closed := m.closed + if rest.isEmpty then 1 else 0
      { store := (m.store.closeScope scope success).2, scopes := rest, closed }

/-- The state after several moves. -/
def after (m : Moment) (moves : List Move) : Moment := moves.foldl next m

theorem next_leave {m : Moment} {scope : Scope} {rest : List Scope} (h : m.scopes = scope :: rest) (success : Bool) :
    m.next (.leave success) =
      { store := (m.store.closeScope scope success).2, scopes := rest,
        closed := m.closed + if rest.isEmpty then 1 else 0 } := by
  rw [next, h]

end Moment

/-! ## The moves of a run -/

/-- What an operation does to settle the identifier under which it writes. -/
def Operation.assigns {α : Type} (t : EntityType) : Operation α → List Move
  | create e => [.assign t e]
  | find _ | findAll | update _ | delete _ => []

/-- What an operation does in its unit of work, by its answer. -/
def Operation.moves {α : Type} (t : EntityType) (op : Operation α) (r : Except Failure α) : List Move :=
  op.assigns t ++ (op.written t r).map .buffer

/-- What an operation does. -/
def Store.moves {α : Type} (s : Store) (typeName : String) (op : Operation α) : List Move :=
  match s.access typeName with
  | .error _ => []
  | .ok t =>
    match op.work t with
    | .error _ => []
    | .ok work =>
      let r := (work s.openScope.2).1
      .enter :: op.moves t r ++ [.leave (Ending.succeeded r)]

/-- What the run of a unit of work does. -/
def Work.moves : {α : Type} → Work α → Store → List Move
  | _, done _, _ => []
  | _, count typeName next, s => (next (s.count typeName)).moves s
  | _, perform typeName op next, s =>
    let (r, s') := s.perform typeName op
    s.moves typeName op ++ (next r).moves s'
  | _, exec inner next, s =>
    let (r, s') := s.exec inner.run
    let opened := s.openScope.2
    .enter :: inner.moves opened ++ [.leave (Ending.succeeded (inner.run opened).1)] ++ (next r).moves s'

/-! ## What the moves come to -/

/-- Moves lead to a store, and leave the scopes that are open as they are. -/
structure Moment.Leads (m : Moment) (moves : List Move) (s : Store) : Prop where
  store : (m.after moves).store = s
  scopes : (m.after moves).scopes = m.scopes

namespace Moment.Leads

variable {α : Type} {t : EntityType} {m : Moment} {s s' : Store} {as bs : List Move}

theorem trans (h : m.Leads as s) (h' : ∀ m' : Moment, m'.store = s → m'.Leads bs s') : m.Leads (as ++ bs) s' := by
  have hrest := h' (m.after as) h.store
  constructor
  · rw [Moment.after, List.foldl_append]
    exact hrest.store
  · rw [Moment.after, List.foldl_append]
    exact hrest.scopes.trans h.scopes

/-- A scope that is entered and left. -/
theorem scope (h : (m.next .enter).Leads as s) (success : Bool) :
    m.Leads (.enter :: as ++ [.leave success]) (s.closeScope m.store.openScope.1 success).2 := by
  have hleave : m.after (.enter :: as ++ [.leave success]) = ((m.next .enter).after as).next (.leave success) :=
    List.foldl_append
  rw [next_leave h.scopes, h.store] at hleave
  exact ⟨by rw [hleave], by rw [hleave]⟩

theorem buffers (m : Moment) (ws : List Write) : m.Leads (ws.map .buffer) (m.store.bufferAll ws) := by
  induction ws generalizing m with
  | nil => exact ⟨rfl, rfl⟩
  | cons w ws ih =>
    have hrest := ih (m.next (.buffer w))
    exact ⟨hrest.store, hrest.scopes⟩

/-- The moves of an operation inside its unit of work. -/
theorem work {op : Operation α} {work : Store → Except Failure α × Store} (h : op.work t = .ok work) (m : Moment) :
    m.Leads (op.moves t (work m.store).1) (work m.store).2 := by
  have hassigned : m.Leads (op.assigns t) (op.assigned t m.store) := by cases op <;> exact ⟨rfl, rfl⟩
  refine hassigned.trans fun m' hm => ?_
  rw [work_writes h, ← hm]
  exact buffers m' _

theorem perform (m : Moment) (typeName : String) (op : Operation α) :
    m.Leads (m.store.moves typeName op) (m.store.perform typeName op).2 := by
  unfold Store.moves Store.perform
  cases m.store.access typeName with
  | error f => exact ⟨rfl, rfl⟩
  | ok t =>
    dsimp only
    rw [Operation.run_eq]
    cases hw : op.work t with
    | error f => exact ⟨rfl, rfl⟩
    | ok work =>
      dsimp only
      rw [exec_snd]
      exact (Leads.work hw (m.next .enter)).scope _

end Moment.Leads

/-- Making the moves of a run is running it. -/
theorem Work.leads {α : Type} (w : Work α) (m : Moment) : m.Leads (w.moves m.store) (w.run m.store).2 := by
  induction w generalizing m with
  | done r => exact ⟨rfl, rfl⟩
  | count typeName next ih => exact ih _ m
  | perform typeName op next ih =>
    refine (Moment.Leads.perform m typeName op).trans fun m' hm => ?_
    have hnext := ih (m.store.perform typeName op).1 m'
    rw [hm] at hnext
    exact hnext
  | exec inner next ihInner ih =>
    have hscope := (ihInner (m.next .enter)).scope (Ending.succeeded (inner.run m.store.openScope.2).1)
    refine hscope.trans fun m' hm => ?_
    have hnext := ih (m.store.exec inner.run).1 m'
    rw [hm.trans (exec_snd inner.run m.store).symm] at hnext
    exact hnext

/-! ## Every move of a run can be made -/

/-- How many scopes are open after a move, if it can be made: a scope must be open for a write, and to be left. -/
def Move.level? : Nat → Move → Option Nat
  | depth, enter => some (depth + 1)
  | depth, assign _ _ => some depth
  | depth + 1, buffer _ => some (depth + 1)
  | depth + 1, leave _ => some depth
  | 0, buffer _ | 0, leave _ => none

namespace Move

variable {α : Type}

theorem level?_buffer {w : Write} {depth depth' : Nat} :
    (buffer w).level? depth = some depth' ↔ 0 < depth ∧ depth = depth' := by
  cases depth <;> simp [level?]

theorem level?_leave {success : Bool} {depth depth' : Nat} :
    (leave success).level? depth = some depth' ↔ depth = depth' + 1 := by
  cases depth <;> simp [level?]

theorem levels_scope {moves : List Move} {depth : Nat} (h : moves.foldlM level? (depth + 1) = some (depth + 1))
    (success : Bool) : (enter :: moves ++ [leave success]).foldlM level? depth = some depth := by
  show (moves ++ [leave success]).foldlM level? (depth + 1) = _
  rw [List.foldlM_append, h]
  rfl

theorem levels_buffer (ws : List Write) (depth : Nat) :
    (ws.map buffer).foldlM level? (depth + 1) = some (depth + 1) := by
  induction ws with
  | nil => rfl
  | cons w ws ih => exact ih

theorem levels_operation (t : EntityType) (op : Operation α) (r : Except Failure α) (depth : Nat) :
    (op.moves t r).foldlM level? (depth + 1) = some (depth + 1) := by
  cases op <;> exact levels_buffer _ depth

theorem levels_perform (s : Store) (typeName : String) (op : Operation α) (depth : Nat) :
    (s.moves typeName op).foldlM level? depth = some depth := by
  unfold Store.moves
  split
  · rfl
  · split
    · rfl
    · exact levels_scope (levels_operation _ op _ depth) _

/-- A run leaves as many scopes open as were open before. -/
theorem levels_work (w : Work α) (s : Store) (depth : Nat) : (w.moves s).foldlM level? depth = some depth := by
  induction w generalizing s depth with
  | done r => rfl
  | count typeName next ih => exact ih _ s depth
  | perform typeName op next ih =>
    rw [Work.moves, List.foldlM_append, levels_perform]
    exact ih _ _ depth
  | exec inner next ihInner ih =>
    rw [Work.moves, List.foldlM_append, levels_scope (ihInner _ _)]
    exact ih _ _ depth

end Move

/-! ## What every state of a run satisfies -/

theorem Nested.outermost_iff {inner outer : List Scope} {scope : Scope} (h : Nested (inner ++ scope :: outer)) :
    scope.outermost = true ↔ outer = [] := by
  induction inner with
  | nil => rw [h.1, List.isEmpty_iff]
  | cons _ _ ih => exact ih h.2

/-- Closing an outermost scope commits or rolls back, and closing another does neither. -/
theorem Store.closeScope_settles (scope : Scope) (success : Bool) (s : Store) :
    (s.closeScope scope success).2.commits + (s.closeScope scope success).2.rollbacks =
      s.commits + s.rollbacks + if scope.outermost then 1 else 0 := by
  obtain ⟨outermost⟩ := scope
  cases outermost with
  | false =>
    rw [closeScope_inside]
    rfl
  | true =>
    by_cases hf : success = false ∨ s.rollbackOnly = true
    · rw [closeScope_rollback hf]
      exact (Nat.add_assoc ..).symm
    · simp only [not_or, Bool.not_eq_false, Bool.not_eq_true] at hf
      rw [hf.1, closeScope_commit hf.2]
      exact Nat.add_right_comm ..

theorem Store.openScope_settles (s : Store) :
    s.openScope.2.commits + s.openScope.2.rollbacks = s.commits + s.rollbacks := by
  unfold openScope
  split <;> rfl

/-- What holds at every moment of a run. -/
structure Moment.Balanced (m : Moment) : Prop where
  sound : Sound m.scopes m.store
  counted : m.store.commits + m.store.rollbacks = m.closed

namespace Moment.Balanced

variable {m : Moment} {depth : Nat}

theorem enter (h : m.Balanced) : (m.next .enter).Balanced where
  sound := h.sound.enter
  counted := m.store.openScope_settles.trans h.counted

theorem assign (h : m.Balanced) (t : EntityType) (e : Entity) : (m.next (.assign t e)).Balanced := by
  obtain ⟨q, hq, -⟩ := assignId_cases t e m.store
  rw [next, hq]
  obtain ⟨hs, hcounted⟩ := h
  exact ⟨⟨hs.depth, hs.nested, hs.pending, hs.coherent, hs.sorted, hs.named⟩, hcounted⟩

/-- With a scope open there is a buffer to write to. -/
theorem buffered (h : m.Balanced) (hopen : 0 < m.scopes.length) : ∃ p, m.store.pending = some p := by
  have hs := h.sound
  obtain ⟨scope, rest, hscopes⟩ := List.exists_cons_of_length_pos hopen
  rw [hscopes] at hs
  exact hs.buffered.imp fun _ hp => hp.1

theorem buffer (h : m.Balanced) (hopen : 0 < m.scopes.length) (w : Write) : (m.next (.buffer w)).Balanced := by
  obtain ⟨p, hp⟩ := h.buffered hopen
  rw [next, buffer_eq hp]
  exact ⟨h.sound.write hp m.store.sequences [w], h.counted⟩

theorem leave (h : m.Balanced) {scope : Scope} {rest : List Scope} (hscopes : m.scopes = scope :: rest)
    (success : Bool) : (m.next (.leave success)).Balanced := by
  have hs : Sound (scope :: rest) m.store := hscopes ▸ h.sound
  rw [next_leave hscopes]
  refine ⟨hs.leave success, ?_⟩
  rw [closeScope_settles, h.counted, hs.nested.1]

theorem next (h : m.Balanced) {move : Move} (hmove : move.level? m.scopes.length = some depth) :
    (m.next move).Balanced ∧ (m.next move).scopes.length = depth := by
  cases move with
  | enter =>
    cases hmove
    exact ⟨h.enter, rfl⟩
  | assign t e =>
    cases hmove
    exact ⟨h.assign t e, rfl⟩
  | buffer w =>
    obtain ⟨hopen, rfl⟩ := Move.level?_buffer.1 hmove
    exact ⟨h.buffer hopen w, rfl⟩
  | leave success =>
    obtain ⟨scope, rest, hscopes⟩ := List.exists_cons_of_length_eq_add_one (Move.level?_leave.1 hmove)
    refine ⟨h.leave hscopes success, ?_⟩
    rw [next_leave hscopes]
    rw [hscopes] at hmove
    exact Option.some.inj hmove

theorem after (h : m.Balanced) {moves : List Move} (hmoves : moves.foldlM Move.level? m.scopes.length = some depth) :
    (m.after moves).Balanced ∧ (m.after moves).scopes.length = depth := by
  induction moves generalizing m with
  | nil => exact ⟨h, Option.some.inj hmoves⟩
  | cons move rest ih =>
    rw [List.foldlM_cons] at hmoves
    obtain ⟨_, hmove, hrest⟩ := Option.bind_eq_some_iff.1 hmoves
    obtain ⟨hnext, rfl⟩ := h.next hmove
    exact ih hnext hrest

end Moment.Balanced

/-- Whatever is run on a store, and however its units of work end, at every moment from one move to the next the
depth is the number of open scopes, of which only the first that was opened is outermost, and there is a buffer of
writes if and only if the depth is positive. So a write is only buffered where there is a buffer, and no scope is left
at depth 0. As many transactions have been committed or rolled back as outermost scopes were closed. -/
theorem scopes_of_run {α : Type} (types : List EntityType) (w : Work α) :
    let start : Moment := { store := { types := Catalog.ofTypes types } }
    (start.after (w.moves start.store)).store = (w.run start.store).2 ∧
    ∀ past rest, w.moves start.store = past ++ rest →
      let m := start.after past
      m.store.depth = m.scopes.length ∧
      (∀ inner scope outer, m.scopes = inner ++ scope :: outer → (scope.outermost = true ↔ outer = [])) ∧
      (m.store.pending.isSome = true ↔ 0 < m.store.depth) ∧
      (∀ write, rest.head? = some (.buffer write) → m.store.pending.isSome = true) ∧
      (∀ success, rest.head? = some (.leave success) → 0 < m.store.depth) ∧
      m.store.commits + m.store.rollbacks = m.closed := by
  intro start
  refine ⟨(w.leads start).store, fun past rest hmoves => ?_⟩
  intro m
  have hlevels := Move.levels_work w start.store 0
  rw [hmoves, List.foldlM_append] at hlevels
  obtain ⟨depth, hpast, hrest⟩ := Option.bind_eq_some_iff.1 hlevels
  have hstart : start.Balanced := ⟨.start types, rfl⟩
  obtain ⟨hm, hdepth⟩ := hstart.after hpast
  have hpending : m.store.pending.isSome = true ↔ 0 < m.store.depth := by
    rw [hm.sound.pending, inTransaction, decide_eq_true_iff]
  have hnext : ∀ move, rest.head? = some move → ∃ depth', move.level? m.store.depth = some depth' := by
    intro move hhead
    obtain ⟨moves, rfl⟩ := List.head?_eq_some_iff.1 hhead
    rw [List.foldlM_cons] at hrest
    obtain ⟨depth', hmove, -⟩ := Option.bind_eq_some_iff.1 hrest
    exact ⟨depth', by rw [hm.sound.depth, hdepth, hmove]⟩
  refine ⟨hm.sound.depth, fun inner scope outer hscopes => ?_, hpending, fun write hhead => ?_,
    fun success hhead => ?_, hm.counted⟩
  · exact (hscopes ▸ hm.sound.nested).outermost_iff
  · obtain ⟨depth', hwrite⟩ := hnext _ hhead
    exact hpending.2 (Move.level?_buffer.1 hwrite).1
  · obtain ⟨depth', hleave⟩ := hnext _ hhead
    rw [Move.level?_leave.1 hleave]
    exact Nat.succ_pos _

/-- A user is created in a unit of work that panics, inside another one that goes on. -/
theorem panic_inside_rolls_back :
    let user := EntityType.new "User"
    let ann : Entity := ⟨"User", [("id", .nil)]⟩
    let panics : Work Unit := .perform "User" (.create ann) fun _ => .done (.error .panic)
    let w : Work Unit := .exec (.exec panics fun _ => .done (.ok ())) fun _ => .done (.ok ())
    let start : Moment := { store := { types := Catalog.ofTypes [user] } }
    let past : List Move := [.enter, .enter, .enter, .assign user ann]
    let put : Move := .buffer (.put "User" (.int 1) ⟨"User", [("id", .integer 1)]⟩)
    w.moves start.store = past ++ put :: [.leave true, .leave false, .leave true] ∧
      (start.after past).scopes = [⟨false⟩, ⟨false⟩, ⟨true⟩] ∧ (start.after past).store.depth = 3 ∧
      (start.after past).store.pending.isSome = true ∧
      (w.run start.store).2.commits + (w.run start.store).2.rollbacks = 1 := by
  intro user ann panics w start past put
  have hmoves : w.moves start.store = past ++ put :: [.leave true, .leave false, .leave true] := by
    -- The run is evaluated as a closed term.
    revert user
    rfl
  have hscopes : (start.after past).scopes = [⟨false⟩, ⟨false⟩, ⟨true⟩] := rfl
  obtain ⟨hrun, hmoments⟩ := scopes_of_run [user] w
  obtain ⟨hdepth, -, -, hbuffered, -, -⟩ := hmoments past _ hmoves
  obtain ⟨-, -, -, -, -, hcounted⟩ := hmoments _ [] (List.append_nil _).symm
  refine ⟨hmoves, hscopes, ?_, hbuffered _ rfl, ?_⟩
  · rw [hdepth, hscopes]
    rfl
  · rw [← hrun, hcounted, hmoves]
    rfl

end Fixtures
