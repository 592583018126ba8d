import Fixtures.Proofs.Likeness
/-!
# Interleavings

Requests to the entities of different types go through one buffer, one doom and
one set of counters. All the same they do not interfere: two series of requests
that name different types get the answers each would get alone, however they
are interleaved. What ties the three runs together is `Apportioned`: a type is
in the interleaved run as it is in the run of the series that names it.
-/

namespace Fixtures

open Store

/-- What can be asked of the entities of a type. -/
inductive Demand where
  | create (e : Entity)
  | find (id : Value)
  | findAll
  | update (e : Entity)
  | delete (e : Entity)
  | createAll (es : List Entity)
  | findByIds (ids : List Value)

namespace Demand

/-- What a demand is answered with, unless it fails. -/
def Answer : Demand → Type
  | create _ | update _ | delete _ => Entity
  | find _ => Option Entity
  | findAll | createAll _ | findByIds _ => List Entity

def run (t : EntityType) : (d : Demand) → Store → Except Failure d.Answer × Store
  | create e => Store.create t e
  | find id => Store.findById t id
  | findAll => Store.findAll t
  | update e => Store.update t e
  | delete e => Store.delete t e
  | createAll es => Store.createAll t es
  | findByIds ids => Store.findByIds t ids

end Demand

/-- A demand, with the name of the type it is made to. -/
structure Request where
  typeName : String
  demand : Demand

/-- What was answered to a request. -/
structure Reply where
  request : Request
  result : Except Failure request.demand.Answer

/-- Meet a demand by the type of the name, if there is one. -/
def Request.run (q : Request) (s : Store) : Except Failure q.demand.Answer × Store :=
  match s.access q.typeName with
  | .error f => (.error f, s)
  | .ok t => q.demand.run t s

namespace Store

/-- Answer requests one after the other, whatever becomes of each. -/
def serve : List Request → Store → List Reply × Store
  | [], s => ([], s)
  | q :: rest, s =>
    let (r, s) := q.run s
    let (replies, s) := serve rest s
    (⟨q, r⟩ :: replies, s)

/-- Answer requests in one unit of work, which succeeds whatever becomes of them. -/
def attempt (requests : List Request) (s : Store) : (Except Failure Unit × List Reply) × Store :=
  s.exec fun s =>
    let (replies, s) := serve requests s
    ((.ok (), replies), s)

end Store

/-- The third list is made of the other two, each in its own order. -/
inductive Interleaves {α : Type} : List α → List α → List α → Prop where
  | nil : Interleaves [] [] []
  | left {as bs cs : List α} (a : α) (h : Interleaves as bs cs) : Interleaves (a :: as) bs (a :: cs)
  | right {as bs cs : List α} (b : α) (h : Interleaves as bs cs) : Interleaves as (b :: bs) (b :: cs)

/-- The stores have the same in their tables and in sight, and handed out the same numbers. -/
structure SameContents (s s' : Store) : Prop where
  tables : ∀ name, s'.tables.table name = s.tables.table name
  seen : ∀ name, s'.visible.table name = s.visible.table name
  sequence : ∀ name, s'.sequence name = s.sequence name

/-! ## Requests are confined to their type -/

section Confined

variable {α β γ : Type} {name : String} {work : Store → Except Failure α × Store}
  {rest : Store → Except Failure β × Store}

/-- Work that goes on to more work, up to the first failure. -/
def Store.andThen (work : Store → Except Failure α × Store) (rest : Store → Except Failure β × Store)
    (join : α → β → γ) (s : Store) : Except Failure γ × Store :=
  match work s with
  | (.error f, s) => (.error f, s)
  | (.ok a, s) =>
    match rest s with
    | (.error f, s) => (.error f, s)
    | (.ok b, s) => (.ok (join a b), s)

theorem Store.andThen_eq (work : Store → Except Failure α × Store) (rest : Store → Except Failure β × Store)
    (join : α → β → γ) (s : Store) :
    andThen work rest join s =
      match (work s).1 with
      | .error f => (.error f, (work s).2)
      | .ok a => ((rest (work s).2).1.map (join a), (rest (work s).2).2) := by
  unfold andThen
  rcases work s with ⟨f | a, s₁⟩
  · rfl
  · dsimp only
    rcases rest s₁ with ⟨f | b, s₂⟩ <;> rfl

theorem Store.createAll_cons (t : EntityType) (e : Entity) (rest : List Entity) :
    createAll t (e :: rest) = andThen (create t e) (createAll t rest) (· :: ·) := by
  funext s
  rw [createAll, andThen]
  rcases create t e s with ⟨f | e', s₁⟩
  · rfl
  · dsimp only
    rcases createAll t rest s₁ with ⟨f | es, s₂⟩ <;> rfl

theorem Store.findByIds_cons (t : EntityType) (id : Value) (rest : List Value) :
    findByIds t (id :: rest) = andThen (findById t id) (findByIds t rest) fun found es => found.toList ++ es := by
  funext s
  rw [findByIds, andThen]
  rcases findById t id s with ⟨f | found, s₁⟩
  · rfl
  · dsimp only
    rcases findByIds t rest s₁ with ⟨f | es, s₂⟩ <;> rfl

theorem Confined.andThen (h : Confined name work) (hr : Confined name rest) (join : α → β → γ) :
    Confined name (andThen work rest join) := by
  let next : Except Failure α → Store → Except Failure γ × Store
    | .error f => fun s => (.error f, s)
    | .ok a => fun s => ((rest s).1.map (join a), (rest s).2)
  have hnext (r : Except Failure α) : Confined name (next r) := by
    cases r with
    | error f => exact .pure name (.error f)
    | ok a => exact hr.bind fun r => .pure name (r.map (join a))
  have heq : Store.andThen work rest join = fun s => next (work s).1 (work s).2 := by
    funext s
    rw [andThen_eq]
    cases (work s).1 <;> rfl
  rw [heq]
  exact h.bind hnext

theorem confined_createAll (t : EntityType) (es : List Entity) : Confined t.name (createAll t es) := by
  induction es with
  | nil => exact .pure t.name (.ok [])
  | cons e rest ih =>
    rw [createAll_cons]
    exact ((Operation.create e).confined t).andThen ih _

theorem confined_findByIds (t : EntityType) (ids : List Value) : Confined t.name (findByIds t ids) := by
  induction ids with
  | nil => exact .pure t.name (.ok [])
  | cons id rest ih =>
    rw [findByIds_cons]
    exact ((Operation.find id).confined t).andThen ih _

theorem Demand.confined (t : EntityType) (d : Demand) : Confined t.name (d.run t) := by
  cases d with
  | create e => exact (Operation.create e).confined t
  | find id => exact (Operation.find id).confined t
  | findAll => exact Operation.findAll.confined t
  | update e => exact (Operation.update e).confined t
  | delete e => exact (Operation.delete e).confined t
  | createAll es => exact confined_createAll t es
  | findByIds ids => exact confined_findByIds t ids

theorem Request.confined (q : Request) : Confined q.typeName q.run := .access fun t ht => ht ▸ q.demand.confined t

end Confined

/-! ## Three runs side by side -/

/-- Stores in three runs: of two series of requests, and of both interleaved. The types that are `mine` are for the
interleaved run as the first run has them, the others as the second has them. It is doomed if one of the two is. -/
structure Apportioned (scopes : List Scope) (mine : String → Prop) (sa sb sc : Store) : Prop where
  soundLeft : Sound scopes sa
  soundRight : Sound scopes sb
  sound : Sound scopes sc
  left : ∀ name, mine name → Alike name sa sc
  right : ∀ name, ¬ mine name → Alike name sb sc
  doomed : scopes ≠ [] → sc.rollbackOnly = (sa.rollbackOnly || sb.rollbackOnly)

namespace Apportioned

variable {scopes : List Scope} {mine : String → Prop} {s sa sb sc sc' : Store}

theorem refl (h : Sound scopes s) (mine : String → Prop) : Apportioned scopes mine s s s :=
  ⟨h, h, h, fun name _ => .refl name s, fun name _ => .refl name s, fun _ => (Bool.or_self _).symm⟩

theorem symm (h : Apportioned scopes mine sa sb sc) : Apportioned scopes (fun name => ¬ mine name) sb sa sc where
  soundLeft := h.soundRight
  soundRight := h.soundLeft
  sound := h.sound
  left := h.right
  right name hn := h.left name (Classical.not_not.1 hn)
  doomed hs := (h.doomed hs).trans (Bool.or_comm _ _)

/-- A request to a type of the first series is answered as there, and leaves the stores apportioned. -/
theorem request (h : Apportioned scopes mine sa sb sc) (q : Request) (hq : mine q.typeName) :
    (q.run sc).1 = (q.run sa).1 ∧ Apportioned scopes mine (q.run sa).2 sb (q.run sc).2 := by
  have hc := q.confined
  have ha := h.left q.typeName hq
  refine ⟨hc.answer h.soundLeft h.sound ha, hc.sound h.soundLeft, h.soundRight, hc.sound h.sound, ?_, ?_, ?_⟩
  · intro name hn
    by_cases he : name = q.typeName
    · subst he
      exact hc.alike h.soundLeft h.sound ha
    · exact (hc.apart h.soundLeft he).symm.trans ((h.left name hn).trans (hc.apart h.sound he))
  · intro name hn
    have he : name ≠ q.typeName := fun he => hn (he ▸ hq)
    exact (h.right name hn).trans (hc.apart h.sound he)
  · intro hs
    cases scopes with
    | nil => exact absurd rfl hs
    | cons scope scopes =>
      obtain ⟨acts, hw, hw'⟩ := hc.acts h.soundLeft h.sound ha
      rw [hw.rollbackOnly, hw'.rollbackOnly, h.doomed hs]
      ac_rfl

/-- Interleaved requests are answered as in their own series, and leave the stores apportioned. -/
theorem serve {as bs cs : List Request} (hi : Interleaves as bs cs) (h : Apportioned scopes mine sa sb sc)
    (ha : ∀ a ∈ as, mine a.typeName) (hb : ∀ b ∈ bs, ¬ mine b.typeName) :
    Interleaves (Store.serve as sa).1 (Store.serve bs sb).1 (Store.serve cs sc).1 ∧
      Apportioned scopes mine (Store.serve as sa).2 (Store.serve bs sb).2 (Store.serve cs sc).2 := by
  induction hi generalizing sa sb sc with
  | nil => exact ⟨.nil, h⟩
  | left a hi ih =>
    obtain ⟨hr, hstep⟩ := h.request a (ha a List.mem_cons_self)
    obtain ⟨hrest, hend⟩ := ih hstep (fun q hq => ha q (List.mem_cons_of_mem _ hq)) hb
    refine ⟨?_, hend⟩
    simp only [Store.serve, hr]
    exact hrest.left _
  | right b hi ih =>
    obtain ⟨hr, hstep⟩ := h.symm.request b (hb b List.mem_cons_self)
    have hstep : Apportioned scopes mine sa (b.run sb).2 (b.run sc).2 := by
      simpa only [Classical.not_not] using hstep.symm
    obtain ⟨hrest, hend⟩ := ih hstep ha fun q hq => hb q (List.mem_cons_of_mem _ hq)
    refine ⟨?_, hend⟩
    simp only [Store.serve, hr]
    exact hrest.right _

/-- Two interleaved runs that are apportioned to the same series are alike in every type. -/
theorem alike (h : Apportioned scopes mine sa sb sc) (h' : Apportioned scopes mine sa sb sc') (name : String) :
    Alike name sc sc' := by
  by_cases hn : mine name
  · exact (h.left name hn).symm.trans (h'.left name hn)
  · exact (h.right name hn).symm.trans (h'.right name hn)

end Apportioned

/-! ## The end of a transaction -/

/-- Requests in a transaction change nothing that is committed. -/
theorem Store.serve_within {scope : Scope} {scopes : List Scope} {s : Store} (h : Sound (scope :: scopes) s)
    (requests : List Request) : ∃ acts, Within s acts (serve requests s).2 := by
  induction requests generalizing s with
  | nil =>
    obtain ⟨p, hp, -⟩ := h.buffered
    exact ⟨[], .idle hp rfl rfl⟩
  | cons q rest ih =>
    obtain ⟨as, hw, -⟩ := q.confined.acts h h (.refl _ s)
    obtain ⟨bs, hv⟩ := ih (q.confined.sound h)
    exact ⟨as ++ bs, hw.trans hv⟩

/-- Transactions that are alike in every type, with the same committed and both doomed or neither, end alike. -/
theorem Sound.leave_alike {scope : Scope} {scopes : List Scope} {s s' : Store} (h : Sound (scope :: scopes) s)
    (h' : Sound (scope :: scopes) s') (ha : ∀ name, Alike name s s') (ht : s'.tables = s.tables)
    (hd : s'.rollbackOnly = s.rollbackOnly) (success : Bool) :
    (s'.closeScope scope success).1 = (s.closeScope scope success).1 ∧
      SameContents (s.closeScope scope success).2 (s'.closeScope scope success).2 := by
  have hq (name : String) :
      (s'.closeScope scope success).2.sequence name = (s.closeScope scope success).2.sequence name := by
    rw [sequence_congr (closeScope_kept ..).2, sequence_congr (closeScope_kept ..).2, (ha name).sequence]
  by_cases hf : scopes = [] ∧ (success = false ∨ s.rollbackOnly = true)
  · obtain ⟨rfl, hf⟩ := hf
    obtain rfl : scope = ⟨true⟩ := congrArg Scope.mk h.nested.1
    rw [closeScope_rollback hf, closeScope_rollback (hd.symm ▸ hf)] at hq ⊢
    exact ⟨rfl, fun name => congrArg (Tables.table · name) ht, fun name => congrArg (Tables.table · name) ht, hq⟩
  · have hc : scopes = [] → success = true ∧ s.rollbackOnly = false := fun hs => by
      simpa only [hs, true_and, not_or, Bool.not_eq_false, Bool.not_eq_true] using hf
    obtain ⟨hr, hv⟩ := h.leave_kept success hc
    obtain ⟨hr', hv'⟩ := h'.leave_kept success (hd.symm ▸ hc)
    have hseen (name : String) : (s'.closeScope scope success).2.visible.table name =
        (s.closeScope scope success).2.visible.table name := by rw [hv, hv', (ha name).seen]
    refine ⟨by rw [hr, hr'], ?_, hseen, hq⟩
    cases scopes with
    | nil =>
      have hout (s : Store) (h : Sound [] s) : s.tables = s.visible := by rw [visible, h.unbuffered]
      intro name
      rw [hout _ (h.leave success), hout _ (h'.leave success)]
      exact hseen name
    | cons outer scopes =>
      obtain rfl : scope = ⟨false⟩ := congrArg Scope.mk h.nested.1
      intro name
      rw [closeScope_inside, closeScope_inside]
      exact congrArg (Tables.table · name) ht

/-- Whether a transaction is committed or rolled back depends on how it ends and whether it is doomed. -/
theorem Store.closeScope_counts {s s' : Store} (scope : Scope) (success : Bool)
    (hd : s'.rollbackOnly = s.rollbackOnly) (hc : s'.commits = s.commits) (hr : s'.rollbacks = s.rollbacks) :
    (s'.closeScope scope success).2.commits = (s.closeScope scope success).2.commits ∧
      (s'.closeScope scope success).2.rollbacks = (s.closeScope scope success).2.rollbacks ∧
      (s'.closeScope scope success).2.rollbackOnly = (s.closeScope scope success).2.rollbackOnly := by
  obtain ⟨outermost⟩ := scope
  cases outermost with
  | false =>
    rw [closeScope_inside, closeScope_inside]
    exact ⟨hc, hr, congrArg (· || !success) hd⟩
  | true =>
    by_cases hf : success = false ∨ s.rollbackOnly = true
    · rw [closeScope_rollback hf, closeScope_rollback (hd.symm ▸ hf)]
      exact ⟨hc, congrArg (· + 1) hr, hd⟩
    · simp only [not_or, Bool.not_eq_false, Bool.not_eq_true] at hf
      rw [hf.1, closeScope_commit hf.2, closeScope_commit (hd.trans hf.2)]
      exact ⟨congrArg (· + 1) hc, hr, hd⟩

/-- A unit of work that succeeds whatever is answered inside ends as its scope closes, with the answers beside. -/
theorem Store.attempt_eq (requests : List Request) (s : Store) :
    (s.attempt requests).1.1 = ((serve requests s.openScope.2).2.closeScope s.openScope.1 true).1 ∧
      (s.attempt requests).1.2 = (serve requests s.openScope.2).1 ∧
      (s.attempt requests).2 = ((serve requests s.openScope.2).2.closeScope s.openScope.1 true).2 := by
  unfold attempt
  rw [exec_fst, exec_snd]
  dsimp only [Ending.succeeded]
  cases ((serve requests s.openScope.2).2.closeScope s.openScope.1 true).1 <;> exact ⟨rfl, rfl, rfl⟩

/-- Outside a transaction the tables are what is in sight, and in one they are what they were when it began. -/
theorem Apportioned.sameContents {scopes : List Scope} {mine : String → Prop} {s sa sb sc sc' : Store}
    (h : Apportioned scopes mine sa sb sc) (h' : Apportioned scopes mine sa sb sc')
    (ht : scopes ≠ [] → sc.tables = s.tables ∧ sc'.tables = s.tables) : SameContents sc sc' where
  tables name := by
    cases scopes with
    | nil =>
      have hseen := (h.alike h' name).seen
      rwa [visible, visible, h.sound.unbuffered, h'.sound.unbuffered] at hseen
    | cons scope scopes =>
      obtain ⟨hc, hc'⟩ := ht (List.cons_ne_nil _ _)
      rw [hc, hc']
  seen name := (h.alike h' name).seen
  sequence name := (h.alike h' name).sequence

/-- Two series of requests that name different types do not interfere, however they are interleaved and whatever
fails: every request is answered as if its own series were served alone. Served one by one, any two interleavings
leave the same contents. In one unit of work they end it alike, commit or roll back alike, and doom alike a
transaction around it. -/
theorem types_do_not_interfere {scopes : List Scope} {s : Store} (h : Reachable scopes s) {as bs cs cs' : List Request}
    (disjoint : ∀ a ∈ as, ∀ b ∈ bs, a.typeName ≠ b.typeName) (hc : Interleaves as bs cs)
    (hc' : Interleaves as bs cs') :
    (Interleaves (s.serve as).1 (s.serve bs).1 (s.serve cs).1 ∧
      Interleaves (s.serve as).1 (s.serve bs).1 (s.serve cs').1 ∧
      SameContents (s.serve cs).2 (s.serve cs').2) ∧
    (Interleaves (s.attempt as).1.2 (s.attempt bs).1.2 (s.attempt cs).1.2 ∧
      Interleaves (s.attempt as).1.2 (s.attempt bs).1.2 (s.attempt cs').1.2 ∧
      (s.attempt cs').1.1 = (s.attempt cs).1.1 ∧ SameContents (s.attempt cs).2 (s.attempt cs').2 ∧
      (s.attempt cs').2.commits = (s.attempt cs).2.commits ∧
      (s.attempt cs').2.rollbacks = (s.attempt cs).2.rollbacks ∧
      (s.attempt cs').2.rollbackOnly = (s.attempt cs).2.rollbackOnly) := by
  -- The types of the first series; every other type may be given to the second.
  let mine (name : String) : Prop := ∃ a ∈ as, a.typeName = name
  have hmine (a : Request) (ha : a ∈ as) : mine a.typeName := ⟨a, ha, rfl⟩
  have hother (b : Request) (hb : b ∈ bs) : ¬ mine b.typeName := fun ⟨a, ha, he⟩ => disjoint a ha b hb he
  constructor
  · have hstart := Apportioned.refl h.sound mine
    obtain ⟨hr, hend⟩ := hstart.serve hc hmine hother
    obtain ⟨hr', hend'⟩ := hstart.serve hc' hmine hother
    refine ⟨hr, hr', hend.sameContents (s := s) hend' fun hs => ?_⟩
    cases scopes with
    | nil => exact absurd rfl hs
    | cons scope scopes =>
      obtain ⟨_, hw⟩ := serve_within h.sound cs
      obtain ⟨_, hw'⟩ := serve_within h.sound cs'
      exact ⟨hw.tables, hw'.tables⟩
  · have hstart := Apportioned.refl h.sound.enter mine
    obtain ⟨hr, hend⟩ := hstart.serve hc hmine hother
    obtain ⟨hr', hend'⟩ := hstart.serve hc' hmine hother
    obtain ⟨_, hw⟩ := serve_within h.sound.enter cs
    obtain ⟨_, hw'⟩ := serve_within h.sound.enter cs'
    have hdoomed := (hend'.doomed (List.cons_ne_nil _ _)).trans (hend.doomed (List.cons_ne_nil _ _)).symm
    obtain ⟨hres, hsame⟩ :=
      hend.sound.leave_alike hend'.sound (hend.alike hend') (hw'.tables.trans hw.tables.symm) hdoomed true
    obtain ⟨hfst, hsnd, hstate⟩ := s.attempt_eq cs
    obtain ⟨hfst', hsnd', hstate'⟩ := s.attempt_eq cs'
    have hcounts := closeScope_counts s.openScope.1 true hdoomed (hw'.commits.trans hw.commits.symm)
      (hw'.rollbacks.trans hw.rollbacks.symm)
    rw [(s.attempt_eq as).2.1, (s.attempt_eq bs).2.1, hfst, hfst', hsnd, hsnd', hstate, hstate']
    exact ⟨hr, hr', hres, hsame, hcounts⟩

/-- A user created twice and a note, one after the other or in turns: the second user is refused, so one unit of work
with all three is rolled back in either order, and without one the note and the first user stay. -/
theorem refused_user_spares_note :
    let user := EntityType.new "User"
    let note := EntityType.new "Note"
    let s : Store := { types := Catalog.ofTypes [user, note] }
    let addUser : Request := ⟨"User", .create ⟨"User", [("id", .integer 1)]⟩⟩
    let addNote : Request := ⟨"Note", .create ⟨"Note", [("id", .nil)]⟩⟩
    let inTurns := [addUser, addNote, addUser]
    let oneByOne := [addNote, addUser, addUser]
    Interleaves [addUser, addUser] [addNote] inTurns ∧ Interleaves [addUser, addUser] [addNote] oneByOne ∧
      (s.attempt inTurns).1.1 = .error .rolledBack ∧ (s.attempt oneByOne).1.1 = .error .rolledBack ∧
      (s.serve oneByOne).2.tables.table "Note" = [(.int 1, ⟨"Note", [("id", .integer 1)]⟩)] ∧
      SameContents (s.serve inTurns).2 (s.serve oneByOne).2 := by
  intro user note s addUser addNote inTurns oneByOne
  have hin : Interleaves [addUser, addUser] [addNote] inTurns := ((Interleaves.nil.left _).right _).left _
  have hone : Interleaves [addUser, addUser] [addNote] oneByOne := ((Interleaves.nil.left _).left _).right _
  have hdisjoint : ∀ a ∈ [addUser, addUser], ∀ b ∈ [addNote], a.typeName ≠ b.typeName := by
    unfold addUser addNote
    decide
  obtain ⟨⟨-, -, hsame⟩, -, -, hres, -⟩ := types_do_not_interfere (.start [user, note]) hdisjoint hin hone
  have hrolled : (s.attempt inTurns).1.1 = .error .rolledBack := by
    unfold s user note inTurns addUser addNote
    rfl
  refine ⟨hin, hone, hrolled, hres.trans hrolled, ?_, hsame⟩
  unfold s user note oneByOne addUser addNote
  rfl

end Fixtures
