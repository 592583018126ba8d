import Fixtures.Proofs.Steps
/-!
# All or nothing

An outermost unit of work either commits all writes made in it or changes no
table. It commits when it succeeds and every unit of work inside it did. The
lemmas on `closeScope` serve every way to run a unit of work; the theorem is
about trees of work on a store.
-/

namespace Fixtures

/-- The writes were committed, in one transaction. -/
structure Committed (s : Store) (ws : List Write) (s' : Store) : Prop where
  tables : s'.tables = s.tables.replay ws
  commits : s'.commits = s.commits + 1
  rollbacks : s'.rollbacks = s.rollbacks
  closed : s'.inTransaction = false

/-- A transaction was rolled back, and the tables are as they were. -/
structure RolledBack (s s' : Store) : Prop where
  tables : s'.tables = s.tables
  commits : s'.commits = s.commits
  rollbacks : s'.rollbacks = s.rollbacks + 1
  closed : s'.inTransaction = false

namespace Store

theorem inTransaction_eq_false {s : Store} : s.inTransaction = false ↔ s.depth = 0 := by
  simp [inTransaction]

variable {s s' : Store} {acts : List Act}

theorem within_opened (h : s.inTransaction = false) (hs : Steps s.openScope.2 acts s') :
    Within s.openScope.2 acts s' := by
  rw [openScope_outside (inTransaction_eq_false.1 h)] at hs ⊢
  exact hs.within Nat.one_pos rfl

/-- In a transaction that was just opened nothing is committed yet, and the buffer holds the writes. -/
theorem opened_eq (h : s.inTransaction = false) (hw : Within s.openScope.2 acts s') :
    s'.tables = s.tables ∧ s'.depth = 1 ∧ s'.commits = s.commits ∧ s'.rollbacks = s.rollbacks ∧
      s'.rollbackOnly = Act.anyFailed acts ∧ s'.pending = some (Pending.addAll {} (Act.writes acts)) := by
  rw [openScope_outside (inTransaction_eq_false.1 h)] at hw
  obtain ⟨p, hp, hp'⟩ := hw.pending
  obtain rfl : {} = p := Option.some.inj hp
  exact ⟨hw.tables, hw.depth, hw.commits, hw.rollbacks, hw.rollbackOnly.trans (Bool.false_or _), hp'⟩

theorem closeScope_committed (h : s.inTransaction = false) (hw : Within s.openScope.2 acts s')
    (hf : Act.anyFailed acts = false) :
    (s'.closeScope s.openScope.1 true).1 = .ok () ∧
      Committed s (Act.writes acts) (s'.closeScope s.openScope.1 true).2 := by
  obtain ⟨ht, hd, hc, hr, hb, hp⟩ := opened_eq h hw
  rw [openScope_outside (inTransaction_eq_false.1 h), closeScope_commit (hb.trans hf)]
  refine ⟨rfl, ?_, congrArg (· + 1) hc, hr, ?_⟩
  · show s'.tables.replay (s'.pending.getD {}).log = _
    rw [hp, ht, Option.getD_some, Pending.log_addAll]
    rfl
  · rw [inTransaction_eq_false]
    show s'.depth - 1 = 0
    rw [hd]

theorem closeScope_rolledBack (h : s.inTransaction = false) (hw : Within s.openScope.2 acts s') (success : Bool)
    (hf : success = false ∨ Act.anyFailed acts = true) :
    (s'.closeScope s.openScope.1 success).1 = (if success then .error .rolledBack else .ok ()) ∧
      RolledBack s (s'.closeScope s.openScope.1 success).2 := by
  obtain ⟨ht, hd, hc, hr, hb, -⟩ := opened_eq h hw
  rw [openScope_outside (inTransaction_eq_false.1 h), closeScope_rollback (hf.imp_right hb.trans)]
  refine ⟨rfl, ht, hc, congrArg (· + 1) hr, ?_⟩
  rw [inTransaction_eq_false]
  show s'.depth - 1 = 0
  rw [hd]

/-- One way or the other, an outermost unit of work is over when its scope closes. -/
theorem closeScope_outside (h : s.inTransaction = false) (hw : Within s.openScope.2 acts s') (success : Bool) :
    Committed s (Act.writes acts) (s'.closeScope s.openScope.1 success).2 ∨
      RolledBack s (s'.closeScope s.openScope.1 success).2 := by
  cases success with
  | false => exact .inr (closeScope_rolledBack h hw false (.inl rfl)).2
  | true =>
    cases hf : Act.anyFailed acts with
    | false => exact .inl (closeScope_committed h hw hf).2
    | true => exact .inr (closeScope_rolledBack h hw true (.inr hf)).2

end Store

open Store

/-- From one store to another, both outside of transactions, what was counted stays counted. -/
structure Onward (s s' : Store) : Prop where
  closed : s'.inTransaction = false
  commits : s.commits ≤ s'.commits
  rollbacks : s.rollbacks ≤ s'.rollbacks

theorem Committed.onward {s s' : Store} {ws : List Write} (h : Committed s ws s') : Onward s s' :=
  ⟨h.closed, h.commits ▸ Nat.le_succ _, Nat.le_of_eq h.rollbacks.symm⟩

theorem RolledBack.onward {s s' : Store} (h : RolledBack s s') : Onward s s' :=
  ⟨h.closed, Nat.le_of_eq h.commits.symm, h.rollbacks ▸ Nat.le_succ _⟩

theorem Onward.trans {s s' s'' : Store} (h : Onward s s') (h' : Onward s' s'') : Onward s s'' :=
  ⟨h'.closed, Nat.le_trans h.commits h'.commits, Nat.le_trans h.rollbacks h'.rollbacks⟩

/-- Steps outside of a transaction leave none open. -/
theorem Steps.onward {s s' : Store} {acts : List Act} (h : Steps s acts s') (hs : s.inTransaction = false) :
    Onward s s' := by
  induction h with
  | refl s => exact ⟨hs, Nat.le_refl _, Nat.le_refl _⟩
  | note s e => exact ⟨hs, Nat.le_refl _, Nat.le_refl _⟩
  | perform s typeName op =>
    rcases s.perform_cases typeName op with ⟨f, hsame, -⟩ | ⟨t, work, -, hw, hexec, -⟩
    · rw [hsame]
      exact ⟨hs, Nat.le_refl _, Nat.le_refl _⟩
    · have hp : s.openScope.2.pending = some {} := by rw [openScope_outside (inTransaction_eq_false.1 hs)]
      rw [hexec, exec_snd]
      exact (closeScope_outside hs (.work hw hp) _).elim Committed.onward RolledBack.onward
  | exec success hsteps =>
    exact (closeScope_outside hs (within_opened hs hsteps) success).elim Committed.onward RolledBack.onward
  | trans _ _ ih ih' => exact (ih hs).trans (ih' (ih hs).closed)

variable {α : Type}

/-- An outermost unit of work commits the writes made in it if it succeeds and no unit of work inside
it fails; else it changes no table and is rolled back. Only in the first case it returns a result.
Its own failure or panic is passed on, and a failure inside that it swallowed is a failure to persist.
That an earlier transaction was doomed does not matter. -/
theorem outermost_all_or_nothing (s : Store) (w : Work α) (h : s.inTransaction = false) :
    let opened := s.openScope.2
    let acts := w.acts opened
    ((w.run opened).2.tables = s.tables ∧
      ∃ p, (w.run opened).2.pending = some p ∧ p.log = Act.writes acts) ∧
    (∀ a, (w.run opened).1 = .ok a → Act.anyFailed acts = false →
      (s.exec w.run).1 = .ok a ∧ Committed s (Act.writes acts) (s.exec w.run).2) ∧
    (∀ a, (w.run opened).1 = .ok a → Act.anyFailed acts = true →
      (∃ f, (s.exec w.run).1 = .error (.failure f) ∧ f.kind = .persistence) ∧ RolledBack s (s.exec w.run).2) ∧
    (∀ i, (w.run opened).1 = .error i →
      (s.exec w.run).1 = .error i ∧ RolledBack s (s.exec w.run).2) ∧
    ∀ b, Store.exec w.run { s with rollbackOnly := b } = s.exec w.run := by
  intro opened acts
  have hw : Within s.openScope.2 acts (w.run opened).2 := within_opened h (w.steps opened)
  refine ⟨?_, ?_, ?_, ?_, ?_⟩
  · obtain ⟨ht, -, -, -, -, hp⟩ := opened_eq h hw
    exact ⟨ht, _, hp, Pending.log_addAll _ _⟩
  · intro a ha hf
    have hok : Ending.succeeded (w.run s.openScope.2).1 = true := by rw [ha]; rfl
    obtain ⟨hres, hstate⟩ := closeScope_committed h hw hf
    rw [exec_fst, exec_snd, hok, hres]
    exact ⟨ha, hstate⟩
  · intro a ha hf
    have hok : Ending.succeeded (w.run s.openScope.2).1 = true := by rw [ha]; rfl
    obtain ⟨hres, hstate⟩ := closeScope_rolledBack h hw true (.inr hf)
    rw [exec_fst, exec_snd, hok, hres]
    exact ⟨⟨.rolledBack, rfl, rfl⟩, hstate⟩
  · intro i hi
    have hok : Ending.succeeded (w.run s.openScope.2).1 = false := by rw [hi]; rfl
    obtain ⟨hres, hstate⟩ := closeScope_rolledBack h hw false (.inl rfl)
    rw [exec_fst, exec_snd, hok, hres]
    exact ⟨hi, hstate⟩
  · intro b
    have ho : Store.openScope { s with rollbackOnly := b } = s.openScope := by
      rw [openScope_outside (s := s) (inTransaction_eq_false.1 h),
        openScope_outside (s := { s with rollbackOnly := b }) (inTransaction_eq_false.1 h)]
    simp only [exec, ho]

/-- A panic caught around an inner unit of work dooms the outer one, and its writes are lost. -/
theorem caught_panic_rolls_back :
    let user := EntityType.new "User"
    let s : Store := { types := Catalog.ofTypes [user] }
    let inner : Work Unit :=
      .perform "User" (.create ⟨"User", [("id", .integer 1)]⟩) fun _ => .done (.error .panic)
    let w : Work Unit := .exec inner fun _ => .done (.ok ())
    s.inTransaction = false ∧ (Act.writes (w.acts s.openScope.2)).length = 1 ∧
      (∃ f, (s.exec w.run).1 = .error (.failure f) ∧ f.kind = .persistence) ∧ RolledBack s (s.exec w.run).2 := by
  intro user s inner w
  have hok : (w.run s.openScope.2).1 = .ok () := rfl
  have hdoomed : Act.anyFailed (w.acts s.openScope.2) = true := by
    unfold s w inner user
    rfl
  have hwrote : (Act.writes (w.acts s.openScope.2)).length = 1 := by
    unfold s w inner user
    rfl
  exact ⟨rfl, hwrote, (outermost_all_or_nothing s w rfl).2.2.1 () hok hdoomed⟩

end Fixtures
