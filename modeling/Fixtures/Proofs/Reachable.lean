import Fixtures.Proofs.Steps
/-!
# Reachable states

`Reachable scopes s` says that a store can get into `s` while `scopes` are
open, innermost first: by operations, by entering units of work and by leaving
the innermost one, with or without success. What holds in all of these states
is `Sound`.
-/

namespace Fixtures

open Store

/-- The states a store gets into, with the scopes that are open then, innermost first. -/
inductive Reachable : List Scope → Store → Prop where
  | start (types : List EntityType) : Reachable [] { types := Catalog.ofTypes types }
  | note {scopes : List Scope} {s : Store} (h : Reachable scopes s) (e : Event) : Reachable scopes (s.note e)
  | perform {scopes : List Scope} {s : Store} {α : Type} (h : Reachable scopes s) (typeName : String)
      (op : Operation α) : Reachable scopes (s.perform typeName op).2
  | enter {scopes : List Scope} {s : Store} (h : Reachable scopes s) :
      Reachable (s.openScope.1 :: scopes) s.openScope.2
  | leave {scope : Scope} {scopes : List Scope} {s : Store} (h : Reachable (scope :: scopes) s) (success : Bool) :
      Reachable scopes (s.closeScope scope success).2

/-- Steps from a reachable state stay reachable, with the same scopes open. -/
theorem Steps.reachable {s s' : Store} {acts : List Act} (hs : Steps s acts s') {scopes : List Scope}
    (h : Reachable scopes s) : Reachable scopes s' := by
  induction hs generalizing scopes with
  | refl s => exact h
  | note s e => exact h.note e
  | perform s typeName op => exact h.perform typeName op
  | exec success hs ih => exact (ih h.enter).leave success
  | trans hs hs' ih ih' => exact ih' (ih h)

/-- Only the last scope is outermost. -/
def Nested : List Scope → Prop
  | [] => True
  | scope :: rest => scope.outermost = rest.isEmpty ∧ Nested rest

/-- What holds in every state with the given scopes open. -/
structure Sound (scopes : List Scope) (s : Store) : Prop where
  depth : s.depth = scopes.length
  nested : Nested scopes
  pending : s.pending.isSome = s.inTransaction
  coherent : ∀ p, s.pending = some p → p.Coherent
  sorted : s.tables.Sorted
  named : ∀ name t, s.types.get? name = some t → t.name = name

theorem Catalog.named_register {c : Catalog} (h : ∀ name t, c.get? name = some t → t.name = name) (u : EntityType) :
    ∀ name t, (c.register u).get? name = some t → t.name = name := by
  intro name t ht
  rw [Catalog.register, Dict.get?_insert] at ht
  split at ht
  · rename_i hn
    cases ht
    exact (Std.LawfulEqOrd.eq_of_compare hn).symm
  · exact h name t ht

theorem Catalog.named_ofTypes (types : List EntityType) :
    ∀ name t, (Catalog.ofTypes types).get? name = some t → t.name = name := by
  have key : ∀ c : Catalog, (∀ name t, c.get? name = some t → t.name = name) →
      ∀ name t, (types.foldl Catalog.register c).get? name = some t → t.name = name := by
    induction types with
    | nil => exact fun c hc => hc
    | cons u types ih => exact fun c hc => ih (c.register u) (named_register hc u)
  exact key [] fun _ _ h => nomatch h

namespace Sound

variable {scopes : List Scope} {scope : Scope} {s : Store}

theorem start (types : List EntityType) : Sound [] { types := Catalog.ofTypes types } where
  depth := rfl
  nested := trivial
  pending := rfl
  coherent := fun _ h => by cases h
  sorted := Tables.sorted_empty
  named := Catalog.named_ofTypes types

theorem note (h : Sound scopes s) (e : Event) : Sound scopes (s.note e) :=
  ⟨h.depth, h.nested, h.pending, h.coherent, h.sorted, h.named⟩

theorem inTransaction_iff (h : Sound scopes s) : s.inTransaction = !scopes.isEmpty := by
  rw [inTransaction, h.depth]
  cases scopes <;> rfl

/-- A transaction is open exactly if there is a buffer of writes. -/
theorem buffered (h : Sound (scope :: scopes) s) : ∃ p, s.pending = some p ∧ p.Coherent := by
  have hp := h.pending
  rw [h.inTransaction_iff] at hp
  obtain ⟨p, hp⟩ := Option.isSome_iff_exists.1 hp
  exact ⟨p, hp, h.coherent p hp⟩

theorem unbuffered (h : Sound [] s) : s.pending = none := by
  have hp := h.pending
  rw [h.inTransaction_iff] at hp
  exact Option.isNone_iff_eq_none.1 (by rw [← Option.not_isSome, hp]; rfl)

theorem enter (h : Sound scopes s) : Sound (s.openScope.1 :: scopes) s.openScope.2 := by
  cases scopes with
  | nil =>
    rw [openScope_outside h.depth]
    refine ⟨rfl, ⟨rfl, trivial⟩, rfl, ?_, h.sorted, h.named⟩
    rintro _ ⟨⟩
    exact Pending.coherent_empty
  | cons scope scopes =>
    have hd : 0 < s.depth := by rw [h.depth]; exact Nat.succ_pos _
    rw [openScope_inside hd]
    refine ⟨congrArg (· + 1) h.depth, ⟨rfl, h.nested⟩, ?_, h.coherent, h.sorted, h.named⟩
    show s.pending.isSome = decide (0 < s.depth + 1)
    rw [h.pending, inTransaction, decide_eq_true hd, decide_eq_true (Nat.succ_pos _)]

theorem leave (h : Sound (scope :: scopes) s) (success : Bool) : Sound scopes (s.closeScope scope success).2 := by
  have hd : s.depth - 1 = scopes.length := by rw [h.depth]; rfl
  obtain ⟨hout, hn⟩ := h.nested
  obtain ⟨p, hp, hc⟩ := h.buffered
  cases scopes with
  | nil =>
    obtain rfl : scope = ⟨true⟩ := congrArg Scope.mk hout
    by_cases hf : success = false ∨ s.rollbackOnly = true
    · rw [closeScope_rollback hf]
      exact ⟨hd, hn, by simp [inTransaction, hd], fun _ h => (nomatch h), h.sorted, h.named⟩
    · simp only [not_or, Bool.not_eq_false, Bool.not_eq_true] at hf
      rw [hf.1, closeScope_commit hf.2]
      exact ⟨hd, hn, by simp [inTransaction, hd], fun _ h => (nomatch h), h.sorted.replay _, h.named⟩
  | cons scope' scopes =>
    obtain rfl : scope = ⟨false⟩ := congrArg Scope.mk hout
    rw [closeScope_inside]
    refine ⟨hd, hn, ?_, h.coherent, h.sorted, h.named⟩
    show s.pending.isSome = decide (0 < s.depth - 1)
    rw [hp, hd]
    rfl

/-- Handing out identifiers and buffering writes. -/
theorem write (h : Sound scopes s) {p : Pending} (hp : s.pending = some p) (q : Dict String Int64) (ws : List Write) :
    Sound scopes { s with sequences := q, pending := some (p.addAll ws) } where
  depth := h.depth
  nested := h.nested
  pending := by
    have := h.pending
    rw [hp] at this
    exact this
  coherent := by
    rintro _ ⟨⟩
    exact (h.coherent p hp).addAll ws
  sorted := h.sorted
  named := h.named

theorem perform {α : Type} (h : Sound scopes s) (typeName : String) (op : Operation α) :
    Sound scopes (s.perform typeName op).2 := by
  rcases s.perform_cases typeName op with ⟨f, hs, -⟩ | ⟨t, work, -, hw, hs, -⟩
  · rw [hs]
    exact h
  · obtain ⟨p, hp, -⟩ := h.enter.buffered
    obtain ⟨q, hq⟩ := work_effect hw hp
    rw [hs, exec_snd]
    refine leave ?_ _
    rw [hq]
    exact h.enter.write hp q _

end Sound

theorem Reachable.sound {scopes : List Scope} {s : Store} (h : Reachable scopes s) : Sound scopes s := by
  induction h with
  | start types => exact .start types
  | note _ e ih => exact ih.note e
  | perform _ typeName op ih => exact ih.perform typeName op
  | enter _ ih => exact ih.enter
  | leave _ success ih => exact ih.leave success

end Fixtures
