import Fixtures.Proofs.Visible
/-!
# Work inside any transaction

A transaction may call the closure it is given any number of times, and end with
any result. The work behind the closure runs at most once all the same, and what
is returned depends on the result of the transaction and on how that one run
ended (`Settled`). Runs are seen in a record that the work keeps beside the
state, where no transaction can reach it.
-/

namespace Fixtures

variable {σ τ β α : Type}

/-! ## A record beside the state -/

/-- The conduct over a state with something beside it that it neither sees nor changes. -/
def Conduct.beside : Conduct σ → β → Conduct (σ × β)
  | .finish result s, b => .finish result (s, b)
  | .run s next, b => .run (s, b) fun r sb => (next r sb.1).beside sb.2

/-- The work with a record of how its runs ended. -/
def recorded (work : σ → Except Failure α × σ) (sr : σ × List (Except Failure α)) :
    Except Failure α × (σ × List (Except Failure α)) :=
  let (r, s) := work sr.1
  (r, (s, sr.2 ++ [r]))

/-- What is seen of a transaction that was given work to run. -/
structure Observation (σ α : Type) where
  /-- What the transaction returned. -/
  result : Except Failure Unit
  /-- How the runs of the work ended, in order. -/
  runs : List (Except Failure α)
  /-- The state it left. -/
  state : σ

/-- Observe a transaction that is given the closure for some work. -/
def observe (transaction : Transaction σ) (work : σ → Except Failure α × σ) (s : σ) : Observation σ α :=
  let (result, _, s, runs) := ((transaction s).beside []).perform (Slot.call (recorded work)) .waiting
  ⟨result, runs, s⟩

/-- What is known of the work agrees with the record of its runs. -/
def Slot.Records : Slot α → List (Except Failure α) → Prop
  | waiting, runs => runs = []
  | failed, runs => ∃ f, runs = [.error f]
  | returned a, runs => runs = [.ok a]

/-- A call of the closure does the same with a record, and keeps the record right. -/
theorem Slot.call_recorded (work : σ → Except Failure α × σ) {slot : Slot α} {runs : List (Except Failure α)}
    (h : slot.Records runs) (s : σ) : ∃ r slot' s' runs', slot'.Records runs' ∧
      Slot.call (recorded work) slot (s, runs) = (r, slot', (s', runs')) ∧ Slot.call work slot s = (r, slot', s') := by
  cases slot with
  | waiting =>
    obtain rfl : runs = [] := h
    rcases hw : work s with ⟨f | a, s'⟩
    · exact ⟨.error f, .failed, s', [.error f], ⟨f, rfl⟩, by simp [call, recorded, hw], by simp [call, hw]⟩
    · exact ⟨.ok (), .returned a, s', [.ok a], rfl, by simp [call, recorded, hw], by simp [call, hw]⟩
  | failed => exact ⟨.ok (), .failed, s, runs, h, rfl, rfl⟩
  | returned a => exact ⟨.ok (), .returned a, s, runs, h, rfl, rfl⟩

/-- So does everything that a transaction makes of calls. -/
theorem Conduct.perform_recorded (work : σ → Except Failure α × σ) (c : Conduct σ) {slot : Slot α}
    {runs : List (Except Failure α)} (h : slot.Records runs) : ∃ result slot' s' runs', slot'.Records runs' ∧
      (c.beside runs).perform (Slot.call (recorded work)) slot = (result, slot', (s', runs')) ∧
      c.perform (Slot.call work) slot = (result, slot', s') := by
  induction c generalizing slot runs with
  | finish result s => exact ⟨result, slot, s, runs, h, rfl, rfl⟩
  | run s next ih =>
    obtain ⟨r, slot', s', runs', h', hrecorded, hplain⟩ := Slot.call_recorded work h s
    obtain ⟨result, slot'', s'', runs'', h'', hbeside, hperform⟩ := ih r s' h'
    refine ⟨result, slot'', s'', runs'', h'', ?_, ?_⟩
    · rw [beside, perform, hrecorded]
      exact hbeside
    · rw [perform, hplain]
      exact hperform

/-! ## Ways to go -/

/-- One way for a transaction to go until it ends: it changes the state as it likes and calls its closure, again and
again, and ends with any result. Nothing is said of what it would do on other answers of the closure, and so not
that it would end. -/
inductive Course (call : τ → σ × β → Except Failure Unit × τ × (σ × β)) : τ → β → Except Failure Unit → τ → β → σ → Prop
  | finish (t : τ) (b : β) (result : Except Failure Unit) (s : σ) : Course call t b result t b s
  | run {t t' t'' : τ} {b b' b'' : β} {s s' s'' : σ} {r result : Except Failure Unit}
    (h : call t (s, b) = (r, t', (s', b'))) (rest : Course call t' b' result t'' b'' s'') :
    Course call t b result t'' b'' s''

/-- Whichever way a transaction goes, one that would always end can go. -/
theorem Course.conduct {call : τ → σ × β → Except Failure Unit × τ × (σ × β)} {t t' : τ} {b b' : β}
    {result : Except Failure Unit} {s : σ} (h : Course call t b result t' b' s) :
    ∃ c : Conduct σ, (c.beside b).perform call t = (result, t', (s, b')) := by
  induction h with
  | finish t b result s => exact ⟨.finish result s, rfl⟩
  | @run _ _ _ _ _ _ s _ _ _ _ h _ ih =>
    obtain ⟨c, hc⟩ := ih
    refine ⟨.run s fun _ _ => c, ?_⟩
    rw [Conduct.beside, Conduct.perform, h]
    exact hc

/-! ## What is returned -/

/-- What is returned, and the state left, follow from what is seen of the transaction. -/
structure Settled (o : Observation σ α) (returned : Except Failure α × σ) : Prop where
  state : returned.2 = o.state
  /-- The work runs at most once. -/
  once : o.runs.length ≤ 1
  /-- A transaction that fails has its failure returned. -/
  failed : ∀ f, o.result = .error f → returned.1 = .error f
  /-- A value is returned exactly if the transaction succeeded and its work ran and returned this value. -/
  value : ∀ a, returned.1 = .ok a ↔ o.result = .ok () ∧ o.runs = [.ok a]
  /-- Success of a transaction whose work did not run, or failed, is refused. -/
  withheld : o.result = .ok () → (o.runs = [] ∨ ∃ f, o.runs = [.error f]) → Fails returned.1 .invalidState

theorem Slot.Records.length_le {slot : Slot α} {runs : List (Except Failure α)} (h : slot.Records runs) :
    runs.length ≤ 1 := by
  cases slot with
  | waiting => exact h ▸ Nat.zero_le 1
  | failed =>
    obtain ⟨f, rfl⟩ := h
    exact Nat.le_refl 1
  | returned a => exact h ▸ Nat.le_refl 1

/-- What is returned when the transaction has ended, given what is known of the work by then. -/
theorem Slot.Records.settled {transaction : Transaction σ} {work : σ → Except Failure α × σ} {s s' : σ}
    {result : Except Failure Unit} {slot : Slot α} {runs : List (Except Failure α)} (h : slot.Records runs)
    (hperform : (transaction s).perform (Slot.call work) .waiting = (result, slot, s')) :
    Settled ⟨result, runs, s'⟩ (runIn transaction work s) := by
  have honce := h.length_le
  rw [runIn, hperform]
  cases result with
  | error f => exact ⟨rfl, honce, fun _ hf => Except.error.inj hf ▸ rfl, fun a => by simp, fun hok => by cases hok⟩
  | ok u =>
    -- The transaction has succeeded: the value of the work is there, or there is none.
    cases slot with
    | waiting =>
      obtain rfl : runs = [] := h
      exact ⟨rfl, honce, fun _ hf => (by cases hf), fun a => by simp, fun _ _ => ⟨_, rfl, rfl⟩⟩
    | failed =>
      obtain ⟨f, rfl⟩ := h
      exact ⟨rfl, honce, fun _ hf => (by cases hf), fun a => by simp, fun _ _ => ⟨_, rfl, rfl⟩⟩
    | returned a =>
      obtain rfl : runs = [.ok a] := h
      exact ⟨rfl, honce, fun _ hf => (by cases hf), fun b => by simp, by simp⟩

/-- Work runs at most once, whatever the transaction does, and a value is returned only if the transaction succeeded
and the work returned it. Every way a transaction can go that ends is among those observed here. -/
theorem work_runs_at_most_once (work : σ → Except Failure α × σ) :
    (∀ (transaction : Transaction σ) (s : σ), Settled (observe transaction work s) (runIn transaction work s)) ∧
    ∀ result slot runs s, Course (Slot.call (recorded work)) .waiting [] result slot runs s →
      ∃ transaction : Transaction σ, ∀ s₀, observe transaction work s₀ = ⟨result, runs, s⟩ := by
  refine ⟨fun transaction s => ?_, fun result slot runs s h => ?_⟩
  · obtain ⟨result, slot, s', runs, hslot, hrecorded, hperform⟩ :=
      (transaction s).perform_recorded work (show (Slot.waiting : Slot α).Records [] from rfl)
    have hseen : observe transaction work s = ⟨result, runs, s'⟩ := by rw [observe, hrecorded]
    rw [hseen]
    exact hslot.settled hperform
  · obtain ⟨c, hc⟩ := h.conduct
    exact ⟨fun _ => c, fun s₀ => by rw [observe, hc]⟩

/-- Work that failed is not run again by a transaction that tries once more, so no value is returned. -/
theorem retried_failure_withheld :
    let retrying : Transaction Unit := fun s => .run s fun _ s => .run s fun r s => .finish r s
    let work : Unit → Except Failure Nat × Unit := fun s => (.error .rolledBack, s)
    observe retrying work () = ⟨.ok (), [.error .rolledBack], ()⟩ ∧
      Fails (runIn retrying work ()).1 .invalidState := by
  intro retrying work
  have hseen : observe retrying work () = ⟨.ok (), [.error .rolledBack], ()⟩ := rfl
  have hsettled := (work_runs_at_most_once work).1 retrying ()
  rw [hseen] at hsettled
  exact ⟨hseen, hsettled.withheld rfl (.inr ⟨_, rfl⟩)⟩

end Fixtures
