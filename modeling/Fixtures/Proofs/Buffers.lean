import Fixtures.Proofs.Pending
import Mathlib.Data.List.Induction
/-!
# Buffers, however they came about

A buffer is written to and cleared in any order. What counts are the writes
since it was last cleared (`sinceClear`): they are its log, and the latest
write to an entity is the last of them. So the log may be replayed, or only the
latest writes carried out, in any order: the tables are the same.
-/

namespace Fixtures

/-! ## Histories -/

/-- What can be done to a buffer. -/
inductive BufferStep where
  | put (id : EntityId) (e : Entity)
  | delete (typeName : String) (id : EntityId)
  | clear

namespace BufferStep

/-- The buffer after a step. -/
def run (p : Pending) : BufferStep → Pending
  | put id e => p.put id e
  | delete typeName id => p.delete typeName id
  | clear => p.clear

/-- What becomes of a new buffer by steps in order. -/
def runAll (steps : List BufferStep) : Pending := steps.foldl run {}

/-- The write that a step buffers. -/
def write? : BufferStep → Option Write
  | put id e => some (.put e.typeName id e)
  | delete typeName id => some (.delete typeName id)
  | clear => none

/-- The writes after the last clear, in order. -/
def sinceClear (steps : List BufferStep) : List Write :=
  (steps.reverse.takeWhile fun step => step.write?.isSome).reverse.filterMap write?

theorem runAll_concat (steps : List BufferStep) (step : BufferStep) :
    runAll (steps ++ [step]) = step.run (runAll steps) := by
  rw [runAll, List.foldl_append]
  rfl

theorem sinceClear_clear (steps : List BufferStep) : sinceClear (steps ++ [clear]) = [] := by
  rw [sinceClear, List.reverse_concat]
  rfl

theorem sinceClear_write {step : BufferStep} {w : Write} (h : step.write? = some w) (steps : List BufferStep) :
    sinceClear (steps ++ [step]) = sinceClear steps ++ [w] := by
  rw [sinceClear, List.reverse_concat, List.takeWhile_cons, if_pos (by rw [h]; rfl), List.reverse_cons,
    List.filterMap_append, sinceClear, List.filterMap_cons, h]
  rfl

/-- A step adds its write or clears the buffer. -/
theorem run_cases (step : BufferStep) (p : Pending) :
    (∃ w, step.write? = some w ∧ step.run p = p.add w) ∨ step = clear ∧ step.run p = {} := by
  cases step with
  | put id e => exact .inl ⟨_, rfl, p.put_eq_add id e⟩
  | delete typeName id => exact .inl ⟨_, rfl, p.delete_eq_add typeName id⟩
  | clear => exact .inr ⟨rfl, rfl⟩

end BufferStep

/-! ## The latest writes of all types -/

/-- What leaves this under an identifier. -/
def Write.leaving (typeName : String) (id : EntityId) : Option Entity → Write
  | some e => .put typeName id e
  | none => .delete typeName id

/-- The latest write to each touched entity, of all types. -/
def Pending.cached (p : Pending) : List Write :=
  p.latest.flatMap fun (typeName, rows) => rows.map fun (id, e?) => .leaving typeName id e?

namespace Write

@[simp] theorem leaving_self (w : Write) : leaving w.typeName w.id w.entity? = w := by
  cases w <;> rfl

@[simp] theorem typeName_leaving (n : String) (id : EntityId) (e? : Option Entity) :
    (leaving n id e?).typeName = n := by
  cases e? <;> rfl

@[simp] theorem id_leaving (n : String) (id : EntityId) (e? : Option Entity) : (leaving n id e?).id = id := by
  cases e? <;> rfl

@[simp] theorem entity?_leaving (n : String) (id : EntityId) (e? : Option Entity) :
    (leaving n id e?).entity? = e? := by
  cases e? <;> rfl

/-- The last write to an entity is one of the log. -/
theorem mem_of_last {log : List Write} {n : String} {id : EntityId} {e? : Option Entity}
    (h : last log n id = some e?) : ∃ w ∈ log, w.typeName = n ∧ w.id = id ∧ w.entity? = e? := by
  obtain ⟨w, hw, hlast⟩ := List.exists_of_findSome?_eq_some h
  split at hlast
  · rename_i hkey
    exact ⟨w, List.mem_reverse.1 hw, hkey.1.symm, hkey.2.symm, Option.some.inj hlast⟩
  · cases hlast

theorem last_isSome_iff {log : List Write} {n : String} {id : EntityId} :
    (last log n id).isSome = true ↔ ∃ w ∈ log, w.typeName = n ∧ w.id = id := by
  constructor
  · intro h
    obtain ⟨e?, he⟩ := Option.isSome_iff_exists.1 h
    obtain ⟨w, hw, hn, hid, -⟩ := mem_of_last he
    exact ⟨w, hw, hn, hid⟩
  · rintro ⟨w, hw, rfl, rfl⟩
    refine List.findSome?_isSome_iff.2 ⟨w, List.mem_reverse.2 hw, ?_⟩
    rw [if_pos ⟨rfl, rfl⟩]
    rfl

/-- Where no two writes to an entity leave different things there, the last one is any of them. -/
theorem last_eq {log : List Write} {found : String → EntityId → Option (Option Entity)}
    (h : ∀ w, w ∈ log ↔ found w.typeName w.id = some w.entity?) (n : String) (id : EntityId) :
    last log n id = found n id := by
  cases hlast : last log n id with
  | some e? =>
    obtain ⟨w, hw, rfl, rfl, rfl⟩ := mem_of_last hlast
    exact ((h w).1 hw).symm
  | none =>
    cases hfound : found n id with
    | none => rfl
    | some e? =>
      have hw : leaving n id e? ∈ log := (h _).2 (by simpa using hfound)
      have hsome : (last log n id).isSome = true := last_isSome_iff.2 ⟨_, hw, by simp, by simp⟩
      rw [hlast] at hsome
      cases hsome

end Write

namespace Pending

/-- What every buffer satisfies: its two parts agree, and the latest writes are listed by type. -/
structure Kept (p : Pending) : Prop extends p.Coherent where
  byType : p.latest.Ascending

theorem Kept.empty : Kept {} := ⟨coherent_empty, List.Pairwise.nil⟩

theorem Kept.add {p : Pending} (h : p.Kept) (w : Write) : (p.add w).Kept :=
  ⟨h.toCoherent.add w, Dict.ascending_insert h.byType _ _⟩

theorem Kept.runAll (steps : List BufferStep) : (BufferStep.runAll steps).Kept := by
  induction steps using List.reverseRecOn with
  | nil => exact .empty
  | append_singleton steps step ih =>
    rw [BufferStep.runAll_concat]
    obtain ⟨w, -, hadd⟩ | ⟨-, hclear⟩ := step.run_cases (BufferStep.runAll steps)
    · rw [hadd]
      exact ih.add w
    · rw [hclear]
      exact .empty

theorem log_runAll (steps : List BufferStep) : (BufferStep.runAll steps).log = BufferStep.sinceClear steps := by
  induction steps using List.reverseRecOn with
  | nil => rfl
  | append_singleton steps step ih =>
    rw [BufferStep.runAll_concat]
    obtain ⟨w, hw, hadd⟩ | ⟨rfl, hclear⟩ := step.run_cases (BufferStep.runAll steps)
    · rw [hadd, BufferStep.sinceClear_write hw, ← ih]
      rfl
    · rw [hclear, BufferStep.sinceClear_clear]

variable {p : Pending}

theorem mem_touched (h : p.Coherent) {n : String} {id : EntityId} {e? : Option Entity} :
    (id, e?) ∈ p.touched n ↔ p.lookup n id = some e? := (h.ascending n).distinct.mem_iff id e?

theorem mem_cached (h : p.Kept) (w : Write) : w ∈ p.cached ↔ p.lookup w.typeName w.id = some w.entity? := by
  rw [← mem_touched h.toCoherent, cached, List.mem_flatMap]
  constructor
  · rintro ⟨⟨n, rows⟩, hq, hw⟩
    obtain ⟨⟨id, e?⟩, hr, rfl⟩ := List.mem_map.1 hw
    have hrows : p.touched n = rows := by
      rw [touched, (h.byType.distinct.mem_iff n rows).1 hq, Option.getD_some]
    simpa [hrows] using hr
  · intro hr
    cases hget : p.latest.get? w.typeName with
    | none => simp [touched, hget] at hr
    | some rows =>
      rw [touched, hget, Option.getD_some] at hr
      exact ⟨(w.typeName, rows), Dict.mem_of_get? hget, List.mem_map.2 ⟨_, hr, w.leaving_self⟩⟩

theorem mem_keys_touched (h : p.Coherent) {n : String} {id : EntityId} :
    id ∈ (p.touched n).keys ↔ ∃ w ∈ p.log, w.typeName = n ∧ w.id = id := by
  rw [Dict.mem_keys_iff, ← Write.last_isSome_iff, ← h.lookup]
  rfl

/-- Carrying out the latest writes in any order makes the tables that the log leaves. -/
theorem replay_cached (h : p.Kept) {t : Tables} (ht : t.Sorted) {rows : List Write} (hr : p.cached.Perm rows)
    (n : String) : (t.replay rows).table n = (t.replay p.log).table n := by
  have hrows : ∀ w, w ∈ rows ↔ p.lookup w.typeName w.id = some w.entity? := fun w =>
    hr.mem_iff.symm.trans (mem_cached h w)
  refine Dict.ext (ht.replay rows n) (ht.replay p.log n) fun id => ?_
  rw [← Tables.get_eq, ← Tables.get_eq, Tables.get_replay ht, Tables.get_replay ht, Write.last_eq hrows, h.lookup]

theorem cached_eq_nil (h : p.Kept) : p.cached = [] ↔ p.log = [] := by
  simp only [List.eq_nil_iff_forall_not_mem, mem_cached h, h.lookup]
  constructor
  · intro hnone w hw
    obtain ⟨e?, he⟩ := Option.isSome_iff_exists.1 (Write.last_isSome_iff.2 ⟨w, hw, rfl, rfl⟩)
    refine hnone (.leaving w.typeName w.id e?) ?_
    simpa using he
  · intro hnone w hw
    obtain ⟨u, hu, -⟩ := Write.mem_of_last hw
    exact hnone u hu

end Pending

/-- Whatever was done to a buffer, a look-up finds what the last write to the entity since the last clear left there;
the touched entities of a type are those written since, each listed once and as it is looked up; carrying out the
latest writes in any order, of all types or over the table of one, leaves in every table what replaying the log
leaves there; and the buffer counts the writes since the last clear and has latest writes if and only if it has any.
A type without a table has an empty one. -/
theorem buffer_tells_last_writes (steps : List BufferStep) :
    let p := BufferStep.runAll steps
    let ws := BufferStep.sinceClear steps
    (∀ n id, p.lookup n id = Write.last ws n id) ∧
    (∀ n, (p.touched n).keys.Nodup ∧
      (∀ id, id ∈ (p.touched n).keys ↔ ∃ w ∈ ws, w.typeName = n ∧ w.id = id) ∧
      ∀ id e?, (id, e?) ∈ p.touched n ↔ p.lookup n id = some e?) ∧
    (∀ t : Tables, t.Sorted → ∀ n,
      (∀ rows, p.cached.Perm rows → (t.replay rows).table n = (t.replay p.log).table n) ∧
      ∀ rows, (p.touched n).Perm rows → (t.table n).overlay rows = (t.replay p.log).table n) ∧
    p.log = ws ∧ p.size = ws.length ∧ (p.cached = [] ↔ p.log = []) := by
  intro p ws
  have hkept : p.Kept := .runAll steps
  have hlog : p.log = ws := Pending.log_runAll steps
  refine ⟨fun n id => ?_, fun n => ⟨?_, fun id => ?_, fun id e? => ?_⟩,
    fun t ht n => ⟨fun rows hr => ?_, fun rows hr => ?_⟩, hlog, ?_, ?_⟩
  · rw [hkept.lookup, hlog]
  · exact Dict.distinct_iff.1 (hkept.ascending n).distinct
  · rw [Pending.mem_keys_touched hkept.toCoherent, hlog]
  · exact Pending.mem_touched hkept.toCoherent
  · exact Pending.replay_cached hkept ht hr n
  · exact hkept.overlay_touched ht n hr
  · rw [Pending.size, hlog]
  · exact Pending.cached_eq_nil hkept

/-- What was buffered before a clear does not count, and what was put last does, in whatever order it is carried out. -/
theorem cleared_user_left_out :
    let named (name : String) : Entity := ⟨"User", [("name", .string name)]⟩
    let steps : List BufferStep :=
      [.put (.int 1) (named "ann"), .clear, .put (.int 2) (named "bob"), .delete "User" (.int 3),
        .put (.int 2) (named "eve")]
    let p := BufferStep.runAll steps
    let t : Tables := [("User", [(.int 3, named "joe")])]
    t.Sorted ∧ p.lookup "User" (.int 1) = none ∧ p.lookup "User" (.int 2) = some (some (named "eve")) ∧ p.size = 3 ∧
      (t.replay p.cached.reverse).table "User" = [(.int 2, named "eve")] := by
  intro named steps p t
  have ht : t.Sorted := by
    have hempty : Tables.apply [] (.put "User" (.int 3) (named "joe")) = t := rfl
    exact hempty ▸ Tables.sorted_empty.apply _
  obtain ⟨hlookup, -, htables, hlog, hsize, -⟩ := buffer_tells_last_writes steps
  refine ⟨ht, (hlookup _ _).trans rfl, (hlookup _ _).trans rfl, hsize, ?_⟩
  have hlast : BufferStep.sinceClear steps =
      [.put "User" (.int 2) (named "bob"), .delete "User" (.int 3), .put "User" (.int 2) (named "eve")] := rfl
  rw [(htables t ht "User").1 _ p.cached.reverse_perm.symm, hlog, hlast]
  rfl

end Fixtures
