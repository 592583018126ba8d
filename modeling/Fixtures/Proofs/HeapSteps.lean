import Fixtures.Proofs.Crossing
import Fixtures.Proofs.Loads
import Fixtures.Script.Eval
import Mathlib.Logic.Relation
/-!
# Steps of a heap

What scripts do to their heap is made of a few steps: store under a key of a
table, change a metatable, make something new. Most of a heap is not touched
by a step. The table of global names stays where it is, and the heap records
what is stored in it (`Heap.Recorded`) and what becomes of failures
(`Heap.Accounts`). A computation is `Stepwise` if it does nothing but steps and
ends with the failure that was raised last unless it was caught, whatever its
surroundings answer.
-/

namespace Fixtures

/-! ## Every way a program can end -/

namespace Program

variable {α β : Type}

/-- The failure of an answer. -/
def refused : Except Failure α → List Failure
  | .ok _ => []
  | .error f => [f]

/-- However requests are answered, the program ends with a result of this kind, given the failures among the
answers, in order. A block that fails is answered with its failure. -/
def Ends : {α : Type} → Program α → (List Failure → α → Prop) → Prop
  | _, .done a, P => P [] a
  | _, .note _ next, P => (next ()).Ends P
  | _, .row _ next, P => ∀ r, (next r).Ends fun fs => P (refused r ++ fs)
  | _, .find _ _ next, P => ∀ r, (next r).Ends fun fs => P (refused r ++ fs)
  | _, .load _ next, P => ∀ r, (next r).Ends fun fs => P (refused r ++ fs)
  | _, .table _ block next, P => block.Ends fun fs ending =>
      ∀ r, (∀ f, ending.1 = .error f → r = .error f) → (next r ending.2).Ends fun fs' => P (fs ++ refused r ++ fs')

variable {P : List Failure → α → Prop}

theorem Ends.mono {p : Program α} {Q : List Failure → α → Prop} (h : p.Ends P) (hPQ : ∀ fs a, P fs a → Q fs a) :
    p.Ends Q := by
  induction p with
  | done a => exact hPQ [] a h
  | note e next ih => exact ih () h hPQ
  | row _ _ ih | find _ _ _ ih | load _ _ ih => exact fun r => ih r (h r) fun fs => hPQ (refused r ++ fs)
  | table schema block next ihBlock ih =>
    exact ihBlock h fun fs ending hb r hr => ih r ending.2 (hb r hr) fun fs' => hPQ (fs ++ refused r ++ fs')

theorem Ends.bind {p : Program α} {f : α → Program β} {Q : List Failure → β → Prop} (h : p.Ends P)
    (hf : ∀ fs a, P fs a → (f a).Ends fun fs' => Q (fs ++ fs')) : (p.bind f).Ends Q := by
  induction p generalizing Q with
  | done a => exact hf [] a h
  | note e next ih => exact ih () h hf
  | row _ _ ih | find _ _ _ ih | load _ _ ih =>
    refine fun r => ih r (h r) fun fs a ha => (hf _ a ha).mono fun fs' b hb => ?_
    rwa [List.append_assoc] at hb
  | table schema block next ihBlock ih =>
    refine Ends.mono (p := block) h fun fs ending hb r hr => ih r ending.2 (hb r hr) fun fs' a ha => ?_
    refine (hf _ a ha).mono fun fs'' b hb => ?_
    rwa [List.append_assoc] at hb

theorem noteAll_ends (events : List Event) : (noteAll events).Ends fun fs _ => fs = [] := by
  induction events with
  | nil => rfl
  | cons e rest ih => exact ih

/-- The failures that the requests of a run are answered with, in order. -/
def refusals (load : List ScriptRef → Session → Except Failure Variables × Session) :
    {α : Type} → Program α → Session → List Failure
  | _, .done _, _ => []
  | _, .note e next, s => (next ()).refusals load (s.note e)
  | _, .row values next, s =>
    let (r, s) := s.row values
    refused r ++ (next r).refusals load s
  | _, .find type id next, s =>
    let (r, s) := s.find type id
    refused r ++ (next r).refusals load s
  | _, .load scripts next, s =>
    let (r, s) := load scripts s
    refused r ++ (next r).refusals load s
  | _, .table schema block next, s =>
    let ((r, b), s') := s.table schema (block.runIn load)
    block.refusals load (s.inBlock schema) ++ refused r ++ (next r b).refusals load s'

/-- A run is one of these ways. -/
theorem Ends.runIn {p : Program α} (h : p.Ends P)
    (load : List ScriptRef → Session → Except Failure Variables × Session) (s : Session) :
    P (p.refusals load s) (p.runIn load s).1 := by
  induction p generalizing s with
  | done a => exact h
  | note e next ih => exact ih () h _
  | row _ _ ih | find _ _ _ ih | load _ _ ih => exact ih _ (h _) _
  | table schema block next ihBlock ih =>
    refine ih _ _ (ihBlock h (s.inBlock schema) _ fun f hf => ?_) _
    exact congrArg (Session.created · _) hf

end Program

namespace Script

/-! ## Steps -/

namespace Heap

/-- What scripts change in a heap at a time. Whole tables are only replaced where no global names are. -/
inductive Edit : Heap → Heap → Prop
  | put (h : Heap) (id : Nat) (k v : Val) : Edit h (h.put id k v)
  | setMetatable (h : Heap) (id : Nat) (m : Option Nat) : Edit h (h.setTable id { h.table id with metatable := m })
  | setTable {h : Heap} {id : Nat} (hid : id ≠ h.globals) (t : Table) : Edit h (h.setTable id t)
  | addTable (h : Heap) (t : Table) : Edit h (h.addTable t).2
  | newCell (h : Heap) (v : Val) : Edit h (h.newCell v).2
  | setCell (h : Heap) (id : Nat) (v : Val) : Edit h (h.setCell id v)
  | newClosure (h : Heap) (c : Closure) : Edit h (h.newClosure c).2
  | newObject (h : Heap) (o : Object) : Edit h (h.newObject o).2
  | newThread (h : Heap) : Edit h h.newThread.2
  | enlist (h : Heap) (id : Nat) : Edit h (h.enlist id)

/-- What is done to a heap at a time: it is changed, or what becomes of a raised value is recorded. -/
inductive Step : Heap → Heap → Prop
  | edit {h h' : Heap} (he : Edit h h') : Step h h'
  | mark (fate : Failure → Fate) (v : Val) (h : Heap) : Step h (h.mark fate v)

/-- Any number of steps. -/
abbrev Steps : Heap → Heap → Prop := Relation.ReflTransGen Step

/-- There is a table of global names. -/
def Rooted (h : Heap) : Prop := h.globals < h.tables.size

/-- What was last stored under a global name, if anything was. -/
def lastAssigned (h : Heap) (k : Val) : Option Val := h.assigned.lookup k

/-- The table of global names holds what the record says was stored in it last. -/
structure Recorded (h : Heap) : Prop where
  rooted : h.Rooted
  holds : ∀ k, h.globalTable.get k = (h.lastAssigned k).getD .nil

variable {h h' : Heap}

theorem table_setTable (h : Heap) (id : Nat) (t : Table) (j : Nat) :
    (h.setTable id t).table j = if j = id ∧ id < h.tables.size then t else h.table j := by
  unfold table setTable
  by_cases hid : id < h.tables.size
  · rw [Array.getElem?_setIfInBounds]
    by_cases hj : id = j
    · subst hj
      simp only [hid, if_true, and_self, Option.getD_some]
    · simp only [hj, if_false, Ne.symm hj, false_and]
  · rw [Array.setIfInBounds_eq_of_size_le (Nat.not_lt.1 hid), if_neg fun hj => hid hj.2]

theorem table_addTable {j : Nat} (hj : j < h.tables.size) (t : Table) : (h.addTable t).2.table j = h.table j := by
  unfold table addTable
  simp only [Array.getElem?_push, if_neg (Nat.ne_of_lt hj)]

/-- Steps keep the place of the global names. -/
theorem Step.globals (hs : h.Step h') : h'.globals = h.globals := by
  cases hs with
  | edit he => cases he <;> rfl
  | mark => rfl

theorem Edit.size_le (he : h.Edit h') : h.tables.size ≤ h'.tables.size := by
  cases he with
  | put | setMetatable | setTable => exact (Array.size_setIfInBounds ..).ge
  | addTable => exact (Array.size_push _).ge.trans' (Nat.le_succ _)
  | newCell | setCell | newClosure | newObject | newThread | enlist => exact Nat.le_refl _

theorem Step.size_le (hs : h.Step h') : h.tables.size ≤ h'.tables.size := by
  cases hs with
  | edit he => exact he.size_le
  | mark => exact Nat.le_refl _

/-- A change only adds to the record of assignments. -/
theorem Edit.assigned (he : h.Edit h') : h.assigned <:+ h'.assigned := by
  cases he with
  | put id k v =>
    unfold Heap.put
    dsimp only
    split
    · exact List.suffix_cons ..
    · exact List.suffix_refl _
  | _ => exact List.suffix_refl _

theorem Step.assigned (hs : h.Step h') : h.assigned <:+ h'.assigned := by
  cases hs with
  | edit he => exact he.assigned
  | mark => exact List.suffix_refl _

/-- A change leaves the record of failures as it is. -/
theorem Edit.fates (he : h.Edit h') : h'.fates = h.fates := by
  cases he <;> rfl

theorem Steps.globals (hs : h.Steps h') : h'.globals = h.globals := by
  induction hs with
  | refl => rfl
  | tail _ hstep ih => exact hstep.globals.trans ih

theorem Steps.size_le (hs : h.Steps h') : h.tables.size ≤ h'.tables.size := by
  induction hs with
  | refl => exact Nat.le_refl _
  | tail _ hstep ih => exact ih.trans hstep.size_le

theorem Steps.rooted (hs : h.Steps h') (hr : h.Rooted) : h'.Rooted := by
  unfold Rooted
  rw [hs.globals]
  exact Nat.lt_of_lt_of_le hr hs.size_le

theorem Steps.assigned (hs : h.Steps h') : h.assigned <:+ h'.assigned := by
  induction hs with
  | refl => exact List.suffix_refl _
  | tail _ hstep ih => exact ih.trans hstep.assigned

/-- Where global names are stored and what is recorded go together. -/
theorem Recorded.step (hr : h.Recorded) (hs : h.Step h') : h'.Recorded := by
  have hroot := hr.rooted
  refine ⟨Steps.rooted (.single hs) hroot, fun k => ?_⟩
  have hk := hr.holds k
  unfold globalTable lastAssigned at hk ⊢
  rw [hs.globals]
  obtain ⟨he⟩ | _ := hs
  case mark => exact hk
  cases he with
  | put id j v =>
    show ((h.setTable id ((h.table id).set j v)).table h.globals).get k =
      (List.lookup k (if id = h.globals then (j, v) :: h.assigned else h.assigned)).getD .nil
    rw [table_setTable]
    by_cases hid : id = h.globals
    · subst hid
      rw [if_pos ⟨rfl, hroot⟩, if_pos rfl, Table.get_set, List.lookup_cons]
      by_cases hkj : k = j
      · simp only [hkj, if_true, beq_self_eq_true, Option.getD_some]
      · simp only [hkj, if_false, beq_false_of_ne hkj]
        exact hk
    · rw [if_neg fun hj => hid hj.1.symm, if_neg hid]
      exact hk
  | setMetatable id m =>
    rw [table_setTable]
    split
    · rename_i hid
      obtain ⟨rfl, -⟩ := hid
      exact hk
    · exact hk
  | setTable hid t =>
    rw [table_setTable, if_neg fun hj => hid hj.1.symm]
    exact hk
  | addTable t =>
    rw [table_addTable hroot]
    exact hk
  | newCell | setCell | newClosure | newObject | newThread | enlist => exact hk

theorem Recorded.steps (hr : h.Recorded) (hs : h.Steps h') : h'.Recorded := by
  induction hs with
  | refl => exact hr
  | tail _ hstep ih => exact ih.step hstep

/-! ## Building values -/

/-- Tables and objects are made, nothing else is done. -/
inductive Builds : Heap → Heap → Prop
  | refl (h : Heap) : Builds h h
  | addTable {h h' : Heap} (hs : Builds h h') (t : Table) : Builds h (h'.addTable t).2
  | newObject {h h' : Heap} (hs : Builds h h') (o : Object) : Builds h (h'.newObject o).2

namespace Builds

theorem trans {h'' : Heap} (hs : h.Builds h') (hs' : h'.Builds h'') : h.Builds h'' := by
  induction hs' with
  | refl => exact hs
  | addTable _ t ih => exact ih.addTable t
  | newObject _ o ih => exact ih.newObject o

theorem steps (hs : h.Builds h') : h.Steps h' := by
  induction hs with
  | refl => exact .refl
  | addTable _ t ih => exact ih.tail (.edit (.addTable _ t))
  | newObject _ o ih => exact ih.tail (.edit (.newObject _ o))

theorem grows (hs : h.Builds h') : h.Grows h' := by
  induction hs with
  | refl => exact .refl _
  | addTable _ t ih => exact ih.trans (.newTable _ t)
  | newObject _ o ih => exact ih.trans (.newObject _ o)

/-- Building records nothing. -/
theorem assigned (hs : h.Builds h') : h'.assigned = h.assigned := by
  induction hs with
  | refl => rfl
  | addTable _ t ih => exact ih
  | newObject _ o ih => exact ih

theorem fates (hs : h.Builds h') : h'.fates = h.fates := by
  induction hs with
  | refl => rfl
  | addTable _ t ih => exact ih
  | newObject _ o ih => exact ih

theorem finalizable (hs : h.Builds h') : h'.finalizable = h.finalizable := by
  induction hs with
  | refl => rfl
  | addTable _ t ih => exact ih
  | newObject _ o ih => exact ih

/-- What was there stays when more is built. -/
theorem table (hs : h.Builds h') {j : Nat} (hj : j < h.tables.size) : h'.table j = h.table j := by
  unfold Heap.table
  rw [hs.grows.tables j _ (Array.getElem?_eq_getElem hj), Array.getElem?_eq_getElem hj]

theorem globalTable (hs : h.Builds h') (hr : h.Rooted) : h'.globalTable = h.globalTable := by
  unfold Heap.globalTable
  rw [Steps.globals hs.steps]
  exact hs.table hr

end Builds

mutual

theorem receive_builds (h : Heap) : (v : Value) → h.Builds (h.receive v).2
  | .nil | .bool _ | .integer _ | .number _ | .string _ => .refl h
  | .list items => (receiveItems_builds h items).addTable _
  | .map fields => (receiveFields_builds h fields).addTable _
  | .entity _ => (Builds.refl h).newObject _

theorem receiveItems_builds (h : Heap) : (items : List Value) → h.Builds (h.receiveItems items).2
  | [] => .refl h
  | v :: rest => (receive_builds h v).trans (receiveItems_builds (h.receive v).2 rest)

theorem receiveFields_builds (h : Heap) : (fields : List (String × Value)) → h.Builds (h.receiveFields fields).2
  | [] => .refl h
  | (_, v) :: rest => (receive_builds h v).trans (receiveFields_builds (h.receive v).2 rest)

end

theorem receiveNamed_builds (h : Heap) (vars : Variables) : h.Builds (h.receiveNamed vars).2 := by
  induction vars generalizing h with
  | nil => exact .refl h
  | cons p rest ih => exact (receive_builds h p.2).trans (ih _)

theorem receiveVariables_builds (h : Heap) (vars : Variables) : h.Builds (h.receiveVariables vars).2 :=
  (receiveNamed_builds h vars).addTable _

theorem receiveEntities_builds (h : Heap) (entities : List Entity) : h.Builds (h.receiveEntities entities).2 := by
  induction entities generalizing h with
  | nil => exact .refl h
  | cons e rest ih => exact ((Builds.refl h).newObject _).trans (ih _)

end Heap

/-! ## What becomes of failures -/

namespace Fate

/-- The failure that was raised last, if nothing has become of it since. -/
def inFlight : List Fate → Option Failure
  | raised f :: _ => some f
  | _ => none

/-- What comes after a failure was raised is about it: it is caught, set aside or raised again. -/
def Coherent (fates : List Fate) : Prop :=
  fates.IsChain fun later earlier => ∀ f, earlier = raised f → later.failure = f

/-- A failure for which this is recorded is no longer in flight. -/
structure Lands (fate : Failure → Fate) : Prop where
  failure : ∀ f, (fate f).failure = f
  inFlight : ∀ f earlier, inFlight (fate f :: earlier) = none

theorem caught_lands : Lands caught := ⟨fun _ => rfl, fun _ _ => rfl⟩

theorem aside_lands : Lands aside := ⟨fun _ => rfl, fun _ _ => rfl⟩

/-- What became of a failure in the end. -/
def last? (fates : List Fate) (f : Failure) : Option Fate := fates.find? fun fate => fate.failure = f

variable {fates : List Fate} {f : Failure}

theorem inFlight_eq_some : inFlight fates = some f ↔ ∃ earlier, fates = raised f :: earlier := by
  unfold inFlight
  split
  · simp only [Option.some.injEq, List.cons.injEq, raised.injEq, exists_and_left, exists_eq', and_true]
  · rename_i hnone
    refine ⟨nofun, ?_⟩
    rintro ⟨earlier, rfl⟩
    exact absurd rfl (hnone f earlier)

theorem Coherent.cons {fate : Fate} (hc : Coherent fates)
    (hf : ∀ f, inFlight fates = some f → fate.failure = f) : Coherent (fate :: fates) := by
  cases fates with
  | nil => exact .singleton fate
  | cons next rest =>
    refine List.isChain_cons_cons.2 ⟨fun f hnext => hf f ?_, hc⟩
    rw [hnext]
    rfl

/-- A failure that was raised and not caught in the end is in flight. -/
theorem Coherent.inFlight_of_last (hc : Coherent fates) (hl : last? fates f = some (raised f)) :
    inFlight fates = some f := by
  induction fates with
  | nil => cases hl
  | cons fate rest ih =>
    by_cases hfate : fate.failure = f
    · simp only [last?, List.find?_cons, hfate, decide_true] at hl
      obtain rfl := Option.some.inj hl
      rfl
    · simp only [last?, List.find?_cons, hfate, decide_false] at hl
      -- It was in flight before, so what comes next is about it as well.
      obtain ⟨earlier, rfl⟩ := inFlight_eq_some.1 (ih hc.tail hl)
      exact absurd ((List.isChain_cons_cons.1 hc).1 f rfl) hfate

/-- What was raised and neither caught nor set aside in the end was raised in the end. -/
theorem last?_of_raised (h : raised f ∈ fates) (hc : last? fates f ≠ some (caught f))
    (ha : last? fates f ≠ some (aside f)) : last? fates f = some (raised f) := by
  have hsome : (last? fates f).isSome := List.find?_isSome.2 ⟨raised f, h, decide_eq_true_iff.2 rfl⟩
  obtain ⟨fate, hfind⟩ := Option.isSome_iff_exists.1 hsome
  obtain rfl : fate.failure = f := by
    unfold last? at hfind
    have hfate := List.find?_some hfind
    rwa [decide_eq_true_iff] at hfate
  cases fate with
  | raised f => exact hfind
  | caught f => exact absurd hfind hc
  | aside f => exact absurd hfind ha

end Fate

namespace Heap

variable {h h' h'' : Heap} {fs fs' : List Failure} {α : Type}

theorem mark_plain {v : Val} (hv : h.failure? v = none) (fate : Failure → Fate) : h.mark fate v = h := by
  rw [mark, hv]
  rfl

theorem mark_fates {v : Val} {f : Failure} (hv : h.failure? v = some f) (fate : Failure → Fate) :
    (h.mark fate v).fates = fate f :: h.fates := by
  rw [mark, hv]
  rfl

/-- A fault stands for its failure, whatever calls it has crossed. -/
theorem failure?_wrapped {id : Nat} {f : Fault} {n : Nat} (ho : h.object id = .fault (f.wrapped n)) :
    h.failure? (.object id) = some f.toFailure := by
  rw [failure?, ho]
  exact congrArg some (f.toFailure_wrapped n)

/-- The failure that a computation ends with. -/
def failed? (h : Heap) : Except Val α → Option Failure
  | .ok _ => none
  | .error v => h.failure? v

/-- No failure is in flight, and the record is coherent. -/
structure Settled (h : Heap) : Prop where
  coherent : Fate.Coherent h.fates
  landed : Fate.inFlight h.fates = none

/-- From one heap to another, all that was answered with these failures was raised, and recorded. -/
structure Accounts (h : Heap) (fs : List Failure) (h' : Heap) : Prop where
  kept : h.fates <:+ h'.fates
  raised : ∀ f ∈ fs, Fate.raised f ∈ h'.fates
  coherent : Fate.Coherent h'.fates

/-- Nothing was asked, and the record is the same. -/
theorem Accounts.of_fates (hc : Fate.Coherent h.fates) (hf : h'.fates = h.fates) : h.Accounts [] h' :=
  ⟨hf ▸ List.suffix_refl _, fun _ hf => absurd hf List.not_mem_nil, hf ▸ hc⟩

theorem Accounts.refl (hc : Fate.Coherent h.fates) : h.Accounts [] h := .of_fates hc rfl

theorem Accounts.trans (ha : h.Accounts fs h') (ha' : h'.Accounts fs' h'') : h.Accounts (fs ++ fs') h'' where
  kept := ha.kept.trans ha'.kept
  raised f hf := (List.mem_append.1 hf).elim (fun hf => ha'.kept.mem (ha.raised f hf)) (ha'.raised f)
  coherent := ha'.coherent

/-- Another heap with the same record. -/
theorem Settled.of_fates (hs : h.Settled) (hf : h'.fates = h.fates) : h'.Settled := by
  obtain ⟨hc, hl⟩ := hs
  rw [← hf] at hc hl
  exact ⟨hc, hl⟩

/-- What is raised is in flight, if it stands for a failure. -/
theorem Settled.raise (hs : h.Settled) (v : Val) :
    h.Accounts [] (h.mark .raised v) ∧ Fate.inFlight (h.mark .raised v).fates = h.failure? v := by
  cases hv : h.failure? v with
  | none =>
    rw [mark_plain hv]
    exact ⟨.refl hs.coherent, hs.landed⟩
  | some f =>
    have hfates := mark_fates hv .raised
    refine ⟨⟨hfates ▸ List.suffix_cons .., fun _ hf => absurd hf List.not_mem_nil, ?_⟩, hfates ▸ rfl⟩
    rw [hfates]
    exact hs.coherent.cons fun g hg => absurd hg (hs.landed ▸ nofun)

/-- What is caught or set aside is no longer in flight. -/
theorem Accounts.land {fate : Failure → Fate} (hfate : Fate.Lands fate) {v : Val} (ha : h.Accounts fs h')
    (hv : Fate.inFlight h'.fates = h'.failure? v) :
    h.Accounts fs (h'.mark fate v) ∧ Fate.inFlight (h'.mark fate v).fates = none := by
  cases hf : h'.failure? v with
  | none =>
    rw [mark_plain hf]
    exact ⟨ha, hv.trans hf⟩
  | some f =>
    have hfates := mark_fates hf fate
    have hkept : h'.fates <:+ (h'.mark fate v).fates := hfates ▸ List.suffix_cons ..
    refine ⟨⟨ha.kept.trans hkept, fun g hg => hkept.mem (ha.raised g hg), ?_⟩, hfates ▸ hfate.inFlight f _⟩
    rw [hfates]
    refine ha.coherent.cons fun g hg => ?_
    rw [hv, hf] at hg
    exact (hfate.failure f).trans (Option.some.inj hg)

end Heap

/-! ## Computations -/

namespace Eval

variable {α β : Type}

/-- Whatever the surroundings answer and however the computation ends, nothing but steps is done to the heap, and a
failure that is in flight then is the one that it ends with. -/
structure Stepwise (x : Eval α) : Prop where
  steps : ∀ h : Heap, h.Rooted → (x h).Ends fun _ (_, h') => h.Steps h'
  accounts : ∀ h : Heap, h.Settled →
    (x h).Ends fun fs (r, h') => h.Accounts fs h' ∧ Fate.inFlight h'.fates = h'.failed? r

/-- A fault is raised for its failure. -/
theorem fault_eq (f : Fault) (h : Heap) : ∃ v h', (Eval.fault f : Eval α) h = .done (.error v, h') ∧
    h'.failure? v = some f.toFailure ∧ h'.fates = .raised f.toFailure :: h.fates := by
  have ho : (h.newObject (.fault (.within f))).2.object h.objects.size = .fault (f.wrapped 1) := by
    show ((h.objects.push (.fault (.within f)))[h.objects.size]?).getD .stream = _
    rw [Array.getElem?_push_size]
    rfl
  have hf := Heap.failure?_wrapped ho
  exact ⟨_, _, rfl, hf, Heap.mark_fates hf .raised⟩

/-- It may be raised where no other failure is in flight. -/
theorem fault_accounts (f : Fault) {h : Heap} (hc : Fate.Coherent h.fates)
    (hf : ∀ g, Fate.inFlight h.fates = some g → g = f.toFailure) :
    ((Eval.fault f : Eval α) h).Ends fun fs (r, h') =>
      h.Accounts (f.toFailure :: fs) h' ∧ Fate.inFlight h'.fates = h'.failed? r := by
  obtain ⟨v, h', heq, hv, hfates⟩ := @fault_eq α f h
  rw [heq]
  refine ⟨⟨hfates ▸ List.suffix_cons .., ?_, ?_⟩, hfates ▸ hv.symm⟩
  · rw [hfates]
    exact fun g hg => List.mem_singleton.1 hg ▸ List.mem_cons_self
  · rw [hfates]
    exact hc.cons fun g hg => (hf g hg).symm

namespace Stepwise

theorem pure (a : α) : (Pure.pure a : Eval α).Stepwise where
  steps _ _ := .refl
  accounts _ hs := ⟨.refl hs.coherent, hs.landed⟩

theorem bind {x : Eval α} {f : α → Eval β} (hx : x.Stepwise) (hf : ∀ a, (f a).Stepwise) : (x >>= f).Stepwise where
  steps h hr := by
    refine Program.Ends.bind (hx.steps h hr) ?_
    rintro _ ⟨v | a, h'⟩ hs
    · exact hs
    · exact ((hf a).steps h' (hs.rooted hr)).mono fun _ _ hs' => Relation.ReflTransGen.trans hs hs'
  accounts h hs := by
    refine Program.Ends.bind (hx.accounts h hs) ?_
    rintro fs ⟨v | a, h'⟩ ⟨ha, hl⟩
    · exact ⟨ha.trans (.refl ha.coherent), hl⟩
    · exact ((hf a).accounts h' ⟨ha.coherent, hl⟩).mono fun _ _ hend => ⟨ha.trans hend.1, hend.2⟩

/-- After a computation its result is passed on in another form. -/
theorem map {x : Eval α} (hx : x.Stepwise) (f : α → β) : (x >>= fun a => Pure.pure (f a)).Stepwise :=
  hx.bind fun a => .pure (f a)

theorem raise (v : Val) : (Eval.raise v : Eval α).Stepwise where
  steps h _ := .single (.mark .raised v h)
  accounts _ hs := hs.raise v

theorem attempt {fate : Failure → Fate} (hfate : Fate.Lands fate) {x : Eval α} (hx : x.Stepwise) :
    (x.attempt fate).Stepwise where
  steps h hr := by
    refine Program.Ends.bind (hx.steps h hr) ?_
    rintro _ ⟨v | a, h'⟩ hs
    · exact hs.tail (.mark fate v h')
    · exact hs
  accounts h hs := by
    refine Program.Ends.bind (hx.accounts h hs) ?_
    rintro fs ⟨v | a, h'⟩ ⟨ha, hl⟩
    · exact (ha.trans (.refl ha.coherent)).land hfate hl
    · exact ⟨ha.trans (.refl ha.coherent), hl⟩

theorem look (f : Heap → α) : (Eval.look f).Stepwise where
  steps _ _ := .refl
  accounts _ hs := ⟨.refl hs.coherent, hs.landed⟩

/-- Whatever only looks at the heap is no step, and what it raises is in flight. -/
theorem lift (x : Look α) : (liftM x : Eval α).Stepwise := by
  refine (look x).bind fun r => ?_
  cases r with
  | error v => exact raise v
  | ok a => exact pure a

theorem make {f : Heap → α × Heap} (hf : ∀ h, Heap.Edit h (f h).2) : (Eval.make f).Stepwise where
  steps h _ := .single (.edit (hf h))
  accounts h hs := ⟨.of_fates hs.coherent (hf h).fates, (hs.of_fates (hf h).fates).landed⟩

theorem change {f : Heap → Heap} (hf : ∀ h, Heap.Edit h (f h)) : (Eval.change f).Stepwise where
  steps h _ := .single (.edit (hf h))
  accounts h hs := ⟨.of_fates hs.coherent (hf h).fates, (hs.of_fates (hf h).fates).landed⟩

theorem build {f : Heap → α × Heap} (hf : ∀ h, Heap.Builds h (f h).2) : (Eval.make f).Stepwise where
  steps h _ := (hf h).steps
  accounts h hs := ⟨.of_fates hs.coherent (hf h).fates, (hs.of_fates (hf h).fates).landed⟩

theorem newTable (t : Table) : (Eval.make fun h => h.newTable t).Stepwise := make fun h => .addTable h t

theorem newObject (o : Object) : (Eval.make fun h => h.newObject o).Stepwise := make fun h => .newObject h o

theorem fault (f : Fault) : (Eval.fault f : Eval α).Stepwise := (make fun h => .newObject h _).bind raise

theorem fail (f : Failure) : (Eval.fail f : Eval α).Stepwise := fault _

theorem orFail (r : Except Failure α) : (Eval.orFail r).Stepwise := by
  cases r with
  | error f => exact fail f
  | ok a => exact pure a

/-- Nothing is asked that could be refused. -/
theorem ask {p : Program α} (hp : p.Ends fun fs _ => fs = []) : (Eval.ask p).Stepwise where
  steps _ _ := Program.Ends.bind hp fun _ _ _ => .refl
  accounts h hs := by
    refine Program.Ends.bind hp ?_
    rintro _ a rfl
    exact ⟨.refl hs.coherent, hs.landed⟩

/-- A request that is refused is a failure. -/
theorem inquire {p : Program (Except Failure α)} (hp : p.Ends fun fs r => fs = Program.refused r) {f : α → Eval β}
    (hf : ∀ a, (f a).Stepwise) : Stepwise (do f (← Eval.orFail (← Eval.ask p))) := by
  have hask (h : Heap) : (Eval.ask p h).Ends fun fs (r, h') => ∃ a, r = .ok a ∧ h = h' ∧ fs = Program.refused a := by
    refine Program.Ends.bind hp ?_
    rintro _ a rfl
    exact ⟨a, rfl, rfl, List.append_nil _⟩
  constructor
  · intro h hr
    refine Program.Ends.bind (hask h) ?_
    rintro _ ⟨_, _⟩ ⟨a, rfl, rfl, rfl⟩
    exact ((orFail a).bind hf).steps _ hr
  · intro h hs
    refine Program.Ends.bind (hask h) ?_
    rintro _ ⟨_, _⟩ ⟨a, rfl, rfl, rfl⟩
    cases a with
    | ok a => exact (hf a).accounts _ hs
    | error e =>
      have ha := @fault_accounts α (.failure e) h hs.coherent fun g hg => absurd hg (hs.landed ▸ nofun)
      obtain ⟨v, h', heq, -, -⟩ := @fault_eq α (.failure e) h
      show ((Eval.fault (.failure e) h).bind _).Ends _
      rw [heq] at ha ⊢
      exact ha

theorem report (f : Heap → Reported α) : (Eval.report f).Stepwise :=
  (look f).bind fun r => (ask (Program.noteAll_ends r.events)).bind fun _ => orFail r.result

theorem complain (trace : Trace) (message : String) : (Eval.complain trace message : Eval α).Stepwise := raise _

theorem ite {p : Prop} [Decidable p] {x y : Eval α} (hx : x.Stepwise) (hy : y.Stepwise) :
    (if p then x else y).Stepwise := by
  split
  · exact hx
  · exact hy

theorem mapM {l : List α} {f : α → Eval β} (hf : ∀ a, (f a).Stepwise) : (l.mapM f).Stepwise := by
  have hloop (l : List α) (acc : List β) : (List.mapM.loop f l acc).Stepwise := by
    induction l generalizing acc with
    | nil => exact pure acc.reverse
    | cons a rest ih => exact (hf a).bind fun b => ih (b :: acc)
  exact hloop l []

/-- A table that is new is replaced later: it is not that of the global names. -/
theorem fill {x : Nat → Eval α} (hx : ∀ t, (x t).Stepwise) (g : α → Table → Table) (f : Nat → β) : Stepwise (do
    let t ← Eval.make fun h => h.addTable .empty
    let a ← x t
    Eval.change fun h => h.setTable t (g a (h.table t))
    return f t) where
  steps h hr := by
    have hnew : h.Steps (h.addTable .empty).2 := .single (.edit (.addTable h .empty))
    change ((x h.tables.size (h.addTable .empty).2).bind _).Ends _
    refine Program.Ends.bind ((hx _).steps _ (hnew.rooted hr)) ?_
    rintro _ ⟨v | a, h'⟩ hs
    · exact Relation.ReflTransGen.trans hnew hs
    · have hid : h.tables.size ≠ h'.globals := by
        rw [Heap.Steps.globals hs]
        exact (Nat.ne_of_lt hr).symm
      exact .tail (Relation.ReflTransGen.trans hnew hs) (.edit (.setTable hid _))
  accounts h hs := by
    have hnew : (h.addTable .empty).2.Settled := hs.of_fates rfl
    change ((x h.tables.size (h.addTable .empty).2).bind _).Ends _
    refine Program.Ends.bind ((hx _).accounts _ hnew) ?_
    have hmade : h.Accounts [] (h.addTable .empty).2 := .of_fates hs.coherent rfl
    rintro fs ⟨v | a, h'⟩ ⟨ha, hl⟩
    · exact ⟨hmade.trans (ha.trans (.refl ha.coherent)), hl⟩
    · exact ⟨hmade.trans (ha.trans (.of_fates ha.coherent rfl)), hl⟩

end Stepwise

end Eval

/-- Whatever is called, only steps are done. -/
def Caller.Stepwise (call : Caller) : Prop := ∀ f args callers, (call f args callers).Stepwise

end Script

end Fixtures
