import Fixtures.Proofs.Reachable
/-!
# Entities in sight

The entities in sight are those of the committed tables with the log of the
open transaction replayed onto them. Reads merge the latest writes into the
tables instead and never see the log; every operation still answers as if it
worked on the entities in sight alone (`Operation.Answers`), and what a commit
leaves in the tables is what was in sight before it.
-/

namespace Fixtures

open Store

/-! ## The specification -/

/-- The committed tables with the log of the open transaction replayed onto them. -/
def Store.visible (s : Store) : Tables :=
  match s.pending with
  | none => s.tables
  | some p => s.tables.replay p.log

/-- The order of identifiers: integers before texts. -/
def EntityId.Below : EntityId → EntityId → Prop
  | .int a, .int b => a < b
  | .int _, .text _ => True
  | .text _, .int _ => False
  | .text a, .text b => a < b

namespace Tables

/-- The entities of a type are these, in the order of their identifiers. -/
def Lists (v : Tables) (typeName : String) (es : List Entity) : Prop :=
  ∃ rows : List (EntityId × Entity), rows.Pairwise (fun p q => p.1.Below q.1) ∧
    (∀ id e, (id, e) ∈ rows ↔ v.get typeName id = some e) ∧ es = rows.map Prod.snd

/-- `v'` is `v` but for what is under one identifier of a type. -/
def Assigned (v : Tables) (typeName : String) (id : EntityId) (e? : Option Entity) (v' : Tables) : Prop :=
  ∀ name j, v'.get name j = if name = typeName ∧ j = id then e? else v.get name j

end Tables

/-- The answer is a failure of a kind. -/
def Fails {α : Type} (r : Except Failure α) (kind : Failure.Kind) : Prop := ∃ f, r = .error f ∧ f.kind = kind

/-- An operation on the type `t`, with `v` in sight, answers `r` and leaves `v'` in sight. Entities of another
type are refused; one of this type is looked for under the identifier it carries. -/
def Operation.Answers (t : EntityType) (v v' : Tables) : {α : Type} → Operation α → Except Failure α → Prop
  | _, create e, r =>
    (e.typeName ≠ t.name → Fails r .invalidArgument) ∧
    (∀ id, e.typeName = t.name → idOf t e = .ok id →
      match v.get t.name id with
      | some _ => Fails r .persistence
      | none => r = .ok e ∧ v.Assigned t.name id (some e) v') ∧
    ∀ e', r = .ok e' → ∃ id, idOf t e' = .ok id ∧ v.get t.name id = none ∧ v.Assigned t.name id (some e') v'
  | _, find x, r => v' = v ∧ r = (EntityId.ofValue x).map (v.get t.name)
  | _, findAll, r => v' = v ∧ ∃ es, r = .ok es ∧ v.Lists t.name es
  | _, update e, r =>
    (e.typeName ≠ t.name → Fails r .invalidArgument) ∧
    ∀ id, e.typeName = t.name → idOf t e = .ok id →
      match v.get t.name id with
      | some _ => r = .ok e ∧ v.Assigned t.name id (some e) v'
      | none => Fails r .notFound
  | _, delete e, r =>
    (e.typeName ≠ t.name → Fails r .invalidArgument) ∧
    ∀ id, e.typeName = t.name → idOf t e = .ok id →
      match v.get t.name id with
      | some old => r = .ok old ∧ v.Assigned t.name id none v'
      | none => Fails r .notFound

/-! ## Lists of a sorted table -/

theorem EntityId.below_iff : {a b : EntityId} → (a.Below b ↔ compare a b = .lt)
  | .int a, .int b => (compareOfLessAndEq_eq_lt (x := a) (y := b)).symm
  | .int _, .text _ => iff_of_true trivial rfl
  | .text _, .int _ => iff_of_false id nofun
  | .text a, .text b => (compareOfLessAndEq_eq_lt (x := a) (y := b)).symm

theorem Tables.Sorted.lists {v : Tables} (h : v.Sorted) (typeName : String) :
    v.Lists typeName (v.table typeName).values := by
  refine ⟨v.table typeName, (h typeName).imp EntityId.below_iff.2, fun id e => ?_, rfl⟩
  rw [(h typeName).distinct.mem_iff, Tables.get_eq]

theorem Tables.Sorted.assigned {v : Tables} (h : v.Sorted) (w : Write) :
    v.Assigned w.typeName w.id w.entity? (v.replay [w]) := fun name j => Tables.get_apply h w name j

/-! ## What reads see -/

namespace Sound

variable {scopes : List Scope} {scope : Scope} {s : Store}

/-- Outside a transaction the committed tables are in sight. -/
theorem visible_outside (h : Sound [] s) : s.visible = s.tables := by rw [visible, h.unbuffered]

theorem visible_sorted (h : Sound scopes s) : s.visible.Sorted := by
  unfold visible
  split
  · exact h.sorted
  · exact h.sorted.replay _

theorem lookup_eq (h : Sound scopes s) (typeName : String) (id : EntityId) :
    s.lookup typeName id = s.visible.get typeName id := by
  unfold lookup visible
  cases hp : s.pending with
  | none => rfl
  | some p =>
    rw [Option.bind_some, (h.coherent p hp).lookup]
    simp only [Tables.get_replay h.sorted]
    cases Write.last p.log typeName id <;> rfl

theorem view_eq (h : Sound scopes s) (typeName : String) : s.view typeName = s.visible.table typeName := by
  unfold view visible
  cases hp : s.pending with
  | none => rfl
  | some p => exact (h.coherent p hp).overlay_touched h.sorted typeName (.refl _)

theorem visible_enter (h : Sound scopes s) : s.openScope.2.visible = s.visible := by
  cases scopes with
  | nil =>
    rw [openScope_outside h.depth, visible, visible, h.unbuffered]
    rfl
  | cons scope scopes =>
    rw [openScope_inside (by rw [h.depth]; exact Nat.succ_pos _)]
    rfl

/-- A scope that does not roll back keeps what is in sight. -/
theorem leave_kept (h : Sound (scope :: scopes) s) (success : Bool)
    (hc : scopes = [] → success = true ∧ s.rollbackOnly = false) :
    (s.closeScope scope success).1 = .ok () ∧ (s.closeScope scope success).2.visible = s.visible := by
  obtain ⟨hout, -⟩ := h.nested
  cases scopes with
  | nil =>
    obtain rfl : scope = ⟨true⟩ := congrArg Scope.mk hout
    obtain ⟨rfl, hf⟩ := hc rfl
    obtain ⟨p, hp, -⟩ := h.buffered
    rw [closeScope_commit hf, hp, visible, visible, hp]
    exact ⟨rfl, rfl⟩
  | cons scope' scopes =>
    obtain rfl : scope = ⟨false⟩ := congrArg Scope.mk hout
    rw [closeScope_inside]
    exact ⟨rfl, rfl⟩

/-- After a rollback the committed tables are in sight. -/
theorem leave_dropped (h : Sound [scope] s) :
    (s.closeScope scope false).1 = .ok () ∧ (s.closeScope scope false).2.visible = s.tables := by
  obtain rfl : scope = ⟨true⟩ := congrArg Scope.mk h.nested.1
  rw [closeScope_rollback (.inl rfl)]
  exact ⟨rfl, rfl⟩

theorem visible_write {p : Pending} (hp : s.pending = some p) (q : Dict String Int64) (ws : List Write) :
    visible { s with sequences := q, pending := some (p.addAll ws) } = s.visible.replay ws := by
  show s.tables.replay (p.addAll ws).log = _
  rw [visible, hp, Pending.log_addAll, Tables.replay_append]

end Sound

/-! ## What operations do -/

namespace Sound

variable {scopes : List Scope} {s : Store} {α : Type}

/-- An operation's unit of work is never overruled, and its writes come in sight. -/
theorem exec_work (h : Sound scopes s) {t : EntityType} {op : Operation α}
    {work : Store → Except Failure α × Store} (hw : op.work t = .ok work) :
    (s.exec work).1 = (work s.openScope.2).1 ∧
      (s.exec work).2.visible = s.visible.replay (op.written t (work s.openScope.2).1) := by
  obtain ⟨p, hp, -⟩ := h.enter.buffered
  obtain ⟨q, hq⟩ := work_effect hw hp
  have hsound : Sound (s.openScope.1 :: scopes) (work s.openScope.2).2 := by
    rw [hq]
    exact h.enter.write hp q _
  have hseen : (work s.openScope.2).2.visible = s.visible.replay (op.written t (work s.openScope.2).1) := by
    rw [hq, visible_write hp, h.visible_enter]
  -- Outside a transaction the scope is the outermost one, and nothing doomed it.
  have hfresh : scopes = [] → (work s.openScope.2).2.rollbackOnly = false := by
    rintro rfl
    rw [hq, openScope_outside h.depth]
  rw [exec_fst, exec_snd]
  cases hr : (work s.openScope.2).1 with
  | ok a =>
    rw [hr] at hseen
    obtain ⟨hres, hkept⟩ := hsound.leave_kept true fun hs => ⟨rfl, hfresh hs⟩
    rw [Ending.succeeded_ok, hres]
    exact ⟨rfl, hkept.trans hseen⟩
  | error f =>
    rw [hr, Operation.written_error] at hseen
    rw [Ending.succeeded_error, Operation.written_error]
    cases scopes with
    | nil =>
      obtain ⟨hres, hdropped⟩ := hsound.leave_dropped
      rw [hres, hdropped, hq, openScope_outside h.depth, visible, h.unbuffered]
      exact ⟨rfl, rfl⟩
    | cons scope scopes =>
      obtain ⟨hres, hkept⟩ := hsound.leave_kept false (by simp)
      rw [hres]
      exact ⟨rfl, hkept.trans hseen⟩

/-- What an operation answers, and what is in sight afterwards. -/
theorem perform_eq (h : Sound scopes s) {typeName : String} {t : EntityType} (ht : s.access typeName = .ok t)
    (op : Operation α) {work : Store → Except Failure α × Store} (hw : op.work t = .ok work) :
    (s.perform typeName op).1 = (work s.openScope.2).1 ∧
      (s.perform typeName op).2.visible = s.visible.replay (op.written t (work s.openScope.2).1) := by
  rw [perform_work ht hw]
  exact h.exec_work hw

end Sound

namespace Store

variable {t : EntityType} {e : Entity} {id : EntityId}

/-- An entity that carries an identifier is refused if this is taken. -/
theorem putNew_carried (hid : idOf t e = .ok id) (s : Store) :
    (putNew t e s).1 =
      match s.lookup t.name id with
      | some _ => .error (.alreadyExists t.name id)
      | none => .ok e := by
  obtain ⟨q, hq⟩ := observeId_eq s t.name id
  have hl : (s.observeId t.name id).lookup t.name id = s.lookup t.name id := by
    rw [hq]
    rfl
  simp only [putNew, assignId_carried hid, hl]
  cases s.lookup t.name id <;> rfl

/-- A new entity is stored under an identifier that was free, which it then carries. -/
theorem putNew_eq_ok {s : Store} {e' : Entity} (h : (putNew t e s).1 = .ok e') :
    ∃ id, idOf t e' = .ok id ∧ s.lookup t.name id = none := by
  obtain ⟨q, hq, hid⟩ := assignId_cases t e s
  unfold putNew at h
  split at h
  · cases h
  · rename_i id e'' s' ha
    rw [ha] at hq hid
    split at h
    · cases h
    · rename_i hfree
      cases h
      refine ⟨id, (hid id e' rfl).2, ?_⟩
      obtain rfl : s' = { s with sequences := q } := hq
      exact Option.not_isSome_iff_eq_none.1 hfree

theorem putBack_fst (t : EntityType) (id : EntityId) (e : Entity) (s : Store) :
    (putBack t id e s).1 =
      match s.lookup t.name id with
      | some _ => .ok e
      | none => .error (.noEntity t.name id) := by
  unfold putBack existing
  cases s.lookup t.name id <;> rfl

theorem takeOut_fst (t : EntityType) (id : EntityId) (s : Store) :
    (takeOut t id s).1 =
      match s.lookup t.name id with
      | some old => .ok old
      | none => .error (.noEntity t.name id) := by
  unfold takeOut existing
  cases s.lookup t.name id <;> rfl

end Store

namespace Sound

variable {scopes : List Scope} {scope : Scope} {s : Store} {α : Type} {typeName : String} {t : EntityType}

theorem lookup_enter (h : Sound scopes s) (typeName : String) (id : EntityId) :
    s.openScope.2.lookup typeName id = s.visible.get typeName id := by
  rw [h.enter.lookup_eq, h.visible_enter]

theorem answers_create (h : Sound scopes s) (ht : s.access typeName = .ok t) (e : Entity) :
    (Operation.create e).Answers t s.visible (s.perform typeName (.create e)).2.visible
      (s.perform typeName (.create e)).1 := by
  have hstored (id : EntityId) (e' : Entity) (hid : idOf t e' = .ok id) :
      s.visible.Assigned t.name id (some e') (s.visible.replay ((Operation.create e).written t (.ok e'))) := by
    rw [Operation.written_create hid]
    exact h.visible_sorted.assigned (.put t.name id e')
  cases hc : checkType t e with
  | error f =>
    have hw : (Operation.create e).work t = .error f := by simp [Operation.work, hc, Except.map]
    rw [perform_refused ht hw]
    refine ⟨fun hn => ?_, fun id hn => ?_, fun e' he' => by cases he'⟩
    · rw [checkType_foreign hn] at hc
      cases hc
      exact ⟨_, rfl, rfl⟩
    · rw [checkType_eq_ok.2 hn] at hc
      cases hc
  | ok u =>
    have hw : (Operation.create e).work t = .ok (putNew t e) := by simp [Operation.work, hc, Except.map]
    obtain ⟨hr, hv⟩ := h.perform_eq ht _ hw
    rw [hr, hv]
    refine ⟨fun hn => absurd (checkType_eq_ok.1 hc) hn, ?_, ?_⟩
    · intro id _ hid
      rw [putNew_carried hid, h.lookup_enter]
      cases s.visible.get t.name id with
      | some old => exact ⟨_, rfl, rfl⟩
      | none => exact ⟨rfl, hstored id e hid⟩
    · intro e' he'
      obtain ⟨id, hid, hfree⟩ := putNew_eq_ok he'
      rw [h.lookup_enter] at hfree
      rw [he']
      exact ⟨id, hid, hfree, hstored id e' hid⟩

theorem answers_find (h : Sound scopes s) (ht : s.access typeName = .ok t) (x : Value) :
    (Operation.find x).Answers t s.visible (s.perform typeName (.find x)).2.visible
      (s.perform typeName (.find x)).1 := by
  cases hx : EntityId.ofValue x with
  | error f =>
    have hw : (Operation.find x).work t = .error f := by simp [Operation.work, hx, Except.map]
    rw [perform_refused ht hw]
    exact ⟨rfl, by rw [hx]; rfl⟩
  | ok id =>
    have hw : (Operation.find x).work t = .ok (reading fun s => s.lookup t.name id) := by
      simp [Operation.work, hx, Except.map]
    obtain ⟨hr, hv⟩ := h.perform_eq ht _ hw
    rw [hr, hv]
    refine ⟨rfl, ?_⟩
    rw [hx, reading, h.lookup_enter]
    rfl

theorem answers_findAll (h : Sound scopes s) (ht : s.access typeName = .ok t) :
    Operation.findAll.Answers t s.visible (s.perform typeName .findAll).2.visible
      (s.perform typeName .findAll).1 := by
  obtain ⟨hr, hv⟩ := h.perform_eq ht .findAll rfl
  rw [hr, hv]
  refine ⟨rfl, _, rfl, ?_⟩
  show s.visible.Lists t.name (s.openScope.2.view t.name).values
  rw [h.enter.view_eq, h.visible_enter]
  exact h.visible_sorted.lists t.name

theorem answers_update (h : Sound scopes s) (ht : s.access typeName = .ok t) (e : Entity) :
    (Operation.update e).Answers t s.visible (s.perform typeName (.update e)).2.visible
      (s.perform typeName (.update e)).1 := by
  refine ⟨fun hn => ?_, fun id hn hid => ?_⟩
  · have hw : (Operation.update e).work t = .error (.foreignEntity t.name e.typeName) := by
      simp [Operation.work, identify_foreign hn, Except.map]
    rw [perform_refused ht hw]
    exact ⟨_, rfl, rfl⟩
  · have hw : (Operation.update e).work t = .ok (putBack t id e) := by
      simp [Operation.work, identify_eq_ok.2 ⟨hn, hid⟩, Except.map]
    obtain ⟨hr, hv⟩ := h.perform_eq ht _ hw
    rw [hr, hv, putBack_fst, h.lookup_enter]
    cases s.visible.get t.name id with
    | none => exact ⟨_, rfl, rfl⟩
    | some old =>
      rw [Operation.written_update hid]
      exact ⟨rfl, h.visible_sorted.assigned (.put t.name id e)⟩

theorem answers_delete (h : Sound scopes s) (ht : s.access typeName = .ok t) (e : Entity) :
    (Operation.delete e).Answers t s.visible (s.perform typeName (.delete e)).2.visible
      (s.perform typeName (.delete e)).1 := by
  refine ⟨fun hn => ?_, fun id hn hid => ?_⟩
  · have hw : (Operation.delete e).work t = .error (.foreignEntity t.name e.typeName) := by
      simp [Operation.work, identify_foreign hn, Except.map]
    rw [perform_refused ht hw]
    exact ⟨_, rfl, rfl⟩
  · have hw : (Operation.delete e).work t = .ok (takeOut t id) := by
      simp [Operation.work, identify_eq_ok.2 ⟨hn, hid⟩, Except.map]
    obtain ⟨hr, hv⟩ := h.perform_eq ht _ hw
    rw [hr, hv, takeOut_fst, h.lookup_enter]
    cases s.visible.get t.name id with
    | none => exact ⟨_, rfl, rfl⟩
    | some old =>
      rw [Operation.written_delete hid]
      exact ⟨rfl, h.visible_sorted.assigned (.delete t.name id)⟩

theorem answers (h : Sound scopes s) (ht : s.access typeName = .ok t) (op : Operation α) :
    op.Answers t s.visible (s.perform typeName op).2.visible (s.perform typeName op).1 := by
  cases op with
  | create e => exact h.answers_create ht e
  | find x => exact h.answers_find ht x
  | findAll => exact h.answers_findAll ht
  | update e => exact h.answers_update ht e
  | delete e => exact h.answers_delete ht e

/-- An operation that fails, or whose type is not known, leaves in sight what was. -/
theorem visible_failed (h : Sound scopes s) {op : Operation α} {f : Failure}
    (hf : (s.perform typeName op).1 = .error f) : (s.perform typeName op).2.visible = s.visible := by
  rcases s.perform_cases typeName op with ⟨_, hs, -⟩ | ⟨t, work, ht, hw, -, -⟩
  · rw [hs]
  · obtain ⟨hr, hv⟩ := h.perform_eq ht _ hw
    rw [hv, ← hr, hf, Operation.written_error]
    rfl

/-- A transaction that commits leaves in the tables what was in sight. -/
theorem tables_commit (h : Sound [scope] s) {success : Bool}
    (hc : (s.closeScope scope success).2.commits ≠ s.commits) :
    (s.closeScope scope success).2.tables = s.visible := by
  obtain rfl : scope = ⟨true⟩ := congrArg Scope.mk h.nested.1
  by_cases hf : success = false ∨ s.rollbackOnly = true
  · rw [closeScope_rollback hf] at hc
    exact absurd rfl hc
  · simp only [not_or, Bool.not_eq_false, Bool.not_eq_true] at hf
    obtain ⟨p, hp, -⟩ := h.buffered
    rw [hf.1, closeScope_commit hf.2, visible, hp]
    rfl

/-- The latest writes, put over the tables in any order, make what is in sight. -/
theorem overlay_visible (h : Sound scopes s) {p : Pending} (hp : s.pending = some p) (typeName : String)
    {rows : Dict EntityId (Option Entity)} (hr : (p.touched typeName).Perm rows) :
    (s.tables.table typeName).overlay rows = s.visible.table typeName := by
  rw [visible, hp]
  exact (h.coherent p hp).overlay_touched h.sorted typeName hr

/-- All entities in sight, listed by count and by find. -/
theorem lists (h : Sound scopes s) (name : String) :
    ∃ es, s.visible.Lists name es ∧ s.count name = es.length ∧
      ∀ t, s.access name = .ok t → (s.perform name .findAll).1 = .ok es := by
  refine ⟨(s.view name).values, ?_, (List.length_map _).symm, fun t ht => ?_⟩
  · rw [h.view_eq]
    exact h.visible_sorted.lists name
  · have hn : t.name = name := by
      unfold access at ht
      split at ht
      · cases ht
        exact h.named name _ ‹_›
      · cases ht
    rw [(h.perform_eq ht .findAll rfl).1]
    show Except.ok (s.openScope.2.view t.name).values = _
    rw [h.enter.view_eq, h.visible_enter, h.view_eq, hn]

end Sound

/-- In every reachable state an operation answers from what is in sight and changes at most what it
names; one that fails changes nothing. The entities of a type are counted and found as they are
listed. A transaction that commits leaves in the tables what was in sight before, whichever order the
latest writes are enumerated in. -/
theorem answers_from_sight {scopes : List Scope} {s : Store} (h : Reachable scopes s) :
    (∀ {α : Type} (name : String) (t : EntityType) (op : Operation α), s.access name = .ok t →
      op.Answers t s.visible (s.perform name op).2.visible (s.perform name op).1) ∧
    (∀ {α : Type} (name : String) (op : Operation α) (f : Failure), (s.perform name op).1 = .error f →
      (s.perform name op).2.visible = s.visible) ∧
    (∀ name, ∃ es, s.visible.Lists name es ∧ s.count name = es.length ∧
      ∀ t, s.access name = .ok t → (s.perform name .findAll).1 = .ok es) ∧
    (∀ scope success, scopes = [scope] → (s.closeScope scope success).2.commits ≠ s.commits →
      (s.closeScope scope success).2.tables = s.visible) ∧
    ∀ p name rows, s.pending = some p → (p.touched name).Perm rows →
      (s.tables.table name).overlay rows = s.visible.table name := by
  refine ⟨fun name t op ht => h.sound.answers ht op, fun name op f hf => h.sound.visible_failed hf,
    h.sound.lists, ?_, fun p name rows hp hr => h.sound.overlay_visible hp name hr⟩
  rintro scope success rfl hc
  exact h.sound.tables_commit hc

/-- A user created in an open transaction is in sight there, so its identifier is taken. -/
theorem answers_in_transaction :
    let user := EntityType.new "User"
    let ann : Entity := ⟨"User", [("id", .integer 1)]⟩
    let s := (Store.perform (openScope { types := Catalog.ofTypes [user] }).2 "User" (.create ann)).2
    Reachable [⟨true⟩] s ∧ s.tables = [] ∧ (s.perform "User" (.find (.integer 1))).1 = .ok (some ann) ∧
      Fails (s.perform "User" (.create ann)).1 .persistence ∧
      (s.closeScope ⟨true⟩ true).2.tables = s.visible := by
  intro user ann s
  have h : Reachable [⟨true⟩] s := (Reachable.start [user]).enter.perform "User" (.create ann)
  have hu : s.access "User" = .ok user := by
    unfold s ann user
    rfl
  have hs : s.visible.get "User" (.int 1) = some ann := by
    unfold s ann user
    rfl
  have hid : idOf user ann = .ok (.int 1) := by
    unfold user ann
    rfl
  obtain ⟨answers, -, -, commit, -⟩ := answers_from_sight h
  have hfind := (answers "User" user (.find (.integer 1)) hu).2
  have hcreate := (answers "User" user (.create ann) hu).2.1 (.int 1) rfl hid
  refine ⟨h, ?_, ?_, ?_, commit ⟨true⟩ true rfl ?_⟩
  · unfold s ann user
    rfl
  · rw [hfind]
    exact congrArg Except.ok hs
  · simp only [show user.name = "User" from rfl, hs] at hcreate
    exact hcreate
  · unfold s ann user
    decide

end Fixtures
