import Fixtures.Proofs.Atomicity
import Fixtures.Proofs.Interleaving
import Fixtures.Proofs.Rows
import Mathlib.Data.List.Forall2
/-!
# Creating a list of entities

A list is created one entity after the other, each in a unit of work of its
own. Outside a transaction every one of these commits, so a failure leaves in
the tables what was created before it; only a unit of work around the whole
list takes that back. `Tables.Gains` says what a list adds to what is in sight.
-/

namespace Fixtures

open Store

/-- What is stored for a new entity: the entity itself if it carries an identifier, or else with a number for it. -/
def Entity.StoredAs (t : EntityType) (e e' : Entity) : Prop :=
  (idValue? t e).isSome = true ∧ e' = e ∨ idValue? t e = none ∧ ∃ n, e.set t.idName (.integer n) = .ok e'

/-- Entities were added as `stored`, each under the identifier it carries, which was free. Nothing else changed. -/
structure Tables.Gains (t : EntityType) (v : Tables) (es stored : List Entity) (v' : Tables) : Prop where
  made : List.Forall₂ (Entity.StoredAs t) es stored
  distinct : stored.Pairwise fun e e' => idOf t e ≠ idOf t e'
  found : ∀ e ∈ stored, ∃ id, idOf t e = .ok id ∧ v.get t.name id = none ∧ v'.get t.name id = some e
  others : ∀ name id, (name = t.name → ∀ e ∈ stored, idOf t e ≠ .ok id) → v'.get name id = v.get name id

namespace Tables.Gains

variable {t : EntityType} {v v' v'' : Tables} {e e' : Entity} {es stored : List Entity} {id : EntityId}

theorem nil (t : EntityType) (v : Tables) : Gains t v [] [] v :=
  ⟨.nil, .nil, fun _ h => (nomatch h), fun _ _ _ => rfl⟩

/-- One more entity, before the others. -/
theorem cons (hmade : e.StoredAs t e') (hid : idOf t e' = .ok id) (hfree : v.get t.name id = none)
    (ha : v.Assigned t.name id (some e') v') (h : Gains t v' es stored v'') :
    Gains t v (e :: es) (e' :: stored) v'' := by
  have htaken : v'.get t.name id = some e' := by rw [ha, if_pos ⟨rfl, rfl⟩]
  -- The identifiers of the others were free after the first entity had got its own.
  have hother : ∀ x ∈ stored, ∀ j, idOf t x = .ok j → j ≠ id := by
    rintro x hx j hj rfl
    obtain ⟨i, hi, hnone, -⟩ := h.found x hx
    obtain rfl : i = j := Except.ok.inj (hi.symm.trans hj)
    cases hnone.symm.trans htaken
  refine ⟨.cons hmade h.made, List.pairwise_cons.2 ⟨?_, h.distinct⟩, ?_, ?_⟩
  · intro x hx hsame
    exact hother x hx id (hsame.symm.trans hid) rfl
  · intro x hx
    rcases List.mem_cons.1 hx with rfl | hx
    · refine ⟨id, hid, hfree, ?_⟩
      rw [h.others t.name id fun _ x hx hj => hother x hx id hj rfl, htaken]
    · obtain ⟨j, hj, hnone, hsome⟩ := h.found x hx
      refine ⟨j, hj, ?_, hsome⟩
      rw [← hnone, ha, if_neg fun hc => hother x hx j hj hc.2]
  · intro name j hj
    rw [h.others name j fun hn x hx => hj hn x (List.mem_cons_of_mem _ hx), ha, if_neg]
    rintro ⟨hn, rfl⟩
    exact hj hn e' List.mem_cons_self hid

/-- Adding entities changes the tables, unless there are none. -/
theorem eq_iff (h : Gains t v es stored v') (hnil : es = [] → v' = v) : v' = v ↔ es = [] := by
  refine ⟨fun hv => ?_, hnil⟩
  subst hv
  cases stored with
  | nil => exact List.forall₂_nil_right_iff.1 h.made
  | cons e' stored =>
    obtain ⟨id, -, hnone, hsome⟩ := h.found e' List.mem_cons_self
    cases hnone.symm.trans hsome

end Tables.Gains

/-! ## One entity -/

namespace Store

variable {t : EntityType} {e e' : Entity} {s : Store} {name : String}

theorem perform_create (ht : s.access name = .ok t) (e : Entity) : s.perform name (.create e) = create t e s := by
  rw [perform, ht]
  rfl

theorem create_eq_exec (he : e.typeName = t.name) (s : Store) : create t e s = s.exec (putNew t e) := by
  rw [create, checkType_eq_ok.2 he]

theorem create_foreign (he : e.typeName ≠ t.name) (s : Store) :
    create t e s = (.error (.foreignEntity t.name e.typeName), s) := by
  rw [create, checkType_foreign he]

theorem work_create (he : e.typeName = t.name) : (Operation.create e).work t = .ok (putNew t e) := by
  simp [Operation.work, checkType_eq_ok.2 he, Except.map]

theorem putNew_storedAs (h : (putNew t e s).1 = .ok e') : e.StoredAs t e' := by
  obtain ⟨v, id, hv, -, -, rfl⟩ := putNew_eq_ok_iff.1 h
  unfold identified
  cases hnil : v.isNil with
  | true =>
    have hhas : Dict.has e.attributes t.idName = true := Option.isSome_of_eq_some hv
    refine .inr ⟨by simp [idValue?, hv, hnil], s.sequence t.name + 1, ?_⟩
    rw [Entity.set, Entity.set?, if_pos hhas, if_pos rfl]
  | false => exact .inl ⟨by simp [idValue?, hv, hnil], rfl⟩

end Store

namespace Sound

variable {scopes : List Scope} {s : Store} {name : String} {t : EntityType} {e e' : Entity} {f : Failure}

section Outermost

variable {α : Type} {a : α} {op : Operation α} {work : Store → Except Failure α × Store}

/-- Outside a transaction an operation that succeeds is committed. -/
theorem exec_committed (h : Sound [] s) (hw : op.work t = .ok work) (hr : (s.exec work).1 = .ok a) :
    Committed s (op.written t (.ok a)) (s.exec work).2 := by
  obtain ⟨p, hp, -⟩ := h.enter.buffered
  have hclosed : s.inTransaction = false := h.inTransaction_iff
  rw [(h.exec_work hw).1] at hr
  have hin := Within.work hw hp
  rw [hr] at hin
  obtain ⟨-, hstate⟩ := closeScope_committed hclosed hin (Act.anyFailed_map_write _)
  rw [exec_snd, hr]
  rwa [Act.writes_map_write] at hstate

/-- Outside a transaction an operation that fails in its unit of work is rolled back. -/
theorem exec_rolledBack (h : Sound [] s) (hw : op.work t = .ok work) (hr : (s.exec work).1 = .error f) :
    RolledBack s (s.exec work).2 := by
  obtain ⟨p, hp, -⟩ := h.enter.buffered
  have hclosed : s.inTransaction = false := h.inTransaction_iff
  rw [(h.exec_work hw).1] at hr
  rw [exec_snd, hr]
  exact (closeScope_rolledBack hclosed (Within.work hw hp) false (.inl rfl)).2

end Outermost

theorem create_kept (h : Sound scopes s) (ht : s.access name = .ok t) (e : Entity) :
    Sound scopes (create t e s).2 ∧ (create t e s).2.access name = .ok t := by
  rw [← perform_create ht]
  refine ⟨h.perform name (.create e), ?_⟩
  rw [access, perform_types h]
  exact ht

/-- An entity that was created is in sight under the identifier it got. -/
theorem create_gains (h : Sound scopes s) (ht : s.access name = .ok t) (hr : (create t e s).1 = .ok e') :
    e.StoredAs t e' ∧ ∃ id, idOf t e' = .ok id ∧ s.visible.get t.name id = none ∧
      s.visible.Assigned t.name id (some e') (create t e s).2.visible := by
  refine ⟨?_, ?_⟩
  · by_cases he : e.typeName = t.name
    · rw [create_eq_exec he] at hr
      exact putNew_storedAs ((h.exec_work (work_create he)).1.symm.trans hr)
    · rw [create_foreign he] at hr
      cases hr
  · have hanswers := (h.answers_create ht e).2.2 e'
    rw [perform_create ht] at hanswers
    exact hanswers hr

/-- Outside a transaction a create that succeeds is one commit. -/
theorem create_committed (h : Sound [] s) (hr : (create t e s).1 = .ok e') :
    (create t e s).2.commits = s.commits + 1 ∧ (create t e s).2.rollbacks = s.rollbacks := by
  by_cases he : e.typeName = t.name
  · rw [create_eq_exec he] at hr ⊢
    have hc := h.exec_committed (work_create he) hr
    exact ⟨hc.commits, hc.rollbacks⟩
  · rw [create_foreign he] at hr
    cases hr

/-- Outside a transaction a create that fails changes no table. It is rolled back unless it was refused at once. -/
theorem create_failed (h : Sound [] s) (hr : (create t e s).1 = .error f) :
    (create t e s).2.tables = s.tables ∧ (create t e s).2.commits = s.commits ∧
      (create t e s).2.rollbacks = s.rollbacks + if e.typeName = t.name then 1 else 0 := by
  by_cases he : e.typeName = t.name
  · rw [create_eq_exec he] at hr ⊢
    have hc := h.exec_rolledBack (work_create he) hr
    exact ⟨hc.tables, hc.commits, by rw [hc.rollbacks, if_pos he]⟩
  · rw [create_foreign he, if_neg he]
    exact ⟨rfl, rfl, rfl⟩

end Sound

/-! ## A list of entities -/

namespace Store

variable {t : EntityType} {e e' : Entity} {es stored : List Entity} {s s' : Store} {f : Failure}

/-- A list of which the first entity is created goes on with the others. -/
theorem createAll_cons_ok (hc : create t e s = (.ok e', s')) :
    createAll t (e :: es) s = ((createAll t es s').1.map (e' :: ·), (createAll t es s').2) := by
  rw [createAll_cons, andThen_eq, hc]

theorem createAll_cons_error (hc : create t e s = (.error f, s')) : createAll t (e :: es) s = (.error f, s') := by
  rw [createAll_cons, andThen_eq, hc]

/-- A list that is created has its first entity created, and then the others. -/
theorem createAll_cons_eq_ok (hr : (createAll t (e :: es) s).1 = .ok stored) :
    ∃ e' rest s', stored = e' :: rest ∧ create t e s = (.ok e', s') ∧ (createAll t es s').1 = .ok rest ∧
      (createAll t (e :: es) s).2 = (createAll t es s').2 := by
  rcases hc : create t e s with ⟨f | e', s'⟩
  · rw [createAll_cons_error hc] at hr
    cases hr
  · rw [createAll_cons_ok hc] at hr ⊢
    obtain ⟨rest, hrest, rfl⟩ := map_eq_ok hr
    exact ⟨e', rest, s', rfl, rfl, hrest, rfl⟩

/-- A list fails where its first failing entity does, after those before it were created. -/
theorem createAll_failed (hr : (createAll t es s).1 = .error f) :
    ∃ done e rest stored, es = done ++ e :: rest ∧ (createAll t done s).1 = .ok stored ∧
      (create t e (createAll t done s).2).1 = .error f ∧
      (createAll t es s).2 = (create t e (createAll t done s).2).2 := by
  induction es generalizing s with
  | nil => cases hr
  | cons e es ih =>
    rcases hc : create t e s with ⟨g | e', s'⟩
    · rw [createAll_cons_error hc] at hr ⊢
      obtain rfl : g = f := Except.error.inj hr
      refine ⟨[], e, es, [], rfl, rfl, ?_, ?_⟩
      · rw [createAll, hc]
      · rw [createAll, hc]
    · rw [createAll_cons_ok hc] at hr ⊢
      have hrest : (createAll t es s').1 = .error f := by
        cases hes : (createAll t es s').1 with
        | error g =>
          rw [hes] at hr
          exact hr
        | ok stored =>
          rw [hes] at hr
          cases hr
      obtain ⟨done, x, rest, stored, rfl, hdone, hx, hsnd⟩ := ih hrest
      refine ⟨e :: done, x, rest, e' :: stored, rfl, ?_, ?_, ?_⟩
      · rw [createAll_cons_ok hc, hdone]
        rfl
      · rw [createAll_cons_ok hc]
        exact hx
      · rw [createAll_cons_ok hc]
        exact hsnd

end Store

namespace Sound

variable {scopes : List Scope} {s : Store} {name : String} {t : EntityType} {es stored : List Entity}

/-- A list that is created comes in sight. -/
theorem createAll_gains (h : Sound scopes s) (ht : s.access name = .ok t) (hr : (createAll t es s).1 = .ok stored) :
    Tables.Gains t s.visible es stored (createAll t es s).2.visible := by
  induction es generalizing s stored with
  | nil =>
    cases hr
    exact .nil t s.visible
  | cons e es ih =>
    obtain ⟨e', rest, s', rfl, hc, hrest, hsnd⟩ := createAll_cons_eq_ok hr
    have hok : (create t e s).1 = .ok e' := by rw [hc]
    obtain ⟨hmade, id, hid, hfree, hassigned⟩ := h.create_gains ht hok
    obtain ⟨hsound, ht'⟩ := h.create_kept ht e
    rw [hc] at hsound ht'
    rw [hc] at hassigned
    rw [hsnd]
    exact (ih hsound ht' hrest).cons hmade hid hfree hassigned

/-- Outside a transaction a list that is created is one commit for each entity. -/
theorem createAll_commits (h : Sound [] s) (ht : s.access name = .ok t) (hr : (createAll t es s).1 = .ok stored) :
    (createAll t es s).2.commits = s.commits + es.length ∧ (createAll t es s).2.rollbacks = s.rollbacks := by
  induction es generalizing s stored with
  | nil => exact ⟨rfl, rfl⟩
  | cons e es ih =>
    obtain ⟨e', rest, s', rfl, hc, hrest, hsnd⟩ := createAll_cons_eq_ok hr
    have hok : (create t e s).1 = .ok e' := by rw [hc]
    obtain ⟨hcommits, hrollbacks⟩ := h.create_committed hok
    obtain ⟨hsound, ht'⟩ := h.create_kept ht e
    rw [hc] at hsound ht'
    rw [hc] at hcommits hrollbacks
    obtain ⟨hcommits', hrollbacks'⟩ := ih hsound ht' hrest
    rw [hsnd, hcommits', hrollbacks', hcommits, hrollbacks, List.length_cons]
    exact ⟨by omega, rfl⟩

/-- Inside a transaction a list that is created dooms nothing. -/
theorem createAll_within {scope : Scope} (h : Sound (scope :: scopes) s) (ht : s.access name = .ok t)
    (hr : (createAll t es s).1 = .ok stored) :
    ∃ acts, Within s acts (createAll t es s).2 ∧ Act.anyFailed acts = false := by
  induction es generalizing s stored with
  | nil =>
    obtain ⟨p, hp, -⟩ := h.buffered
    exact ⟨[], .idle hp rfl rfl, rfl⟩
  | cons e es ih =>
    obtain ⟨e', rest, s', rfl, hc, hrest, hsnd⟩ := createAll_cons_eq_ok hr
    obtain ⟨p, hp, -⟩ := h.buffered
    have hd : 0 < s.depth := by rw [h.depth]; exact Nat.succ_pos _
    have hstep := (Steps.perform s name (.create e)).within hd hp
    have hacts : Act.anyFailed (s.acts name (.create e)) = false := by
      rcases s.perform_cases name (.create e) with ⟨f, -, -, hnone⟩ | ⟨u, work, -, hw, hs, hacts⟩
      · exact hnone
      · have hok : (work s.openScope.2).1 = .ok e' := by
          rw [← (h.exec_work hw).1, ← hs, perform_create ht, hc]
        rw [hacts, hok]
        simp
    obtain ⟨hsound, ht'⟩ := h.create_kept ht e
    rw [perform_create ht, hc] at hstep
    rw [hc] at hsound ht'
    obtain ⟨acts, hwithin, hnone⟩ := ih hsound ht' hrest
    rw [hsnd]
    exact ⟨_, hstep.trans hwithin, by rw [Act.anyFailed_append, hacts, hnone]; rfl⟩

/-- In a unit of work of its own a list is committed as a whole. -/
theorem exec_createAll_ok (h : Sound [] s) (ht : s.access name = .ok t)
    (hr : (createAll t es s.openScope.2).1 = .ok stored) :
    (s.exec (createAll t es)).1 = .ok stored ∧
      Tables.Gains t s.tables es stored (s.exec (createAll t es)).2.tables ∧
      (s.exec (createAll t es)).2.commits = s.commits + 1 ∧
      (s.exec (createAll t es)).2.rollbacks = s.rollbacks := by
  have hclosed : s.inTransaction = false := h.inTransaction_iff
  have ht' : s.openScope.2.access name = .ok t := by
    rw [access, s.openScope_kept.1]
    exact ht
  have hgains := h.enter.createAll_gains ht' hr
  obtain ⟨acts, hwithin, hnone⟩ := h.enter.createAll_within ht' hr
  obtain ⟨hres, hstate⟩ := closeScope_committed hclosed hwithin hnone
  have hinner := (confined_createAll t es).sound h.enter
  have hcommits : ((createAll t es s.openScope.2).2.closeScope s.openScope.1 true).2.commits ≠
      (createAll t es s.openScope.2).2.commits := by
    rw [hstate.commits, (opened_eq hclosed hwithin).2.2.1]
    exact Nat.succ_ne_self _
  rw [h.visible_enter, h.visible_outside, ← hinner.tables_commit hcommits] at hgains
  rw [exec_fst, exec_snd, hr, Ending.succeeded_ok, hres]
  exact ⟨rfl, hgains, hstate.commits, hstate.rollbacks⟩

theorem exec_createAll_error (h : Sound [] s) (hr : (createAll t es s.openScope.2).1 = .error f) :
    (s.exec (createAll t es)).1 = .error f ∧ RolledBack s (s.exec (createAll t es)).2 := by
  have hclosed : s.inTransaction = false := h.inTransaction_iff
  obtain ⟨acts, hwithin, -⟩ := (confined_createAll t es).acts h.enter h.enter (.refl t.name _)
  obtain ⟨hres, hstate⟩ := closeScope_rolledBack hclosed hwithin false (.inl rfl)
  rw [exec_fst, exec_snd, hr, Ending.succeeded_error, hres]
  exact ⟨rfl, hstate⟩

end Sound

/-- A list is created one entity after the other. Outside a transaction each is committed before the next: if all are
created, they are returned in order, and if one cannot be created, its failure is returned, and those before it stay.
So a list that fails leaves the tables as they were if and only if its first entity fails. In a unit of work around it
the list is created as a whole or not at all. -/
theorem list_created_one_by_one {s : Store} (h : Reachable [] s) {name : String} {t : EntityType}
    (ht : s.access name = .ok t) (es : List Entity) :
    (∀ stored, (createAll t es s).1 = .ok stored →
      Tables.Gains t s.tables es stored (createAll t es s).2.tables ∧
      (createAll t es s).2.commits = s.commits + es.length ∧ (createAll t es s).2.rollbacks = s.rollbacks) ∧
    (∀ f, (createAll t es s).1 = .error f → ∃ done e rest stored, es = done ++ e :: rest ∧
      (createAll t done s).1 = .ok stored ∧ (create t e (createAll t done s).2).1 = .error f ∧
      Tables.Gains t s.tables done stored (createAll t es s).2.tables ∧
      (createAll t es s).2.commits = s.commits + done.length ∧
      (createAll t es s).2.rollbacks = s.rollbacks + (if e.typeName = t.name then 1 else 0) ∧
      ((createAll t es s).2.tables = s.tables ↔ done = [])) ∧
    (createAll t es s).2.inTransaction = false ∧
    (∀ stored, (s.exec (createAll t es)).1 = .ok stored →
      Tables.Gains t s.tables es stored (s.exec (createAll t es)).2.tables ∧
      (s.exec (createAll t es)).2.commits = s.commits + 1 ∧ (s.exec (createAll t es)).2.rollbacks = s.rollbacks) ∧
    (∀ f, (s.exec (createAll t es)).1 = .error f → RolledBack s (s.exec (createAll t es)).2) := by
  have hs := h.sound
  have hend := (confined_createAll t es).sound hs
  refine ⟨?_, ?_, hend.inTransaction_iff, ?_, ?_⟩
  · intro stored hr
    have hgains := hs.createAll_gains ht hr
    rw [hs.visible_outside, hend.visible_outside] at hgains
    exact ⟨hgains, hs.createAll_commits ht hr⟩
  · intro f hr
    obtain ⟨done, e, rest, stored, hsplit, hdone, he, hlast⟩ := createAll_failed hr
    have hbefore := (confined_createAll t done).sound hs
    have hgains := hs.createAll_gains ht hdone
    obtain ⟨hcommits, hrollbacks⟩ := hs.createAll_commits ht hdone
    obtain ⟨htables, hcommits', hrollbacks'⟩ := hbefore.create_failed he
    rw [hs.visible_outside, hbefore.visible_outside] at hgains
    rw [hlast, htables, hcommits', hrollbacks', hcommits, hrollbacks]
    refine ⟨done, e, rest, stored, hsplit, hdone, he, hgains, rfl, rfl, hgains.eq_iff ?_⟩
    rintro rfl
    rfl
  · intro stored hr
    cases hin : (createAll t es s.openScope.2).1 with
    | error f => cases hr.symm.trans (hs.exec_createAll_error hin).1
    | ok stored' =>
      obtain ⟨hres, hcommitted⟩ := hs.exec_createAll_ok ht hin
      obtain rfl : stored' = stored := Except.ok.inj (hres.symm.trans hr)
      exact hcommitted
  · intro f hr
    cases hin : (createAll t es s.openScope.2).1 with
    | error g => exact (hs.exec_createAll_error hin).2
    | ok stored => cases hr.symm.trans (hs.exec_createAll_ok ht hin).1

/-- A list of two users is two commits. With the first user once more at its end the list clashes; in a unit of work
around it, that takes back all three. -/
theorem two_users_two_commits :
    let user := EntityType.new "User"
    let s : Store := { types := Catalog.ofTypes [user] }
    let ann : Entity := ⟨"User", [("id", .integer 1)]⟩
    let bob : Entity := ⟨"User", [("id", .nil)]⟩
    let numbered : Entity := ⟨"User", [("id", .integer 2)]⟩
    Reachable [] s ∧ s.access "User" = .ok user ∧
      (createAll user [ann, bob] s).1 = .ok [ann, numbered] ∧
      Tables.Gains user s.tables [ann, bob] [ann, numbered] (createAll user [ann, bob] s).2.tables ∧
      (createAll user [ann, bob] s).2.commits = 2 ∧
      RolledBack s (s.exec (createAll user [ann, bob, ann])).2 := by
  intro user s ann bob numbered
  have h : Reachable [] s := .start [user]
  have ht : s.access "User" = .ok user := by
    unfold s user
    rfl
  have hr : (createAll user [ann, bob] s).1 = .ok [ann, numbered] := by
    unfold s user ann bob numbered
    rfl
  have hclash : (s.exec (createAll user [ann, bob, ann])).1 = .error (.alreadyExists "User" (.int 1)) := by
    unfold s user ann bob
    rfl
  obtain ⟨hgains, hcommits, -⟩ := (list_created_one_by_one h ht [ann, bob]).1 _ hr
  exact ⟨h, ht, hr, hgains, hcommits, (list_created_one_by_one h ht [ann, bob, ann]).2.2.2.2 _ hclash⟩

/-- The same user twice in a list: the second clashes with the first, which stays in the tables. -/
theorem clash_leaves_first_user :
    let user := EntityType.new "User"
    let s : Store := { types := Catalog.ofTypes [user] }
    let ann : Entity := ⟨"User", [("id", .integer 1)]⟩
    Reachable [] s ∧ s.access "User" = .ok user ∧ s.inTransaction = false ∧
      (createAll user [ann, ann] s).1 = .error (.alreadyExists "User" (.int 1)) ∧
      s.tables.get "User" (.int 1) = none ∧
      (createAll user [ann, ann] s).2.tables.get "User" (.int 1) = some ann ∧
      (createAll user [ann, ann] s).2.commits = 1 ∧ (createAll user [ann, ann] s).2.rollbacks = 1 := by
  intro user s ann
  have ht : s.access "User" = .ok user := by
    unfold s user
    rfl
  refine ⟨.start [user], ht, rfl, ?_, rfl, ?_, ?_, ?_⟩
  all_goals
    unfold s user ann
    rfl

end Fixtures
