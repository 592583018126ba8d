import Fixtures.Proofs.Blocks
import Fixtures.Proofs.Holdings
import Fixtures.Proofs.Visible
/-!
# What a row creates

A row pairs its values with the columns of the innermost context, so a column
that is listed twice takes the later value, and attributes without a value keep
their defaults. What is stored is the entity that is returned and recorded: the
store adds an identifier where the row left nil, and nothing else. A row that
fails leaves the contexts and the entities in sight as they were.
-/

namespace Fixtures

open Store

/-! ## Assignments in order -/

theorem Dict.isSome_get?_insert {d : Variables} {k : String} (hk : Dict.has d k = true) (v : Value) (j : String) :
    ((d.insert k v).get? j).isSome = (d.get? j).isSome := by
  rw [Dict.get?_insert]
  split
  · rename_i hj
    rw [Std.LawfulEqOrd.eq_of_compare hj]
    exact hk.symm
  · rfl

namespace Entity

/-- Assignments to attributes of the entity succeed, and are made in order. -/
theorem setAll_eq_ok {e e' : Entity} {l : List (String × Value)} :
    e.setAll l = .ok e' ↔
      (∀ p ∈ l, (e.get? p.1).isSome = true) ∧ e' = ⟨e.typeName, Dict.extend e.attributes l⟩ := by
  induction l generalizing e with
  | nil =>
    obtain ⟨typeName, attributes⟩ := e
    have hnil : Entity.setAll ⟨typeName, attributes⟩ [] = .ok ⟨typeName, attributes⟩ := rfl
    rw [hnil, Except.ok.injEq]
    exact ⟨fun h => ⟨fun _ hp => (nomatch hp), h.symm⟩, fun h => h.2.symm⟩
  | cons p l ih =>
    have hcons : e.setAll (p :: l) = (e.set p.1 p.2).bind fun e => e.setAll l := rfl
    rw [hcons, Entity.set, Entity.set?, List.forall_mem_cons]
    by_cases hp : Dict.has e.attributes p.1 = true
    · have hstep : ∀ q, (Entity.get? ⟨e.typeName, Dict.insert e.attributes p.1 p.2⟩ q).isSome = (e.get? q).isSome :=
        Dict.isSome_get?_insert hp p.2
      rw [if_pos hp]
      refine (ih (e := ⟨e.typeName, Dict.insert e.attributes p.1 p.2⟩)).trans ?_
      simp only [hstep]
      exact and_congr_left fun _ => ⟨fun h => ⟨hp, h⟩, And.right⟩
    · rw [if_neg hp]
      exact iff_of_false nofun fun h => hp h.1.1

theorem get?_setAll {e e' : Entity} {l : List (String × Value)} (h : e.setAll l = .ok e') (a : String) :
    e'.get? a = (Dict.get? l.reverse a).or (e.get? a) := by
  rw [(setAll_eq_ok.1 h).2]
  exact Dict.get?_extend_last e.attributes l a

end Entity

/-! ## The instance -/

/-- The value that a row gives an attribute: that of the last column of this name to which a value belongs, or else
the default. -/
def Context.Gives (c : Context) (values : List Value) (a : String) (v : Value) : Prop :=
  (∃ j : Nat, c.columns[j]? = some a ∧ values[j]? = some v ∧
    ∀ i : Nat, j < i → i < values.length → c.columns[i]? ≠ some a) ∨
  (∀ i : Nat, i < values.length → c.columns[i]? ≠ some a) ∧ v = (c.type.defaults.get? a).getD .nil

/-- It is one value. -/
theorem Context.Gives.unique {c : Context} {values : List Value} {a : String} {v w : Value} (h : c.Gives values a v)
    (h' : c.Gives values a w) : v = w := by
  have hlt {j : Nat} {v : Value} (hv : values[j]? = some v) : j < values.length := (List.getElem?_eq_some_iff.1 hv).1
  rcases h with ⟨j, hc, hv, hlast⟩ | ⟨hnone, rfl⟩
  · rcases h' with ⟨j', hc', hv', hlast'⟩ | ⟨hnone', -⟩
    · obtain rfl : j = j' := Nat.le_antisymm (Nat.le_of_not_lt fun hj => hlast' j hj (hlt hv) hc)
        (Nat.le_of_not_lt fun hj => hlast j' hj (hlt hv') hc')
      exact Option.some.inj (hv.symm.trans hv')
    · exact absurd hc (hnone' j (hlt hv))
  · rcases h' with ⟨j', hc', hv', -⟩ | ⟨-, rfl⟩
    · exact absurd hc' (hnone j' (hlt hv'))
    · rfl

namespace EntityType

theorem instantiate_eq_ok {t : EntityType} {e : Entity} (h : t.instantiate = .ok e) :
    e.typeName = t.name ∧
      ∀ a, e.get? a = if t.declares a = true then some ((t.defaults.get? a).getD .nil) else none := by
  unfold instantiate at h
  split at h
  · cases h
    refine ⟨rfl, fun a => ?_⟩
    have hlast := Dict.get?_extend_last [] (t.attributes.map fun a => (a, (t.defaults.get? a).getD .nil)) a
    rw [← List.map_reverse, Dict.get?_tabulated] at hlast
    simpa [declares, Entity.get?, Dict.ofPairs, Dict.get?] using hlast
  · cases h

end EntityType

namespace Session

/-- There is an instance unless the type is abstract, there are too many values, or one would go to an attribute that
is not declared. -/
theorem instanceOf_isOk_iff {c : Context} {values : List Value} :
    (∃ e, instanceOf c values = .ok e) ↔ c.type.instantiable = true ∧ values.length ≤ c.columns.length ∧
      ∀ p ∈ c.columns.zip values, c.type.declares p.1 = true := by
  unfold instanceOf
  by_cases hlong : c.columns.length < values.length
  · rw [if_pos hlong]
    exact iff_of_false (fun ⟨_, he⟩ => (nomatch he)) fun h => absurd h.2.1 (Nat.not_le.2 hlong)
  · rw [if_neg hlong]
    cases hblank : c.type.instantiate with
    | error f =>
      refine iff_of_false (fun ⟨_, he⟩ => (nomatch he)) fun h => ?_
      rw [EntityType.instantiate, if_pos h.1] at hblank
      cases hblank
    | ok blank =>
      have hdeclares : ∀ a, (blank.get? a).isSome = c.type.declares a := fun a => by
        rw [(EntityType.instantiate_eq_ok hblank).2]
        cases c.type.declares a <;> rfl
      have hinstantiable : c.type.instantiable = true := by
        unfold EntityType.instantiate at hblank
        split at hblank
        · assumption
        · cases hblank
      dsimp only
      simp only [Entity.setAll_eq_ok, hdeclares]
      exact ⟨fun ⟨_, h, _⟩ => ⟨hinstantiable, Nat.not_lt.1 hlong, h⟩, fun h => ⟨_, h.2.2, rfl⟩⟩

/-- An instance has the declared attributes with the values that the row gives them. -/
theorem instanceOf_eq_ok {c : Context} {values : List Value} {e : Entity} (h : instanceOf c values = .ok e) :
    e.typeName = c.type.name ∧ (∀ a, (e.get? a).isSome = c.type.declares a) ∧
      ∀ a v, e.get? a = some v → c.Gives values a v := by
  unfold instanceOf at h
  split at h
  · cases h
  split at h
  · cases h
  rename_i hlength blank hblank
  obtain ⟨hname, hget⟩ := EntityType.instantiate_eq_ok hblank
  obtain ⟨hdeclared, rfl⟩ := Entity.setAll_eq_ok.1 h
  refine ⟨hname, fun a => ?_, fun a v hv => ?_⟩
  · rw [Entity.get?_setAll h]
    cases hl : Dict.get? (c.columns.zip values).reverse a with
    | some w =>
      have hsome := hdeclared (a, w) (List.mem_reverse.1 (Dict.mem_of_get? hl))
      rw [hget] at hsome
      cases hd : c.type.declares a <;> simp_all
    | none =>
      rw [Option.none_or, hget]
      cases c.type.declares a <;> rfl
  · rw [Entity.get?_setAll h] at hv
    cases hl : Dict.get? (c.columns.zip values).reverse a with
    | some w =>
      rw [hl] at hv
      obtain rfl : w = v := Option.some.inj hv
      obtain ⟨j, hj, hlast⟩ := Dict.place_of_last hl
      obtain ⟨hcolumn, hvalue⟩ := List.getElem?_zip_eq_some.1 hj
      refine .inl ⟨j, hcolumn, hvalue, fun i hi hlt hc => ?_⟩
      exact hlast i hi values[i] (List.getElem?_zip_eq_some.2 ⟨hc, List.getElem?_eq_getElem hlt⟩)
    | none =>
      rw [hl, Option.none_or, hget] at hv
      refine .inr ⟨fun i hlt hc => Dict.not_mem_keys hl ?_, ?_⟩
      · have hpair : (c.columns.zip values)[i]? = some (a, values[i]) :=
          List.getElem?_zip_eq_some.2 ⟨hc, List.getElem?_eq_getElem hlt⟩
        exact List.mem_map.2 ⟨(a, values[i]), List.mem_reverse.2 (List.mem_of_getElem? hpair), rfl⟩
      · split at hv
        · exact (Option.some.inj hv).symm
        · cases hv

end Session

/-! ## The entity stored -/

namespace Store

variable {t : EntityType} {e e' : Entity} {s : Store} {v : Value}

/-- The identifier of a new entity with this value for it: the next one if it is nil. -/
def identifierFor (s : Store) (typeName : String) (v : Value) : Except Failure EntityId :=
  if v.isNil = true then .ok (.int (s.sequence typeName + 1)) else EntityId.ofValue v

/-- The entity with the identifier it gets, in place of a value that is nil. -/
def identified (s : Store) (t : EntityType) (e : Entity) (v : Value) : Entity :=
  if v.isNil = true then ⟨e.typeName, Dict.insert e.attributes t.idName (.integer (s.sequence t.name + 1))⟩ else e

theorem assignId_eq (hv : e.get? t.idName = some v) (s : Store) :
    ∃ q, assignId t e s =
      ((s.identifierFor t.name v).map fun id => (id, s.identified t e v), { s with sequences := q }) := by
  unfold assignId identifierFor identified
  cases hnil : v.isNil with
  | true =>
    have hid : idValue? t e = none := by simp [idValue?, hv, hnil]
    have hhas : Dict.has e.attributes t.idName = true := Option.isSome_of_eq_some hv
    have hset : e.set t.idName (.integer (s.sequence t.name + 1)) =
        .ok ⟨e.typeName, Dict.insert e.attributes t.idName (.integer (s.sequence t.name + 1))⟩ := by
      rw [Entity.set, Entity.set?, if_pos hhas]
    simp only [hid, nextId, hset]
    exact ⟨_, rfl⟩
  | false =>
    have hid : idValue? t e = some v := by simp [idValue?, hv, hnil]
    simp only [hid]
    cases EntityId.ofValue v with
    | error f => exact ⟨s.sequences, rfl⟩
    | ok id =>
      obtain ⟨q, hq⟩ := observeId_eq s t.name id
      exact ⟨q, congrArg (Prod.mk _) hq⟩

theorem get?_identified (hv : e.get? t.idName = some v) (s : Store) (a : String) :
    (s.identified t e v).get? a = (e.get? a).map fun w =>
      if a = t.idName ∧ w.isNil = true then .integer (s.sequence t.name + 1) else w := by
  unfold identified
  cases hnil : v.isNil with
  | true =>
    rw [if_pos rfl, Entity.get?, Dict.get?_insert]
    by_cases ha : a = t.idName
    · subst ha
      simp [hv, hnil]
    · have hne : compare a t.idName ≠ .eq := fun hc => ha (Std.LawfulEqOrd.eq_of_compare hc)
      simp [hne, ha, Entity.get?]
  | false =>
    rw [if_neg (by simp)]
    by_cases ha : a = t.idName
    · subst ha
      simp [hv, hnil]
    · simp [ha]

/-- A new entity is stored under the identifier it gets, if this is free. -/
theorem putNew_identified (hv : e.get? t.idName = some v) (s : Store) :
    (putNew t e s).1 =
      match s.identifierFor t.name v with
      | .error f => .error f
      | .ok id =>
        match s.lookup t.name id with
        | some _ => .error (.alreadyExists t.name id)
        | none => .ok (s.identified t e v) := by
  obtain ⟨q, hq⟩ := assignId_eq hv s
  rw [putNew, hq]
  cases s.identifierFor t.name v with
  | error f => rfl
  | ok id =>
    have hl : lookup { s with sequences := q } t.name id = s.lookup t.name id := rfl
    simp only [Except.map, hl]
    cases s.lookup t.name id <;> rfl

/-- Without the attribute for it there is no identifier. -/
theorem putNew_unidentified (hv : e.get? t.idName = none) (s : Store) : ∃ f, (putNew t e s).1 = .error f := by
  have hhas : ¬Dict.has e.attributes t.idName = true := by
    rw [Dict.has, show Dict.get? e.attributes t.idName = none from hv]
    nofun
  have hset : e.set t.idName (.integer (s.sequence t.name + 1)) =
      .error (.undeclaredAttribute e.typeName t.idName) := by
    rw [Entity.set, Entity.set?, if_neg hhas]
  refine ⟨.undeclaredAttribute e.typeName t.idName, ?_⟩
  unfold putNew assignId idValue?
  simp only [hv, Option.filter_none, nextId, hset]

/-- A new entity is stored if and only if it gets an identifier that is free. It is stored as it is then, but for an
identifier in place of nil. -/
theorem putNew_eq_ok_iff :
    (putNew t e s).1 = .ok e' ↔ ∃ v id, e.get? t.idName = some v ∧ s.identifierFor t.name v = .ok id ∧
      s.lookup t.name id = none ∧ e' = s.identified t e v := by
  cases hv : e.get? t.idName with
  | none =>
    obtain ⟨f, hf⟩ := putNew_unidentified hv s
    rw [hf]
    exact iff_of_false nofun fun ⟨_, _, hsome, _⟩ => (nomatch hsome)
  | some v =>
    rw [putNew_identified hv]
    constructor
    · intro h
      cases hid : s.identifierFor t.name v with
      | error f =>
        rw [hid] at h
        cases h
      | ok id =>
        cases hfree : s.lookup t.name id with
        | some old =>
          simp only [hid, hfree] at h
          cases h
        | none =>
          simp only [hid, hfree] at h
          exact ⟨v, id, rfl, hid, hfree, (Except.ok.inj h).symm⟩
    · rintro ⟨_, id, ⟨⟩, hid, hfree, rfl⟩
      rw [hid]
      dsimp only
      rw [hfree]

end Store

namespace Reachable

variable {scopes : List Scope} {s : Store} (h : Reachable scopes s) {t : EntityType} (ht : s.access t.name = .ok t)
  {e e' : Entity}

include h ht

/-- A new entity of the type is stored if and only if it gets an identifier under which nothing is in sight. -/
theorem create_eq_ok_iff (he : e.typeName = t.name) :
    (s.perform t.name (.create e)).1 = .ok e' ↔ ∃ v id, e.get? t.idName = some v ∧
      s.identifierFor t.name v = .ok id ∧ s.visible.get t.name id = none ∧ e' = s.identified t e v := by
  have hw : (Operation.create e).work t = .ok (putNew t e) := by
    simp [Operation.work, checkType_eq_ok.2 he, Except.map]
  have hsequence : s.openScope.2.sequence t.name = s.sequence t.name := by
    unfold Store.sequence
    rw [s.openScope_kept.2]
  have hidentifier (v : Value) : s.openScope.2.identifierFor t.name v = s.identifierFor t.name v := by
    rw [identifierFor, identifierFor, hsequence]
  have hidentified (v : Value) : s.openScope.2.identified t e v = s.identified t e v := by
    rw [identified, identified, hsequence]
  rw [(h.sound.perform_eq ht _ hw).1, putNew_eq_ok_iff]
  simp only [h.sound.lookup_enter, hidentifier, hidentified]

/-- It is found under its identifier then. -/
theorem created_found (hr : (s.perform t.name (.create e)).1 = .ok e') :
    ∃ v, e'.get? t.idName = some v ∧ v.isNil = false ∧
      ((s.perform t.name (.create e)).2.perform t.name (.find v)).1 = .ok (some e') := by
  obtain ⟨id, hid, -, hassigned⟩ := (h.sound.answers_create ht e).2.2 e' hr
  obtain ⟨v, hv, hnil, hof⟩ := idOf_eq_ok hid
  refine ⟨v, hv, hnil, ?_⟩
  have hs' := (h.perform t.name (.create e)).sound
  have ht' : (s.perform t.name (.create e)).2.access t.name = .ok t := by
    rw [access, perform_types h.sound]
    exact ht
  rw [(hs'.answers_find ht' v).2, hof]
  show Except.ok ((s.perform t.name (.create e)).2.visible.get t.name id) = _
  rw [hassigned, if_pos ⟨rfl, rfl⟩]

end Reachable

/-! ## Rows -/

namespace Session

/-- A row can be created: its values fit the columns, the type has an instance with them, and the identifier that
this gets is free. -/
structure Admits (s : Session) (c : Context) (values : List Value) : Prop where
  instantiable : c.type.instantiable = true
  fits : values.length ≤ c.columns.length
  declared : ∀ p ∈ c.columns.zip values, c.type.declares p.1 = true
  identified : c.type.declares c.type.idName = true
  free : ∃ v id, c.Gives values c.type.idName v ∧ s.store.identifierFor c.type.name v = .ok id ∧
    s.store.visible.get c.type.name id = none

/-- A row that succeeded created an entity from its values, and recorded it. -/
structure Created (s : Session) (c : Context) (values : List Value) (e : Entity) (s' : Session) : Prop where
  typeName : e.typeName = c.type.name
  declared : ∀ a, (e.get? a).isSome = c.type.declares a
  /-- Each attribute has the value the row gives it; an identifier that is nil is replaced by the next. -/
  value : ∀ a, c.type.declares a = true → ∃ v, c.Gives values a v ∧
    e.get? a = some (if a = c.type.idName ∧ v.isNil = true then .integer (s.store.sequence c.type.name + 1) else v)
  recorded : s'.contexts = { c with created := c.created ++ [e] } :: s.contexts.tail
  /-- It is found under its identifier. -/
  found : ∃ v, e.get? c.type.idName = some v ∧ v.isNil = false ∧ (s'.find c.type v).1 = .ok (some e)

/-- A row in a context is refused before the store is asked, or creates an instance and records it. -/
theorem row_inside {s : Session} {c : Context} {rest : ContextStack} (hc : s.contexts = c :: rest)
    (values : List Value) :
    s.row values =
      match instanceOf c values with
      | .error f => (.error f, s)
      | .ok e =>
        match s.store.perform e.typeName (.create e) with
        | (.error f, store) => (.error f, { s with store })
        | (.ok e, store) => (.ok e, { s with store, contexts := { c with created := c.created ++ [e] } :: rest }) := by
  unfold row
  rw [hc]
  dsimp only
  cases instanceOf c values with
  | error f => rfl
  | ok e =>
    simp only [createNamed_eq, onStore]
    rcases s.store.perform e.typeName (.create e) with ⟨f | e', store⟩
    · simp only [hc]
    · simp only [hc, ContextStack.record]

section

variable {scopes : List Scope} {s : Session} {c : Context} {values : List Value} {e e' : Entity}
  (h : Reachable scopes s.store) (ht : s.store.access c.type.name = .ok c.type) (hi : instanceOf c values = .ok e)

include h ht hi

/-- The instance is stored if and only if the row can be created. -/
theorem create_isOk_iff : (∃ e', (s.store.perform c.type.name (.create e)).1 = .ok e') ↔ s.Admits c values := by
  obtain ⟨hname, hdeclared, hgives⟩ := instanceOf_eq_ok hi
  simp only [h.create_eq_ok_iff ht hname]
  constructor
  · rintro ⟨-, v, id, hv, hid, hfree, -⟩
    obtain ⟨hinstantiable, hfits, hcolumns⟩ := instanceOf_isOk_iff.1 ⟨e, hi⟩
    refine ⟨hinstantiable, hfits, hcolumns, ?_, v, id, hgives _ v hv, hid, hfree⟩
    rw [← hdeclared, hv]
    rfl
  · intro hadmits
    obtain ⟨v, id, hv, hid, hfree⟩ := hadmits.free
    obtain ⟨w, hw⟩ := Option.isSome_iff_exists.1 ((hdeclared _).trans hadmits.identified)
    obtain rfl := hv.unique (hgives _ w hw)
    exact ⟨_, v, id, hw, hid, hfree, rfl⟩

theorem created_of_create {rest : ContextStack} (hc : s.contexts = c :: rest) {store : Store}
    (hp : s.store.perform c.type.name (.create e) = (.ok e', store)) :
    s.Created c values e' { s with store, contexts := { c with created := c.created ++ [e'] } :: rest } := by
  obtain ⟨hname, hdeclared, hgives⟩ := instanceOf_eq_ok hi
  have hok : (s.store.perform c.type.name (.create e)).1 = .ok e' := congrArg Prod.fst hp
  obtain ⟨x, -, hx, -, -, rfl⟩ := (h.create_eq_ok_iff ht hname).1 hok
  obtain ⟨v, hv, hnil, hfind⟩ := h.created_found ht hok
  have hget := get?_identified hx s.store
  rw [hp] at hfind
  refine ⟨?_, fun a => ?_, fun a ha => ?_, by rw [hc]; rfl, v, hv, hnil, ?_⟩
  · rw [← hname]
    unfold identified
    split <;> rfl
  · rw [hget, Option.isSome_map, hdeclared]
  · obtain ⟨w, hw⟩ := Option.isSome_iff_exists.1 ((hdeclared a).trans ha)
    exact ⟨w, hgives a w hw, by rw [hget, hw]; rfl⟩
  · rw [find_eq]
    exact hfind

end

/-- A row fails if it has more values than the innermost context has columns. If its values fit and its identifier is
free, it creates an entity that has the values under the columns, and this is returned, recorded and found alike. A row
that fails changes neither the contexts nor what is in sight. -/
theorem row_pairs_values {scopes : List Scope} {s : Session} {c : Context} {rest : ContextStack}
    (h : Reachable scopes s.store) (hc : s.contexts = c :: rest) (ht : s.store.access c.type.name = .ok c.type)
    (values : List Value) :
    (c.columns.length < values.length → Fails (s.row values).1 .usage) ∧
    ((∃ e, (s.row values).1 = .ok e) ↔ s.Admits c values) ∧
    (∀ e, (s.row values).1 = .ok e → s.Created c values e (s.row values).2) ∧
    ∀ f, (s.row values).1 = .error f →
      (s.row values).2.contexts = s.contexts ∧ (s.row values).2.store.visible = s.store.visible := by
  rw [row_inside hc]
  cases hi : instanceOf c values with
  | error f =>
    refine ⟨fun hlong => ?_, ?_, fun _ he => (nomatch he), fun _ _ => ⟨rfl, rfl⟩⟩
    · rw [instanceOf, if_pos hlong] at hi
      cases hi
      exact ⟨_, rfl, rfl⟩
    · refine iff_of_false (fun ⟨_, he⟩ => (nomatch he)) fun hadmits => ?_
      obtain ⟨e, he⟩ := instanceOf_isOk_iff.2 ⟨hadmits.instantiable, hadmits.fits, hadmits.declared⟩
      cases hi.symm.trans he
  | ok e =>
    obtain ⟨-, hfits, -⟩ := instanceOf_isOk_iff.1 ⟨e, hi⟩
    have hcreate := create_isOk_iff h ht hi
    refine ⟨fun hlong => absurd hfits (Nat.not_le.2 hlong), ?_⟩
    dsimp only
    rw [(instanceOf_eq_ok hi).1]
    rcases hp : s.store.perform c.type.name (.create e) with ⟨f | e', store⟩
    · have hseen : (s.store.perform c.type.name (.create e)).2.visible = s.store.visible :=
        h.sound.visible_failed (congrArg Prod.fst hp)
      rw [hp] at hseen hcreate
      refine ⟨?_, fun _ he => (nomatch he), fun _ _ => ⟨rfl, hseen⟩⟩
      rw [← hcreate]
    · rw [hp] at hcreate
      refine ⟨?_, ?_, fun _ hf => (nomatch hf)⟩
      · rw [← hcreate]
      · rintro _ ⟨⟩
        exact created_of_create h ht hi hc hp

/-- Of the two values for a name the later counts, and the identifier that is given as nil is replaced. It is taken
then, so a row that gives it fails. -/
theorem later_value_counts :
    let user := ((EntityType.new "User").withAttribute "name").withDefault "age" (.integer 18)
    let c : Context := { type := user, columns := ["name", "id", "name"] }
    let s : Session := { store := { types := Catalog.ofTypes [user] }, contexts := [c] }
    let values : List Value := [.string "amy", .nil, .string "ann"]
    let ann : Entity := ⟨"User", [("age", .integer 18), ("id", .integer 1), ("name", .string "ann")]⟩
    let s' := (s.row values).2
    let taken := s'.row [.string "bob", .integer 1]
    (s.row values).1 = .ok ann ∧ s.Created c values ann s' ∧ Fails (s.row (values ++ [.nil])).1 .usage ∧
      Fails taken.1 .persistence ∧ taken.2.contexts = s'.contexts ∧ taken.2.store.visible = s'.store.visible := by
  intro user c s values ann s' taken
  have h : Reachable [] s.store := Reachable.start [user]
  have ht : s.store.access "User" = .ok user := by
    unfold s user
    rfl
  have ht' : s'.store.access "User" = .ok user := by
    unfold s' s c user values
    rfl
  have hann : (s.row values).1 = .ok ann := by
    unfold s c user values ann
    rfl
  obtain ⟨-, -, hcreated, -⟩ := row_pairs_values h rfl ht values
  obtain ⟨hlong, -⟩ := row_pairs_values h rfl ht (values ++ [.nil])
  have h' : Reachable [] s'.store := (s.row_steps values).reachable h
  have hs' : s'.contexts = { c with created := [ann] } :: [] := (hcreated ann hann).recorded
  have htaken : taken.1 = .error (.alreadyExists "User" (.int 1)) := by
    unfold taken s' s c user values
    rfl
  obtain ⟨-, -, -, hfailed⟩ := row_pairs_values h' hs' ht' [.string "bob", .integer 1]
  obtain ⟨hcontexts, hvisible⟩ := hfailed _ htaken
  exact ⟨hann, hcreated ann hann, hlong (by decide), ⟨_, htaken, rfl⟩, hcontexts, hvisible⟩

end Session

end Fixtures
