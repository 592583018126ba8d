import Fixtures.Proofs.Canonical
import Fixtures.Proofs.Rows
import Mathlib.Data.List.Induction
/-!
# What a type declares

A type is built step by step. Its identifier comes first and every other
attribute is listed once; the identifier is listed twice if it was renamed onto
an attribute that was declared already. An instance has exactly the declared
attributes, each with its last default, whatever is assigned to it afterwards.
-/

namespace Fixtures

/-! ## Keys that stay -/

namespace Dict

variable {κ ν : Type} [Ord κ] [Std.TransOrd κ] [Std.LawfulEqOrd κ]

/-- Replacing a value keeps the keys. -/
theorem keys_insert {d : Dict κ ν} (h : d.Ascending) {k : κ} (hk : d.has k = true) (v : ν) :
    (d.insert k v).keys = d.keys := by
  induction d with
  | nil => cases hk
  | cons p rest ih =>
    obtain ⟨k', v'⟩ := p
    simp only [insert]
    cases hc : compare k k' with
    | lt =>
      -- A key below the first is not there.
      rw [has, Ascending.get?_of_lt h hc] at hk
      cases hk
    | eq =>
      obtain rfl := Std.LawfulEqOrd.eq_of_compare hc
      rfl
    | gt =>
      have hrest : has rest k = true := by
        rw [has, get?, if_neg (by simp [hc])] at hk
        exact hk
      exact congrArg (k' :: ·) (ih (List.pairwise_cons.1 h).2 hrest)

end Dict

namespace EntityType

/-! ## Building -/

/-- A step in the building of a type. -/
inductive Step
  | declare (name : String)
  | declareAll (names : List String)
  | rename (name : String)
  | default (name : String) (v : Value)
  | abstract

/-- The type after a step. -/
def after (t : EntityType) : Step → EntityType
  | .declare name => t.withAttribute name
  | .declareAll names => t.withAttributes names
  | .rename name => t.withId name
  | .default name v => t.withDefault name v
  | .abstract => t.asAbstract

/-- The type that these steps build, in order. -/
def build (name : String) (steps : List Step) : EntityType := steps.foldl after (new name)

theorem build_concat (name : String) (steps : List Step) (step : Step) :
    build name (steps ++ [step]) = (build name steps).after step := by
  simp [build, List.foldl_append]

/-- What holds of a new type and is kept by every step holds of every type that is built. -/
theorem build_induction {P : List Step → EntityType → Prop} {name : String} (new : P [] (new name))
    (step : ∀ steps step, P steps (build name steps) → P (steps ++ [step]) ((build name steps).after step))
    (steps : List Step) : P steps (build name steps) := by
  induction steps using List.reverseRecOn with
  | nil => exact new
  | append_singleton steps s ih =>
    rw [build_concat]
    exact step steps s ih

/-! ## Declared attributes -/

variable {t : EntityType}

theorem declares_iff {a : String} : t.declares a = true ↔ a ∈ t.attributes := List.contains_iff_mem

theorem mem_withAttribute {a n : String} :
    a ∈ (t.withAttribute n).attributes ↔ a = n ∨ a ∈ t.attributes := by
  unfold withAttribute
  split
  · rename_i hn
    rw [declares_iff] at hn
    constructor
    · exact .inr
    · rintro (rfl | ha)
      · exact hn
      · exact ha
  · simp [or_comm]

theorem mem_withAttributes {a : String} {ns : List String} :
    a ∈ (t.withAttributes ns).attributes ↔ a ∈ ns ∨ a ∈ t.attributes := by
  induction ns generalizing t with
  | nil => simp [withAttributes]
  | cons n ns ih =>
    have hstep := @ih (t.withAttribute n)
    simp only [withAttributes, List.foldl_cons] at hstep ⊢
    rw [hstep, mem_withAttribute, List.mem_cons]
    tauto

theorem mem_withId {a n : String} :
    a ∈ (t.withId n).attributes ↔ a = n ∨ a ∈ t.attributes ∧ a ≠ t.idName := by
  simp [withId]

/-- A step takes an attribute away if it renames the identifier from it to another name. -/
theorem lost_iff {a : String} (ha : a ∈ t.attributes) (step : Step) :
    a ∉ (t.after step).attributes ↔ ∃ n, step = .rename n ∧ a = t.idName ∧ a ≠ n := by
  cases step with
  | rename n =>
    simp only [after, mem_withId, ha, true_and, Step.rename.injEq, exists_eq_left', not_or, not_not]
    exact and_comm
  | declare n => simp [after, mem_withAttribute, ha]
  | declareAll ns => simp [after, mem_withAttributes, ha]
  | default n v =>
    have hkept : a ∈ (t.withAttribute n).attributes := mem_withAttribute.2 (.inr ha)
    simp [after, withDefault, hkept]
  | abstract => simp [after, asAbstract, ha]

/-- The identifier comes first, and what comes after it comes once. -/
structure Led (t : EntityType) : Prop where
  head : t.attributes.head? = some t.idName
  tail : t.attributes.tail.Nodup

/-- The identifier comes again after the first place. -/
def Repeats (t : EntityType) : Prop := t.idName ∈ t.attributes.tail

namespace Led

theorem eq (h : t.Led) : t.attributes = t.idName :: t.attributes.tail := (List.cons_head?_tail h.head).symm

/-- Only the identifier can be there twice. -/
theorem nodup_iff (h : t.Led) : t.attributes.Nodup ↔ ¬t.Repeats := by
  rw [h.eq, List.nodup_cons]
  exact and_iff_left h.tail

/-- Declaring an attribute adds it at the end unless it is there, and so never a second time. -/
theorem withAttribute (h : t.Led) (n : String) :
    (t.withAttribute n).Led ∧ ((t.withAttribute n).Repeats ↔ t.Repeats) := by
  unfold EntityType.withAttribute
  split
  · exact ⟨h, Iff.rfl⟩
  · rename_i hn
    rw [declares_iff] at hn
    have heq := h.eq
    have hnew : n ≠ t.idName ∧ n ∉ t.attributes.tail := by
      rw [heq, List.mem_cons, not_or] at hn
      exact hn
    have htail : (t.attributes ++ [n]).tail = t.attributes.tail ++ [n] := by
      rw [heq]
      rfl
    refine ⟨⟨?_, ?_⟩, ?_⟩
    · show (t.attributes ++ [n]).head? = _
      rw [heq]
      rfl
    · show (t.attributes ++ [n]).tail.Nodup
      rw [htail, List.nodup_append]
      refine ⟨h.tail, by simp, ?_⟩
      rintro a ha b hb rfl
      rw [List.mem_singleton.1 hb] at ha
      exact hnew.2 ha
    · show t.idName ∈ (t.attributes ++ [n]).tail ↔ _
      rw [htail, List.mem_append, List.mem_singleton]
      exact or_iff_left hnew.1.symm

theorem withAttributes (h : t.Led) (ns : List String) :
    (t.withAttributes ns).Led ∧ ((t.withAttributes ns).Repeats ↔ t.Repeats) := by
  induction ns generalizing t with
  | nil => exact ⟨h, Iff.rfl⟩
  | cons n ns ih =>
    obtain ⟨hled, hrepeats⟩ := h.withAttribute n
    obtain ⟨hled', hrepeats'⟩ := ih hled
    exact ⟨hled', hrepeats'.trans hrepeats⟩

/-- Renaming the identifier removes its old name wherever it is, but does not look for the new one. -/
theorem withId (h : t.Led) (n : String) :
    (t.withId n).Led ∧ ((t.withId n).Repeats ↔ n ∈ t.attributes ∧ n ≠ t.idName) := by
  have hrest : t.attributes.filter (fun a => a ≠ t.idName) = t.attributes.tail.filter (fun a => a ≠ t.idName) := by
    rw [h.eq]
    simp
  refine ⟨⟨rfl, ?_⟩, ?_⟩
  · show (t.attributes.filter fun a => a ≠ t.idName).Nodup
    rw [hrest]
    exact h.tail.filter _
  · simp [Repeats, EntityType.withId]

/-- Every step keeps the order, and only renaming decides whether the identifier is there twice. -/
theorem after (h : t.Led) (step : Step) :
    (t.after step).Led ∧
      ((t.after step).Repeats ↔
        match step with
        | .rename n => n ∈ t.attributes ∧ n ≠ t.idName
        | _ => t.Repeats) := by
  cases step with
  | declare n => exact h.withAttribute n
  | declareAll ns => exact h.withAttributes ns
  | rename n => exact h.withId n
  | default n v =>
    obtain ⟨⟨hhead, htail⟩, hrepeats⟩ := h.withAttribute n
    exact ⟨⟨hhead, htail⟩, hrepeats⟩
  | abstract => exact ⟨⟨h.head, h.tail⟩, Iff.rfl⟩

end Led

theorem build_led (name : String) (steps : List Step) : (build name steps).Led :=
  build_induction (P := fun _ t => t.Led) ⟨rfl, List.nodup_nil⟩ (fun _ step h => (h.after step).1) steps

/-- The last renaming in these steps gave the identifier a name that another attribute had. -/
def Clashes (name : String) (steps : List Step) : Prop :=
  ∃ before n rest, steps = before ++ .rename n :: rest ∧ (∀ m, .rename m ∉ rest) ∧
    n ∈ (build name before).attributes ∧ n ≠ (build name before).idName

/-- What stands in a list with one more element stands in the list, or is that element. -/
theorem concat_eq_append_cons {α : Type} {l before rest : List α} {x y : α} :
    l ++ [x] = before ++ y :: rest ↔
      (rest = [] ∧ before = l ∧ y = x) ∨ ∃ rest', rest = rest' ++ [x] ∧ l = before ++ y :: rest' := by
  constructor
  · intro h
    rcases List.eq_nil_or_concat rest with rfl | ⟨rest', z, rfl⟩
    · obtain ⟨rfl, hx⟩ := List.append_inj' h rfl
      exact .inl ⟨rfl, rfl, (List.singleton_inj.1 hx).symm⟩
    · rw [List.concat_eq_append, ← List.cons_append, ← List.append_assoc] at h
      obtain ⟨rfl, hx⟩ := List.append_inj' h rfl
      exact .inr ⟨rest', by rw [List.concat_eq_append, List.singleton_inj.1 hx], rfl⟩
  · rintro (⟨rfl, rfl, rfl⟩ | ⟨rest', rfl, rfl⟩)
    · rfl
    · simp

theorem clashes_rename {name n : String} {steps : List Step} :
    Clashes name (steps ++ [.rename n]) ↔ n ∈ (build name steps).attributes ∧ n ≠ (build name steps).idName := by
  constructor
  · rintro ⟨before, m, rest, heq, hlast, hm⟩
    rcases concat_eq_append_cons.1 heq with ⟨-, rfl, hstep⟩ | ⟨rest', rfl, -⟩
    · obtain rfl := Step.rename.inj hstep
      exact hm
    · exact absurd (List.mem_append_right _ List.mem_cons_self) (hlast n)
  · intro hn
    exact ⟨steps, n, [], rfl, by simp, hn⟩

theorem clashes_other {name : String} {steps : List Step} {step : Step} (hstep : ∀ n, step ≠ .rename n) :
    Clashes name (steps ++ [step]) ↔ Clashes name steps := by
  constructor
  · rintro ⟨before, m, rest, heq, hlast, hm⟩
    rcases concat_eq_append_cons.1 heq with ⟨-, -, hrename⟩ | ⟨rest', rfl, rfl⟩
    · exact absurd hrename.symm (hstep m)
    · exact ⟨before, m, rest', rfl, fun n hn => hlast n (List.mem_append_left _ hn), hm⟩
  · rintro ⟨before, m, rest, rfl, hlast, hm⟩
    refine ⟨before, m, rest ++ [step], by simp, fun n hn => ?_, hm⟩
    rcases List.mem_append.1 hn with hn | hn
    · exact hlast n hn
    · exact hstep n (List.mem_singleton.1 hn).symm

/-- The identifier is there twice if the last renaming clashed. -/
theorem repeats_iff (name : String) (steps : List Step) : (build name steps).Repeats ↔ Clashes name steps := by
  refine build_induction (P := fun steps t => t.Repeats ↔ Clashes name steps) ?_ ?_ steps
  · simp [Repeats, new, Clashes]
  · intro steps step ih
    rw [((build_led name steps).after step).2]
    cases step with
    | rename n => exact clashes_rename.symm
    | _ => exact ih.trans (clashes_other fun n => by simp).symm

/-! ## Instances -/

/-- The default that a step gives an attribute. -/
def Step.defaultFor? (a : String) : Step → Option Value
  | .default name v => if a = name then some v else none
  | _ => none

/-- The default that an attribute was given last. -/
def lastDefault? (steps : List Step) (a : String) : Option Value := steps.reverse.findSome? (Step.defaultFor? a)

theorem withAttribute_fields (t : EntityType) (n : String) :
    (t.withAttribute n).name = t.name ∧ (t.withAttribute n).defaults = t.defaults ∧
      (t.withAttribute n).instantiable = t.instantiable := by
  unfold withAttribute
  split <;> exact ⟨rfl, rfl, rfl⟩

theorem withAttributes_fields (t : EntityType) (ns : List String) :
    (t.withAttributes ns).name = t.name ∧ (t.withAttributes ns).defaults = t.defaults ∧
      (t.withAttributes ns).instantiable = t.instantiable := by
  induction ns generalizing t with
  | nil => exact ⟨rfl, rfl, rfl⟩
  | cons n ns ih =>
    obtain ⟨hname, hdefaults, hinstantiable⟩ := t.withAttribute_fields n
    obtain ⟨hname', hdefaults', hinstantiable'⟩ := ih (t.withAttribute n)
    exact ⟨hname'.trans hname, hdefaults'.trans hdefaults, hinstantiable'.trans hinstantiable⟩

/-- A step keeps the name, gives at most one default, and only one kind of step rules out instances. -/
theorem after_fields (t : EntityType) (step : Step) :
    (t.after step).name = t.name ∧
      (∀ a, (t.after step).defaults.get? a = (step.defaultFor? a).or (t.defaults.get? a)) ∧
      ((t.after step).instantiable = true ↔ t.instantiable = true ∧ step ≠ .abstract) := by
  cases step with
  | declare n =>
    obtain ⟨hname, hdefaults, hinstantiable⟩ := t.withAttribute_fields n
    simp [after, Step.defaultFor?, hname, hdefaults, hinstantiable]
  | declareAll ns =>
    obtain ⟨hname, hdefaults, hinstantiable⟩ := t.withAttributes_fields ns
    simp [after, Step.defaultFor?, hname, hdefaults, hinstantiable]
  | rename n => simp [after, withId, Step.defaultFor?]
  | default n v =>
    obtain ⟨hname, hdefaults, hinstantiable⟩ := t.withAttribute_fields n
    refine ⟨hname, fun a => ?_, by simp [after, withDefault, hinstantiable]⟩
    simp only [after, withDefault, hdefaults, Dict.get?_insert, Std.LawfulEqOrd.compare_eq_iff_eq, Step.defaultFor?]
    split <;> rfl
  | abstract => simp [after, asAbstract, Step.defaultFor?]

theorem build_fields (name : String) (steps : List Step) :
    (build name steps).name = name ∧ (∀ a, (build name steps).defaults.get? a = lastDefault? steps a) ∧
      ((build name steps).instantiable = true ↔ .abstract ∉ steps) := by
  refine build_induction (P := fun steps t => t.name = name ∧ (∀ a, t.defaults.get? a = lastDefault? steps a) ∧
    (t.instantiable = true ↔ .abstract ∉ steps)) ?_ ?_ steps
  · simp [new, lastDefault?, Dict.get?]
  · rintro steps step ⟨hname, hdefaults, hinstantiable⟩
    obtain ⟨hname', hdefaults', hinstantiable'⟩ := (build name steps).after_fields step
    refine ⟨hname'.trans hname, fun a => ?_, ?_⟩
    · rw [hdefaults', hdefaults]
      cases hstep : step.defaultFor? a <;> simp [lastDefault?, hstep]
    · rw [hinstantiable', hinstantiable, List.mem_append, List.mem_singleton, not_or]
      exact and_congr_right fun _ => ne_comm

theorem instantiate_isOk_iff : (∃ e, t.instantiate = .ok e) ↔ t.instantiable = true := by
  unfold instantiate
  split <;> simp_all

theorem instantiate_ascending {e : Entity} (h : t.instantiate = .ok e) : Dict.Ascending e.attributes := by
  unfold instantiate at h
  split at h
  · cases h
    exact Dict.ascending_ofPairs _
  · cases h

end EntityType

namespace Entity

/-- Assignments made one after the other; one that fails changes nothing. -/
def tryAll (e : Entity) (assignments : List (String × Value)) : Entity :=
  assignments.foldl (fun e p => (e.set p.1 p.2).toOption.getD e) e

variable {e : Entity}

/-- An assignment succeeds if there is such an attribute, else it is misuse. -/
theorem set_cases (e : Entity) (a : String) (v : Value) :
    (a ∈ Dict.keys e.attributes ∧ e.set a v = .ok ⟨e.typeName, Dict.insert e.attributes a v⟩) ∨
      (a ∉ Dict.keys e.attributes ∧ e.set a v = .error (.undeclaredAttribute e.typeName a)) := by
  rw [Dict.mem_keys_iff]
  unfold set set? Dict.has
  by_cases ha : (Dict.get? e.attributes a).isSome = true
  · exact .inl ⟨ha, by simp [ha]⟩
  · exact .inr ⟨ha, by simp [ha]⟩

/-- Whatever is assigned, the attributes stay the same. -/
theorem keys_tryAll (h : Dict.Ascending e.attributes) (assignments : List (String × Value)) :
    Dict.keys (e.tryAll assignments).attributes = Dict.keys e.attributes := by
  induction assignments generalizing e with
  | nil => rfl
  | cons p rest ih =>
    have hcons : e.tryAll (p :: rest) = ((e.set p.1 p.2).toOption.getD e).tryAll rest := rfl
    rw [hcons]
    rcases e.set_cases p.1 p.2 with ⟨hp, hset⟩ | ⟨-, hset⟩
    · rw [hset]
      refine (ih (Dict.ascending_insert h p.1 p.2)).trans ?_
      exact Dict.keys_insert h (Dict.mem_keys_iff.1 hp) p.2
    · rw [hset]
      exact ih h

end Entity

namespace EntityType

/-- However a type is built, its identifier comes first, no other attribute is listed twice, and the identifier is if
the last renaming gave it the name of another attribute. An attribute is lost only when the identifier is renamed away
from it. A type that is not abstract has instances, each with the declared attributes and their last defaults, and
nothing else; what is assigned to one later succeeds exactly for these attributes and never changes which there are. -/
theorem attributes_of_build (name : String) (steps : List Step) :
    let t := build name steps
    t.attributes.head? = some t.idName ∧ t.attributes.tail.Nodup ∧
    (t.attributes.Nodup ↔ ¬Clashes name steps) ∧
    (∀ step, ∀ a ∈ t.attributes,
      (a ∉ (t.after step).attributes ↔ ∃ n, step = .rename n ∧ a = t.idName ∧ a ≠ n)) ∧
    ((∃ e, t.instantiate = .ok e) ↔ .abstract ∉ steps) ∧
    ∀ e, t.instantiate = .ok e →
      e.typeName = name ∧ (Dict.keys e.attributes).Nodup ∧ (∀ a, a ∈ Dict.keys e.attributes ↔ a ∈ t.attributes) ∧
      (∀ a ∈ t.attributes, e.get? a = some ((lastDefault? steps a).getD .nil)) ∧
      ∀ assignments, let e' := e.tryAll assignments
        Dict.keys e'.attributes = Dict.keys e.attributes ∧
        ∀ a v, (a ∈ t.attributes → ∃ e'', e'.set a v = .ok e'') ∧
          (a ∉ t.attributes → ∃ f, e'.set a v = .error f ∧ f.kind = .usage) := by
  intro t
  have hled := build_led name steps
  obtain ⟨hname, hdefaults, hinstantiable⟩ := build_fields name steps
  refine ⟨hled.head, hled.tail, ?_, fun step a ha => lost_iff ha step, ?_, fun e he => ?_⟩
  · rw [hled.nodup_iff, repeats_iff]
  · rw [instantiate_isOk_iff, hinstantiable]
  · obtain ⟨htype, hget⟩ := instantiate_eq_ok he
    have hasc := instantiate_ascending he
    have hkeys (a : String) : a ∈ Dict.keys e.attributes ↔ a ∈ t.attributes := by
      rw [Dict.mem_keys_iff, ← declares_iff]
      show (e.get? a).isSome = true ↔ _
      rw [hget]
      split <;> simp_all
    refine ⟨htype.trans hname, ?_, hkeys, fun a ha => ?_, fun assignments => ?_⟩
    · exact Value.nodup_of_ascending hasc
    · rw [hget, if_pos (declares_iff.2 ha), hdefaults]
    · intro e'
      have hsame : Dict.keys e'.attributes = Dict.keys e.attributes := Entity.keys_tryAll hasc assignments
      refine ⟨hsame, fun a v => ?_⟩
      rw [← hkeys, ← hsame]
      rcases e'.set_cases a v with ⟨ha, hset⟩ | ⟨ha, hset⟩
      · exact ⟨fun _ => ⟨_, hset⟩, fun hnot => absurd ha hnot⟩
      · exact ⟨fun hmem => absurd hmem ha, fun _ => ⟨_, hset, rfl⟩⟩

/-- A country is identified by its code, has a name by default, and cannot be given an email. -/
theorem country_keeps_attributes :
    let steps : List Step := [.declare "name", .rename "code", .default "name" (.string "France")]
    let t := build "Country" steps
    let e : Entity := ⟨"Country", [("code", .nil), ("name", .string "France")]⟩
    let e' := e.tryAll [("email", .integer 1), ("code", .string "fr")]
    t.instantiate = .ok e ∧ "name" ∈ t.attributes ∧ "email" ∉ t.attributes ∧ t.attributes.Nodup ∧
      "name" ∈ (t.after (.rename "iso")).attributes ∧ e.get? "name" = some (.string "France") ∧
      Dict.keys e'.attributes = ["code", "name"] ∧ (∃ e'', e'.set "name" .nil = .ok e'') ∧
      ∃ f, e'.set "email" .nil = .error f ∧ f.kind = .usage := by
  intro steps t e e'
  have hname : "name" ∈ t.attributes := by decide
  have hemail : "email" ∉ t.attributes := by decide
  have he : t.instantiate = .ok e := by
    unfold t e steps
    rfl
  obtain ⟨-, -, -, hlost, -, hinstance⟩ := attributes_of_build "Country" steps
  obtain ⟨-, -, -, hdefault, hset⟩ := hinstance e he
  obtain ⟨hkeys, hassign⟩ := hset [("email", .integer 1), ("code", .string "fr")]
  refine ⟨he, hname, hemail, by decide, ?_, hdefault "name" hname, hkeys, (hassign "name" .nil).1 hname,
    (hassign "email" .nil).2 hemail⟩
  by_contra hgone
  obtain ⟨-, -, hid, -⟩ := (hlost (.rename "iso") "name" hname).1 hgone
  revert hid
  decide

/-- A country whose identifier is renamed onto the code that it declares lists the code twice. -/
theorem renamed_onto_declared_code :
    (build "Country" [.declare "code", .rename "code"]).attributes = ["code", "code"] ∧
      ¬(build "Country" [.declare "code", .rename "code"]).attributes.Nodup := by
  decide

end EntityType

end Fixtures
