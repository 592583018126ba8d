import Fixtures.Proofs.Dict
import Fixtures.Value.Basic
import Mathlib.Algebra.Group.Nat.Defs
import Mathlib.Data.List.Nodup
/-!
# Canonical values

A table of a script does not tell a list from a map with the names 1, …, n,
and it has no entries for `nil`. So of the values that are built as equal
tables one is canonical: `canonicalForm` is the value that such a table is read
as. It is canonical, and a value is its own canonical form if and only if it is
canonical.
-/

namespace Fixtures

namespace Value

/-- Built as a table. -/
def isTable : Value → Bool
  | list _ | map _ => true
  | _ => false

/-! ## Shape -/

mutual

/-- How deep lists and maps are nested. -/
def depth : Value → Nat
  | list items => depthOfItems items + 1
  | map fields => depthOfFields fields + 1
  | _ => 0

def depthOfItems : List Value → Nat
  | [] => 0
  | v :: rest => max v.depth (depthOfItems rest)

def depthOfFields : List (String × Value) → Nat
  | [] => 0
  | (_, v) :: rest => max v.depth (depthOfFields rest)

end

theorem depth_plain {v : Value} (h : v.isTable = false) : v.depth = 0 := by
  cases v <;> first | rfl | cases h

theorem depth_pos {v : Value} (h : v.isTable = true) : 0 < v.depth := by
  cases v <;> first | exact Nat.succ_pos _ | cases h

theorem depthOfItems_le {items : List Value} {n : Nat} : depthOfItems items ≤ n ↔ ∀ v ∈ items, v.depth ≤ n := by
  induction items with
  | nil => simp [depthOfItems]
  | cons v rest ih => rw [depthOfItems, Nat.max_le, ih, List.forall_mem_cons]

theorem depthOfFields_le {fields : List (String × Value)} {n : Nat} :
    depthOfFields fields ≤ n ↔ ∀ p ∈ fields, p.2.depth ≤ n := by
  induction fields with
  | nil => simp [depthOfFields]
  | cons p rest ih =>
    obtain ⟨name, v⟩ := p
    rw [depthOfFields, Nat.max_le, ih, List.forall_mem_cons]

/-- As every value is in memory: maps ascend by name, and no list or map has more entries than a word can count. -/
inductive WellFormed : Value → Prop
  | plain {v : Value} (h : v.isTable = false) : WellFormed v
  | list {items : List Value} (short : items.length < 2 ^ 63) (parts : ∀ v ∈ items, WellFormed v) :
    WellFormed (list items)
  | map {fields : List (String × Value)} (ascending : Dict.Ascending fields) (short : fields.length < 2 ^ 63)
    (parts : ∀ p ∈ fields, WellFormed p.2) : WellFormed (map fields)

/-! ## Places -/

/-- The names 1, …, `n`. -/
def places (n : Nat) : List String := (List.range' 1 n).map toString

/-- The names of these fields are 1, …, `n`. -/
def Numbered (n : Nat) (fields : List (String × Value)) : Prop :=
  ∀ name, name ∈ fields.map Prod.fst ↔ name ∈ places n

@[simp] theorem length_places (n : Nat) : (places n).length = n := by simp [places]

theorem places_eq (n : Nat) : places n = (List.range n).map fun i => toString (i + 1) := by
  rw [places, List.range'_eq_map_range, List.map_map]
  exact List.map_congr_left fun i _ => congrArg toString (Nat.add_comm 1 i)

theorem toString_inj {i j : Nat} (h : toString i = toString j) : i = j := by
  have hdigits : Nat.toDigits 10 i = Nat.toDigits 10 j := by
    rw [← Nat.toList_repr, ← Nat.toList_repr]
    exact congrArg String.toList h
  rw [← @Nat.ofDigitChars_ten_toDigits i, hdigits, Nat.ofDigitChars_ten_toDigits]

theorem nodup_places (n : Nat) : (places n).Nodup := (List.nodup_range' 1).map fun _ _ => toString_inj

theorem mem_places {n : Nat} {name : String} : name ∈ places n ↔ ∃ i, 1 ≤ i ∧ i ≤ n ∧ toString i = name := by
  simp only [places, List.mem_map, List.mem_range'_1]
  constructor
  · rintro ⟨i, ⟨h1, h2⟩, rfl⟩
    exact ⟨i, h1, by omega, rfl⟩
  · rintro ⟨i, h1, h2, rfl⟩
    exact ⟨i, ⟨h1, by omega⟩, rfl⟩

/-- Distinct names are 1, …, `n` if and only if they are these in some order. -/
theorem numbered_iff_perm {n : Nat} {fields : List (String × Value)} (h : (fields.map Prod.fst).Nodup) :
    Numbered n fields ↔ (fields.map Prod.fst).Perm (places n) :=
  (List.perm_ext_iff_of_nodup h (nodup_places n)).symm

/-! ## Canonical values -/

/-- Nothing in the value gets lost or looks different in a table. -/
inductive Canonical : Value → Prop
  | plain {v : Value} (h : v.isTable = false) : Canonical v
  | list {items : List Value} (present : ∀ v ∈ items, v ≠ nil) (parts : ∀ v ∈ items, Canonical v) :
    Canonical (list items)
  | map {fields : List (String × Value)} (present : ∀ p ∈ fields, p.2 ≠ nil) (unnumbered : ∀ n, ¬Numbered n fields)
    (parts : ∀ p ∈ fields, Canonical p.2) : Canonical (map fields)

/-- The fields that hold something. -/
def kept (fields : List (String × Value)) : List (String × Value) := fields.filter fun p => !p.2.isNil

/-- The value that a table with these entries is read as: a list if their names are 1, …, n. -/
def ofFields (fields : List (String × Value)) : Value :=
  let d : Variables := Dict.ofPairs (kept fields)
  if d.keys.Perm (places d.length) then .list ((places d.length).map fun name => (d.get? name).getD .nil) else .map d

mutual

/-- What is read from a table that was built for the value. -/
def canonicalForm : Value → Value
  | list items => ofFields ((places items.length).zip (canonicalItems items))
  | map fields => ofFields (canonicalFields fields)
  | v => v

def canonicalItems : List Value → List Value
  | [] => []
  | v :: rest => v.canonicalForm :: canonicalItems rest

def canonicalFields : List (String × Value) → List (String × Value)
  | [] => []
  | (name, v) :: rest => (name, v.canonicalForm) :: canonicalFields rest

end

theorem canonicalItems_eq (items : List Value) : canonicalItems items = items.map canonicalForm := by
  induction items with
  | nil => rfl
  | cons v rest ih => rw [canonicalItems, ih, List.map_cons]

theorem canonicalFields_eq (fields : List (String × Value)) :
    canonicalFields fields = fields.map fun p => (p.1, p.2.canonicalForm) := by
  induction fields with
  | nil => rfl
  | cons p rest ih => rw [canonicalFields, ih, List.map_cons]

theorem canonicalForm_plain {v : Value} (h : v.isTable = false) : v.canonicalForm = v := by
  cases v <;> first | rfl | cases h

/-! ## What fields become -/

theorem isNil_iff {v : Value} : v.isNil = true ↔ v = nil := by
  cases v <;> simp [isNil]

theorem mem_kept {fields : List (String × Value)} {p : String × Value} :
    p ∈ kept fields ↔ p ∈ fields ∧ p.2 ≠ nil := by
  rw [kept, List.mem_filter, Bool.not_eq_true', ← Bool.not_eq_true, isNil_iff]

/-- Distinct names make distinct keys. -/
theorem distinct_of_nodup {fields : List (String × Value)} (h : (fields.map Prod.fst).Nodup) :
    Dict.Distinct fields :=
  Dict.distinct_iff.2 h

theorem nodup_of_ascending {fields : List (String × Value)} (h : Dict.Ascending fields) :
    (fields.map Prod.fst).Nodup :=
  Dict.distinct_iff.1 h.distinct

theorem nodup_kept {fields : List (String × Value)} (h : (fields.map Prod.fst).Nodup) :
    ((kept fields).map Prod.fst).Nodup :=
  h.sublist (List.filter_sublist.map Prod.fst)

section

variable {fields : List (String × Value)} (h : (fields.map Prod.fst).Nodup)

include h

theorem ofPairs_kept_perm : (Dict.ofPairs (kept fields)).Perm (kept fields) :=
  Dict.ofPairs_perm (distinct_of_nodup (nodup_kept h))

theorem get?_ofPairs_kept (name : String) :
    (Dict.ofPairs (kept fields)).get? name = Dict.get? (kept fields) name :=
  (Dict.get?_perm (ofPairs_kept_perm h).symm (distinct_of_nodup (nodup_kept h)) name).symm

/-- Fields become a list if those that hold something are numbered. -/
theorem ofFields_numbered (hn : Numbered (kept fields).length (kept fields)) :
    ofFields fields =
      list ((places (kept fields).length).map fun name => (Dict.get? (kept fields) name).getD nil) := by
  have hd := ofPairs_kept_perm h
  have hkeys : (Dict.ofPairs (kept fields)).keys.Perm (places (kept fields).length) :=
    (hd.map Prod.fst).trans ((numbered_iff_perm (nodup_kept h)).1 hn)
  unfold ofFields
  dsimp only
  rw [hd.length_eq, if_pos hkeys]
  simp only [get?_ofPairs_kept h]

/-- Fields become a map if those that hold something are not numbered. -/
theorem ofFields_unnumbered (hn : ¬Numbered (kept fields).length (kept fields)) :
    ofFields fields = map (Dict.ofPairs (kept fields)) := by
  have hd := ofPairs_kept_perm h
  have hkeys : ¬(Dict.ofPairs (kept fields)).keys.Perm (places (kept fields).length) := fun hp =>
    hn ((numbered_iff_perm (nodup_kept h)).2 ((hd.map Prod.fst).symm.trans hp))
  unfold ofFields
  dsimp only
  rw [hd.length_eq, if_neg hkeys]

/-- What becomes of fields: they all stay. -/
theorem ofFields_cases :
    (∃ items, ofFields fields = list items ∧ items.length ≤ fields.length ∧
      ∀ v ∈ items, ∃ p ∈ kept fields, p.2 = v) ∨
    ∃ d, ofFields fields = map d ∧ Dict.Ascending d ∧ d.Perm (kept fields) ∧ ∀ n, ¬Numbered n d := by
  by_cases hn : Numbered (kept fields).length (kept fields)
  · refine .inl ⟨_, ofFields_numbered h hn, ?_, ?_⟩
    · rw [List.length_map, length_places]
      exact List.length_filter_le ..
    · intro v hv
      obtain ⟨name, hname, rfl⟩ := List.mem_map.1 hv
      obtain ⟨⟨name, v⟩, hp, rfl⟩ := List.mem_map.1 ((hn name).2 hname)
      have hget := ((distinct_of_nodup (nodup_kept h)).mem_iff name v).1 hp
      exact ⟨_, hp, by rw [hget, Option.getD_some]⟩
  · have hd := ofPairs_kept_perm h
    refine .inr ⟨_, ofFields_unnumbered h hn, Dict.ascending_ofPairs _, hd, fun n hm => hn ?_⟩
    have hkept : Numbered n (kept fields) := fun name => (hd.map Prod.fst).mem_iff.symm.trans (hm name)
    have hlength := ((numbered_iff_perm (nodup_kept h)).1 hkept).length_eq
    rw [List.length_map, length_places] at hlength
    rwa [hlength]

theorem ofFields_canonical (hc : ∀ p ∈ fields, p.2.Canonical) : (ofFields fields).Canonical := by
  rcases ofFields_cases h with ⟨items, heq, -, hitems⟩ | ⟨d, heq, -, hd, hn⟩
  · rw [heq]
    refine .list (fun v hv => ?_) (fun v hv => ?_)
    · obtain ⟨p, hp, rfl⟩ := hitems v hv
      exact (mem_kept.1 hp).2
    · obtain ⟨p, hp, rfl⟩ := hitems v hv
      exact hc p (mem_kept.1 hp).1
  · rw [heq]
    exact .map (fun p hp => (mem_kept.1 (hd.mem_iff.1 hp)).2) hn fun p hp => hc p (mem_kept.1 (hd.mem_iff.1 hp)).1

theorem ofFields_wellFormed (hs : fields.length < 2 ^ 63) (hw : ∀ p ∈ fields, p.2.WellFormed) :
    (ofFields fields).WellFormed := by
  rcases ofFields_cases h with ⟨items, heq, hlength, hitems⟩ | ⟨d, heq, hasc, hd, -⟩
  · rw [heq]
    refine .list (by omega) fun v hv => ?_
    obtain ⟨p, hp, rfl⟩ := hitems v hv
    exact hw p (mem_kept.1 hp).1
  · rw [heq]
    refine .map hasc ?_ fun p hp => hw p (mem_kept.1 (hd.mem_iff.1 hp)).1
    rw [hd.length_eq]
    exact Nat.lt_of_le_of_lt (List.length_filter_le ..) hs

theorem ofFields_depth_le {n : Nat} (hn : ∀ p ∈ fields, p.2.depth ≤ n) : (ofFields fields).depth ≤ n + 1 := by
  rcases ofFields_cases h with ⟨items, heq, -, hitems⟩ | ⟨d, heq, -, hd, -⟩
  · rw [heq, depth, Nat.add_le_add_iff_right, depthOfItems_le]
    intro v hv
    obtain ⟨p, hp, rfl⟩ := hitems v hv
    exact hn p (mem_kept.1 hp).1
  · rw [heq, depth, Nat.add_le_add_iff_right, depthOfFields_le]
    exact fun p hp => hn p (mem_kept.1 (hd.mem_iff.1 hp)).1

end

/-! ## Canonical forms -/

/-- The fields of a table that is built for the value: items of a list are numbered. -/
def fields : Value → List (String × Value)
  | list items => (places items.length).zip items
  | map fields => fields
  | _ => []

theorem names_of_items (items : List Value) : (list items).fields.map Prod.fst = places items.length :=
  List.map_fst_zip (Nat.le_of_eq (length_places _))

theorem values_of_items (items : List Value) : (list items).fields.map Prod.snd = items :=
  List.map_snd_zip (Nat.le_of_eq (length_places _).symm)

theorem nodup_of_items (items : List Value) : ((list items).fields.map Prod.fst).Nodup :=
  names_of_items items ▸ nodup_places _

theorem length_of_items (items : List Value) : (list items).fields.length = items.length := by
  rw [← List.length_map Prod.fst, names_of_items, length_places]

theorem mem_of_items {items : List Value} {p : String × Value} (h : p ∈ (list items).fields) : p.2 ∈ items :=
  (List.of_mem_zip h).2

theorem canonicalForm_table {v : Value} (h : v.isTable = true) :
    v.canonicalForm = ofFields (canonicalFields v.fields) := by
  cases v with
  | list items =>
    rw [canonicalForm, canonicalItems_eq, canonicalFields_eq, fields, List.zip_map_right]
    rfl
  | map fields => rfl
  | _ => cases h

theorem depth_table {v : Value} (h : v.isTable = true) {n : Nat} :
    v.depth ≤ n + 1 ↔ ∀ p ∈ v.fields, p.2.depth ≤ n := by
  cases v with
  | list items =>
    rw [depth, Nat.add_le_add_iff_right, depthOfItems_le]
    refine ⟨fun hi p hp => hi p.2 (mem_of_items hp), fun hf v hv => ?_⟩
    rw [← values_of_items items] at hv
    obtain ⟨p, hp, rfl⟩ := List.mem_map.1 hv
    exact hf p hp
  | map fields => rw [depth, Nat.add_le_add_iff_right, depthOfFields_le]; rfl
  | _ => cases h

/-- Induction on well-formed values that takes lists and maps alike. -/
theorem WellFormed.byTables {motive : (v : Value) → v.WellFormed → Prop}
    (plain : ∀ (v : Value) (hv : v.isTable = false), motive v (.plain hv))
    (table : ∀ (v : Value) (hw : v.WellFormed), v.isTable = true → (v.fields.map Prod.fst).Nodup →
      v.fields.length < 2 ^ 63 → (parts : ∀ p ∈ v.fields, p.2.WellFormed) →
      (∀ p (hp : p ∈ v.fields), motive p.2 (parts p hp)) → motive v hw)
    {v : Value} (h : v.WellFormed) : motive v h := by
  induction h with
  | plain h => exact plain _ h
  | @list items short parts ih =>
    rw [← length_of_items] at short
    exact table _ _ rfl (nodup_of_items items) short (fun p hp => parts p.2 (mem_of_items hp))
      fun p hp => ih p.2 (mem_of_items hp)
  | @map fields ascending short parts ih =>
    exact table (.map fields) _ rfl (nodup_of_ascending ascending) short parts ih

theorem canonicalForm_eq_nil {v : Value} : v.canonicalForm = nil ↔ v = nil := by
  cases hv : v.isTable with
  | false => rw [canonicalForm_plain hv]
  | true =>
    have hform : v.canonicalForm ≠ nil := by
      rw [canonicalForm_table hv, ofFields]
      split <;> exact nofun
    exact iff_of_false hform fun h => by rw [h] at hv; cases hv

theorem names_canonicalFields (fields : List (String × Value)) :
    (canonicalFields fields).map Prod.fst = fields.map Prod.fst := by
  rw [canonicalFields_eq, List.map_map]
  rfl

theorem forall_canonicalFields {P : Value → Prop} {fields : List (String × Value)} :
    (∀ p ∈ canonicalFields fields, P p.2) ↔ ∀ p ∈ fields, P p.2.canonicalForm := by
  rw [canonicalFields_eq, List.forall_mem_map]

/-- The canonical form is canonical, as well-formed as the value and no deeper. -/
theorem canonicalForm_canonical {v : Value} (h : v.WellFormed) : v.canonicalForm.Canonical := by
  induction h using WellFormed.byTables with
  | plain v hv =>
    rw [canonicalForm_plain hv]
    exact .plain hv
  | table v _ hv hnodup _ _ ih =>
    rw [canonicalForm_table hv]
    exact ofFields_canonical (names_canonicalFields v.fields ▸ hnodup) (forall_canonicalFields.2 ih)

theorem canonicalForm_wellFormed {v : Value} (h : v.WellFormed) : v.canonicalForm.WellFormed := by
  induction h using WellFormed.byTables with
  | plain v hv =>
    rw [canonicalForm_plain hv]
    exact .plain hv
  | table v _ hv hnodup hshort _ ih =>
    rw [canonicalForm_table hv]
    refine ofFields_wellFormed (names_canonicalFields v.fields ▸ hnodup) ?_ (forall_canonicalFields.2 ih)
    rwa [← List.length_map Prod.fst, names_canonicalFields, List.length_map]

theorem canonicalForm_depth_le {v : Value} (h : v.WellFormed) {n : Nat} (hn : v.depth ≤ n) :
    v.canonicalForm.depth ≤ n := by
  induction h using WellFormed.byTables generalizing n with
  | plain v hv => rwa [canonicalForm_plain hv]
  | table v _ hv hnodup _ _ ih =>
    cases n with
    | zero => exact absurd hn (Nat.not_le.2 (depth_pos hv))
    | succ n =>
      have hparts := forall_canonicalFields (P := (depth · ≤ n)).2 fun p hp => ih p hp ((depth_table hv).1 hn p hp)
      rw [canonicalForm_table hv]
      exact ofFields_depth_le (names_canonicalFields v.fields ▸ hnodup) hparts

theorem kept_eq_self {fields : List (String × Value)} (h : ∀ p ∈ fields, p.2 ≠ nil) : kept fields = fields :=
  List.filter_eq_self.2 fun p hp => by
    rw [Bool.not_eq_true', ← Bool.not_eq_true, isNil_iff]
    exact h p hp

theorem canonicalFields_eq_self {fields : List (String × Value)} (h : ∀ p ∈ fields, p.2.canonicalForm = p.2) :
    canonicalFields fields = fields := by
  have hsame : ∀ p ∈ fields, (p.1, p.2.canonicalForm) = id p := fun p hp => Prod.ext rfl (h p hp)
  rw [canonicalFields_eq, List.map_congr_left hsame, List.map_id]

/-- Looking up all names of fields gives their values. -/
theorem lookups_eq {fields : List (String × Value)} (h : (fields.map Prod.fst).Nodup) :
    (fields.map Prod.fst).map (fun name => (Dict.get? fields name).getD nil) = fields.map Prod.snd := by
  rw [List.map_map]
  refine List.map_congr_left fun p hp => ?_
  have hget := ((distinct_of_nodup h).mem_iff p.1 p.2).1 hp
  rw [Function.comp_apply, hget, Option.getD_some]

/-- A canonical value is its canonical form. -/
theorem Canonical.canonicalForm_eq {v : Value} (hc : v.Canonical) (hw : v.WellFormed) : v.canonicalForm = v := by
  induction hc with
  | plain hv => exact canonicalForm_plain hv
  | @list items present _ ih =>
    have hparts : ∀ v ∈ items, v.WellFormed := by
      cases hw with
      | plain h => cases h
      | list _ parts => exact parts
    have hnames := names_of_items items
    have hlength := length_of_items items
    have hform := canonicalFields_eq_self fun p hp => ih p.2 (mem_of_items hp) (hparts p.2 (mem_of_items hp))
    have hkept := kept_eq_self fun p hp => present p.2 (mem_of_items hp)
    have hnumbered : Numbered (Value.list items).fields.length (Value.list items).fields :=
      fun name => by rw [hnames, hlength]
    rw [canonicalForm_table rfl, hform, ofFields_numbered (nodup_of_items items) (hkept.symm ▸ hnumbered), hkept,
      hlength, ← hnames, lookups_eq (nodup_of_items items), values_of_items]
  | @map fields present unnumbered _ ih =>
    cases hw with
    | plain h => cases h
    | map ascending _ parts =>
      have hform := canonicalFields_eq_self fun p hp => ih p hp (parts p hp)
      have hkept := kept_eq_self present
      rw [canonicalForm_table rfl, Value.fields, hform,
        ofFields_unnumbered (nodup_of_ascending ascending) (hkept.symm ▸ unnumbered _), hkept,
        Dict.ofPairs_eq ascending]

theorem canonicalForm_eq_self_iff {v : Value} (hw : v.WellFormed) : v.canonicalForm = v ↔ v.Canonical :=
  ⟨fun h => h ▸ canonicalForm_canonical hw, fun h => h.canonicalForm_eq hw⟩

end Value

end Fixtures
