import Fixtures.Proofs.Canonical
import Fixtures.Proofs.Tables
import Mathlib
/-!
# Reading tables back

A table that is built for a value has a `Piece` for every item or field. If what
the pieces hold is read as the canonical forms of their values, the table is
read as what these fields become (`Piece.ofEntries_eq`): as a list if the names
of the pieces that hold something are 1, …, n, otherwise as a map. Keys that
stand for different names are different (`keyOfName_inj`).
-/

namespace Fixtures

/-! ## Results without a report -/

namespace Reported

variable {α β : Type}

instance : LawfulMonad Reported := LawfulMonad.mk' Reported
  (fun x => by
    obtain ⟨events, f | a⟩ := x
    · rfl
    · exact congrArg (·, Except.ok a) (List.append_nil events))
  (fun _ _ => rfl)
  (fun x f g => by
    obtain ⟨events, e | a⟩ := x
    · rfl
    · simp only [Bind.bind]
      rcases f a with ⟨events', e | b⟩
      · rfl
      · exact congrArg (·, _) (List.append_assoc ..))

/-- A result, unless tables are nested too deep. -/
def within (p : Prop) [Decidable p] (a : α) : Reported α :=
  if p then pure a else .fail (.nestedTooDeep Script.nestingLimit)

variable {p q : Prop} [Decidable p] [Decidable q]

theorem within_congr (h : p ↔ q) (a : α) : within p a = within q a := if_congr h rfl rfl

theorem within_bind (a : α) (f : α → β) :
    (within p a >>= fun a => within q (f a)) = within (p ∧ q) (f a) := by
  unfold within
  by_cases hp : p
  · rw [if_pos hp, pure_bind]
    exact within_congr (by simp [hp]) (f a)
  · rw [if_neg hp, if_neg fun hpq => hp hpq.1]
    rfl

theorem within_bind_pure (a : α) (f : α → β) : (within p a >>= fun a => pure (f a)) = within p (f a) := by
  unfold within
  split <;> rfl

variable {P : α → Prop} [DecidablePred P]

theorem mapM_within {l : List α} {f : α → Reported β} {g : α → β} (h : ∀ a ∈ l, f a = within (P a) (g a)) :
    l.mapM f = within (∀ a ∈ l, P a) (l.map g) := by
  induction l with
  | nil => exact (if_pos (by simp)).symm
  | cons a rest ih =>
    have hcons (b : β) : (rest.mapM f >>= fun bs => pure (b :: bs)) = within (∀ a ∈ rest, P a) (b :: rest.map g) := by
      rw [ih fun a' ha => h a' (List.mem_cons_of_mem _ ha)]
      exact within_bind_pure _ (b :: ·)
    rw [List.mapM_cons, h a List.mem_cons_self]
    simp only [hcons]
    rw [within_bind]
    exact within_congr List.forall_mem_cons.symm _

theorem foldlM_within {l : List α} {f : β → α → Reported β} {g : β → α → β}
    (h : ∀ a ∈ l, ∀ b, f b a = within (P a) (g b a)) (b : β) :
    l.foldlM f b = within (∀ a ∈ l, P a) (l.foldl g b) := by
  induction l generalizing b with
  | nil => exact (if_pos (by simp)).symm
  | cons a rest ih =>
    rw [List.foldlM_cons, h a List.mem_cons_self]
    simp only [ih fun a' ha => h a' (List.mem_cons_of_mem _ ha)]
    rw [within_bind]
    exact within_congr List.forall_mem_cons.symm _

end Reported

namespace Script

/-! ## Names and keys -/

/-- The name that a key stands for is found again. -/
theorem nameOfKey?_keyOfName (name : String) : nameOfKey? (keyOfName name) = some name := by
  have htext : nameOfKey? (.text name) = some name := congrArg some (Text.decode_encode name)
  unfold keyOfName
  split
  · split
    · rename_i w _ hw
      exact congrArg some hw
    · exact htext
  · exact htext

theorem keyOfName_inj {a b : String} (h : keyOfName a = keyOfName b) : a = b :=
  Option.some.inj (by rw [← nameOfKey?_keyOfName a, h, nameOfKey?_keyOfName])

/-- Places of lists are named by their digits. -/
theorem keyOfName_place {n : Nat} (h : n < 2 ^ 63) : keyOfName (toString n) = .nat n := by
  -- What is known of reading integers back is part of no smaller import than the whole library.
  have hread : (toString n).toInt? = some (n : Int) := Int.toInt?_repr n
  have hmin : Int64.minValue.toInt ≤ n := Int.le_trans (by decide) (Int.natCast_nonneg n)
  have hmax : (n : Int) ≤ Int64.maxValue.toInt := by
    rw [Int64.toInt_maxValue]
    omega
  have hword : Decimal.word? n = some (Int64.ofNat n) := by
    rw [Decimal.word?, if_pos ⟨hmin, hmax⟩, Int64.ofInt_eq_ofNat]
  have hwrite : toString (Int64.ofNat n).toInt = toString n := by
    rw [Int64.toInt_ofNat_of_lt h]
    rfl
  simp only [keyOfName, hread, Option.bind_some, hword]
  rw [if_pos hwrite]
  rfl

theorem isPlace_keyOfName {n : Nat} (h : n < 2 ^ 63) (name : String) :
    isPlace n (keyOfName name) = true ↔ name ∈ Value.places n := by
  rw [Value.mem_places]
  constructor
  · intro hplace
    have hname := nameOfKey?_keyOfName name
    cases hk : keyOfName name with
    | number number =>
      rw [hk] at hname hplace
      cases number with
      | int w =>
        simp only [isPlace, Bool.and_eq_true, decide_eq_true_eq] at hplace
        refine ⟨w.toInt.toNat, by omega, by omega, ?_⟩
        rw [← Option.some.inj hname, ← Int.toNat_of_nonneg (show 0 ≤ w.toInt by omega)]
        rfl
      | float x => cases hname
    | _ =>
      rw [hk] at hplace
      cases hplace
  · rintro ⟨i, hlow, hhigh, rfl⟩
    have hi : i < 2 ^ 63 := Nat.lt_of_le_of_lt hhigh h
    rw [keyOfName_place hi]
    simp only [Val.nat, Val.int, isPlace, Int64.toInt_ofNat_of_lt hi, Bool.and_eq_true, decide_eq_true_eq]
    omega

/-! ## Pieces of a table -/

/-- An entry of a table that is built for a value. -/
structure Piece where
  name : String
  held : Val
  value : Value

namespace Piece

/-- The entry in the table. -/
def entry (p : Piece) : Val × Val := (keyOfName p.name, p.held)

/-- The field it is built for. -/
def field (p : Piece) : String × Value := (p.name, p.value)

/-- The field it is read as. -/
def result (p : Piece) : String × Value := (p.name, p.value.canonicalForm)

/-- The table of some pieces. -/
def table (pieces : List Piece) : Table := .ofEntries (pieces.map entry)

/-- The pieces that hold something. -/
def kept (pieces : List Piece) : List Piece := pieces.filter fun p => p.held ≠ .nil

/-- The names of those that hold something are 1, …, `n`. -/
def Numbered (n : Nat) (pieces : List Piece) : Prop := ∀ x, x ∈ (kept pieces).map name ↔ x ∈ Value.places n

variable {pieces : List Piece}

theorem mem_kept {p : Piece} : p ∈ kept pieces ↔ p ∈ pieces ∧ p.held ≠ .nil := by
  simp [kept]

theorem entries_kept : (pieces.map entry).filter (·.2 ≠ .nil) = (kept pieces).map entry := List.filter_map

theorem numbered_iff {n : Nat} : Numbered n pieces ↔ Value.Numbered n ((kept pieces).map result) := by
  rw [Numbered, Value.Numbered, List.map_map]
  rfl

namespace Numbered

variable {n : Nat} (hn : Numbered n pieces)

include hn

/-- There is a piece for every place. -/
theorem at_place {i : Nat} (hlow : 1 ≤ i) (hhigh : i ≤ n) : ∃ p ∈ kept pieces, p.name = toString i :=
  List.mem_map.1 ((hn (toString i)).2 (Value.mem_places.2 ⟨i, hlow, hhigh, rfl⟩))

/-- Every piece that holds something has a place. -/
theorem place_of {p : Piece} (hp : p ∈ kept pieces) : ∃ i, 1 ≤ i ∧ i ≤ n ∧ toString i = p.name :=
  Value.mem_places.1 ((hn p.name).1 (List.mem_map_of_mem hp))

/-- Its key is that place. -/
theorem key_of (hlt : n < 2 ^ 63) {p : Piece} (hp : p ∈ kept pieces) :
    ∃ i, 1 ≤ i ∧ i ≤ n ∧ keyOfName p.name = .nat i := by
  obtain ⟨i, hlow, hhigh, hi⟩ := hn.place_of hp
  exact ⟨i, hlow, hhigh, by rw [← hi, keyOfName_place (by omega)]⟩

end Numbered

/-- Only pieces that hold something can be nested too deep. -/
theorem kept_depth_le (hnil : ∀ p ∈ pieces, p.held = .nil ↔ p.value = .nil) {levels : Nat} :
    (∀ p ∈ kept pieces, p.value.depth ≤ levels) ↔ ∀ p ∈ pieces, p.value.depth ≤ levels := by
  refine ⟨fun hkept p hp => ?_, fun hall p hp => hall p (mem_kept.1 hp).1⟩
  by_cases hheld : p.held = .nil
  · rw [(hnil p hp).1 hheld]
    exact Nat.zero_le levels
  · exact hkept p (mem_kept.2 ⟨hp, hheld⟩)

/-- The fields that are read from the table are those that hold something. -/
theorem kept_results (hnil : ∀ p ∈ pieces, p.held = .nil ↔ p.value = .nil) :
    Value.kept (Value.canonicalFields (pieces.map field)) = (kept pieces).map result := by
  have hresults : (pieces.map field).map (fun q => (q.1, q.2.canonicalForm)) = pieces.map result := by
    rw [List.map_map]
    rfl
  rw [Value.canonicalFields_eq, hresults, Value.kept, List.filter_map, kept]
  refine congrArg (List.map result) (List.filter_congr fun p hp => ?_)
  rw [Bool.eq_iff_iff, Function.comp_apply, Bool.not_eq_true', ← Bool.not_eq_true, Value.isNil_iff, decide_eq_true_eq]
  exact not_congr (Value.canonicalForm_eq_nil.trans (hnil p hp).symm)

section

variable (h : (pieces.map name).Nodup)

include h

theorem nodup_kept : ((kept pieces).map name).Nodup := h.sublist (List.filter_sublist.map name)

theorem nodup_entries : ((pieces.map entry).map Prod.fst).Nodup := by
  have hkeys : (pieces.map entry).map Prod.fst = (pieces.map name).map keyOfName := by
    rw [List.map_map, List.map_map]
    rfl
  rw [hkeys]
  exact h.map fun _ _ => keyOfName_inj

theorem rows_table : (table pieces).rows = (kept pieces).map entry := by
  rw [table, Table.rows_ofEntries (nodup_entries h), entries_kept]

theorem entries_table : (table pieces).entries = (kept pieces).map entry := by
  rw [table, Table.entries_ofEntries (nodup_entries h), entries_kept]

theorem entryAt_kept {p : Piece} (hp : p ∈ kept pieces) :
    entryAt ((kept pieces).map entry) (keyOfName p.name) = p.held :=
  entryAt_eq (nodup_entries (nodup_kept h)) (List.mem_map_of_mem hp)

theorem get?_result {p : Piece} (hp : p ∈ kept pieces) :
    Dict.get? ((kept pieces).map result) p.name = some p.value.canonicalForm := by
  have hnodup : (((kept pieces).map result).map Prod.fst).Nodup := by
    rw [List.map_map]
    exact nodup_kept h
  exact ((Value.distinct_of_nodup hnodup).mem_iff _ _).1 (List.mem_map_of_mem hp)

/-! ## Lists -/

theorem Numbered.holdsUpTo {n : Nat} (hn : Numbered n pieces) (hlt : n < 2 ^ 63) : (table pieces).HoldsUpTo n := by
  intro k hk
  constructor
  · intro hheld
    have hkey : Val.nat k ∈ (table pieces).rows.map Prod.fst :=
      by_contra fun hnone => hheld (Table.get_new hnone)
    rw [rows_table h] at hkey
    obtain ⟨_, hrow, hkey⟩ := List.mem_map.1 hkey
    obtain ⟨p, hp, rfl⟩ := List.mem_map.1 hrow
    obtain ⟨i, hlow, hhigh, hi⟩ := hn.key_of hlt hp
    obtain rfl := Val.nat_inj (by omega) (by omega) (hi.symm.trans hkey)
    exact ⟨hlow, hhigh⟩
  · rintro ⟨hlow, hhigh⟩
    obtain ⟨p, hp, hname⟩ := hn.at_place hlow hhigh
    rw [Table.item, Table.get_eq_entryAt, rows_table h, ← keyOfName_place (by omega), ← hname, entryAt_kept h hp]
    exact (mem_kept.1 hp).2

/-- The length of a table with numbered names is their number. -/
theorem Numbered.border_eq (hn : Numbered (kept pieces).length pieces) (hlt : (kept pieces).length < 2 ^ 63) :
    (table pieces).border = (kept pieces).length := by
  have hroom : (table pieces).room ≤ 2 ^ 63 := by
    refine Table.room_setAll (Nat.zero_le _) fun row hrow hheld w hw => ?_
    obtain ⟨p, hp, rfl⟩ := List.mem_map.1 hrow
    obtain ⟨i, -, hhigh, hi⟩ := hn.key_of hlt (mem_kept.2 ⟨hp, hheld⟩)
    obtain rfl : Int64.ofNat i = w := Number.int.inj (Val.number.inj (hi.symm.trans hw))
    rw [Int64.toInt_ofNat_of_lt (by omega)]
    exact Int.natCast_nonneg i
  refine (hn.holdsUpTo h hlt).border_eq hlt hroom ?_
  rw [rows_table h, List.length_map]

/-- The entries are those of a list if and only if the names that are read are 1, 2, … -/
theorem isList_iff (hlt : (kept pieces).length < 2 ^ 63) :
    (((kept pieces).map entry).length = (table pieces).border ∧
        ((kept pieces).map entry).all fun row => isPlace (table pieces).border row.1) ↔
      Numbered (kept pieces).length pieces := by
  constructor
  · rintro ⟨hlength, hall⟩
    rw [List.length_map] at hlength
    rw [← hlength] at hall
    have hsub : (kept pieces).map name ⊆ Value.places (kept pieces).length := by
      intro x hx
      obtain ⟨p, hp, rfl⟩ := List.mem_map.1 hx
      exact (isPlace_keyOfName hlt p.name).1 (List.all_eq_true.1 hall _ (List.mem_map_of_mem hp))
    have hperm : ((kept pieces).map name).Perm (Value.places (kept pieces).length) :=
      ((nodup_kept h).subperm hsub).perm_of_length_le (by simp)
    exact fun x => hperm.mem_iff
  · intro hn
    rw [hn.border_eq h hlt]
    refine ⟨List.length_map .., List.all_eq_true.2 fun row hrow => ?_⟩
    obtain ⟨p, hp, rfl⟩ := List.mem_map.1 hrow
    exact (isPlace_keyOfName hlt p.name).2 ((hn p.name).1 (List.mem_map_of_mem hp))

/-! ## What a table is read as -/

theorem nodup_results : ((Value.canonicalFields (pieces.map field)).map Prod.fst).Nodup := by
  rw [Value.names_canonicalFields, List.map_map]
  exact h

variable (hnil : ∀ p ∈ pieces, p.held = .nil ↔ p.value = .nil)

include hnil

theorem ofFields_numbered (hn : Numbered (kept pieces).length pieces) :
    Value.ofFields (Value.canonicalFields (pieces.map field)) =
      .list ((Value.places (kept pieces).length).map fun x => (Dict.get? ((kept pieces).map result) x).getD .nil) := by
  have hkept := kept_results hnil
  have hlength : ((kept pieces).map result).length = (kept pieces).length := List.length_map ..
  rw [Value.ofFields_numbered (nodup_results h) (by rw [hkept, hlength]; exact numbered_iff.1 hn), hkept, hlength]

theorem ofFields_unnumbered (hn : ¬Numbered (kept pieces).length pieces) :
    Value.ofFields (Value.canonicalFields (pieces.map field)) = .map (Dict.ofPairs ((kept pieces).map result)) := by
  have hkept := kept_results hnil
  have hlength : ((kept pieces).map result).length = (kept pieces).length := List.length_map ..
  rw [Value.ofFields_unnumbered (nodup_results h) (by rw [hkept, hlength]; exact mt numbered_iff.2 hn), hkept]

end

section

variable {convert : Val → Reported (Option Value)} {levels : Nat}

/-- Adding the entry of a piece adds the field it is read as. -/
theorem addEntry_eq (kindOf : Val → String) {p : Piece}
    (hread : convert p.held = .within (p.value.depth ≤ levels) (some p.value.canonicalForm)) (d : Variables) :
    addEntry kindOf convert d p.entry = .within (p.value.depth ≤ levels) (d.insert p.name p.value.canonicalForm) := by
  have hname : nameOfKey? p.entry.1 = some p.name := nameOfKey?_keyOfName p.name
  rw [addEntry, hname]
  dsimp only
  rw [show convert p.entry.2 = _ from hread]
  unfold Reported.within
  split <;> rfl

variable (h : (pieces.map name).Nodup)
  (hread : ∀ p ∈ kept pieces, convert p.held = .within (p.value.depth ≤ levels) (some p.value.canonicalForm))

include h hread

/-- The item at a place is read as what is found under the place. -/
theorem Numbered.item_eq {n i : Nat} (hn : Numbered n pieces) (hlt : n < 2 ^ 63) (hlow : 1 ≤ i) (hhigh : i ≤ n) :
    convert (entryAt ((kept pieces).map entry) (.nat i)) =
      .within (∀ p ∈ kept pieces, p.name = toString i → p.value.depth ≤ levels)
        (Dict.get? ((kept pieces).map result) (toString i)) := by
  obtain ⟨p, hp, hname⟩ := hn.at_place hlow hhigh
  rw [← keyOfName_place (by omega), ← hname, entryAt_kept h hp, hread p hp, get?_result h hp]
  refine Reported.within_congr ⟨fun hd q hq he => ?_, fun hall => hall p hp rfl⟩ _
  rwa [List.inj_on_of_nodup_map (nodup_kept h) hq hp he]

/-- A table is read as what its fields become, unless some piece is nested too deep. -/
theorem ofEntries_eq (kindOf : Val → String) (hshort : pieces.length < 2 ^ 63)
    (hnil : ∀ p ∈ pieces, p.held = .nil ↔ p.value = .nil) :
    ofEntries kindOf convert (table pieces).border (table pieces).entries =
      .within (∀ p ∈ pieces, p.value.depth ≤ levels)
        (Value.ofFields (Value.canonicalFields (pieces.map field))) := by
  have hlt : (kept pieces).length < 2 ^ 63 := Nat.lt_of_le_of_lt (List.length_filter_le ..) hshort
  rw [entries_table h, ofEntries]
  by_cases hn : Numbered (kept pieces).length pieces
  · have hitem := fun i (hi : i ∈ List.range (kept pieces).length) =>
      hn.item_eq h hread hlt (Nat.succ_pos i) (List.mem_range.1 hi)
    rw [if_pos ((isList_iff h hlt).2 hn), hn.border_eq h hlt, ofFields_numbered h hnil hn,
      Reported.mapM_within hitem, Reported.within_bind_pure, Value.places_eq, List.map_map, List.map_map]
    refine Reported.within_congr (Iff.trans ?_ (kept_depth_le hnil)) _
    refine ⟨fun hall p hp => ?_, fun hall i _ p hp _ => hall p hp⟩
    obtain ⟨i, hlow, hhigh, hi⟩ := hn.place_of hp
    refine hall (i - 1) (List.mem_range.2 (by omega)) p hp ?_
    rw [Nat.succ_eq_add_one, Nat.sub_add_cancel hlow, hi]
  · have hadd := fun p (hp : p ∈ kept pieces) => addEntry_eq kindOf (hread p hp)
    rw [if_neg (mt (isList_iff h hlt).1 hn), ofFields_unnumbered h hnil hn, List.foldlM_map,
      Reported.foldlM_within hadd, Dict.ofPairs, Dict.extend, List.foldl_map]
    refine (Reported.within_bind_pure _ Value.map).trans ?_
    exact Reported.within_congr (kept_depth_le hnil) _

end

end Piece

end Script

end Fixtures
