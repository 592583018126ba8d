import Fixtures.Dict
/-!
# What keyed lists hold

A `Dict` in ascending order is known by its lookups: two with equal lookups
are equal (`ext`). Every change keeps the order and says what a lookup finds
afterwards. Assigning rows with distinct keys in any order leaves the same
`Dict` (`overlay_perm`), and a `Dict` made of pairs with distinct keys has just
these pairs (`ofPairs_perm`).
-/

namespace Fixtures.Dict

variable {κ ν : Type} [Ord κ]

/-- No key occurs twice. -/
def Distinct (d : Dict κ ν) : Prop := d.Pairwise fun p q => compare p.1 q.1 ≠ .eq

theorem Ascending.distinct {d : Dict κ ν} (h : d.Ascending) : d.Distinct :=
  h.imp fun hlt heq => by rw [hlt] at heq; cases heq

theorem get?_eq_none {d : Dict κ ν} {k : κ} (h : ∀ p ∈ d, compare k p.1 ≠ .eq) : d.get? k = none := by
  induction d with
  | nil => rfl
  | cons p rest ih =>
    rw [get?, if_neg (h p List.mem_cons_self)]
    exact ih fun q hq => h q (List.mem_cons_of_mem _ hq)

/-- An insert brings one pair. -/
theorem mem_insert {d : Dict κ ν} {k : κ} {v : ν} {p : κ × ν} (h : p ∈ d.insert k v) :
    p = (k, v) ∨ p ∈ d := by
  induction d with
  | nil => exact .inl (List.mem_singleton.1 h)
  | cons q rest ih =>
    obtain ⟨k', v'⟩ := q
    simp only [insert] at h
    split at h
    · exact (List.mem_cons.1 h).imp_right id
    · exact (List.mem_cons.1 h).imp_right (List.mem_cons_of_mem _)
    · rcases List.mem_cons.1 h with rfl | h
      · exact .inr List.mem_cons_self
      · exact (ih h).imp_right (List.mem_cons_of_mem _)

/-- An insert of a new key brings just its pair. -/
theorem insert_perm {d : Dict κ ν} {k : κ} (v : ν) (h : ∀ p ∈ d, compare k p.1 ≠ .eq) :
    (d.insert k v).Perm ((k, v) :: d) := by
  induction d with
  | nil => exact .refl _
  | cons q rest ih =>
    obtain ⟨k', v'⟩ := q
    have hk : compare k k' ≠ .eq := h (k', v') List.mem_cons_self
    simp only [insert]
    split
    · exact .refl _
    · contradiction
    · exact ((ih fun p hp => h p (List.mem_cons_of_mem _ hp)).cons _).trans (.swap ..)

theorem erase_sublist (d : Dict κ ν) (k : κ) : (d.erase k).Sublist d := by
  induction d with
  | nil => exact .slnil
  | cons p rest ih =>
    simp only [erase]
    split
    · exact .cons _ (List.Sublist.refl _)
    · exact ih.cons_cons _

theorem ascending_erase {d : Dict κ ν} (h : d.Ascending) (k : κ) : (d.erase k).Ascending :=
  List.Pairwise.sublist (erase_sublist d k) h

section Lawful

variable [Std.LawfulEqOrd κ]

/-- What a lookup finds is there. -/
theorem mem_of_get? {d : Dict κ ν} {k : κ} {v : ν} (h : d.get? k = some v) : (k, v) ∈ d := by
  induction d with
  | nil => cases h
  | cons q rest ih =>
    obtain ⟨k', v'⟩ := q
    simp only [get?] at h
    split at h
    · rename_i hk
      obtain rfl := Std.LawfulEqOrd.eq_of_compare hk
      cases h
      exact List.mem_cons_self
    · exact List.mem_cons_of_mem _ (ih h)

theorem not_mem_keys {d : Dict κ ν} {k : κ} (h : d.get? k = none) : k ∉ d.keys := by
  induction d with
  | nil => exact List.not_mem_nil
  | cons q rest ih =>
    obtain ⟨k', v'⟩ := q
    simp only [get?] at h
    split at h
    · cases h
    · rename_i hk
      rw [keys, List.map_cons, List.mem_cons, not_or]
      refine ⟨?_, ih h⟩
      rintro rfl
      exact hk Std.ReflCmp.compare_self

theorem mem_keys_iff {d : Dict κ ν} {k : κ} : k ∈ d.keys ↔ (d.get? k).isSome = true := by
  constructor
  · intro hk
    cases hget : d.get? k with
    | none => exact absurd hk (not_mem_keys hget)
    | some v => rfl
  · intro hk
    obtain ⟨v, hv⟩ := Option.isSome_iff_exists.1 hk
    exact List.mem_map_of_mem (mem_of_get? hv)

theorem Distinct.perm {d e : Dict κ ν} (h : d.Distinct) (hp : d.Perm e) : e.Distinct := by
  refine hp.pairwise h fun hne heq => hne ?_
  rw [Std.LawfulEqOrd.eq_of_compare heq]
  exact Std.ReflCmp.compare_self

theorem distinct_iff {d : Dict κ ν} : d.Distinct ↔ d.keys.Nodup := by
  rw [Distinct, keys, List.Nodup, List.pairwise_map]
  simp only [ne_eq, Std.LawfulEqOrd.compare_eq_iff_eq]

/-- The first key of distinct ones is not found in the rest. -/
theorem Distinct.get?_tail {k : κ} {v : ν} {rest : Dict κ ν} (h : Distinct ((k, v) :: rest)) {j : κ}
    (hj : compare j k = .eq) : rest.get? j = none := by
  obtain rfl := Std.LawfulEqOrd.eq_of_compare hj
  exact get?_eq_none (List.pairwise_cons.1 h).1

/-- With distinct keys, the pairs are what lookups find. -/
theorem Distinct.mem_iff {d : Dict κ ν} (h : d.Distinct) (k : κ) (v : ν) : (k, v) ∈ d ↔ d.get? k = some v := by
  induction d with
  | nil => simp [get?]
  | cons p rest ih =>
    obtain ⟨k', v'⟩ := p
    rw [List.mem_cons, ih (List.pairwise_cons.1 h).2, get?]
    by_cases hk : compare k k' = .eq
    · rw [if_pos hk, h.get?_tail hk, Prod.mk.injEq]
      obtain rfl := Std.LawfulEqOrd.eq_of_compare hk
      simp [eq_comm]
    · have hne : k ≠ k' := by
        rintro rfl
        exact hk Std.ReflCmp.compare_self
      simp [hk, hne]

/-- The order of distinct keys does not matter to a lookup. -/
theorem get?_perm {d e : Dict κ ν} (hp : d.Perm e) (h : d.Distinct) (k : κ) : d.get? k = e.get? k := by
  induction hp with
  | nil => rfl
  | cons p _ ih =>
    simp only [get?, ih (List.pairwise_cons.1 h).2]
  | swap p q l =>
    by_cases hp : compare k p.1 = .eq
    · by_cases hq : compare k q.1 = .eq
      · obtain rfl := Std.LawfulEqOrd.eq_of_compare hp
        refine absurd ?_ ((List.pairwise_cons.1 h).1 p List.mem_cons_self)
        rw [Std.LawfulEqOrd.eq_of_compare hq]
        exact Std.ReflCmp.compare_self
      · simp [get?, hp, hq]
    · simp [get?, hp]
  | trans h₁ _ ih₁ ih₂ => rw [ih₁ h, ih₂ (h.perm h₁)]

theorem get?_erase {d : Dict κ ν} (h : d.Distinct) (k j : κ) :
    (d.erase k).get? j = if compare j k = .eq then none else d.get? j := by
  induction d with
  | nil => simp [erase, get?]
  | cons p rest ih =>
    obtain ⟨k', v'⟩ := p
    by_cases hk : compare k k' = .eq
    · obtain rfl := Std.LawfulEqOrd.eq_of_compare hk
      by_cases hj : compare j k = .eq
      · simp [erase, hj, h.get?_tail hj]
      · simp [erase, get?, hj]
    · simp only [erase, if_neg hk, get?, ih (List.pairwise_cons.1 h).2]
      by_cases hj : compare j k' = .eq
      · obtain rfl := Std.LawfulEqOrd.eq_of_compare hj
        have : compare j k ≠ .eq := fun he => hk (by rw [Std.LawfulEqOrd.eq_of_compare he] at hj ⊢; exact hj)
        simp [this]
      · simp [hj]

theorem extend_perm {d e : Dict κ ν} (h : Distinct (d ++ e)) : (d.extend e).Perm (d ++ e) := by
  induction e generalizing d with
  | nil => rw [List.append_nil]; exact .refl _
  | cons q e ih =>
    obtain ⟨k, v⟩ := q
    have hmove : (d ++ (k, v) :: e).Perm ((k, v) :: d ++ e) := List.perm_middle
    have hnew : ∀ p ∈ d, compare k p.1 ≠ .eq := fun p hp =>
      (List.pairwise_cons.1 (h.perm hmove)).1 p (List.mem_append_left _ hp)
    have hinsert : (d.insert k v ++ e).Perm ((k, v) :: d ++ e) := (insert_perm v hnew).append_right e
    exact (ih ((h.perm hmove).perm hinsert.symm)).trans (hinsert.trans hmove.symm)

/-- Pairs with distinct keys are all there. -/
theorem ofPairs_perm {l : Dict κ ν} (h : l.Distinct) : (ofPairs l).Perm l := extend_perm h

end Lawful

/-! ## Assigning -/

section Ordered

variable [Std.TransOrd κ] [Std.LawfulEqOrd κ]

theorem ascending_assign {d : Dict κ ν} (h : d.Ascending) (k : κ) (v? : Option ν) : (d.assign k v?).Ascending := by
  cases v? with
  | none => exact ascending_erase h k
  | some v => exact ascending_insert h k v

theorem get?_assign {d : Dict κ ν} (h : d.Ascending) (k : κ) (v? : Option ν) (j : κ) :
    (d.assign k v?).get? j = if compare j k = .eq then v? else d.get? j := by
  cases v? with
  | none => exact get?_erase h.distinct k j
  | some v => exact get?_insert d k v j

theorem ascending_overlay {d : Dict κ ν} (h : d.Ascending) (rows : List (κ × Option ν)) :
    (d.overlay rows).Ascending := by
  induction rows generalizing d with
  | nil => exact h
  | cons p rows ih => exact ih (ascending_assign h p.1 p.2)

/-- After an overlay a lookup finds what the rows say of the key, or else what was there. -/
theorem get?_overlay {d : Dict κ ν} (h : d.Ascending) {rows : Dict κ (Option ν)} (hr : rows.Distinct) (j : κ) :
    (d.overlay rows).get? j = (rows.get? j).getD (d.get? j) := by
  induction rows generalizing d with
  | nil => rfl
  | cons p rows ih =>
    obtain ⟨k, v?⟩ := p
    have step : (d.overlay ((k, v?) :: rows)).get? j = ((d.assign k v?).overlay rows).get? j := rfl
    rw [step, ih (ascending_assign h k v?) (List.pairwise_cons.1 hr).2, get?_assign h]
    by_cases hj : compare j k = .eq
    · simp [get?, hj, hr.get?_tail hj]
    · simp [get?, hj]

/-! ## Equality by lookups -/

omit [Std.LawfulEqOrd κ] in
theorem Ascending.get?_of_lt {k k' : κ} {v' : ν} {rest : Dict κ ν} (h : Ascending ((k', v') :: rest))
    (hlt : compare k k' = .lt) : get? ((k', v') :: rest) k = none := by
  refine get?_eq_none fun p hp => ?_
  rcases List.mem_cons.1 hp with rfl | hp
  · simp [hlt]
  · simp [Std.TransCmp.lt_trans hlt ((List.pairwise_cons.1 h).1 p hp)]

theorem ext {d e : Dict κ ν} (hd : d.Ascending) (he : e.Ascending) (h : ∀ k, d.get? k = e.get? k) : d = e := by
  induction d generalizing e with
  | nil =>
    cases e with
    | nil => rfl
    | cons q e => simpa [get?] using h q.1
  | cons p d ih =>
    obtain ⟨k, v⟩ := p
    cases e with
    | nil => simpa [get?] using h k
    | cons q e =>
      obtain ⟨k', v'⟩ := q
      cases hc : compare k k' with
      | lt =>
        have := h k
        rw [he.get?_of_lt hc] at this
        simp [get?] at this
      | gt =>
        have := h k'
        rw [hd.get?_of_lt (Std.OrientedCmp.lt_of_gt hc)] at this
        simp [get?] at this
      | eq =>
        obtain rfl := Std.LawfulEqOrd.eq_of_compare hc
        obtain rfl : v = v' := by simpa [get?] using h k
        rw [ih (List.pairwise_cons.1 hd).2 (List.pairwise_cons.1 he).2 fun j => ?_]
        by_cases hj : compare j k = .eq
        · rw [hd.distinct.get?_tail hj, he.distinct.get?_tail hj]
        · simpa [get?, hj] using h j

/-- Rows with distinct keys may be assigned in any order. -/
theorem overlay_perm {d : Dict κ ν} (h : d.Ascending) {rows rows' : Dict κ (Option ν)} (hr : rows.Distinct)
    (hp : rows.Perm rows') : d.overlay rows' = d.overlay rows :=
  ext (ascending_overlay h rows') (ascending_overlay h rows) fun k => by
    rw [get?_overlay h (hr.perm hp), get?_overlay h hr, get?_perm hp hr]

/-! ## Dicts of pairs -/

theorem ascending_extend {d : Dict κ ν} (h : d.Ascending) (e : Dict κ ν) : (d.extend e).Ascending := by
  induction e generalizing d with
  | nil => exact h
  | cons q e ih => exact ih (ascending_insert h q.1 q.2)

/-- A lookup in `d` with distinct keys added finds these first. -/
theorem get?_extend (d : Dict κ ν) {e : Dict κ ν} (he : e.Distinct) (j : κ) :
    (d.extend e).get? j = (e.get? j).or (d.get? j) := by
  induction e generalizing d with
  | nil => rfl
  | cons q e ih =>
    obtain ⟨k, v⟩ := q
    have step : (d.extend ((k, v) :: e)).get? j = ((d.insert k v).extend e).get? j := rfl
    rw [step, ih _ (List.pairwise_cons.1 he).2, get?_insert]
    by_cases hj : compare j k = .eq
    · simp [get?, hj, he.get?_tail hj]
    · simp [get?, hj]

theorem ascending_ofPairs (l : Dict κ ν) : (ofPairs l).Ascending := ascending_extend .nil l

theorem ofPairs_eq {d : Dict κ ν} (h : d.Ascending) : ofPairs d = d :=
  ext (ascending_ofPairs d) h fun k => (get?_perm (ofPairs_perm h.distinct).symm h.distinct k).symm

/-! ## Pairs in order -/

omit [Std.TransOrd κ] [Std.LawfulEqOrd κ] in
theorem get?_append (d e : Dict κ ν) (k : κ) : get? (d ++ e) k = (d.get? k).or (e.get? k) := by
  induction d with
  | nil => rfl
  | cons p d ih =>
    simp only [List.cons_append, get?, ih]
    split <;> rfl

/-- Of pairs with one key that are added in order the last counts. -/
theorem get?_extend_last (d e : Dict κ ν) (k : κ) : (d.extend e).get? k = (get? e.reverse k).or (d.get? k) := by
  induction e generalizing d with
  | nil => rfl
  | cons p e ih =>
    have hstep : d.extend (p :: e) = (d.insert p.1 p.2).extend e := rfl
    have hlast : get? [p] k = if compare k p.1 = .eq then some p.2 else none := rfl
    rw [hstep, ih, get?_insert, List.reverse_cons, get?_append, hlast]
    cases get? e.reverse k with
    | some v => rfl
    | none => split <;> rfl

theorem get?_ofPairs (l : List (κ × ν)) (k : κ) : (ofPairs l).get? k = get? l.reverse k := by
  rw [ofPairs, get?_extend_last]
  exact Option.or_none

theorem mem_of_mem_ofPairs {l : List (κ × ν)} {p : κ × ν} (h : p ∈ ofPairs l) : p ∈ l := by
  have hget : (ofPairs l).get? p.1 = some p.2 := ((ascending_ofPairs l).distinct.mem_iff p.1 p.2).1 h
  rw [get?_ofPairs] at hget
  exact List.mem_reverse.1 (mem_of_get? hget)

/-- No key is lost. -/
theorem mem_keys_ofPairs {l : List (κ × ν)} {k : κ} : k ∈ (ofPairs l).keys ↔ k ∈ l.map Prod.fst := by
  constructor
  · intro hk
    obtain ⟨p, hp, rfl⟩ := List.mem_map.1 hk
    exact List.mem_map_of_mem (mem_of_mem_ofPairs hp)
  · intro hk
    obtain ⟨p, hp, rfl⟩ := List.mem_map.1 hk
    cases hget : get? l.reverse p.1 with
    | none => exact absurd (List.mem_map_of_mem (List.mem_reverse.2 hp)) (not_mem_keys hget)
    | some v =>
      rw [← get?_ofPairs] at hget
      exact List.mem_map.2 ⟨(p.1, v), mem_of_get? hget, rfl⟩

/-- Pairs with distinct keys may come in any order. -/
theorem ofPairs_congr {l l' : Dict κ ν} (h : l.Distinct) (hp : l.Perm l') : ofPairs l = ofPairs l' :=
  ext (ascending_ofPairs l) (ascending_ofPairs l') fun k => by
    have hreverse : l.reverse.Perm l'.reverse := (List.reverse_perm l).trans (hp.trans (List.reverse_perm l').symm)
    rw [get?_ofPairs, get?_ofPairs]
    exact get?_perm hreverse (h.perm (List.reverse_perm l).symm) k

omit [Std.TransOrd κ] in
/-- The last pair with a key, by its place. -/
theorem place_of_last {l : List (κ × ν)} {k : κ} {v : ν} (h : get? l.reverse k = some v) :
    ∃ j : Nat, l[j]? = some (k, v) ∧ ∀ i : Nat, j < i → ∀ w, l[i]? ≠ some (k, w) := by
  induction l with
  | nil => cases h
  | cons p l ih =>
    rw [List.reverse_cons, get?_append] at h
    cases hl : get? l.reverse k with
    | some w =>
      obtain rfl : w = v := by simpa [hl] using h
      obtain ⟨j, hj, hlast⟩ := ih hl
      refine ⟨j + 1, hj, fun i hi w => ?_⟩
      obtain ⟨i, rfl⟩ := Nat.exists_eq_add_of_lt hi
      exact hlast _ (by omega) w
    | none =>
      -- None of the later pairs has the key, so it is the first.
      obtain rfl : (k, v) = p := List.mem_singleton.1 (mem_of_get? (d := [p]) (by simpa [hl] using h))
      refine ⟨0, rfl, fun i hi w hw => not_mem_keys hl ?_⟩
      obtain ⟨i, rfl⟩ := Nat.exists_eq_add_of_lt hi
      rw [Nat.zero_add, List.getElem?_cons_succ] at hw
      exact List.mem_map.2 ⟨(k, w), List.mem_reverse.2 (List.mem_of_getElem? hw), rfl⟩

omit [Std.TransOrd κ] in
/-- A value for each of some keys. -/
theorem get?_tabulated [DecidableEq κ] (ks : List κ) (f : κ → ν) (k : κ) :
    get? (ks.map fun k => (k, f k)) k = if k ∈ ks then some (f k) else none := by
  induction ks with
  | nil => rfl
  | cons k' ks ih =>
    rw [List.map_cons, get?, ih]
    by_cases hk : k = k'
    · subst hk
      simp
    · have hne : compare k k' ≠ .eq := fun h => hk (Std.LawfulEqOrd.eq_of_compare h)
      simp [hk, hne]

end Ordered

end Fixtures.Dict
