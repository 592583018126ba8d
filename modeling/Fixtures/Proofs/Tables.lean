import Fixtures.Script.Exchange
import Mathlib.Algebra.Group.Nat.Defs
import Mathlib.Logic.Basic
/-!
# Tables made of entries

A table that is made of entries with distinct keys holds them in their order,
without those that are `nil`. If it holds something at the places 1, …, n and
at no others, its length is n: the search cannot end anywhere else, wherever
the room of the table makes it start.
-/

namespace Fixtures.Script

/-! ## Keys -/

theorem Val.nat_inj {a b : Nat} (ha : a < 2 ^ 64) (hb : b < 2 ^ 64) (h : Val.nat a = Val.nat b) : a = b := by
  have hword : Int64.ofNat a = Int64.ofNat b := Number.int.inj (Val.number.inj h)
  have hbits : a % 2 ^ 64 = b % 2 ^ 64 := congrArg (fun w => w.toBitVec.toNat) hword
  rwa [Nat.mod_eq_of_lt ha, Nat.mod_eq_of_lt hb] at hbits

/-- A value is found under its key. -/
theorem entryAt_eq {entries : List (Val × Val)} (h : (entries.map Prod.fst).Nodup) {k v : Val}
    (hm : (k, v) ∈ entries) : entryAt entries k = v := by
  induction entries with
  | nil => cases hm
  | cons row rest ih =>
    obtain ⟨hnew, hrest⟩ := List.nodup_cons.1 h
    rcases List.mem_cons.1 hm with rfl | hm
    · simp [entryAt]
    · have hne : row.1 ≠ k := fun he => hnew (he ▸ List.mem_map_of_mem hm)
      rw [← ih hrest hm]
      simp [entryAt, hne]

theorem upsert_new {rows : List (Val × Val)} {k : Val} (h : k ∉ rows.map Prod.fst) (v : Val) :
    upsert rows k v = rows ++ [(k, v)] := by
  induction rows with
  | nil => rfl
  | cons row rest ih =>
    obtain ⟨hne, hrest⟩ := not_or.1 (mt List.mem_cons.2 h)
    rw [upsert, if_neg hne, ih hrest, List.cons_append]

namespace Table

theorem get_eq_entryAt (t : Table) (k : Val) : t.get k = entryAt t.rows k := rfl

theorem get_new {t : Table} {k : Val} (h : k ∉ t.rows.map Prod.fst) : t.get k = .nil := by
  have hnone : (t.rows.find? fun row => row.1 = k) = none :=
    List.find?_eq_none.2 fun row hrow => by
      rw [decide_eq_true_eq]
      rintro rfl
      exact h (List.mem_map_of_mem hrow)
  rw [get, hnone]
  rfl

/-! ## Entries -/

/-- A row for a new key, unless its value is `nil`. -/
theorem rows_set {t : Table} {k : Val} (h : k ∉ t.rows.map Prod.fst) (v : Val) :
    (t.set k v).rows = t.rows ++ [(k, v)].filter (·.2 ≠ .nil) := by
  unfold set
  by_cases hv : v = .nil
  · rw [if_pos ⟨hv, get_new h⟩]
    simp [hv]
  · rw [if_neg fun hc => hv hc.1]
    dsimp only
    rw [upsert_new h]
    simp [hv]

theorem rows_setAll {t : Table} {entries : List (Val × Val)}
    (h : ((t.rows ++ entries).map Prod.fst).Nodup) :
    (t.setAll entries).rows = t.rows ++ entries.filter (·.2 ≠ .nil) := by
  induction entries generalizing t with
  | nil => exact (List.append_nil _).symm
  | cons row rest ih =>
    obtain ⟨k, v⟩ := row
    have hnew : k ∉ t.rows.map Prod.fst := fun hk => by
      rw [List.map_append, List.nodup_append] at h
      exact h.2.2 k hk k (List.mem_cons_self ..) rfl
    have hrows := rows_set hnew v
    have hkept : (((t.set k v).rows ++ rest).map Prod.fst).Nodup := by
      rw [hrows, List.append_assoc]
      refine h.sublist (List.Sublist.map _ (List.Sublist.append_left ?_ _))
      exact List.Sublist.append (List.filter_sublist (l := [(k, v)])) (.refl rest)
    show ((t.set k v).setAll rest).rows = _
    rw [ih hkept, hrows, List.append_assoc, ← List.filter_append]
    rfl

/-- A table made of entries with distinct keys has those that are not `nil` as its rows. -/
theorem rows_ofEntries {entries : List (Val × Val)} (h : (entries.map Prod.fst).Nodup) :
    (ofEntries entries).rows = entries.filter (·.2 ≠ .nil) := rows_setAll h

theorem entries_ofEntries {entries : List (Val × Val)} (h : (entries.map Prod.fst).Nodup) :
    (ofEntries entries).entries = entries.filter (·.2 ≠ .nil) := by
  rw [Table.entries, rows_ofEntries h, List.filter_filter]
  simp

/-! ## Room -/

theorem leastPower_le {n k : Nat} (h : n ≤ 2 ^ k) : leastPower n ≤ 2 ^ k := by
  unfold leastPower
  split
  · exact Nat.one_le_two_pow
  · rename_i hn
    have hlog : (n - 1).log2 < k := (Nat.log2_lt (by omega)).2 (by omega)
    exact Nat.pow_le_pow_right (by decide) hlog

/-- Without negative keys there is no more room than there are natural numbers in a word. -/
theorem room_set {t : Table} {k v : Val} (h : t.room ≤ 2 ^ 63)
    (hk : v ≠ .nil → ∀ w, k = .int w → 0 ≤ w.toInt) : (t.set k v).room ≤ 2 ^ 63 := by
  unfold set
  split
  · exact h
  · dsimp only
    split
    · rename_i hnext
      -- Behind the greatest room the next place would be a negative word.
      have hne : t.room ≠ 2 ^ 63 := fun he => by
        have hpositive := hk hnext.1 _ hnext.2
        rw [he] at hpositive
        exact absurd hpositive (by decide)
      exact leastPower_le (by omega)
    · exact h

theorem room_setAll {t : Table} {entries : List (Val × Val)} (h : t.room ≤ 2 ^ 63)
    (hk : ∀ row ∈ entries, row.2 ≠ .nil → ∀ w, row.1 = .int w → 0 ≤ w.toInt) :
    (t.setAll entries).room ≤ 2 ^ 63 := by
  induction entries generalizing t with
  | nil => exact h
  | cons row rest ih =>
    exact ih (room_set h (hk row List.mem_cons_self)) fun row' hrow => hk row' (List.mem_cons_of_mem _ hrow)

/-! ## Length -/

/-- The table holds something at the places 1, …, `n` and at no other up to the greatest there can be room for. -/
def HoldsUpTo (t : Table) (n : Nat) : Prop := ∀ k ≤ 2 ^ 63, t.item k ≠ .nil ↔ 1 ≤ k ∧ k ≤ n

variable {t : Table} {n : Nat}

theorem HoldsUpTo.item_eq_nil (h : t.HoldsUpTo n) {k : Nat} (hk : k ≤ 2 ^ 63) : t.item k = .nil ↔ k = 0 ∨ n < k := by
  rw [← not_iff_not, ← ne_eq, h k hk]
  omega

theorem HoldsUpTo.climb_eq (h : t.HoldsUpTo n) (hn : n < 2 ^ 63) {fuel k : Nat} (hk : k ≤ n) (hfuel : n ≤ k + fuel) :
    t.climb fuel k = n := by
  induction fuel generalizing k with
  | zero => exact Nat.le_antisymm hk hfuel
  | succ fuel ih =>
    rw [climb]
    by_cases hlast : k = n
    · rw [if_pos ((h.item_eq_nil (by omega)).2 (by omega)), hlast]
    · rw [if_neg ((h (k + 1) (by omega)).2 (by omega))]
      exact ih (by omega) (by omega)

theorem HoldsUpTo.search_eq (h : t.HoldsUpTo n) {fuel low high : Nat} (hlow : low ≤ n) (hhigh : n < high)
    (hroom : high ≤ 2 ^ 63) (hfuel : high ≤ low + fuel) : t.search fuel low high = n := by
  induction fuel generalizing low high with
  | zero => omega
  | succ fuel ih =>
    rw [search]
    by_cases hdone : high ≤ low + 1
    · rw [if_pos hdone]
      omega
    · rw [if_neg hdone]
      dsimp only
      by_cases hmiddle : n < (low + high) / 2
      · rw [if_pos ((h.item_eq_nil (by omega)).2 (.inr hmiddle))]
        exact ih hlow hmiddle (by omega) (by omega)
      · rw [if_neg ((h _ (by omega)).2 (by omega))]
        exact ih (by omega) hhigh hroom (by omega)

/-- The length of a table that holds something at 1, …, `n` only is `n`. -/
theorem HoldsUpTo.border_eq (h : t.HoldsUpTo n) (hn : n < 2 ^ 63) (hroom : t.room ≤ 2 ^ 63)
    (hrows : n ≤ t.rows.length) : t.border = n := by
  unfold border
  by_cases hpast : t.room ≠ 0 ∧ t.item t.room = .nil
  · obtain ⟨hne, hnil⟩ := hpast
    have hpast : n < t.room := ((h.item_eq_nil hroom).1 hnil).resolve_left hne
    rw [if_pos ⟨hne, hnil⟩]
    by_cases hbefore : t.item (t.room - 1) = .nil
    · rw [if_pos hbefore]
      exact h.search_eq (Nat.zero_le n) hpast hroom (by omega)
    · rw [if_neg hbefore]
      have := (h (t.room - 1) (by omega)).1 hbefore
      omega
  · rw [if_neg hpast]
    have hfull : t.room ≤ n := by
      by_cases hzero : t.room = 0
      · omega
      · exact ((h t.room hroom).1 fun hnil => hpast ⟨hzero, hnil⟩).2
    exact h.climb_eq hn hfull (by omega)

end Table

end Fixtures.Script
