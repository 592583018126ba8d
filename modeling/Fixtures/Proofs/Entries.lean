import Fixtures.Proofs.Unfolding
/-!
# Tables by their keys

A table is read from its length and from its entries in the order of a
traversal, and neither is determined by what the table holds: the length is any
border, the order any at all. Which value the table is read as is determined by
its keys all the same (`Table.ReadAs`). The keys are 1, …, m if and only if the
test on the length succeeds, and then m is the only border.
-/

namespace Fixtures.Script

open Reported

namespace Table

variable {t : Table}

/-! ## Borders -/

/-- A length that a table may be said to have: a place that holds something, or zero, while the next place, if there
is one, holds nothing. -/
structure IsBorder (t : Table) (n : Nat) : Prop where
  lt : n < 2 ^ 63
  held : n = 0 ∨ t.item n ≠ .nil
  next : n + 1 < 2 ^ 63 → t.item (n + 1) = .nil

/-- The keys are 1, …, `m`. -/
structure IsSequence (t : Table) (m : Nat) : Prop where
  lt : m < 2 ^ 63
  keys : ∀ k, t.get k ≠ .nil ↔ ∃ i, 1 ≤ i ∧ i ≤ m ∧ k = .nat i

theorem IsSequence.item_iff {m : Nat} (h : t.IsSequence m) {i : Nat} (hi : i < 2 ^ 63) :
    t.item i ≠ .nil ↔ 1 ≤ i ∧ i ≤ m := by
  rw [item, h.keys]
  constructor
  · rintro ⟨j, hlow, hhigh, hj⟩
    have hm := h.lt
    obtain rfl := Val.nat_inj (by omega) (by omega) hj
    exact ⟨hlow, hhigh⟩
  · rintro ⟨hlow, hhigh⟩
    exact ⟨i, hlow, hhigh, rfl⟩

/-- A table with the keys 1, …, m has no other border than m. -/
theorem IsSequence.border_eq {m n : Nat} (h : t.IsSequence m) (hn : t.IsBorder n) : n = m := by
  have hm := h.lt
  have hlt := hn.lt
  have hle : n ≤ m := by
    rcases hn.held with rfl | hheld
    · exact Nat.zero_le m
    · exact ((h.item_iff hlt).1 hheld).2
  refine Nat.le_antisymm hle (Nat.le_of_not_lt fun hgap => ?_)
  have hnext : n + 1 < 2 ^ 63 := by omega
  exact (h.item_iff hnext).2 ⟨Nat.succ_pos n, hgap⟩ (hn.next hnext)

/-- Between a place that holds something and one that holds nothing the search finds a border. -/
theorem search_border {fuel low high : Nat} (hlow : low = 0 ∨ t.item low ≠ .nil) (hhigh : t.item high = .nil)
    (hlt : low < high) (hfuel : high ≤ low + fuel) :
    (t.search fuel low high = 0 ∨ t.item (t.search fuel low high) ≠ .nil) ∧
      t.item (t.search fuel low high + 1) = .nil ∧ t.search fuel low high < high := by
  induction fuel generalizing low high with
  | zero => omega
  | succ fuel ih =>
    rw [search]
    by_cases hdone : high ≤ low + 1
    · obtain rfl : high = low + 1 := by omega
      rw [if_pos hdone]
      exact ⟨hlow, hhigh, hlt⟩
    · rw [if_neg hdone]
      dsimp only
      by_cases hmiddle : t.item ((low + high) / 2) = .nil
      · rw [if_pos hmiddle]
        obtain ⟨hheld, hnext, hbelow⟩ := ih hlow hmiddle (by omega) (by omega)
        exact ⟨hheld, hnext, by omega⟩
      · rw [if_neg hmiddle]
        exact ih (.inr hmiddle) hhigh (by omega) (by omega)

/-- Climbing ends at a border, or after so many places that all hold something. -/
theorem climb_border (fuel : Nat) {n : Nat} (hn : n = 0 ∨ t.item n ≠ .nil) :
    (t.climb fuel n = 0 ∨ t.item (t.climb fuel n) ≠ .nil) ∧ t.climb fuel n ≤ n + fuel ∧
      (t.item (t.climb fuel n + 1) = .nil ∨ ∀ i, n < i → i ≤ n + fuel + 1 → t.item i ≠ .nil) := by
  induction fuel generalizing n with
  | zero =>
    refine ⟨hn, Nat.le_refl n, ?_⟩
    by_cases hnext : t.item (n + 1) = .nil
    · exact .inl hnext
    · exact .inr fun i hlow hhigh => (show i = n + 1 by omega) ▸ hnext
  | succ fuel ih =>
    rw [climb]
    by_cases hnext : t.item (n + 1) = .nil
    · rw [if_pos hnext]
      exact ⟨hn, by omega, .inl hnext⟩
    · rw [if_neg hnext]
      obtain ⟨hheld, hle, hend⟩ := ih (.inr hnext)
      refine ⟨hheld, by omega, hend.imp_right fun hall i hlow hhigh => ?_⟩
      by_cases hfirst : i = n + 1
      · exact hfirst ▸ hnext
      · exact hall i (by omega) (by omega)

/-- There are no more places that hold something than rows. -/
theorem places_le_rows {n count : Nat} (hlt : n + count < 2 ^ 64)
    (h : ∀ i, n < i → i ≤ n + count → t.item i ≠ .nil) : count ≤ t.rows.length := by
  have hnodup : ((List.range' (n + 1) count).map Val.nat).Nodup :=
    (List.nodup_range' 1).map_on fun i hi j hj hij => by
      rw [List.mem_range'_1] at hi hj
      exact Val.nat_inj (by omega) (by omega) hij
  have hsub : (List.range' (n + 1) count).map Val.nat ⊆ t.rows.map Prod.fst := by
    intro k hk
    obtain ⟨i, hi, rfl⟩ := List.mem_map.1 hk
    rw [List.mem_range'_1] at hi
    by_contra hnone
    exact h i (by omega) (by omega) (get_new hnone)
  simpa using (hnodup.subperm hsub).length_le

/-- The length that is found is a border, whatever room there is. -/
theorem isBorder_border (h : t.room + t.rows.length < 2 ^ 63) : t.IsBorder t.border := by
  unfold border
  by_cases hpast : t.room ≠ 0 ∧ t.item t.room = .nil
  · obtain ⟨hne, hnil⟩ := hpast
    rw [if_pos ⟨hne, hnil⟩]
    by_cases hbefore : t.item (t.room - 1) = .nil
    · rw [if_pos hbefore]
      obtain ⟨hheld, hnext, hbelow⟩ := search_border (.inl rfl) hnil (Nat.pos_of_ne_zero hne) (Nat.le_add_left ..)
      exact ⟨by omega, hheld, fun _ => hnext⟩
    · rw [if_neg hbefore]
      refine ⟨by omega, .inr hbefore, fun _ => ?_⟩
      rwa [Nat.sub_add_cancel (Nat.pos_of_ne_zero hne)]
  · rw [if_neg hpast]
    have hstart : t.room = 0 ∨ t.item t.room ≠ .nil := by
      rcases not_and_or.1 hpast with hzero | hheld
      · exact .inl (not_not.1 hzero)
      · exact .inr hheld
    obtain ⟨hheld, hle, hend⟩ := climb_border t.rows.length hstart
    refine ⟨by omega, hheld, fun _ => hend.resolve_right fun hall => ?_⟩
    exact absurd (places_le_rows (by omega) hall) (Nat.not_succ_le_self _)

end Table

/-! ## Entries in any order -/

/-- A place is a place in every list that is as long as a word can count. -/
theorem isPlace_word {n : Nat} {k : Val} (h : isPlace n k = true) : isPlace (2 ^ 63 - 1) k = true := by
  match k with
  | .number (.int w) =>
    have hlt := w.toInt_lt
    simp only [isPlace, Bool.and_eq_true, decide_eq_true_eq] at h ⊢
    omega
  | .number (.float _) | .nil | .bool _ | .string _ | .table _ | .function _ | .builtin _ | .object _ | .thread _ =>
    cases h

theorem keys_subset_places {n : Nat} {entries : List (Val × Val)} (hall : ∀ row ∈ entries, isPlace n row.1 = true) :
    entries.map Prod.fst ⊆ (List.range n).map fun i => .nat (i + 1) := by
  intro k hk
  obtain ⟨row, hrow, rfl⟩ := List.mem_map.1 hk
  obtain ⟨i, hi, hkey⟩ := exists_place (hall row hrow)
  exact List.mem_map.2 ⟨i, List.mem_range.2 hi, hkey.symm⟩

section

variable {t : Table} {entries : List (Val × Val)} (he : entries.Perm t.entries)

include he

/-- There are no more places than a word can count. -/
theorem length_le_of_places {n : Nat} (hall : ∀ row ∈ entries, isPlace n row.1 = true) :
    entries.length ≤ 2 ^ 63 - 1 := by
  have hsub := keys_subset_places fun row hrow => isPlace_word (hall row hrow)
  simpa only [List.length_map, List.length_range] using ((Table.nodup_keys he).subperm hsub).length_le

/-- As many entries as the length says, at places up to it: the keys are 1, … up to it. -/
theorem isSequence_of_test {n : Nat} (hlength : entries.length = n)
    (hall : ∀ row ∈ entries, isPlace n row.1 = true) : t.IsSequence n := by
  -- Different keys, as many as there are places, are all of them.
  have hperm : (entries.map Prod.fst).Perm ((List.range n).map fun i => .nat (i + 1)) :=
    ((Table.nodup_keys he).subperm (keys_subset_places hall)).perm_of_length_le (by simp [hlength])
  have hshort := length_le_of_places he hall
  refine ⟨by omega, fun k => ?_⟩
  rw [← Table.mem_keys he, hperm.mem_iff, List.mem_map]
  constructor
  · rintro ⟨i, hi, rfl⟩
    exact ⟨i + 1, Nat.succ_pos i, List.mem_range.1 hi, rfl⟩
  · rintro ⟨i, hlow, hhigh, rfl⟩
    exact ⟨i - 1, List.mem_range.2 (by omega), by rw [Nat.sub_add_cancel hlow]⟩

theorem test_of_isSequence {n : Nat} (h : t.IsSequence n) :
    entries.length = n ∧ ∀ row ∈ entries, isPlace n row.1 = true := by
  have hlt := h.lt
  have hplaces : ((List.range n).map fun i => Val.nat (i + 1)).Nodup :=
    List.nodup_range.map_on fun i hi j hj hij => by
      rw [List.mem_range] at hi hj
      have := Val.nat_inj (by omega) (by omega) hij
      omega
  have hperm : (entries.map Prod.fst).Perm ((List.range n).map fun i => .nat (i + 1)) := by
    refine (List.perm_ext_iff_of_nodup (Table.nodup_keys he) hplaces).2 fun k => ?_
    rw [Table.mem_keys he, h.keys, List.mem_map]
    constructor
    · rintro ⟨i, hlow, hhigh, rfl⟩
      exact ⟨i - 1, List.mem_range.2 (by omega), by rw [Nat.sub_add_cancel hlow]⟩
    · rintro ⟨i, hi, rfl⟩
      exact ⟨i + 1, Nat.succ_pos i, List.mem_range.1 hi, rfl⟩
  refine ⟨by simpa using hperm.length_eq, fun row hrow => ?_⟩
  obtain ⟨i, hi, hkey⟩ := List.mem_map.1 (hperm.subset (List.mem_map_of_mem hrow))
  rw [List.mem_range] at hi
  rw [← hkey]
  simp only [Val.nat, Val.int, isPlace, Int64.toInt_ofNat_of_lt (show i + 1 < 2 ^ 63 by omega), Bool.and_eq_true,
    decide_eq_true_eq]
  omega

/-- The test on the length and the entries tells whether the keys are 1, …, m, for any border and any order. -/
theorem test_iff {n : Nat} (hn : t.IsBorder n) :
    (entries.length = n ∧ (entries.all fun row => isPlace n row.1) = true) ↔ ∃ m, t.IsSequence m := by
  rw [List.all_eq_true]
  constructor
  · rintro ⟨hlength, hall⟩
    exact ⟨n, isSequence_of_test he hlength hall⟩
  · rintro ⟨m, hm⟩
    exact hm.border_eq hn ▸ test_of_isSequence he hm

theorem valueBy_sequence {n : Nat} (hn : t.IsSequence n) (read : Val → Option Value) :
    t.valueBy n entries read = .list ((List.range n).map fun i => (read (t.item (i + 1))).getD .nil) := by
  obtain ⟨hlength, hall⟩ := test_of_isSequence he hn
  exact if_pos ⟨hlength, List.all_eq_true.2 hall⟩

theorem valueBy_fields {n : Nat} (hn : t.IsBorder n) (hkeys : ∀ m, ¬t.IsSequence m) (read : Val → Option Value) :
    t.valueBy n entries read = .map (Dict.ofPairs (entries.filterMap (Table.field? read))) :=
  if_neg (mt (test_iff he hn).1 (not_exists.2 hkeys))

end

/-! ## What is read -/

namespace Table

/-- The value a table is read as, given how the values it holds are read: a list of its items if its keys are
1, …, m, otherwise a map by the names of the keys that hold data. -/
inductive ReadAs (t : Table) (convert : Val → Except Failure (Option Value)) : Value → Prop
  | list {m : Nat} {items : List Value} (keys : t.IsSequence m) (length : items.length = m)
    (item : ∀ i, 1 ≤ i → i ≤ m → t.item i ≠ .nil ∧
      ∃ v?, convert (t.item i) = .ok v? ∧ items[i - 1]? = some (v?.getD .nil)) :
    ReadAs t convert (.list items)
  | map {fields : Variables} (keys : ∀ m, ¬t.IsSequence m) (ascending : fields.Ascending)
    (names : ∀ name, (fields.get? name).isSome = true ↔
      ∃ k v, t.get k ≠ .nil ∧ nameOfKey? k = some name ∧ convert (t.get k) = .ok (some v))
    (values : ∀ name v, fields.get? name = some v →
      ∃ k, t.get k ≠ .nil ∧ nameOfKey? k = some name ∧ convert (t.get k) = .ok (some v)) :
    ReadAs t convert (.map fields)

/-- No two keys stand for one name: text is UTF-8, and is not the decimal form of an integer that is a key. -/
structure Separate (t : Table) : Prop where
  text : ∀ bytes, t.get (.string bytes) ≠ .nil → ∃ s, bytes = Text.encode s
  integer : ∀ w, t.get (.int w) ≠ .nil → t.get (.text (toString w.toInt)) = .nil

end Table

theorem toString_toInt_inj {a b : Int64} (h : toString a.toInt = toString b.toInt) : a = b := by
  have hread : some a.toInt = some b.toInt := by
    rw [← Int.toInt?_repr a.toInt, ← Int.toInt?_repr b.toInt]
    exact congrArg String.toInt? h
  exact Int64.toInt_inj.1 (Option.some.inj hread)

theorem Table.Separate.key_inj {t : Table} (h : t.Separate) {k k' : Val} {name : String} (hk : t.get k ≠ .nil)
    (hk' : t.get k' ≠ .nil) (hname : nameOfKey? k = some name) (hname' : nameOfKey? k' = some name) : k = k' := by
  rcases Val.names_iff.2 (Option.isSome_of_eq_some hname) with bytes | w <;>
    rcases Val.names_iff.2 (Option.isSome_of_eq_some hname') with bytes' | w'
  · obtain ⟨s, rfl⟩ := h.text bytes hk
    obtain ⟨s', rfl⟩ := h.text bytes' hk'
    have hs : Text.decode (Text.encode s) = Text.decode (Text.encode s') :=
      Option.some.inj (hname.trans hname'.symm)
    rw [Text.decode_encode, Text.decode_encode] at hs
    rw [hs]
  · obtain ⟨s, rfl⟩ := h.text bytes hk
    have hs : Text.decode (Text.encode s) = toString w'.toInt := Option.some.inj (hname.trans hname'.symm)
    rw [Text.decode_encode] at hs
    exact absurd (h.integer w' hk') (hs ▸ hk)
  · obtain ⟨s', rfl⟩ := h.text bytes' hk'
    have hs : toString w.toInt = Text.decode (Text.encode s') := Option.some.inj (hname.trans hname'.symm)
    rw [Text.decode_encode] at hs
    exact absurd (h.integer w hk) (hs ▸ hk')
  · rw [toString_toInt_inj (Option.some.inj (hname.trans hname'.symm))]

theorem Table.field?_eq_some {read : Val → Option Value} {row : Val × Val} {field : String × Value} :
    field? read row = some field ↔ nameOfKey? row.1 = some field.1 ∧ read row.2 = some field.2 := by
  unfold field?
  cases nameOfKey? row.1 <;> cases read row.2 <;> simp [Prod.ext_iff]

section

variable {t : Table} {entries : List (Val × Val)} (he : entries.Perm t.entries) {read : Val → Option Value}

include he

theorem mem_fields {name : String} {v : Value} :
    (name, v) ∈ entries.filterMap (Table.field? read) ↔
      ∃ k, t.get k ≠ .nil ∧ nameOfKey? k = some name ∧ read (t.get k) = some v := by
  rw [List.mem_filterMap]
  constructor
  · rintro ⟨⟨k, x⟩, hrow, hfield⟩
    obtain rfl : t.get k = x := Table.get_of_mem (he.subset hrow)
    exact ⟨k, (Table.mem_keys he).1 (List.mem_map_of_mem hrow), Table.field?_eq_some.1 hfield⟩
  · rintro ⟨k, hk, hfield⟩
    exact ⟨(k, t.get k), he.symm.subset (Table.mem_of_get rfl hk), Table.field?_eq_some.2 hfield⟩

/-- Names that no two keys stand for are distinct fields. -/
theorem distinct_fields (h : t.Separate) : Dict.Distinct (entries.filterMap (Table.field? read)) := by
  refine List.pairwise_filterMap.2 ((List.pairwise_map.1 (Table.nodup_keys he)).imp_of_mem ?_)
  intro row row' hrow hrow' hne field hfield field' hfield' heq
  have hname := (Table.field?_eq_some.1 hfield).1
  rw [Std.LawfulEqOrd.eq_of_compare heq] at hname
  exact hne (h.key_inj ((Table.mem_keys he).1 (List.mem_map_of_mem hrow))
    ((Table.mem_keys he).1 (List.mem_map_of_mem hrow')) hname (Table.field?_eq_some.1 hfield').1)

variable {convert : Val → Except Failure (Option Value)}
  (h : ∀ k, k.Names → convert (t.get k) = .ok (read (t.get k)))

include h

theorem readAs_fields (hkeys : ∀ m, ¬t.IsSequence m) :
    t.ReadAs convert (.map (Dict.ofPairs (entries.filterMap (Table.field? read)))) := by
  have hmem {name : String} {v : Value} : (name, v) ∈ (entries.filterMap (Table.field? read)).reverse ↔
      ∃ k, t.get k ≠ .nil ∧ nameOfKey? k = some name ∧ convert (t.get k) = .ok (some v) := by
    rw [List.mem_reverse, mem_fields he]
    refine exists_congr fun k => and_congr_right fun _ => and_congr_right fun hname => ?_
    rw [h k (Val.names_iff.2 (Option.isSome_of_eq_some hname)), Except.ok.injEq]
  refine .map hkeys (Dict.ascending_ofPairs _) (fun name => ?_) fun name v hv => ?_
  · rw [Dict.get?_ofPairs]
    constructor
    · intro hsome
      obtain ⟨v, hv⟩ := Option.isSome_iff_exists.1 hsome
      obtain ⟨k, hk⟩ := hmem.1 (Dict.mem_of_get? hv)
      exact ⟨k, v, hk⟩
    · rintro ⟨k, v, hk⟩
      by_contra hnone
      exact Dict.not_mem_keys (Option.not_isSome_iff_eq_none.1 hnone) (List.mem_map_of_mem (hmem.2 ⟨k, hk⟩))
  · rw [Dict.get?_ofPairs] at hv
    exact hmem.1 (Dict.mem_of_get? hv)

omit he in
theorem readAs_sequence {n : Nat} (hn : t.IsSequence n) :
    t.ReadAs convert (.list ((List.range n).map fun i => (read (t.item (i + 1))).getD .nil)) := by
  have hlt := hn.lt
  refine .list hn (by simp) fun i hlow hhigh => ⟨(hn.item_iff (by omega)).2 ⟨hlow, hhigh⟩, _, h _ (.integer _), ?_⟩
  rw [List.getElem?_map, List.getElem?_range (by omega), Option.map_some, Nat.sub_add_cancel hlow]
  rfl

theorem readAs_valueBy {n : Nat} (hn : t.IsBorder n) : t.ReadAs convert (t.valueBy n entries read) := by
  by_cases hkeys : ∃ m, t.IsSequence m
  · obtain ⟨m, hm⟩ := hkeys
    obtain rfl := hm.border_eq hn
    exact valueBy_sequence he hm read ▸ readAs_sequence h hm
  · have hnone := not_exists.1 hkeys
    exact valueBy_fields he hn hnone read ▸ readAs_fields he h hnone

omit h in
/-- Where no two keys stand for one name, all borders and all orders give one value. -/
theorem valueBy_congr (hs : t.Separate) {n n' : Nat} {entries' : List (Val × Val)} (hn : t.IsBorder n)
    (hn' : t.IsBorder n') (he' : entries'.Perm t.entries) : t.valueBy n' entries' read = t.valueBy n entries read := by
  by_cases hkeys : ∃ m, t.IsSequence m
  · obtain ⟨m, hm⟩ := hkeys
    rw [hm.border_eq hn, hm.border_eq hn', valueBy_sequence he hm, valueBy_sequence he' hm]
  · have hnone := not_exists.1 hkeys
    have hfields : (entries'.filterMap (Table.field? read)).Perm (entries.filterMap (Table.field? read)) :=
      (he'.trans he.symm).filterMap _
    rw [valueBy_fields he hn hnone, valueBy_fields he' hn' hnone, Dict.ofPairs_congr (distinct_fields he' hs) hfields]

end

open Classical in
theorem result_ofEntries (h : Heap) (levels : Nat) (path : List Nat) {t : Table} {entries : List (Val × Val)}
    (he : entries.Perm t.entries) (n : Nat) :
    (ofEntries h.kindOf (h.read levels path) n entries).result =
      if ∀ k, k.Names → ¬h.TooDeep levels path (t.get k) then .ok (t.valueBy n entries (h.readout levels path))
      else .error (.nestedTooDeep nestingLimit) :=
  result_of_quiet (quiet_ofEntries (P := fun v => ¬h.TooDeep levels path v)
    (fun k _ => h.quiet_read levels path (t.get k)) he h.kindOf (Heap.not_tooDeep_plain fun _ => nofun) n)

/-- A table is read by its keys, with any border as its length and its entries in any order: as a list if they are
1, …, m, and otherwise as a map, unless an entry under a name is nested too deep. If no two keys stand for one name,
neither the border nor the order matters. -/
theorem tables_read_by_keys (h : Heap) (levels : Nat) (path : List Nat) {t : Table} {n : Nat}
    {entries : List (Val × Val)} (hn : t.IsBorder n) (he : entries.Perm t.entries) :
    let convert := fun v => (h.read levels path v).result
    let result := fun n entries => (ofEntries h.kindOf (h.read levels path) n entries).result
    ((∃ k, k.Names ∧ convert (t.get k) = .error (.nestedTooDeep nestingLimit)) →
      result n entries = .error (.nestedTooDeep nestingLimit)) ∧
    ((¬∃ k, k.Names ∧ convert (t.get k) = .error (.nestedTooDeep nestingLimit)) →
      ∃ w, result n entries = .ok w ∧ t.ReadAs convert w) ∧
    (t.Separate → ∀ n' entries', t.IsBorder n' → entries'.Perm t.entries →
      result n' entries' = result n entries) := by
  classical
  intro convert result
  have hread (k : Val) : convert (t.get k) = _ := result_of_quiet (h.quiet_read levels path (t.get k))
  have hdeep : (∃ k, k.Names ∧ convert (t.get k) = .error (.nestedTooDeep nestingLimit)) ↔
      ¬∀ k, k.Names → ¬h.TooDeep levels path (t.get k) := by
    push Not
    refine exists_congr fun k => and_congr_right fun _ => ?_
    by_cases hk : h.TooDeep levels path (t.get k) <;> simp [hread, hk]
  have hresult := result_ofEntries h levels path he n
  rw [hdeep, not_not]
  refine ⟨fun hd => hresult.trans (if_neg hd), fun hd => ?_, fun hs n' entries' hn' he' => ?_⟩
  · exact ⟨_, hresult.trans (if_pos hd), readAs_valueBy he (fun k hk => (hread k).trans (if_pos (hd k hk))) hn⟩
  · exact (result_ofEntries h levels path he' n').trans (valueBy_congr he hs hn hn' he' ▸ hresult.symm)

/-- A table with a hole at 3 may be said to have the length 2 or 4, and is read as the same map in both cases. -/
theorem two_borders_one_map :
    let t : Table := .ofList [.bool true, .int 5, .nil, .text "x"]
    let w : Value := .map [("1", .bool true), ("2", .integer 5), ("4", .string "x")]
    let read := fun n entries => (ofEntries ({} : Heap).kindOf (({} : Heap).read 64 []) n entries).result
    t.border = 4 ∧ t.IsBorder 4 ∧ t.IsBorder 2 ∧ t.Separate ∧ read 4 t.entries = .ok w ∧
      read 2 t.entries.reverse = .ok w ∧ t.ReadAs (fun v => (({} : Heap).read 64 [] v).result) w := by
  intro t w read
  have hborder : t.border = 4 := by
    unfold t
    decide
  have hfour : t.IsBorder 4 := by
    rw [← hborder]
    exact Table.isBorder_border (by unfold t; decide)
  have htwo : t.IsBorder 2 := ⟨by decide, .inr (by unfold t; decide), fun _ => by unfold t; decide⟩
  have hread : read 4 t.entries = .ok w := by
    unfold read t w
    cbv
  have hkeys : ∀ k, t.get k ≠ .nil → k ∈ [Val.nat 1, .nat 2, .nat 4] := fun k hk =>
    (Table.mem_keys (.refl t.entries)).2 hk
  have hseparate : t.Separate := by
    refine ⟨fun bytes hbytes => absurd (hkeys _ hbytes) (by simp [Val.nat, Val.int]), fun w _ => ?_⟩
    by_contra hheld
    exact absurd (hkeys _ hheld) (by simp [Val.nat, Val.int, Val.text])
  obtain ⟨hdeep, hvalue, hsame⟩ := tables_read_by_keys {} 64 [] hfour (.refl t.entries)
  obtain ⟨w', hw', hreadAs⟩ := hvalue fun hd => by cases hread.symm.trans (hdeep hd)
  obtain rfl : w = w' := Except.ok.inj (hread.symm.trans hw')
  exact ⟨hborder, hfour, htwo, hseparate, hread,
    (hsame hseparate 2 _ htwo (List.reverse_perm _)).trans hread, hreadAs⟩

end Fixtures.Script
