import Fixtures.Proofs.Reading
/-!
# Tables that share and contain each other

A table is read along the paths that lead to it. `Reads` is what there is to
read while the tables of a path are open: a table that is open already is no
data, any other is read in full each time it is met. `Unfolds` has no path and
unfolds a table completely. Reading fails if some path visits more tables than
may be nested (`Heap.TooDeep`); otherwise it gives what `Reads` says, which is
the unfolding where tables do not contain themselves.
-/

namespace Fixtures

/-! ## Results apart from their reports -/

namespace Reported

variable {α β : Type}

/-- The result without the report. -/
def quiet (r : Reported α) : Reported α := ([], r.result)

theorem quiet_bind (x : Reported α) (f : α → Reported β) : quiet (x >>= f) = quiet x >>= fun a => quiet (f a) := by
  obtain ⟨events, e | a⟩ := x <;> rfl

theorem quiet_mapM (l : List α) (f : α → Reported β) : quiet (l.mapM f) = l.mapM fun a => quiet (f a) := by
  induction l with
  | nil => rfl
  | cons a rest ih =>
    simp only [List.mapM_cons, quiet_bind, ih]
    rfl

theorem quiet_foldlM (l : List α) (f : β → α → Reported β) (b : β) :
    quiet (l.foldlM f b) = l.foldlM (fun b a => quiet (f b a)) b := by
  induction l generalizing b with
  | nil => rfl
  | cons a rest ih => simp only [List.foldlM_cons, quiet_bind, ih]

theorem result_of_quiet {x : Reported α} {p : Prop} [Decidable p] {a : α} (h : quiet x = within p a) :
    x.result = if p then .ok a else .error (.nestedTooDeep Script.nestingLimit) := by
  have hresult : (quiet x).result = (within p a).result := by rw [h]
  refine hresult.trans ?_
  unfold within
  split <;> rfl

end Reported

/-- Adding what the elements of a list give, one after the other, is adding all of it. -/
theorem Dict.foldl_extend {α κ ν : Type} [Ord κ] (f : α → Option (κ × ν)) (l : List α) (d : Dict κ ν) :
    l.foldl (fun d a => d.extend (f a).toList) d = d.extend (l.filterMap f) := by
  induction l generalizing d with
  | nil => rfl
  | cons a rest ih =>
    rw [List.foldl_cons, ih, List.filterMap_cons]
    cases f a <;> rfl

namespace Script

open Reported

/-! ## What a table holds -/

/-- The keys under which data is read: text and integers. -/
inductive Val.Names : Val → Prop
  | text (bytes : Text.Bytes) : Names (.string bytes)
  | integer (n : Int64) : Names (.int n)

theorem Val.table_or_plain (v : Val) : (∃ id, v = .table id) ∨ ∀ id, v ≠ .table id := by
  by_cases h : ∃ id, v = .table id
  · exact .inl h
  · exact .inr (not_exists.1 h)

theorem Val.names_iff {k : Val} : k.Names ↔ (nameOfKey? k).isSome = true := by
  constructor
  · rintro (bytes | n) <;> rfl
  · intro h
    match k with
    | .string bytes => exact .text bytes
    | .number (.int n) => exact .integer n
    | .number (.float _) | .nil | .bool _ | .table _ | .function _ | .builtin _ | .object _ | .thread _ => cases h

theorem exists_place {n : Nat} {k : Val} (h : isPlace n k = true) : ∃ i < n, k = .nat (i + 1) := by
  match k with
  | .number (.int w) =>
    simp only [isPlace, Bool.and_eq_true, decide_eq_true_eq] at h
    refine ⟨w.toInt.toNat - 1, by omega, ?_⟩
    have hword : Int64.ofNat (w.toInt.toNat - 1 + 1) = w := by
      rw [Nat.sub_add_cancel (by omega), ← Int64.ofInt_eq_ofNat, Int.toNat_of_nonneg (by omega), Int64.ofInt_toInt]
    rw [Val.nat, hword]
    rfl
  | .number (.float _) | .nil | .bool _ | .string _ | .table _ | .function _ | .builtin _ | .object _ | .thread _ =>
    cases h

namespace Table

/-- The entries of a list: as many as the length says, and none beyond it. -/
def IsList (t : Table) : Prop := t.entries.length = t.border ∧ ∀ row ∈ t.entries, isPlace t.border row.1 = true

instance (t : Table) : Decidable t.IsList := inferInstanceAs (Decidable (_ ∧ _))

/-- What an entry adds to a map, given what is read of the values: nothing unless its key is a name and it holds
data. -/
def field? (read : Val → Option Value) (row : Val × Val) : Option (String × Value) :=
  match nameOfKey? row.1, read row.2 with
  | some name, some v => some (name, v)
  | _, _ => none

/-- The value of a table, given what is read of the values it holds. What is not data leaves a hole in a list
and nothing in a map. -/
def valueWith (t : Table) (read : Val → Option Value) : Value :=
  if t.IsList then .list ((List.range t.border).map fun i => (read (t.item (i + 1))).getD .nil)
  else .map (Dict.ofPairs (t.entries.filterMap (field? read)))

/-- The same for another length, and for the entries in another order. -/
def valueBy (t : Table) (n : Nat) (entries : List (Val × Val)) (read : Val → Option Value) : Value :=
  if entries.length = n ∧ entries.all fun row => isPlace n row.1 then
    .list ((List.range n).map fun i => (read (t.item (i + 1))).getD .nil)
  else .map (Dict.ofPairs (entries.filterMap (field? read)))

theorem valueBy_border (t : Table) (read : Val → Option Value) : t.valueBy t.border t.entries read = t.valueWith read :=
  if_congr (and_congr_right fun _ => List.all_eq_true) rfl rfl

variable {t : Table}

theorem get_of_mem {k v : Val} (h : (k, v) ∈ t.entries) : t.get k = v :=
  entryAt_eq t.distinct (List.mem_filter.1 h).1

theorem mem_of_get {k v : Val} (h : t.get k = v) (hv : v ≠ .nil) : (k, v) ∈ t.entries := by
  have hkey : k ∈ t.rows.map Prod.fst := by_contra fun hnone => hv (h ▸ get_new hnone)
  obtain ⟨⟨k', v'⟩, hrow, rfl⟩ := List.mem_map.1 hkey
  obtain rfl : v' = v := (entryAt_eq t.distinct hrow).symm.trans h
  exact List.mem_filter.2 ⟨hrow, decide_eq_true hv⟩

/-- What holds of `nil` and of all named entries holds of all that is looked up by name. -/
theorem forall_names {P : Val → Prop} (hnil : P .nil) :
    (∀ k, k.Names → P (t.get k)) ↔ ∀ row ∈ t.entries, row.1.Names → P row.2 := by
  constructor
  · intro h row hrow hname
    exact get_of_mem hrow ▸ h row.1 hname
  · intro h k hname
    by_cases hv : t.get k = .nil
    · exact hv ▸ hnil
    · exact h (k, t.get k) (mem_of_get rfl hv) hname

/-- Only what is read of the values held under names matters. -/
theorem valueWith_congr {read read' : Val → Option Value}
    (h : ∀ k, k.Names → read (t.get k) = read' (t.get k)) : t.valueWith read = t.valueWith read' := by
  unfold valueWith
  split
  · refine congrArg Value.list (List.map_congr_left fun i _ => ?_)
    have hitem : read (t.item (i + 1)) = read' (t.item (i + 1)) := h _ (.integer _)
    rw [hitem]
  · refine congrArg (fun fields => Value.map (Dict.ofPairs fields)) (List.filterMap_congr fun row hrow => ?_)
    unfold field?
    cases hname : nameOfKey? row.1 with
    | none => rfl
    | some name =>
      have hrow' := h row.1 (Val.names_iff.2 (by rw [hname]; rfl))
      rw [get_of_mem hrow] at hrow'
      rw [hrow']

/-! ### Entries in any order -/

section

variable {entries : List (Val × Val)} (he : entries.Perm t.entries)

include he

theorem nodup_keys : (entries.map Prod.fst).Nodup :=
  (he.map Prod.fst).nodup_iff.2 (t.distinct.sublist (List.filter_sublist.map Prod.fst))

theorem mem_keys {k : Val} : k ∈ entries.map Prod.fst ↔ t.get k ≠ .nil := by
  rw [(he.map Prod.fst).mem_iff]
  constructor
  · intro hk
    obtain ⟨row, hrow, rfl⟩ := List.mem_map.1 hk
    rw [get_of_mem hrow]
    exact of_decide_eq_true (List.mem_filter.1 hrow).2
  · exact fun hk => List.mem_map.2 ⟨_, mem_of_get rfl hk, rfl⟩

/-- Entries are what is looked up. -/
theorem entryAt_perm (k : Val) : entryAt entries k = t.get k := by
  by_cases hk : k ∈ entries.map Prod.fst
  · obtain ⟨row, hrow, rfl⟩ := List.mem_map.1 hk
    rw [entryAt_eq (nodup_keys he) hrow, get_of_mem (he.subset hrow)]
  · have hnone : (entries.find? fun row => row.1 = k) = none := by
      refine List.find?_eq_none.2 fun row hrow => ?_
      rw [decide_eq_true_eq]
      rintro rfl
      exact hk (List.mem_map_of_mem hrow)
    rw [entryAt, hnone, of_not_not (mt (mem_keys he).2 hk)]
    rfl

/-- If all keys are places of a list, what holds of `nil` and of its items holds of all that is looked up by name. -/
theorem forall_items {n : Nat} (hall : ∀ row ∈ entries, isPlace n row.1 = true) {P : Val → Prop} (hnil : P .nil) :
    (∀ i ∈ List.range n, P (t.item (i + 1))) ↔ ∀ k, k.Names → P (t.get k) := by
  refine ⟨fun h => (forall_names hnil).2 fun row hrow _ => ?_, fun h i _ => h _ (.integer _)⟩
  obtain ⟨i, hi, hkey⟩ := exists_place (hall row (he.symm.subset hrow))
  rw [← get_of_mem hrow, hkey]
  exact h i (List.mem_range.2 hi)

end

end Table

section

variable {t : Table} {convert : Val → Reported (Option Value)} {P : Val → Prop} [DecidablePred P]
  {read : Val → Option Value}
  (h : ∀ k, k.Names → quiet (convert (t.get k)) = within (P (t.get k)) (read (t.get k)))

include h

/-- Adding an entry to a map fails only if its value is to be read and cannot be. -/
theorem quiet_addEntry (kindOf : Val → String) {row : Val × Val} [Decidable (row.1.Names → P row.2)]
    (hrow : row ∈ t.entries) (d : Variables) :
    quiet (addEntry kindOf convert d row) =
      within (row.1.Names → P row.2)
        (Dict.extend d (Table.field? read row).toList) := by
  unfold addEntry Table.field?
  cases hname : nameOfKey? row.1 with
  | none =>
    have hkey : ¬row.1.Names := fun hkey => by rw [Val.names_iff, hname] at hkey; cases hkey
    exact (if_pos fun hkey' => absurd hkey' hkey).symm
  | some name =>
    have hkey : row.1.Names := Val.names_iff.2 (by rw [hname]; rfl)
    have hread := h row.1 hkey
    rw [Table.get_of_mem hrow] at hread
    simp only [quiet_bind, hread]
    rw [within_congr (forall_prop_of_true hkey)]
    unfold within
    split
    · cases read row.2 <;> rfl
    · rfl

/-- A table is read as its value, unless some value it holds under a name cannot be read. The length and the order of
the entries are any. -/
theorem quiet_ofEntries {entries : List (Val × Val)} (he : entries.Perm t.entries) (kindOf : Val → String)
    [Decidable (∀ k, k.Names → P (t.get k))] (hnil : P .nil) (n : Nat) :
    quiet (ofEntries kindOf convert n entries) =
      within (∀ k, k.Names → P (t.get k)) (t.valueBy n entries read) := by
  classical
  unfold ofEntries Table.valueBy
  by_cases htest : entries.length = n ∧ (entries.all fun row => isPlace n row.1) = true
  · have hitems (i : Nat) (_ : i ∈ List.range n) :
        quiet (convert (entryAt entries (.nat (i + 1)))) =
          within (P (t.item (i + 1))) (read (t.item (i + 1))) := by
      rw [Table.entryAt_perm he]
      exact h _ (.integer _)
    rw [if_pos htest, if_pos htest, quiet_bind, quiet_mapM, mapM_within hitems]
    refine (within_bind_pure _ _).trans ?_
    rw [List.map_map]
    exact within_congr (Table.forall_items he (List.all_eq_true.1 htest.2) hnil) _
  · have hadd := fun row (hrow : row ∈ entries) d => quiet_addEntry h kindOf (he.subset hrow) d
    have hall : (∀ row ∈ entries, row.1.Names → P row.2) ↔ ∀ k, k.Names → P (t.get k) := by
      rw [Table.forall_names hnil]
      exact forall_congr' fun row => by rw [he.mem_iff]
    rw [if_neg htest, if_neg htest, quiet_bind, quiet_foldlM, foldlM_within hadd, Dict.foldl_extend, Dict.ofPairs]
    exact (within_bind_pure _ Value.map).trans (within_congr hall _)

end

/-! ## Paths -/

namespace Heap

variable (h : Heap)

/-- One table is held by the other under a name. -/
def Holds (a b : Nat) : Prop := ∃ k : Val, k.Names ∧ (h.table a).get k = .table b

/-- Different tables, each of which holds the next. -/
structure Path (ids : List Nat) : Prop where
  nodup : ids.Nodup
  chain : ids.IsChain h.Holds

/-- From a table a path leads along `levels` more tables that are not open. -/
def TooDeep (levels : Nat) (path : List Nat) (v : Val) : Prop :=
  ∃ id rest, v = .table id ∧ rest.length = levels ∧ h.Path (id :: rest) ∧ ∀ a ∈ id :: rest, a ∉ path

/-- What a value that is no table is read as, none if it is not data. -/
def plain? : Val → Option Value
  | .nil => some .nil
  | .bool b => some (.bool b)
  | .number (.int n) => some (.integer n)
  | .number (.float x) => some (.number x)
  | .string s => some (.string (Text.decode s))
  | .object id =>
    match h.object id with
    | .entity e => some (.entity e)
    | .entityType t => some (.string t.name)
    | .fault _ | .stream => none
  | .table _ | .function _ | .builtin _ | .thread _ => none

/-- What is read of a value while the tables of a path are open: nothing of a table that is one of them. -/
inductive Reads : List Nat → Val → Option Value → Prop
  | plain {path : List Nat} {v : Val} (hv : ∀ id, v ≠ .table id) : Reads path v (h.plain? v)
  | again {path : List Nat} {id : Nat} (hid : id ∈ path) : Reads path (.table id) none
  | table {path : List Nat} {id : Nat} {read : Val → Option Value} (hid : id ∉ path)
    (held : ∀ k, k.Names → Reads (id :: path) ((h.table id).get k) (read ((h.table id).get k))) :
    Reads path (.table id) (some ((h.table id).valueWith read))

/-- The complete unfolding of a value: every table in it is unfolded, however often it is met. -/
inductive Unfolds : Val → Option Value → Prop
  | plain {v : Val} (hv : ∀ id, v ≠ .table id) : Unfolds v (h.plain? v)
  | table {id : Nat} {read : Val → Option Value}
    (held : ∀ k, k.Names → Unfolds ((h.table id).get k) (read ((h.table id).get k))) :
    Unfolds (.table id) (some ((h.table id).valueWith read))

/-- What is read if nothing is nested too deep. -/
def readout (h : Heap) (levels : Nat) (path : List Nat) (v : Val) : Option Value :=
  match v with
  | .table id =>
    if id ∈ path then none
    else
      match levels with
      | 0 => none
      | levels + 1 => some ((h.table id).valueWith (h.readout levels (id :: path)))
  | v => h.plain? v

variable {h} {levels : Nat} {path : List Nat} {id : Nat} {v : Val}

/-! ### Too deep -/

theorem not_tooDeep_plain (hv : ∀ id, v ≠ .table id) : ¬h.TooDeep levels path v :=
  fun ⟨id, _, hid, _⟩ => hv id hid

theorem not_tooDeep_open (hid : id ∈ path) : ¬h.TooDeep levels path (.table id) := by
  rintro ⟨_, rest, ⟨⟩, -, -, hopen⟩
  exact hopen id List.mem_cons_self hid

theorem tooDeep_zero (hid : id ∉ path) : h.TooDeep 0 path (.table id) :=
  ⟨id, [], rfl, rfl, ⟨List.nodup_singleton id, .singleton id⟩, fun _ ha => List.mem_singleton.1 ha ▸ hid⟩

/-- A path goes on through some table that is held. -/
theorem tooDeep_succ (hid : id ∉ path) :
    h.TooDeep (levels + 1) path (.table id) ↔
      ∃ k, k.Names ∧ h.TooDeep levels (id :: path) ((h.table id).get k) := by
  constructor
  · rintro ⟨_, rest, ⟨⟩, hlength, ⟨hnodup, hchain⟩, hopen⟩
    match rest with
    | next :: rest =>
      obtain ⟨⟨k, hk, hget⟩, hchain⟩ := List.isChain_cons_cons.1 hchain
      obtain ⟨hnew, hnodup⟩ := List.nodup_cons.1 hnodup
      refine ⟨k, hk, next, rest, hget, Nat.succ.inj hlength, ⟨hnodup, hchain⟩, fun a ha hmem => ?_⟩
      rcases List.mem_cons.1 hmem with rfl | hmem
      · exact hnew ha
      · exact hopen a (List.mem_cons_of_mem _ ha) hmem
  · rintro ⟨k, hk, next, rest, hget, hlength, ⟨hnodup, hchain⟩, hopen⟩
    refine ⟨id, next :: rest, rfl, congrArg (· + 1) hlength, ⟨?_, ?_⟩, fun a ha => ?_⟩
    · exact List.nodup_cons.2 ⟨fun hmem => hopen id hmem List.mem_cons_self, hnodup⟩
    · exact List.isChain_cons_cons.2 ⟨⟨k, hk, hget⟩, hchain⟩
    · rcases List.mem_cons.1 ha with rfl | ha
      · exact hid
      · exact fun hmem => hopen a ha (List.mem_cons_of_mem _ hmem)

/-! ### Reading -/

theorem read_plain (hv : ∀ id, v ≠ .table id) : h.read levels path v = pure (h.plain? v) := by
  match v with
  | .table id => exact absurd rfl (hv id)
  | .number (.int _) | .number (.float _) | .nil | .bool _ | .string _ | .function _ | .builtin _ | .thread _ =>
    rw [read, plain?]
  | .object id =>
    rw [read, plain?]
    cases h.object id <;> rfl

theorem readout_plain (hv : ∀ id, v ≠ .table id) : h.readout levels path v = h.plain? v := by
  match v with
  | .table id => exact absurd rfl (hv id)
  | .number _ | .nil | .bool _ | .string _ | .function _ | .builtin _ | .thread _ | .object _ =>
    rw [readout]
    exact hv

theorem read_open (hid : id ∈ path) : quiet (h.read levels path (.table id)) = pure none := by
  cases levels <;> rw [read, if_pos hid] <;> rfl

theorem readout_open (hid : id ∈ path) : h.readout levels path (.table id) = none := by
  cases levels <;> rw [readout, if_pos hid]

open Classical in
/-- Reading fails if a path is too long, and else gives what there is to read. -/
theorem quiet_read (h : Heap) (levels : Nat) (path : List Nat) (v : Val) :
    quiet (h.read levels path v) = within (¬h.TooDeep levels path v) (h.readout levels path v) := by
  rcases v.table_or_plain with ⟨id, rfl⟩ | hv
  · by_cases hid : id ∈ path
    · rw [read_open hid, readout_open hid]
      exact (if_pos (not_tooDeep_open hid)).symm
    · match levels with
      | 0 =>
        rw [read, if_neg hid]
        exact (if_neg (not_not.2 (tooDeep_zero hid))).symm
      | levels + 1 =>
        rw [read, readout, if_neg hid, if_neg hid]
        have hread := quiet_ofEntries (P := fun v => ¬h.TooDeep levels (id :: path) v)
          (fun k _ => quiet_read h levels (id :: path) ((h.table id).get k)) (.refl (h.table id).entries) h.kindOf
          (not_tooDeep_plain fun _ => nofun) (h.table id).border
        rw [Table.valueBy_border] at hread
        simp only [map_eq_pure_bind, quiet_bind, hread]
        refine (within_bind_pure _ some).trans (within_congr ?_ _)
        rw [tooDeep_succ hid]
        push Not
        rfl
  · rw [read_plain hv, readout_plain hv]
    exact (if_pos (not_tooDeep_plain hv)).symm

theorem reads_readout {levels : Nat} {path : List Nat} {v : Val} (hdeep : ¬h.TooDeep levels path v) :
    h.Reads path v (h.readout levels path v) := by
  rcases v.table_or_plain with ⟨id, rfl⟩ | hv
  · by_cases hid : id ∈ path
    · rw [readout_open hid]
      exact .again hid
    · match levels with
      | 0 => exact absurd (tooDeep_zero hid) hdeep
      | levels + 1 =>
        rw [readout, if_neg hid]
        rw [tooDeep_succ hid] at hdeep
        exact .table hid fun k hk => reads_readout fun hheld => hdeep ⟨k, hk, hheld⟩
  · rw [readout_plain hv]
    exact .plain hv

/-- There is one thing to read. -/
theorem Reads.unique {r r' : Option Value} (hr : h.Reads path v r) (hr' : h.Reads path v r') : r = r' := by
  induction hr generalizing r' with
  | plain hv =>
    cases hr' with
    | plain => rfl
    | again | table => exact absurd rfl (hv _)
  | again hid =>
    cases hr' with
    | plain hv => exact absurd rfl (hv _)
    | again => rfl
    | table hnot => exact absurd hid hnot
  | table hid _ ih =>
    cases hr' with
    | plain hv => exact absurd rfl (hv _)
    | again hopen => exact absurd hopen hid
    | table _ held => exact congrArg some (Table.valueWith_congr fun k hk => ih k hk (held k hk))

theorem Unfolds.unique {r r' : Option Value} (hr : h.Unfolds v r) (hr' : h.Unfolds v r') : r = r' := by
  induction hr generalizing r' with
  | plain hv =>
    cases hr' with
    | plain => rfl
    | table => exact absurd rfl (hv _)
  | table _ ih =>
    cases hr' with
    | plain hv => exact absurd rfl (hv _)
    | table held => exact congrArg some (Table.valueWith_congr fun k hk => ih k hk (held k hk))

/-- Where no table contains itself, no table that is met is open. -/
theorem Reads.unfolds {root : Nat} {r : Option Value} (hr : h.Reads path v r)
    (hacyclic : ∀ a, Relation.ReflTransGen h.Holds root a → ¬Relation.TransGen h.Holds a a)
    (hpath : ∀ id, v = .table id → Relation.ReflTransGen h.Holds root id ∧ ∀ a ∈ path, Relation.TransGen h.Holds a id) :
    h.Unfolds v r := by
  induction hr with
  | plain hv => exact .plain hv
  | @again path id hid =>
    obtain ⟨hroot, hopen⟩ := hpath id rfl
    exact absurd (hopen id hid) (hacyclic id hroot)
  | @table path id read hid _ ih =>
    obtain ⟨hroot, hopen⟩ := hpath id rfl
    refine .table fun k hk => ih k hk fun next hnext => ?_
    have hholds : h.Holds id next := ⟨k, hk, hnext⟩
    refine ⟨hroot.tail hholds, fun a ha => ?_⟩
    rcases List.mem_cons.1 ha with rfl | ha
    · exact .single hholds
    · exact (hopen a ha).tail hholds

end Heap

/-- Reading a table ends, with a usage error if some path of 65 different tables begins at it, and otherwise with a
value. On every path a table that is met again is left out of a map and is a hole in a list, while a table that is
merely shared is read in full each time. So where no table contains itself the value is the complete unfolding. -/
theorem tables_unfold_along_paths (h : Heap) (t : Nat) :
    ((∃ f, (h.valueOf (.table t)).result = .error f ∧ f.kind = .usage) ↔
      ∃ rest, (t :: rest).length = 65 ∧ h.Path (t :: rest)) ∧
    ((¬∃ rest, (t :: rest).length = 65 ∧ h.Path (t :: rest)) →
      ∃ w, (h.valueOf (.table t)).result = .ok (some w) ∧ (∀ r, h.Reads [] (.table t) r ↔ r = some w) ∧
        ((∀ a, Relation.ReflTransGen h.Holds t a → ¬Relation.TransGen h.Holds a a) →
          ∀ r, h.Unfolds (.table t) r ↔ r = some w)) := by
  classical
  have hdeep : h.TooDeep nestingLimit [] (.table t) ↔ ∃ rest, (t :: rest).length = 65 ∧ h.Path (t :: rest) := by
    constructor
    · rintro ⟨_, rest, ⟨⟩, hlength, hpath, -⟩
      exact ⟨rest, congrArg (· + 1) hlength, hpath⟩
    · rintro ⟨rest, hlength, hpath⟩
      exact ⟨t, rest, rfl, Nat.succ.inj hlength, hpath, fun _ _ => List.not_mem_nil⟩
  have hresult := result_of_quiet (h.quiet_read nestingLimit [] (.table t))
  rw [← hdeep]
  refine ⟨⟨?_, fun hd => ⟨_, hresult.trans (if_neg (not_not.2 hd)), rfl⟩⟩, fun hd => ?_⟩
  · rintro ⟨f, hf, -⟩
    by_contra hd
    cases hf.symm.trans (hresult.trans (if_pos hd))
  · obtain ⟨w, hw⟩ : ∃ w, h.readout nestingLimit [] (.table t) = some w := ⟨_, by
      rw [nestingLimit, Heap.readout, if_neg List.not_mem_nil]⟩
    have hreads : h.Reads [] (.table t) (some w) := hw ▸ Heap.reads_readout hd
    refine ⟨w, hw ▸ hresult.trans (if_pos hd), fun r => ⟨fun hr => hr.unique hreads, fun hr => hr ▸ hreads⟩, ?_⟩
    intro hacyclic r
    have hunfolds := hreads.unfolds hacyclic fun id hid => ⟨Val.table.inj hid ▸ .refl, fun a ha => nomatch ha⟩
    exact ⟨fun hr => hr.unique hunfolds, fun hr => hr ▸ hunfolds⟩

/-- A table that is shared is there twice, and one that contains itself is a hole. -/
example :
    let h : Heap := { tables := #[.ofList [.table 1, .table 1, .table 0], .ofList [.bool true, .table 0]] }
    (h.valueOf (.table 0)).result =
      .ok (some (.list [.list [.bool true, .nil], .list [.bool true, .nil], .nil])) := by
  cbv

end Script

end Fixtures
