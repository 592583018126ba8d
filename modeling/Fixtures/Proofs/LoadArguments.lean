import Fixtures.Proofs.Entries
import Fixtures.Proofs.OwnBlocks
/-!
# The table given to `load`

The table that `load` is given is first read as any value is: what is no data
is left out of a map, so are keys that are neither text nor integers, and of
keys that stand for one name one counts. Only what is left is checked. So an
entry that names no script is refused if it holds data, and vanishes otherwise.
`Heap.Complete` says that nothing vanishes; a list leaves holes instead, which
are refused.
-/

namespace Fixtures

/-! ## Pairs that are lost -/

namespace Dict

variable {l : List (String × Value)}

theorem keys_subperm (l : List (String × Value)) : (ofPairs l).keys.Subperm (l.map Prod.fst) :=
  (Value.nodup_of_ascending (ascending_ofPairs l)).subperm fun _ hk => mem_keys_ofPairs.1 hk

theorem length_ofPairs_le (l : List (String × Value)) : (ofPairs l).length ≤ l.length := by
  simpa [keys] using (keys_subperm l).length_le

/-- Of pairs with one key all but one are lost. -/
theorem length_ofPairs_iff : (ofPairs l).length = l.length ↔ (l.map Prod.fst).Nodup := by
  refine ⟨fun h => ?_, fun h => (ofPairs_perm (Value.distinct_of_nodup h)).length_eq⟩
  have hperm : (ofPairs l).keys.Perm (l.map Prod.fst) := (keys_subperm l).perm_of_length_le (by simp [keys, h])
  exact hperm.nodup_iff.1 (Value.nodup_of_ascending (ascending_ofPairs l))

end Dict

namespace Script

open Reported

/-! ## What a table holds -/

namespace Heap

variable (h : Heap) (id : Nat)

/-- The script that a value names: text is a name, and an entity type stands for its own. -/
def scriptName? : Val → Option String
  | .string bytes => some (Text.decode bytes)
  | .object o =>
    match h.object o with
    | .entityType t => some t.name
    | .entity _ | .fault _ | .stream => none
  | .nil | .bool _ | .number _ | .table _ | .function _ | .builtin _ | .thread _ => none

/-- A value that is data, seen from inside a table. The table itself is not. -/
def HoldsData : Val → Prop
  | .nil | .bool _ | .number _ | .string _ => True
  | .table id' => id' ≠ id
  | .object o =>
    match h.object o with
    | .entity _ | .entityType _ => True
    | .fault _ | .stream => False
  | .function _ | .builtin _ | .thread _ => False

/-- No entry of a table vanishes when it is read: all keys are names, all values are data, and no two keys stand for
one name. -/
structure Complete : Prop where
  names : ∀ row ∈ (h.table id).entries, row.1.Names
  data : ∀ row ∈ (h.table id).entries, h.HoldsData id row.2
  separate : ((h.table id).entries.map fun row => nameOfKey? row.1).Nodup

/-- References to the scripts of a list, in order. -/
structure Lists (scripts : List ScriptRef) : Prop where
  keys : (h.table id).IsSequence scripts.length
  item : ∀ i, i < scripts.length → ∃ name, h.scriptName? ((h.table id).item (i + 1)) = some name ∧
    scripts[i]? = some ⟨name, none⟩

/-- References to the scripts of a map, by ascending label. Each label is the name of a key that holds data, and there
is a reference for every such name. -/
structure Labels (scripts : List ScriptRef) : Prop where
  keys : (h.table id).room + (h.table id).rows.length < 2 ^ 63 → ∀ m, ¬(h.table id).IsSequence m
  ascending : scripts.Pairwise fun r r' => ∃ label label', r.label = some label ∧ r'.label = some label' ∧ label < label'
  labels : ∀ label, (∃ r ∈ scripts, r.label = some label) ↔
    ∃ k, (h.table id).get k ≠ .nil ∧ nameOfKey? k = some label ∧ h.HoldsData id ((h.table id).get k)
  script : ∀ r ∈ scripts, ∃ k, (h.table id).get k ≠ .nil ∧ nameOfKey? k = r.label ∧
    h.scriptName? ((h.table id).get k) = some r.name

variable {h id} {levels : Nat} {v : Val}

/-- What is read as text is the name of a script. -/
theorem readout_string {path : List Nat} {s : String} :
    h.readout levels path v = some (.string s) ↔ h.scriptName? v = some s := by
  rcases v.table_or_plain with ⟨id', rfl⟩ | hv
  · refine iff_of_false (fun hr => ?_) nofun
    by_cases hid : id' ∈ path
    · rw [readout_open hid] at hr
      cases hr
    · cases levels with
      | zero =>
        rw [readout, if_neg hid] at hr
        cases hr
      | succ levels =>
        rw [readout, if_neg hid, Table.valueWith] at hr
        split at hr <;> cases hr
  · rw [readout_plain hv]
    cases v with
    | table id' => exact absurd rfl (hv id')
    | object o =>
      rw [plain?, scriptName?]
      cases h.object o <;> simp
    | number n => cases n <;> simp [plain?, scriptName?]
    | nil | bool _ | string _ | function _ | builtin _ | thread _ => simp [plain?, scriptName?]

/-- What is read inside a table is what is data there. -/
theorem readout_isSome : (h.readout (levels + 1) [id] v).isSome = true ↔ h.HoldsData id v := by
  rcases v.table_or_plain with ⟨id', rfl⟩ | hv
  · by_cases hid : id' ∈ [id]
    · rw [readout_open hid]
      exact iff_of_false nofun fun hne => hne (List.mem_singleton.1 hid)
    · rw [readout, if_neg hid]
      exact iff_of_true rfl fun heq => hid (List.mem_singleton.2 heq)
  · rw [readout_plain hv]
    cases v with
    | table id' => exact absurd rfl (hv id')
    | object o =>
      rw [plain?, HoldsData]
      cases h.object o <;> simp
    | number n => cases n <;> simp [plain?, HoldsData]
    | nil | bool _ | string _ | function _ | builtin _ | thread _ => simp [plain?, HoldsData]

theorem holdsData_of_scriptName {name : String} (hv : h.scriptName? v = some name) : h.HoldsData id v := by
  rw [← @readout_isSome h id 0, readout_string.2 hv]
  rfl

end Heap

/-! ## Entries that vanish -/

/-- The fields that the entries of a table give, one by one. Inside the table there is room for 63 more. -/
def Heap.fieldsOf (h : Heap) (id : Nat) : List (String × Value) :=
  (h.table id).entries.filterMap (Table.field? (h.readout 63 [id]))

section

variable {h : Heap} {id : Nat}

theorem field?_isSome {row : Val × Val} :
    (Table.field? (h.readout 63 [id]) row).isSome = true ↔ row.1.Names ∧ h.HoldsData id row.2 := by
  rw [Val.names_iff, ← @Heap.readout_isSome h id 62, Table.field?]
  cases nameOfKey? row.1 <;> cases h.readout 63 [id] row.2 <;> simp

theorem mem_fieldsOf {name : String} {v : Value} : (name, v) ∈ h.fieldsOf id ↔
    ∃ k, (h.table id).get k ≠ .nil ∧ nameOfKey? k = some name ∧ h.readout 63 [id] ((h.table id).get k) = some v :=
  mem_fields (.refl _)

/-- There is a field for every name under which there is data. -/
theorem mem_keys_fieldsOf {name : String} : name ∈ (h.fieldsOf id).map Prod.fst ↔
    ∃ k, (h.table id).get k ≠ .nil ∧ nameOfKey? k = some name ∧ h.HoldsData id ((h.table id).get k) := by
  constructor
  · intro hname
    obtain ⟨⟨name, v⟩, hfield, rfl⟩ := List.mem_map.1 hname
    obtain ⟨k, hk, hname, hread⟩ := mem_fieldsOf.1 hfield
    exact ⟨k, hk, hname, Heap.readout_isSome.1 (Option.isSome_of_eq_some hread)⟩
  · rintro ⟨k, hk, hname, hdata⟩
    obtain ⟨v, hv⟩ := Option.isSome_iff_exists.1 ((@Heap.readout_isSome h id 62 _).2 hdata)
    exact List.mem_map.2 ⟨(name, v), mem_fieldsOf.2 ⟨k, hk, hname, hv⟩, rfl⟩

theorem length_fieldsOf_iff : (h.fieldsOf id).length = (h.table id).entries.length ↔
    ∀ row ∈ (h.table id).entries, row.1.Names ∧ h.HoldsData id row.2 := by
  rw [Heap.fieldsOf, List.filterMap_length_eq_length]
  exact forall₂_congr fun row _ => field?_isSome

/-- If no entry vanishes, the fields have the names of the keys. -/
theorem names_fieldsOf (hall : ∀ row ∈ (h.table id).entries, row.1.Names ∧ h.HoldsData id row.2) :
    ((h.fieldsOf id).map Prod.fst).map some = (h.table id).entries.map fun row => nameOfKey? row.1 := by
  unfold Heap.fieldsOf
  generalize (h.table id).entries = entries at hall ⊢
  induction entries with
  | nil => rfl
  | cons row rest ih =>
    obtain ⟨field, hfield⟩ := Option.isSome_iff_exists.1 (field?_isSome.2 (hall row List.mem_cons_self))
    rw [List.filterMap_cons_some hfield, List.map_cons, List.map_cons, List.map_cons,
      ih fun row' hrow' => hall row' (List.mem_cons_of_mem _ hrow'), (Table.field?_eq_some.1 hfield).1]

/-- A map has as many fields as the table has entries if and only if none vanishes. -/
theorem complete_iff (h : Heap) (id : Nat) :
    (Dict.ofPairs (h.fieldsOf id)).length = (h.table id).entries.length ↔ h.Complete id := by
  have hmerged := Dict.length_ofPairs_le (h.fieldsOf id)
  have hskipped : (h.fieldsOf id).length ≤ (h.table id).entries.length := List.length_filterMap_le ..
  constructor
  · intro hlength
    have hall := length_fieldsOf_iff.1 (Nat.le_antisymm hskipped (hlength ▸ hmerged))
    have hnodup := Dict.length_ofPairs_iff.1 (Nat.le_antisymm hmerged (hlength.symm ▸ hskipped))
    refine ⟨fun row hrow => (hall row hrow).1, fun row hrow => (hall row hrow).2, ?_⟩
    rw [← names_fieldsOf hall]
    exact hnodup.map (Option.some_injective _)
  · intro hc
    have hall (row : Val × Val) (hrow : row ∈ (h.table id).entries) : row.1.Names ∧ h.HoldsData id row.2 :=
      ⟨hc.names row hrow, hc.data row hrow⟩
    have hseparate := hc.separate
    rw [← names_fieldsOf hall] at hseparate
    rw [Dict.length_ofPairs_iff.2 hseparate.of_map, length_fieldsOf_iff.2 hall]

end

/-! ## References -/

namespace Vocabulary

/-- A list gives a reference for each item, unless one is no text. -/
theorem listed_cases (items : List Value) :
    (∃ names : List String, items = names.map .string ∧ listed items = .ok (names.map fun name => ⟨name, none⟩)) ∨
      ∃ v, v ∈ items ∧ (∀ name, v ≠ .string name) ∧ listed items = .error (.badCall .load (.nameIs v.kind)) := by
  induction items with
  | nil => exact .inl ⟨[], rfl, rfl⟩
  | cons v rest ih =>
    by_cases hv : ∃ name, v = .string name
    · obtain ⟨name, rfl⟩ := hv
      rw [listed]
      rcases ih with ⟨names, rfl, hrest⟩ | ⟨w, hw, hne, hrest⟩
      · rw [hrest]
        exact .inl ⟨name :: names, rfl, rfl⟩
      · rw [hrest]
        exact .inr ⟨w, List.mem_cons_of_mem _ hw, hne, rfl⟩
    · have hne := not_exists.1 hv
      refine .inr ⟨v, List.mem_cons_self, hne, ?_⟩
      cases v with
      | string name => exact absurd rfl (hne name)
      | _ => rfl

/-- A map gives a reference for each field, unless one is no text. -/
theorem labelled_cases (fields : List (String × Value)) :
    (∃ named : List (String × String), fields = named.map (fun p => (p.1, .string p.2)) ∧
      labelled fields = .ok (named.map fun p => ⟨p.2, some p.1⟩)) ∨
    ∃ p ∈ fields, (∀ name, p.2 ≠ .string name) ∧
      labelled fields = .error (.badCall .load (.scriptIs p.1 p.2.kind)) := by
  induction fields with
  | nil => exact .inl ⟨[], rfl, rfl⟩
  | cons p rest ih =>
    obtain ⟨label, v⟩ := p
    by_cases hv : ∃ name, v = .string name
    · obtain ⟨name, rfl⟩ := hv
      rw [labelled]
      rcases ih with ⟨named, rfl, hrest⟩ | ⟨q, hq, hne, hrest⟩
      · rw [hrest]
        exact .inl ⟨(label, name) :: named, rfl, rfl⟩
      · rw [hrest]
        exact .inr ⟨q, List.mem_cons_of_mem _ hq, hne, rfl⟩
    · have hne := not_exists.1 hv
      refine .inr ⟨(label, v), List.mem_cons_self, hne, ?_⟩
      cases v with
      | string name => exact absurd rfl (hne name)
      | _ => rfl

end Vocabulary

/-! ## The table as the only argument -/

section

variable {h : Heap} {id : Nat}

open Classical in
theorem valueOf_table (h : Heap) (id : Nat) :
    (h.valueOf (.table id)).result =
      if ¬h.TooDeep nestingLimit [] (.table id) then .ok (some ((h.table id).valueWith (h.readout 63 [id])))
      else .error (.nestedTooDeep nestingLimit) := by
  have hread : h.readout nestingLimit [] (.table id) = some ((h.table id).valueWith (h.readout 63 [id])) := by
    rw [nestingLimit, Heap.readout, if_neg List.not_mem_nil]
  rw [← hread]
  exact result_of_quiet (h.quiet_read nestingLimit [] (.table id))

/-- Places are told apart by their names. -/
theorem place_names_nodup {n : Nat} (hall : ∀ row ∈ (h.table id).entries, isPlace n row.1 = true) :
    ((h.table id).entries.map fun row => nameOfKey? row.1).Nodup := by
  have hkeys : ((h.table id).entries.map Prod.fst).Nodup := Table.nodup_keys (.refl _)
  have hnames := hkeys.map_on (f := nameOfKey?) ?_
  · rwa [List.map_map] at hnames
  · intro k hk k' hk' hsame
    obtain ⟨row, hrow, rfl⟩ := List.mem_map.1 hk
    obtain ⟨row', hrow', rfl⟩ := List.mem_map.1 hk'
    obtain ⟨i, -, hi⟩ := exists_place (hall row hrow)
    obtain ⟨i', -, hi'⟩ := exists_place (hall row' hrow')
    rw [hi, hi'] at hsame ⊢
    exact congrArg Val.int (toString_toInt_inj (Option.some.inj hsame))

/-- A list that gives references gives one for each entry. -/
theorem lists_of_items (hl : (h.table id).IsList) {names : List String}
    (hitems : (List.range (h.table id).border).map
      (fun i => (h.readout 63 [id] ((h.table id).item (i + 1))).getD .nil) = names.map .string) :
    h.Lists id (names.map fun name => ⟨name, none⟩) ∧ names.length = (h.table id).entries.length ∧ h.Complete id := by
  have hlength : names.length = (h.table id).border := by
    have hsame := congrArg List.length hitems
    simpa using hsame.symm
  have hitem (i : Nat) (hi : i < names.length) :
      ∃ name, h.scriptName? ((h.table id).item (i + 1)) = some name ∧ names[i]? = some name := by
    have hat := congrArg (fun items => items[i]?) hitems
    simp only [List.getElem?_map, List.getElem?_range (hlength ▸ hi), List.getElem?_eq_getElem hi, Option.map_some,
      Option.some.injEq] at hat
    refine ⟨names[i], ?_, List.getElem?_eq_getElem hi⟩
    cases hread : h.readout 63 [id] ((h.table id).item (i + 1)) with
    | none =>
      rw [hread] at hat
      cases hat
    | some v =>
      rw [hread] at hat
      exact Heap.readout_string.1 (hread.trans (congrArg some hat))
  refine ⟨⟨?_, fun i hi => ?_⟩, hlength.trans hl.1.symm, ⟨fun row hrow => ?_, fun row hrow => ?_, place_names_nodup hl.2⟩⟩
  · rw [List.length_map, hlength]
    exact isSequence_of_test (.refl (h.table id).entries) hl.1 hl.2
  · rw [List.length_map] at hi
    obtain ⟨name, hname, hat⟩ := hitem i hi
    exact ⟨name, hname, by rw [List.getElem?_map, hat]; rfl⟩
  · obtain ⟨i, -, hkey⟩ := exists_place (hl.2 row hrow)
    rw [hkey]
    exact .integer _
  · obtain ⟨i, hi, hkey⟩ := exists_place (hl.2 row hrow)
    obtain ⟨name, hname, -⟩ := hitem i (hlength ▸ hi)
    rw [← Table.get_of_mem hrow, hkey]
    exact Heap.holdsData_of_scriptName hname

/-- A map that gives references gives one for each name under which there is data. -/
theorem labels_of_fields (hl : ¬(h.table id).IsList) {named : List (String × String)}
    (hfields : Dict.ofPairs (h.fieldsOf id) = named.map fun p => (p.1, .string p.2)) :
    h.Labels id (named.map fun p => ⟨p.2, some p.1⟩) ∧ named.length ≤ (h.table id).entries.length ∧
      (named.length = (h.table id).entries.length ↔ h.Complete id) := by
  have hmerged := Dict.length_ofPairs_le (h.fieldsOf id)
  have hskipped : (h.fieldsOf id).length ≤ (h.table id).entries.length := List.length_filterMap_le ..
  have hcomplete := complete_iff h id
  rw [hfields, List.length_map] at hmerged hcomplete
  refine ⟨⟨fun hfits m hm => hl ?_, ?_, fun label => ?_, ?_⟩, hmerged.trans hskipped, hcomplete⟩
  · obtain rfl := hm.border_eq (Table.isBorder_border hfits)
    exact test_of_isSequence (.refl _) hm
  · have hascending := Dict.ascending_ofPairs (h.fieldsOf id)
    rw [hfields, Dict.Ascending, List.pairwise_map] at hascending
    rw [List.pairwise_map]
    exact hascending.imp fun hlt => ⟨_, _, rfl, rfl, compareOfLessAndEq_eq_lt.1 hlt⟩
  · have hlabel : (∃ r ∈ named.map fun p => (⟨p.2, some p.1⟩ : ScriptRef), r.label = some label) ↔
        label ∈ (Dict.ofPairs (h.fieldsOf id)).keys := by
      simp [hfields, Dict.keys]
    rw [hlabel, Dict.mem_keys_ofPairs, mem_keys_fieldsOf]
  · intro r hr
    obtain ⟨p, hp, rfl⟩ := List.mem_map.1 hr
    have hfield : (p.1, Value.string p.2) ∈ Dict.ofPairs (h.fieldsOf id) := by
      rw [hfields]
      exact List.mem_map_of_mem hp
    obtain ⟨k, hk, hname, hread⟩ := mem_fieldsOf.1 (Dict.mem_of_mem_ofPairs hfield)
    exact ⟨k, hk, hname, Heap.readout_string.1 hread⟩

end

/-! ## The call -/

/-- The scripts of a table are those that its value names. -/
theorem loadArguments_run (load : List ScriptRef → Session → Except Failure Variables × Session) (h : Heap) (id : Nat)
    (s : Session) :
    (Vocabulary.loadArguments [.table id] h).runIn load s =
      (match (h.valueOf (.table id)).result.bind Vocabulary.scriptsOf with
        | .ok scripts => (.ok scripts, h)
        | .error f => h.raised f, s.noteAll (h.valueOf (.table id)).events) := by
  show (((Eval.report fun h => h.valueOf (.table id)) >>= fun v? => Eval.orFail (Vocabulary.scriptsOf v?)) h).runIn
    load s = _
  rw [Eval.runIn_bind, Eval.runIn_report]
  cases (h.valueOf (.table id)).result with
  | error f => rfl
  | ok v? =>
    show (Eval.orFail (Vocabulary.scriptsOf v?) h).runIn load _ = _
    rw [Except.bind]
    cases Vocabulary.scriptsOf v? <;> rfl

/-- An entry under a name that names no script. -/
def Heap.Misnamed (h : Heap) (id : Nat) : Prop :=
  ∃ k, k.Names ∧ (h.table id).get k ≠ .nil ∧ h.scriptName? ((h.table id).get k) = none

/-- A table names scripts, or is refused for wrong use. -/
theorem scriptsOf_table (h : Heap) (id : Nat) :
    (h.Misnamed id ∧ ∃ f, f.kind = .usage ∧ (h.valueOf (.table id)).result.bind Vocabulary.scriptsOf = .error f) ∨
      ∃ scripts, (h.valueOf (.table id)).result.bind Vocabulary.scriptsOf = .ok scripts ∧
        (h.Lists id scripts ∨ h.Labels id scripts) ∧ scripts.length ≤ (h.table id).entries.length ∧
        (scripts.length = (h.table id).entries.length ↔ h.Complete id) := by
  classical
  rw [valueOf_table]
  by_cases hdeep : h.TooDeep nestingLimit [] (.table id)
  · rw [if_neg (not_not.2 hdeep)]
    obtain ⟨k, hk, next, -, hnext, -⟩ := (Heap.tooDeep_succ List.not_mem_nil).1 hdeep
    refine .inl ⟨⟨k, hk, ?_, ?_⟩, _, rfl, rfl⟩
    · rw [hnext]
      nofun
    · rw [hnext]
      rfl
  rw [if_pos hdeep, Table.valueWith]
  by_cases hl : (h.table id).IsList
  · rw [if_pos hl]
    rcases Vocabulary.listed_cases ((List.range (h.table id).border).map
      fun i => (h.readout 63 [id] ((h.table id).item (i + 1))).getD .nil) with ⟨names, hitems, hok⟩ | ⟨v, hv, hne, herror⟩
    · obtain ⟨hlists, hlength, hcomplete⟩ := lists_of_items hl hitems
      refine .inr ⟨_, hok, .inl hlists, ?_⟩
      rw [List.length_map, hlength]
      exact ⟨Nat.le_refl _, iff_of_true rfl hcomplete⟩
    · obtain ⟨i, hi, rfl⟩ := List.mem_map.1 hv
      rw [List.mem_range] at hi
      have hsequence := isSequence_of_test (.refl (h.table id).entries) hl.1 hl.2
      refine .inl ⟨⟨.nat (i + 1), .integer _, (hsequence.keys _).2 ⟨i + 1, by omega, hi, rfl⟩, ?_⟩, _, rfl, herror⟩
      refine Option.eq_none_iff_forall_ne_some.2 fun name hname => hne name ?_
      rw [Table.item, Heap.readout_string.2 hname]
      rfl
  · rw [if_neg hl]
    rcases Vocabulary.labelled_cases (Dict.ofPairs (h.fieldsOf id)) with ⟨named, hfields, hok⟩ | ⟨p, hp, hne, herror⟩
    · obtain ⟨hlabels, hle, hcomplete⟩ := labels_of_fields hl hfields
      refine .inr ⟨_, hok, .inr hlabels, ?_⟩
      rw [List.length_map]
      exact ⟨hle, hcomplete⟩
    · obtain ⟨k, hk, hname, hread⟩ := mem_fieldsOf.1 (Dict.mem_of_mem_ofPairs hp)
      refine .inl ⟨⟨k, Val.names_iff.2 (Option.isSome_of_eq_some hname), hk, ?_⟩, _, rfl, herror⟩
      refine Option.eq_none_iff_forall_ne_some.2 fun name hscript => hne name ?_
      exact Option.some.inj (hread.symm.trans (Heap.readout_string.2 hscript))

/-- A table as the only argument of `load` is refused for wrong use, which takes an entry that names no script, or gives
references: if its keys are 1, …, m the names in order, and otherwise one for each name under which there is data, by
ascending label. So there is one for each entry if and only if no entry vanishes, and else there are fewer. -/
theorem table_entries_become_scripts (load : List ScriptRef → Session → Except Failure Variables × Session) (h : Heap)
    (id : Nat) (s : Session) :
    let entries := (h.table id).entries
    let call := (Vocabulary.loadArguments [.table id] h).runIn load s
    ∃ events,
      (h.Misnamed id ∧ ∃ f, f.kind = .usage ∧ call = (h.raised f, s.noteAll events)) ∨
      ∃ scripts, call = ((.ok scripts, h), s.noteAll events) ∧ (h.Lists id scripts ∨ h.Labels id scripts) ∧
        scripts.length ≤ entries.length ∧ (scripts.length = entries.length ↔ h.Complete id) := by
  intro entries call
  have hrun := loadArguments_run load h id s
  refine ⟨(h.valueOf (.table id)).events, ?_⟩
  rcases scriptsOf_table h id with ⟨hmisnamed, f, hf, hresult⟩ | ⟨scripts, hresult, hscripts⟩
  · rw [hresult] at hrun
    exact .inl ⟨hmisnamed, f, hf, hrun⟩
  · rw [hresult] at hrun
    exact .inr ⟨scripts, hrun, hscripts⟩

/-- A function in place of the name of a script is refused in a list and among other arguments, and vanishes from a
map: of two entries one reference is left. -/
theorem function_vanishes_from_map :
    let print : Val := .builtin (.idle "print")
    let h : Heap := { tables := #[.ofEntries [(.text "a", .text "a.lua"), (.text "b", print)],
      .ofList [.text "a.lua", print]] }
    let call := fun args => ((Vocabulary.loadArguments args h).runIn (fun _ s => (.ok [], s)) {}).1.1
    (h.table 0).entries.length = 2 ∧ ¬h.Complete 0 ∧
      call [.table 0] = .ok [⟨"a.lua", some "a"⟩] ∧
      (∃ v, call [.table 1] = .error v) ∧ (∃ v, call [.text "a.lua", print] = .error v) := by
  intro print h call
  refine ⟨?_, ?_, ?_, ?_, ?_⟩
  · unfold h print
    decide
  · intro hc
    have hprint : (.text "b", print) ∈ (h.table 0).entries := by
      unfold h print
      decide
    exact hc.data _ hprint
  · unfold call h print
    rfl
  · unfold call h print
    exact ⟨_, rfl⟩
  · unfold call h print
    exact ⟨_, rfl⟩

end Script

end Fixtures
