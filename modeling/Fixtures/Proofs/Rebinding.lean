import Fixtures.Proofs.Crossing
import Fixtures.Proofs.Entries
/-!
# Tables that another script sees

A table that one script leaves behind is read, and what was read is built again
for the next script. In between the names of a map stand for text and integers
alike, so a text key that writes an integer comes back as the integer. No other
key or value changes: `Mirrors` relates what a script holds to a value, two
tables that mirror one value are alike, and a table mirrors what is read of it
if it has no such keys.
-/

namespace Fixtures.Script

/-! ## Names and keys -/

/-- Text that is not the decimal form of an integer. -/
def Undecimal (s : String) : Prop := ∀ w : Int64, toString w.toInt ≠ s

theorem keyOfName_undecimal {s : String} (h : Undecimal s) : keyOfName s = .text s := by
  unfold keyOfName
  split
  · rename_i w _
    exact if_neg (h w)
  · rfl

theorem keyOfName_integer (w : Int64) : keyOfName (toString w.toInt) = .int w := by
  have hread : (toString w.toInt).toInt? = some w.toInt := Int.toInt?_repr w.toInt
  simp only [keyOfName, hread, Option.bind_some, Decimal.word?_toInt, if_true]

/-- Text that a name stands for as a key is not the decimal form of an integer. -/
theorem undecimal_of_keyOfName {name s : String} (h : keyOfName name = .text s) : Undecimal s := by
  obtain rfl : name = s := by
    have hname := nameOfKey?_keyOfName name
    rw [h] at hname
    exact (Option.some.inj hname).symm.trans (Text.decode_encode s)
  rintro w rfl
  cases (keyOfName_integer w).symm.trans h

namespace Heap

/-! ## What a script value looks like -/

/-- What a script sees of the value, or could have left behind to be read as it: a table has the entries of a list or
map under the keys that their names stand for, and no others. -/
inductive Mirrors (h : Heap) : Val → Value → Prop
  | nil : Mirrors h .nil .nil
  | bool (b : Bool) : Mirrors h (.bool b) (.bool b)
  | integer (n : Int64) : Mirrors h (.int n) (.integer n)
  | number (x : Float) : Mirrors h (.number (.float x)) (.number x)
  | text (s : String) : Mirrors h (.text s) (.string s)
  | entity {id : Nat} {e : Entity} (he : h.object id = .entity e) : Mirrors h (.object id) (.entity e)
  | table {id : Nat} {v : Value} (hv : v.isTable = true)
    (keys : ∀ k, (h.table id).get k ≠ .nil → ∃ name, k = keyOfName name)
    (held : ∀ name, Mirrors h ((h.table id).get (keyOfName name)) ((Dict.get? v.fields name).getD .nil)) :
    Mirrors h (.table id) v

/-- Two script values are the same data: equal scalars, equal entities, or tables with the same keys and, under each,
the same data again. -/
inductive Alike (h h' : Heap) : Val → Val → Prop
  | nil : Alike h h' .nil .nil
  | bool (b : Bool) : Alike h h' (.bool b) (.bool b)
  | number (n : Number) : Alike h h' (.number n) (.number n)
  | text (bytes : Text.Bytes) : Alike h h' (.string bytes) (.string bytes)
  | entity {id id' : Nat} {e : Entity} (he : h.object id = .entity e) (he' : h'.object id' = .entity e) :
    Alike h h' (.object id) (.object id')
  | table {id id' : Nat} (held : ∀ k, Alike h h' ((h.table id).get k) ((h'.table id').get k)) :
    Alike h h' (.table id) (.table id')

variable {h h' : Heap}

theorem Alike.eq_nil {x : Val} (a : Alike h h' x .nil) : x = .nil := by
  cases a
  rfl

/-- What mirrors one value is alike. -/
theorem Mirrors.alike {x x' : Val} {v : Value} (m : h.Mirrors x v) (m' : h'.Mirrors x' v) : Alike h h' x x' := by
  induction m generalizing x' with
  | nil =>
    cases m' with
    | nil => exact .nil
    | table hv => cases hv
  | bool b =>
    cases m' with
    | bool => exact .bool b
    | table hv => cases hv
  | integer n =>
    cases m' with
    | integer => exact .number (.int n)
    | table hv => cases hv
  | number x =>
    cases m' with
    | number => exact .number (.float x)
    | table hv => cases hv
  | text s =>
    cases m' with
    | text => exact .text (Text.encode s)
    | table hv => cases hv
  | entity he =>
    cases m' with
    | entity he' => exact .entity he he'
    | table hv => cases hv
  | @table id v hv keys _ ih =>
    cases m' with
    | @table id' _ _ keys' held' =>
      refine .table fun k => ?_
      by_cases hname : ∃ name, k = keyOfName name
      · obtain ⟨name, rfl⟩ := hname
        exact ih name (held' name)
      · rw [of_not_not (mt (keys k) hname), of_not_not (mt (keys' k) hname)]
        exact .nil
    | _ => cases hv

/-! ## What is built -/

/-- On this heap, and on any it grows to, a script value mirrors a value. -/
def Mirrored (h : Heap) (x : Val) (v : Value) : Prop := ∀ h', h.Grows h' → h'.Mirrors x v

theorem Mirrored.grow {x : Val} {v : Value} (m : h.Mirrored x v) (g : h.Grows h') : h'.Mirrored x v :=
  fun h'' g' => m h'' (g.trans g')

/-- On every heap, what is built for the value mirrors it. -/
def BuiltAs (v : Value) : Prop := ∀ h : Heap, h.Grows (h.receive v).2 ∧ (h.receive v).2.Mirrored (h.receive v).1 v

theorem builtAs_plain {v : Value} (hv : v.isTable = false) : BuiltAs v := by
  intro h
  cases v with
  | list items => cases hv
  | map fields => cases hv
  | entity e =>
    refine ⟨.newObject h (.entity e), fun h' g => .entity ?_⟩
    rw [object, g.objects _ _ Array.getElem?_push_size]
    rfl
  | nil => exact ⟨.refl h, fun _ _ => .nil⟩
  | bool b => exact ⟨.refl h, fun _ _ => .bool b⟩
  | integer n => exact ⟨.refl h, fun _ _ => .integer n⟩
  | number x => exact ⟨.refl h, fun _ _ => .number x⟩
  | string s => exact ⟨.refl h, fun _ _ => .text s⟩

theorem get_pieces {pieces : List Piece} (hnodup : (pieces.map Piece.name).Nodup) {p : Piece} (hp : p ∈ pieces) :
    (Piece.table pieces).get (keyOfName p.name) = p.held := by
  by_cases hheld : p.held = .nil
  · rw [hheld]
    refine Table.get_new fun hkey => ?_
    rw [Piece.rows_table hnodup] at hkey
    obtain ⟨_, hrow, hkey⟩ := List.mem_map.1 hkey
    obtain ⟨q, hq, rfl⟩ := List.mem_map.1 hrow
    obtain ⟨hq, hq'⟩ := Piece.mem_kept.1 hq
    obtain rfl := List.inj_on_of_nodup_map hnodup hq hp (keyOfName_inj hkey)
    exact hq' hheld
  · rw [Table.get_eq_entryAt, Piece.rows_table hnodup]
    exact Piece.entryAt_kept hnodup (Piece.mem_kept.2 ⟨hp, hheld⟩)

theorem key_of_pieces {pieces : List Piece} (hnodup : (pieces.map Piece.name).Nodup) {k : Val}
    (hk : (Piece.table pieces).get k ≠ .nil) : ∃ p ∈ pieces, k = keyOfName p.name := by
  by_contra hnone
  refine hk (Table.get_new fun hkey => hnone ?_)
  rw [Piece.rows_table hnodup] at hkey
  obtain ⟨_, hrow, rfl⟩ := List.mem_map.1 hkey
  obtain ⟨p, hp, rfl⟩ := List.mem_map.1 hrow
  exact ⟨p, (Piece.mem_kept.1 hp).1, rfl⟩

/-- A table that is built for the fields of a value mirrors the value. -/
theorem newTable_mirrored {v : Value} {pieces : List Piece} (hv : v.isTable = true)
    (hfields : pieces.map Piece.field = v.fields) (hnodup : (v.fields.map Prod.fst).Nodup)
    (hpieces : ∀ p ∈ pieces, h.Mirrored p.held p.value) :
    (h.newTable (Piece.table pieces)).2.Mirrored (h.newTable (Piece.table pieces)).1 v := by
  intro h' g
  have hnames : (pieces.map Piece.name).Nodup := by
    rw [← hfields, List.map_map] at hnodup
    exact hnodup
  have htable : h'.table h.tables.size = Piece.table pieces := by
    rw [table, g.tables _ _ Array.getElem?_push_size]
    rfl
  refine .table hv (fun k hk => ?_) fun name => ?_
  · rw [htable] at hk
    obtain ⟨p, -, rfl⟩ := key_of_pieces hnames hk
    exact ⟨p.name, rfl⟩
  · rw [htable]
    cases hget : Dict.get? v.fields name with
    | some w =>
      have hfield := Dict.mem_of_get? hget
      rw [← hfields] at hfield
      obtain ⟨p, hp, hpair⟩ := List.mem_map.1 hfield
      obtain ⟨rfl, rfl⟩ := Prod.mk.inj hpair
      rw [get_pieces hnames hp]
      exact hpieces p hp h' ((Grows.newTable h _).trans g)
    | none =>
      have hnone : (Piece.table pieces).get (keyOfName name) = .nil := by
        by_contra hheld
        obtain ⟨p, hp, hkey⟩ := key_of_pieces hnames hheld
        refine Dict.not_mem_keys hget ?_
        rw [keyOfName_inj hkey, ← hfields]
        exact List.mem_map_of_mem (List.mem_map_of_mem hp)
      rw [hnone]
      exact .nil

theorem builtAs_list {items : List Value} (short : items.length < 2 ^ 63) (hitems : ∀ v ∈ items, BuiltAs v) :
    BuiltAs (.list items) := by
  intro h
  obtain ⟨hgrow, pieces, hentries, hfields, hpieces⟩ :=
    receiveItems_pieces (R := Mirrored) Mirrored.grow items hitems h 1 (by omega)
  have htable := newTable_mirrored rfl hfields (Value.nodup_of_items items) hpieces
  rw [Piece.table, hentries] at htable
  exact ⟨hgrow.trans (.newTable _ _), htable⟩

theorem builtAs_map {fields : Variables} (ascending : fields.Ascending) (hfields : ∀ p ∈ fields, BuiltAs p.2) :
    BuiltAs (.map fields) := by
  intro h
  obtain ⟨hgrow, pieces, hentries, hnames, hpieces⟩ :=
    receiveFields_pieces (R := Mirrored) Mirrored.grow fields hfields h
  have htable := newTable_mirrored (v := .map fields) rfl hnames (Value.nodup_of_ascending ascending) hpieces
  rw [Piece.table, hentries] at htable
  exact ⟨hgrow.trans (.newTable _ _), htable⟩

/-! ## What a script leaves behind -/

/-- Data with at most so many tables nested in each other: booleans, numbers, text, entities, and tables of such data
under integers and under text that `P` admits. -/
inductive Storable (h : Heap) (P : String → Prop) : Nat → Val → Prop
  | bool (levels : Nat) (b : Bool) : Storable h P levels (.bool b)
  | number (levels : Nat) (n : Number) : Storable h P levels (.number n)
  | text (levels : Nat) (s : String) : Storable h P levels (.text s)
  | entity (levels : Nat) {id : Nat} {e : Entity} (he : h.object id = .entity e) : Storable h P levels (.object id)
  | table {levels id : Nat}
    (keys : ∀ k, (h.table id).get k ≠ .nil → (∃ s, k = .text s ∧ P s) ∨ ∃ w, k = .int w)
    (held : ∀ k, (h.table id).get k ≠ .nil → Storable h P levels ((h.table id).get k)) :
    Storable h P (levels + 1) (.table id)

namespace Storable

variable {P Q : String → Prop} {levels id : Nat}

theorem of_entries (hall : ∀ row ∈ (h.table id).entries,
    ((∃ s, row.1 = .text s ∧ P s) ∨ ∃ w, row.1 = .int w) ∧ h.Storable P levels row.2) :
    h.Storable P (levels + 1) (.table id) :=
  .table (fun _ hk => (hall _ (Table.mem_of_get rfl hk)).1) fun _ hk => (hall _ (Table.mem_of_get rfl hk)).2

theorem mono (hPQ : ∀ s, P s → Q s) {x : Val} (s : h.Storable P levels x) : h.Storable Q levels x := by
  induction s with
  | bool levels b => exact .bool levels b
  | number levels n => exact .number levels n
  | text levels s => exact .text levels s
  | entity levels he => exact .entity levels he
  | table keys _ ih => exact .table (fun k hk => (keys k hk).imp_left fun ⟨s, hs, hP⟩ => ⟨s, hs, hPQ s hP⟩) ih

/-- A table that is held is nested less deep. -/
theorem holds (s : h.Storable P levels (.table id)) {b : Nat} (hb : h.Holds id b) :
    ∃ fewer < levels, h.Storable P fewer (.table b) := by
  cases s with
  | @table levels _ _ held =>
    obtain ⟨k, -, hk⟩ := hb
    exact ⟨levels, Nat.lt_succ_self levels, hk ▸ held k (by rw [hk]; exact nofun)⟩

theorem reaches (s : h.Storable P levels (.table id)) {b : Nat} (hb : Relation.TransGen h.Holds id b) :
    ∃ fewer < levels, h.Storable P fewer (.table b) := by
  induction hb with
  | single hb => exact s.holds hb
  | tail _ hb ih =>
    obtain ⟨n, hn, s'⟩ := ih
    obtain ⟨m, hm, s''⟩ := s'.holds hb
    exact ⟨m, hm.trans hn, s''⟩

/-- No table contains itself. -/
theorem acyclic (s : h.Storable P levels (.table id)) : ¬Relation.TransGen h.Holds id id := by
  induction levels using Nat.strong_induction_on with
  | _ levels ih =>
    intro hcycle
    obtain ⟨fewer, hlt, s'⟩ := s.reaches hcycle
    exact ih fewer hlt s' hcycle

theorem not_tooDeep {x : Val} (s : h.Storable P levels x) (path : List Nat) : ¬h.TooDeep levels path x := by
  induction s generalizing path with
  | @table levels id _ _ ih =>
    by_cases hid : id ∈ path
    · exact not_tooDeep_open hid
    · rw [tooDeep_succ hid]
      rintro ⟨k, -, hdeep⟩
      by_cases hk : (h.table id).get k = .nil
      · rw [hk] at hdeep
        exact not_tooDeep_plain (v := .nil) (fun _ => nofun) hdeep
      · exact ih k hk (id :: path) hdeep
  | _ => exact not_tooDeep_plain fun _ => nofun

/-- So a table is read as its complete unfolding. -/
theorem unfolds (s : h.Storable P nestingLimit (.table id)) :
    ∃ r, (h.valueOf (.table id)).result = .ok r ∧ h.Unfolds (.table id) r := by
  classical
  have hdeep := s.not_tooDeep []
  have hacyclic : ∀ a, Relation.ReflTransGen h.Holds id a → ¬Relation.TransGen h.Holds a a := by
    intro a ha
    rcases Relation.reflTransGen_iff_eq_or_transGen.1 ha with rfl | ha
    · exact s.acyclic
    · obtain ⟨_, -, s'⟩ := s.reaches ha
      exact s'.acyclic
  refine ⟨_, (Reported.result_of_quiet (h.quiet_read nestingLimit [] (.table id))).trans (if_pos hdeep), ?_⟩
  exact (reads_readout hdeep).unfolds hacyclic fun _ hid => ⟨Val.table.inj hid ▸ .refl, fun _ ha => nomatch ha⟩

end Storable

/-! ## What is read of it -/

section

variable {t : Table} {read : Val → Option Value}

theorem isTable_valueWith : (t.valueWith read).isTable = true := by
  unfold Table.valueWith
  split <;> rfl

theorem get?_items {n : Nat} (f : Nat → Value) {name : String} {v : Value} :
    Dict.get? (Value.list ((List.range n).map f)).fields name = some v ↔
      ∃ i < n, toString (i + 1) = name ∧ f i = v := by
  have hfields : (Value.list ((List.range n).map f)).fields = (List.range n).map fun i => (toString (i + 1), f i) := by
    rw [Value.fields, List.length_map, List.length_range, Value.places_eq, List.zip_map']
  rw [← (Value.distinct_of_nodup (Value.nodup_of_items _)).mem_iff, hfields]
  simp only [List.mem_map, List.mem_range, Prod.mk.injEq]

/-- The fields that are read of a table are its entries by their names. -/
theorem get?_fields_valueWith (hkeys : ∀ k, t.get k ≠ .nil → ∃ name, k = keyOfName name)
    (hread : ∀ k, t.get k ≠ .nil → (read (t.get k)).isSome = true) {name : String} {v : Value} :
    Dict.get? (t.valueWith read).fields name = some v ↔
      t.get (keyOfName name) ≠ .nil ∧ read (t.get (keyOfName name)) = some v := by
  unfold Table.valueWith
  split
  · rename_i hlist
    have hseq : t.IsSequence t.border := isSequence_of_test (.refl t.entries) hlist.1 hlist.2
    have hlt := hseq.lt
    rw [get?_items]
    constructor
    · rintro ⟨i, hi, rfl, rfl⟩
      have hheld : t.item (i + 1) ≠ .nil := (hseq.item_iff (by omega)).2 ⟨Nat.succ_pos i, hi⟩
      obtain ⟨v, hv⟩ := Option.isSome_iff_exists.1 (hread _ hheld)
      rw [keyOfName_place (by omega)]
      exact ⟨hheld, by rw [Table.item, hv, Option.getD_some]⟩
    · rintro ⟨hheld, hv⟩
      obtain ⟨i, hlow, hhigh, hkey⟩ := (hseq.keys _).1 hheld
      obtain rfl : name = toString i := keyOfName_inj (hkey.trans (keyOfName_place (by omega)).symm)
      refine ⟨i - 1, by omega, by rw [Nat.sub_add_cancel hlow], ?_⟩
      rw [Nat.sub_add_cancel hlow, Table.item, ← hkey, hv, Option.getD_some]
  · have hmem {v : Value} (hv : Dict.get? (t.entries.filterMap (Table.field? read)).reverse name = some v) :
        t.get (keyOfName name) ≠ .nil ∧ read (t.get (keyOfName name)) = some v := by
      obtain ⟨k, hk, hname, hr⟩ := (mem_fields (.refl t.entries)).1 (List.mem_reverse.1 (Dict.mem_of_get? hv))
      obtain ⟨name', rfl⟩ := hkeys k hk
      rw [nameOfKey?_keyOfName] at hname
      obtain rfl := Option.some.inj hname
      exact ⟨hk, hr⟩
    rw [Value.fields, Dict.get?_ofPairs]
    refine ⟨hmem, ?_⟩
    rintro ⟨hheld, hv⟩
    have hfield := (mem_fields (.refl t.entries)).2 ⟨_, hheld, nameOfKey?_keyOfName name, hv⟩
    cases hget : Dict.get? (t.entries.filterMap (Table.field? read)).reverse name with
    | none => exact absurd (List.mem_map_of_mem (List.mem_reverse.2 hfield)) (Dict.not_mem_keys hget)
    | some v' => rw [← (hmem hget).2, hv]

theorem builtAs_valueWith (hread : ∀ k v, k.Names → t.get k ≠ .nil → read (t.get k) = some v → BuiltAs v) :
    BuiltAs (t.valueWith read) := by
  unfold Table.valueWith
  split
  · rename_i hlist
    have hseq : t.IsSequence t.border := isSequence_of_test (.refl t.entries) hlist.1 hlist.2
    refine builtAs_list (by simpa using hseq.lt) fun v hv => ?_
    obtain ⟨i, hi, rfl⟩ := List.mem_map.1 hv
    have hi := List.mem_range.1 hi
    have hlt := hseq.lt
    cases hr : read (t.item (i + 1)) with
    | none => exact builtAs_plain rfl
    | some v => exact hread _ v (.integer _) ((hseq.item_iff (by omega)).2 ⟨Nat.succ_pos i, hi⟩) hr
  · refine builtAs_map (Dict.ascending_ofPairs _) fun p hp => ?_
    obtain ⟨name, v⟩ := p
    have hget := ((Dict.ascending_ofPairs _).distinct.mem_iff name v).1 hp
    rw [Dict.get?_ofPairs] at hget
    obtain ⟨k, hk, hname, hr⟩ := (mem_fields (.refl t.entries)).1 (List.mem_reverse.1 (Dict.mem_of_get? hget))
    exact hread k v (Val.names_iff.2 (Option.isSome_of_eq_some hname)) hk hr

end

/-- What is no table is read as it is. -/
theorem Storable.plain {P : String → Prop} {levels : Nat} {x : Val} (s : h.Storable P levels x)
    (hx : ∀ id, x ≠ .table id) : ∃ v, h.plain? x = some v ∧ v.isTable = false ∧ h.Mirrors x v := by
  cases s with
  | bool _ b => exact ⟨.bool b, rfl, rfl, .bool b⟩
  | number _ n =>
    cases n with
    | int w => exact ⟨.integer w, rfl, rfl, .integer w⟩
    | float y => exact ⟨.number y, rfl, rfl, .number y⟩
  | text _ s => exact ⟨.string s, by rw [Val.text, plain?, Text.decode_encode], rfl, .text s⟩
  | @entity _ id e he => exact ⟨.entity e, by rw [plain?, he], rfl, .entity he⟩
  | table => exact absurd rfl (hx _)

/-- Data is unfolded to a value, which is built again as such on every heap. It mirrors the value if no key is text
that writes an integer. -/
theorem Storable.value {P : String → Prop} {levels : Nat} {x : Val} (s : h.Storable P levels x) {r : Option Value}
    (hr : h.Unfolds x r) : ∃ v, r = some v ∧ BuiltAs v ∧ ((∀ name, P name → Undecimal name) → h.Mirrors x v) := by
  induction hr generalizing levels with
  | plain hx =>
    obtain ⟨v, hv, hplain, hmirrors⟩ := s.plain hx
    exact ⟨v, hv, builtAs_plain hplain, fun _ => hmirrors⟩
  | @table id read _ ih =>
    cases s with
    | @table levels _ keys held =>
      have hnames : ∀ k, (h.table id).get k ≠ .nil → k.Names := fun k hk => by
        rcases keys k hk with ⟨s, rfl, -⟩ | ⟨w, rfl⟩
        · exact .text _
        · exact .integer w
      have hvalue := fun k hk => ih k (hnames k hk) (held k hk)
      refine ⟨_, rfl, builtAs_valueWith fun k v _ hk hv => ?_, fun hP => ?_⟩
      · obtain ⟨v', hv', hbuilt, -⟩ := hvalue k hk
        obtain rfl : v = v' := Option.some.inj (hv.symm.trans hv')
        exact hbuilt
      have hkeys : ∀ k, (h.table id).get k ≠ .nil → ∃ name, k = keyOfName name := fun k hk => by
        rcases keys k hk with ⟨s, rfl, hs⟩ | ⟨w, rfl⟩
        · exact ⟨s, (keyOfName_undecimal (hP s hs)).symm⟩
        · exact ⟨_, (keyOfName_integer w).symm⟩
      have hread : ∀ k, (h.table id).get k ≠ .nil → (read ((h.table id).get k)).isSome = true := fun k hk => by
        obtain ⟨v, hv, -⟩ := hvalue k hk
        rw [hv]
        rfl
      refine .table (isTable_valueWith) hkeys fun name => ?_
      by_cases hheld : (h.table id).get (keyOfName name) = .nil
      · have hnone : Dict.get? ((h.table id).valueWith read).fields name = none :=
          Option.eq_none_iff_forall_ne_some.2 fun v hv => (get?_fields_valueWith hkeys hread).1 hv |>.1 hheld
        rw [hheld, hnone]
        exact .nil
      · obtain ⟨v, hv, -, hmirrors⟩ := hvalue _ hheld
        rw [(get?_fields_valueWith hkeys hread).2 ⟨hheld, hv⟩]
        exact hmirrors hP

/-- A table that looks like what is built for a value has no key that is text that writes an integer. -/
theorem Storable.undecimal {P : String → Prop} {levels : Nat} {x x' : Val} {v : Value} (s : h.Storable P levels x)
    (ha : Alike h h' x x') (m : h'.Mirrors x' v) : h.Storable Undecimal levels x := by
  induction s generalizing x' v with
  | bool levels b => exact .bool levels b
  | number levels n => exact .number levels n
  | text levels s => exact .text levels s
  | entity levels he => exact .entity levels he
  | @table levels id keys held ih =>
    cases ha with
    | @table _ id' hheld =>
    cases m with
    | table hv keys' held' =>
      have hnames : ∀ k, (h.table id).get k ≠ .nil → ∃ name, k = keyOfName name := fun k hk =>
        keys' k fun hnil => hk (hnil ▸ hheld k).eq_nil
      refine .table (fun k hk => ?_) fun k hk => ?_
      · obtain ⟨name, hname⟩ := hnames k hk
        rcases keys k hk with ⟨s, rfl, -⟩ | hint
        · exact .inl ⟨s, rfl, undecimal_of_keyOfName hname.symm⟩
        · exact .inr hint
      · obtain ⟨name, rfl⟩ := hnames k hk
        exact ih _ hk (hheld _) (held' name)

end Heap

open Heap

/-- A table that a script leaves behind, with integers and text as keys, is seen unchanged by the next script if and
only if it has no text keys that write an integer, at any level. -/
theorem tables_seen_unchanged (h : Heap) {id : Nat} (s : h.Storable (fun _ => True) 64 (.table id)) :
    ∃ v, (h.valueOf (.table id)).result = .ok (some v) ∧
      ∀ h' : Heap, Alike h (h'.receive v).2 (.table id) (h'.receive v).1 ↔ h.Storable Undecimal 64 (.table id) := by
  obtain ⟨r, hresult, hunfolds⟩ := s.unfolds
  obtain ⟨v, rfl, hbuilt, -⟩ := s.value hunfolds
  refine ⟨v, hresult, fun h' => ?_⟩
  have hseen : (h'.receive v).2.Mirrors (h'.receive v).1 v := (hbuilt h').2 _ (.refl _)
  refine ⟨fun ha => s.undecimal ha hseen, fun hs => ?_⟩
  obtain ⟨v', hv', -, hmirrors⟩ := hs.value hunfolds
  obtain rfl : v = v' := Option.some.inj hv'
  exact (hmirrors fun _ hname => hname).alike hseen

/-- A text key that writes an integer comes back as the integer. -/
theorem decimal_key_comes_back_as_integer :
    let h : Heap := { tables := #[.ofEntries [(.text "1", .bool true)]] }
    let v : Value := .map [("1", .bool true)]
    let x := ({} : Heap).receive v
    h.Storable (fun _ => True) 64 (.table 0) ∧ (h.valueOf (.table 0)).result = .ok (some v) ∧ x.1 = .table 0 ∧
      (x.2.table 0).get (.text "1") = .nil ∧ (x.2.table 0).get (.int 1) = .bool true ∧
      ¬Alike h x.2 (.table 0) x.1 := by
  intro h v x
  have hbuilt : x.1 = .table 0 := rfl
  have hgone : (x.2.table 0).get (.text "1") = .nil := by
    unfold x v
    cbv
  refine ⟨.of_entries fun row hrow => ?_, ?_, hbuilt, hgone, ?_, fun ha => ?_⟩
  · obtain rfl : row = (.text "1", .bool true) := List.mem_singleton.1 hrow
    exact ⟨.inl ⟨_, rfl, trivial⟩, .bool _ true⟩
  · unfold h v
    cbv
  · unfold x v
    cbv
  · rw [hbuilt] at ha
    cases ha with
    | table hheld =>
      have hone := hheld (.text "1")
      rw [hgone] at hone
      exact absurd hone.eq_nil (by unfold h; decide)

/-- Integers, and text that writes none, come back as they were. -/
theorem padded_key_seen_unchanged :
    let tags : Table := .ofList [.bool true]
    let codes : Table := .ofEntries [(.int 7, .text "seven"), (.text "07", .text "padded"), (.text "tags", .table 1)]
    let h : Heap := { tables := #[codes, tags] }
    let v : Value := .map [("07", .string "padded"), ("7", .string "seven"), ("tags", .list [.bool true])]
    h.Storable Undecimal 64 (.table 0) ∧ (h.valueOf (.table 0)).result = .ok (some v) ∧
      ∀ h' : Heap, Alike h (h'.receive v).2 (.table 0) (h'.receive v).1 := by
  intro tags codes h v
  have htags : h.Storable Undecimal 63 (.table 1) := .of_entries fun row hrow => by
    obtain rfl : row = (.nat 1, .bool true) := List.mem_singleton.1 hrow
    exact ⟨.inr ⟨_, rfl⟩, .bool _ true⟩
  have hcodes : h.Storable Undecimal 64 (.table 0) := .of_entries fun row hrow => by
    have hrow : row ∈ [(Val.int 7, Val.text "seven"), (.text "07", .text "padded"), (.text "tags", .table 1)] := hrow
    simp only [List.mem_cons, List.not_mem_nil, or_false] at hrow
    rcases hrow with rfl | rfl | rfl
    · exact ⟨.inr ⟨_, rfl⟩, .text _ "seven"⟩
    · exact ⟨.inl ⟨_, rfl, undecimal_of_keyOfName (show keyOfName "07" = .text "07" by cbv)⟩, .text _ "padded"⟩
    · exact ⟨.inl ⟨_, rfl, undecimal_of_keyOfName (show keyOfName "tags" = .text "tags" by cbv)⟩, htags⟩
  obtain ⟨v', hv', hsame⟩ := tables_seen_unchanged h (hcodes.mono fun _ _ => trivial)
  have hv : (h.valueOf (.table 0)).result = .ok (some v) := by
    unfold h v codes tags
    cbv
  obtain rfl : v = v' := Option.some.inj (Except.ok.inj (hv.symm.trans hv'))
  exact ⟨hcodes, hv, fun h' => (hsame h').2 hcodes⟩

end Fixtures.Script
