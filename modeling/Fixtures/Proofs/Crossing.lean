import Fixtures.Proofs.Reading
/-!
# Values that cross into a script and back

What is built for a value is read as its canonical form, unless lists and maps
are nested too deep. Building only adds to the heap, so what stands for a part
of a value still does when the whole is there (`Heap.Shows`). A table is newer
than all its parts, so it is never met again while it is open.
-/

namespace Fixtures.Script

/-! ## Heaps that grow -/

namespace Heap

/-- Tables and objects stay what they are. -/
structure Grows (h h' : Heap) : Prop where
  tables : ∀ (id : Nat) (t : Table), h.tables[id]? = some t → h'.tables[id]? = some t
  objects : ∀ (id : Nat) (o : Object), h.objects[id]? = some o → h'.objects[id]? = some o

theorem getElem?_push_old {α : Type} {xs : Array α} {id : Nat} {x : α} (h : xs[id]? = some x) (y : α) :
    (xs.push y)[id]? = some x := by
  have hid : id < xs.size := (Array.getElem?_eq_some_iff.1 h).1
  rwa [Array.getElem?_push, if_neg (Nat.ne_of_lt hid)]

namespace Grows

variable {h h' h'' : Heap}

theorem refl (h : Heap) : h.Grows h := ⟨fun _ _ ht => ht, fun _ _ ho => ho⟩

theorem trans (g : h.Grows h') (g' : h'.Grows h'') : h.Grows h'' :=
  ⟨fun id t ht => g'.tables id t (g.tables id t ht), fun id o ho => g'.objects id o (g.objects id o ho)⟩

theorem size_le (g : h.Grows h') : h.tables.size ≤ h'.tables.size := by
  by_contra hlt
  have hold := g.tables h'.tables.size _ (Array.getElem?_eq_getElem (by omega))
  exact absurd (Array.getElem?_eq_some_iff.1 hold).1 (Nat.lt_irrefl _)

theorem newTable (h : Heap) (t : Table) : h.Grows (h.newTable t).2 :=
  ⟨fun _ _ ht => getElem?_push_old ht t, fun _ _ ho => ho⟩

theorem newObject (h : Heap) (o : Object) : h.Grows (h.newObject o).2 :=
  ⟨fun _ _ ht => ht, fun _ _ ho => getElem?_push_old ho o⟩

end Grows

/-- On this heap, and on any it grows to, a script value is read as the canonical form of a value. -/
structure Shows (h : Heap) (x : Val) (v : Value) : Prop where
  nil_iff : x = .nil ↔ v = .nil
  read : ∀ h', h.Grows h' → ∀ levels path, (∀ id ∈ path, h.tables.size ≤ id) →
    h'.read levels path x = .within (v.depth ≤ levels) (some v.canonicalForm)

theorem Shows.grow {h h' : Heap} {x : Val} {v : Value} (s : h.Shows x v) (g : h.Grows h') : h'.Shows x v where
  nil_iff := s.nil_iff
  read h'' g' levels path hpath :=
    s.read h'' (g.trans g') levels path fun id hid => Nat.le_trans g.size_le (hpath id hid)

/-! ## Building a value -/

/-- A table that is built for the fields of a value shows the value. -/
theorem newTable_shows {h : Heap} {v : Value} {pieces : List Piece} (hv : v.isTable = true)
    (hfields : pieces.map Piece.field = v.fields) (hnodup : (v.fields.map Prod.fst).Nodup)
    (hshort : v.fields.length < 2 ^ 63) (hshows : ∀ p ∈ pieces, h.Shows p.held p.value) :
    (h.newTable (Piece.table pieces)).2.Shows (h.newTable (Piece.table pieces)).1 v where
  nil_iff := ⟨nofun, fun hn => by rw [hn] at hv; cases hv⟩
  read h' g levels path hpath := by
    have hnames : (pieces.map Piece.name).Nodup := by
      rw [← hfields, List.map_map] at hnodup
      exact hnodup
    have hlength : pieces.length < 2 ^ 63 := by rwa [← hfields, List.length_map] at hshort
    have hpast : ∀ id ∈ path, h.tables.size < id := fun id hid =>
      Nat.lt_of_lt_of_le (by simp [newTable, addTable]) (hpath id hid)
    have hid : h.tables.size ∉ path := fun hid => Nat.lt_irrefl _ (hpast _ hid)
    show h'.read levels path (.table h.tables.size) = _
    cases levels with
    | zero =>
      rw [Heap.read, if_neg hid]
      exact (if_neg (Nat.not_le.2 (Value.depth_pos hv))).symm
    | succ levels =>
      have htable : h'.table h.tables.size = Piece.table pieces := by
        rw [table, g.tables _ _ Array.getElem?_push_size]
        rfl
      have hpieces : ∀ p ∈ Piece.kept pieces, h'.read levels (h.tables.size :: path) p.held =
          .within (p.value.depth ≤ levels) (some p.value.canonicalForm) := fun p hp =>
        (hshows p (Piece.mem_kept.1 hp).1).read h' ((Grows.newTable h _).trans g) levels _
          (List.forall_mem_cons.2 ⟨Nat.le_refl _, fun id hid => Nat.le_of_lt (hpast id hid)⟩)
      have hdepth : (∀ p ∈ pieces, p.value.depth ≤ levels) ↔ v.depth ≤ levels + 1 := by
        rw [Value.depth_table hv, ← hfields, List.forall_mem_map]
        rfl
      have hread := Piece.ofEntries_eq hnames hpieces h'.kindOf hlength fun p hp => (hshows p hp).nil_iff
      rw [Heap.read, if_neg hid, htable, hread, map_eq_pure_bind, Reported.within_bind_pure, hfields,
        ← Value.canonicalForm_table hv]
      exact Reported.within_congr hdepth _

/-- On every heap, what is built for the value shows it. -/
def Receives (v : Value) : Prop :=
  ∀ h : Heap, h.Grows (h.receive v).2 ∧ (h.receive v).2.Shows (h.receive v).1 v

theorem Shows.plain {h : Heap} {x : Val} {v : Value} (hv : v.isTable = false) (hnil : x = .nil ↔ v = .nil)
    (hread : ∀ h', h.Grows h' → ∀ levels path, h'.read levels path x = pure (some v)) : h.Shows x v where
  nil_iff := hnil
  read h' g levels path _ := by
    rw [hread h' g, Value.depth_plain hv, Value.canonicalForm_plain hv]
    exact (if_pos (Nat.zero_le levels)).symm

/-- Only `nil` is built as `nil`. -/
theorem receive_eq_nil (h : Heap) (v : Value) : (h.receive v).1 = .nil ↔ v = .nil := by
  cases v <;> simp [receive, Val.int, Val.text, newTable, newObject]

theorem receives_plain {v : Value} (hv : v.isTable = false) : Receives v := by
  intro h
  cases v with
  | list items => cases hv
  | map fields => cases hv
  | entity e =>
    refine ⟨.newObject h (.entity e), .plain hv (h.receive_eq_nil _) fun h' g _ _ => ?_⟩
    have hobject : h'.object h.objects.size = .entity e := by
      rw [object, g.objects _ _ Array.getElem?_push_size]
      rfl
    rw [receive, newObject, Heap.read, hobject]
  | string s =>
    refine ⟨.refl h, .plain hv (h.receive_eq_nil _) fun h' _ _ _ => ?_⟩
    rw [receive, Val.text, Heap.read, Text.decode_encode]
  | _ =>
    refine ⟨.refl h, .plain hv (h.receive_eq_nil _) fun h' _ _ _ => ?_⟩
    simp only [receive, Val.int, Heap.read]

section

-- What relates a script value to the value it was built for, and still does when the heap has grown.
variable {R : Heap → Val → Value → Prop}
  (hR : ∀ {h h' : Heap} {x : Val} {v : Value}, R h x v → h.Grows h' → R h' x v)

include hR

/-- The table of a list has a piece for every item. -/
theorem receiveItems_pieces (items : List Value)
    (hitems : ∀ v ∈ items, ∀ h : Heap, h.Grows (h.receive v).2 ∧ R (h.receive v).2 (h.receive v).1 v) (h : Heap)
    (start : Nat) (hstart : start + items.length ≤ 2 ^ 63) :
    h.Grows (h.receiveItems items).2 ∧ ∃ pieces : List Piece,
      pieces.map Piece.entry = Table.numbered start (h.receiveItems items).1 ∧
      pieces.map Piece.field = ((List.range' start items.length).map toString).zip items ∧
      ∀ p ∈ pieces, R (h.receiveItems items).2 p.held p.value := by
  induction items generalizing h start with
  | nil => exact ⟨.refl h, [], rfl, rfl, nofun⟩
  | cons v rest ih =>
    rw [List.length_cons] at hstart
    obtain ⟨hgrow, hshows⟩ := hitems v List.mem_cons_self h
    obtain ⟨hgrow', pieces, hentries, hfields, hpieces⟩ :=
      ih (fun w hw => hitems w (List.mem_cons_of_mem _ hw)) (h.receive v).2 (start + 1) (by omega)
    refine ⟨hgrow.trans hgrow', ⟨toString start, (h.receive v).1, v⟩ :: pieces, ?_, ?_,
      List.forall_mem_cons.2 ⟨hR hshows hgrow', hpieces⟩⟩
    · rw [List.map_cons, hentries, Piece.entry, keyOfName_place (by omega)]
      rfl
    · rw [List.map_cons, hfields, List.length_cons, List.range'_succ, List.map_cons, List.zip_cons_cons]
      rfl

/-- The table of a map has a piece for every field. -/
theorem receiveFields_pieces (fields : List (String × Value))
    (hfields : ∀ p ∈ fields, ∀ h : Heap, h.Grows (h.receive p.2).2 ∧ R (h.receive p.2).2 (h.receive p.2).1 p.2)
    (h : Heap) :
    h.Grows (h.receiveFields fields).2 ∧ ∃ pieces : List Piece,
      pieces.map Piece.entry = (h.receiveFields fields).1 ∧ pieces.map Piece.field = fields ∧
      ∀ p ∈ pieces, R (h.receiveFields fields).2 p.held p.value := by
  induction fields generalizing h with
  | nil => exact ⟨.refl h, [], rfl, rfl, nofun⟩
  | cons p rest ih =>
    obtain ⟨name, v⟩ := p
    obtain ⟨hgrow, hshows⟩ := hfields (name, v) List.mem_cons_self h
    obtain ⟨hgrow', pieces, hentries, hnames, hpieces⟩ :=
      ih (fun p hp => hfields p (List.mem_cons_of_mem _ hp)) (h.receive v).2
    refine ⟨hgrow.trans hgrow', ⟨name, (h.receive v).1, v⟩ :: pieces, ?_, ?_,
      List.forall_mem_cons.2 ⟨hR hshows hgrow', hpieces⟩⟩
    · rw [List.map_cons, hentries]
      rfl
    · rw [List.map_cons, hnames]
      rfl

end

/-- What is built for a well-formed value is read as its canonical form, by whatever the heap grows later. -/
theorem receives {v : Value} (hv : v.WellFormed) : Receives v := by
  induction hv with
  | plain h => exact receives_plain h
  | @list items short _ ih =>
    intro h
    obtain ⟨hgrow, pieces, hentries, hfields, hshows⟩ :=
      receiveItems_pieces (R := Shows) Shows.grow items ih h 1 (by omega)
    rw [← Value.length_of_items] at short
    have htable := newTable_shows rfl hfields (Value.nodup_of_items items) short hshows
    rw [Piece.table, hentries] at htable
    exact ⟨hgrow.trans (.newTable _ _), htable⟩
  | @map fields ascending short _ ih =>
    intro h
    obtain ⟨hgrow, pieces, hentries, hfields, hshows⟩ := receiveFields_pieces (R := Shows) Shows.grow fields ih h
    have htable := newTable_shows (v := .map fields) rfl hfields (Value.nodup_of_ascending ascending) short hshows
    rw [Piece.table, hentries] at htable
    exact ⟨hgrow.trans (.newTable _ _), htable⟩

/-- A value sent into a script and read back. -/
def cross (h : Heap) (v : Value) : Reported (Option Value) :=
  let (x, h) := h.receive v
  h.valueOf x

theorem cross_eq {v : Value} (hv : v.WellFormed) (h : Heap) :
    h.cross v = .within (v.depth ≤ nestingLimit) (some v.canonicalForm) :=
  (receives hv h).2.read _ (.refl _) nestingLimit [] nofun

theorem cross_ok {v : Value} (hv : v.WellFormed) (hd : v.depth ≤ nestingLimit) (h : Heap) :
    (h.cross v).result = .ok (some v.canonicalForm) := by
  rw [cross_eq hv h, Reported.within, if_pos hd]
  rfl

theorem cross_error {v : Value} (hv : v.WellFormed) (hd : ¬v.depth ≤ nestingLimit) (h : Heap) :
    (h.cross v).result = .error (.nestedTooDeep nestingLimit) := by
  rw [cross_eq hv h, Reported.within, if_neg hd]
  rfl

end Heap

/-- A value crosses into a script and back unless lists and maps are nested more than 64 deep, which is a usage error.
What comes back is its canonical form, which is canonical, is the value itself if and only if that is canonical, and
crosses unchanged. -/
theorem crossing_settles {v : Value} (hv : v.WellFormed) (h : Heap) :
    ((∃ f, (h.cross v).result = .error f ∧ f.kind = .usage) ↔ 64 < v.depth) ∧
      (v.depth ≤ 64 → (h.cross v).result = .ok (some v.canonicalForm) ∧ v.canonicalForm.Canonical ∧
        (v.canonicalForm = v ↔ v.Canonical) ∧
        ∀ h' : Heap, (h'.cross v.canonicalForm).result = .ok (some v.canonicalForm)) := by
  refine ⟨⟨?_, fun hd => ⟨_, Heap.cross_error hv (Nat.not_le.2 hd) h, rfl⟩⟩, fun hd => ?_⟩
  · rintro ⟨f, hf, -⟩
    by_contra hd
    rw [Heap.cross_ok hv (Nat.not_lt.1 hd)] at hf
    cases hf
  · have hcanonical := Value.canonicalForm_canonical hv
    have hformed := Value.canonicalForm_wellFormed hv
    refine ⟨Heap.cross_ok hv hd h, hcanonical, Value.canonicalForm_eq_self_iff hv, fun h' => ?_⟩
    rw [Heap.cross_ok hformed (Value.canonicalForm_depth_le hv hd) h', hcanonical.canonicalForm_eq hformed]

/-- A list that begins with a hole becomes a map, and a map whose only name is 1 a list. -/
theorem hole_makes_map :
    let v : Value := .list [.nil, .map [("1", .bool true)]]
    let w : Value := .map [("2", .list [.bool true])]
    v.WellFormed ∧ v.canonicalForm = w ∧ (({} : Heap).cross v).result = .ok (some w) ∧ ¬v.Canonical ∧
      ∀ h : Heap, (h.cross w).result = .ok (some w) := by
  intro v w
  have hfields : ∀ p ∈ [("1", Value.bool true)], p.2.WellFormed := fun p hp => .plain (List.mem_singleton.1 hp ▸ rfl)
  have hv : v.WellFormed := .list (by decide) fun u hu => by
    rcases List.mem_pair.1 hu with rfl | rfl
    · exact .plain rfl
    · exact .map (List.pairwise_singleton ..) (by decide) hfields
  have hform : v.canonicalForm = w := by
    unfold v w
    rfl
  obtain ⟨hcross, -, hself, hagain⟩ := (crossing_settles hv {}).2 (by decide)
  rw [hform] at hcross hself hagain
  exact ⟨hv, hform, hcross, fun hc => Value.noConfusion (hself.2 hc), hagain⟩

end Fixtures.Script
