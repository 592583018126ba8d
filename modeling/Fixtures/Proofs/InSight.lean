import Fixtures.Proofs.Backing
/-!
# Variables in sight

The variables in sight are collected from the names bound before the capture
and then from the globals. A script finds a name in the globals first, and
behind them only if they do not hold it. Both agree (`variables_as_found`)
unless a name that was bound to data now holds something that is none: a script
finds that, and what is collected is still the data behind it. Scripts are those
of the supported part of Lua (see `Fixtures.Script.Syntax`).
-/

namespace Fixtures.Script

open Reported

namespace Heap

variable {h : Heap}

/-- A value is data other than `nil`, and this is what it is read as. -/
def IsData (h : Heap) (v : Val) (w : Value) : Prop := v ≠ .nil ∧ (h.valueOf v).result = .ok (some w)

theorem IsData.unique {v : Val} {w w' : Value} (hw : h.IsData v w) (hw' : h.IsData v w') : w = w' :=
  Option.some.inj (Except.ok.inj (hw.2.symm.trans hw'.2))

theorem Finds.unique {name : String} {x y : Val} (hx : h.Finds name x) (hy : h.Finds name y) : x = y :=
  Except.ok.inj (Prod.mk.inj (Program.done.inj ((hx (call []) []).symm.trans (hy (call []) [])))).1

/-- Global names without a metatable are found where they are held. -/
theorem finds_plain (hplain : h.globalTable.metatable = none) (name : String) :
    h.Finds name (h.globalTable.get (.text name)) :=
  fun _ _ => indexWithin_plain hplain _ name

end Heap

namespace Binding

variable {b b' : Binding}

/-! ## How bindings come about -/

/-- A binding to which names were bound, on which the capture was started and scripts were run, in any order. The
scripts leave the metatable of the globals alone. -/
inductive Made : Binding → Prop
  | new {b : Binding} (hr : b.heap.Rooted) (hplain : b.heap.globalTable.metatable = none) (hb : b.before = none) :
    Made b
  | bind {b : Binding} (hm : Made b) (name : String) (v : Val) : Made (b.bind name v)
  | set {b : Binding} (hm : Made b) (name : String) (v : Value) : Made (b.set name v)
  | start {b b' : Binding} (hm : Made b) (hb : b.startCapture = .ok b') : Made b'
  | run {b : Binding} (hm : Made b) (types : Catalog) (name text : String)
    (load : List ScriptRef → Session → Except Failure Variables × Session) (s : Session)
    (hspared : b.heap.Spares ((Prepared.execute name text ⟨types, b⟩).runIn load s).1.2.binding.heap) :
    Made ((Prepared.execute name text ⟨types, b⟩).runIn load s).1.2.binding

/-- The names bound before the capture started. -/
def earlier (b : Binding) : Table := (b.before.map b.heap.table).getD .empty

/-- Before the capture the globals are all there is; from then on they are backed by the names bound before. -/
structure InOrder (b : Binding) : Prop where
  rooted : b.heap.Rooted
  plain : b.before = none → b.heap.globalTable.metatable = none
  backed : ∀ id, b.before = some id → ∃ t, b.heap.Backed id t

theorem InOrder.bind (hb : b.InOrder) (name : String) (v : Val) : (b.bind name v).InOrder where
  rooted := (b.bind_binds name v).steps.rooted hb.rooted
  plain hnone := by
    show ((b.heap.put b.heap.globals (.text name) v).table b.heap.globals).metatable = none
    rw [Heap.table_put]
    split
    · exact (Table.metatable_set ..).trans (hb.plain hnone)
    · exact hb.plain hnone
  backed id hid := by
    obtain ⟨t, hbacked⟩ := hb.backed id hid
    exact ⟨t, hbacked.put _ _⟩

theorem InOrder.builds {h : Heap} (hb : b.InOrder) (hs : b.heap.Builds h) : InOrder { b with heap := h } where
  rooted := hs.steps.rooted hb.rooted
  plain hnone := by
    rw [hs.globalTable hb.rooted]
    exact hb.plain hnone
  backed id hid := by
    obtain ⟨t, hbacked⟩ := hb.backed id hid
    exact ⟨t, hbacked.builds hb.rooted hs⟩

theorem InOrder.spared (hb : b.InOrder) (hs : b.heap.Steps b'.heap) (hbefore : b'.before = b.before)
    (hspared : b.heap.Spares b'.heap) : b'.InOrder where
  rooted := hs.rooted hb.rooted
  plain hnone := hspared.same.trans (hb.plain (hbefore.symm.trans hnone))
  backed id hid := by
    obtain ⟨t, hbacked⟩ := hb.backed id (hbefore.symm.trans hid)
    exact ⟨t, hbacked.spared hs hspared⟩

theorem Made.inOrder (hm : b.Made) : b.InOrder := by
  induction hm with
  | new hr hplain hb => exact ⟨hr, fun _ => hplain, fun id hid => nomatch hb.symm.trans hid⟩
  | bind _ name v ih => exact ih.bind name v
  | @set b _ name v ih => exact (ih.builds (b.heap.receive_builds v)).bind name _
  | @start b b' _ hb ih =>
    have hc := startCapture_captures ih.rooted hb
    refine ⟨(hc.recorded ih.rooted).rooted, fun hnone => (nomatch hc.before.symm.trans hnone), fun id hid => ?_⟩
    obtain rfl := Option.some.inj (hc.before.symm.trans hid)
    exact ⟨_, hc.backed ih.rooted⟩
  | @run b _ types name text load s hspared ih =>
    obtain ⟨hs, hbefore⟩ := b.execute_steps types ih.rooted name text load s
    exact ih.spared hs hbefore hspared

/-! ### What a script starts from -/

/-- The table of lists is not that of the globals. -/
def KeepsLibrary (b : Binding) : Prop := b.heap.globalTable.get (.text "table") ≠ .table b.heap.globals

theorem bindTypes_inOrder (ts : List EntityType) (hb : b.InOrder) (hlibrary : b.KeepsLibrary) :
    (ts.foldl bindType b).InOrder ∧ (ts.foldl bindType b).KeepsLibrary := by
  induction ts generalizing b with
  | nil => exact ⟨hb, hlibrary⟩
  | cons t ts ih =>
    have hs := (Heap.Builds.refl b.heap).newObject (.entityType t)
    have hbuilt := hb.builds hs
    refine ih (hbuilt.bind t.name _) fun hget => ?_
    have hbound := (bind_get _ hbuilt.rooted t.name (.object b.heap.objects.size) "table").symm.trans hget
    split at hbound
    · cases hbound
    · exact hlibrary hbound

theorem sequences_ne_globals (hb : b.InOrder) (hlibrary : b.KeepsLibrary) : b.heap.sequences.1 ≠ b.heap.globals := by
  unfold Heap.sequences
  split
  · rename_i id hid
    rintro rfl
    exact hlibrary hid
  · exact (Nat.ne_of_lt hb.rooted).symm

/-- A metatable other than that of the globals may be changed. -/
theorem InOrder.setMetatable (hb : b.InOrder) (hbefore : b.before = none) {id : Nat} (hid : id ≠ b.heap.globals)
    (m : Option Nat) : InOrder { b with heap := b.heap.setTable id { b.heap.table id with metatable := m } } where
  rooted := (b.setMetatable_binds id m).steps.rooted hb.rooted
  plain _ := by
    show ((b.heap.setTable id _).table b.heap.globals).metatable = none
    rw [Heap.table_setTable, if_neg fun hg => hid hg.1.symm]
    exact hb.plain hbefore
  backed _ hid := nomatch hbefore.symm.trans hid

theorem install_inOrder (types : Catalog) : (install types {}).InOrder := by
  have hfresh : InOrder {} := ⟨fresh_rooted, fun _ => by decide +kernel, nofun⟩
  have hlibrary : KeepsLibrary {} := by
    unfold KeepsLibrary
    decide +kernel
  obtain ⟨htypes, hlibrary⟩ := bindTypes_inOrder types.values hfresh hlibrary
  have hbefore := (bindTypes_binds types.values {}).before
  have hs := (sequences_builds (types.values.foldl bindType {}).heap).addTable
    (.ofEntries [(.text "__call", .builtin .openTable)])
  -- The library gets a metatable, and the globals are another table.
  have hid := sequences_ne_globals htypes hlibrary
  rw [← Heap.Steps.globals hs.steps] at hid
  exact (((((htypes.builds hs).setMetatable hbefore hid _).bind "table" _).bind "row" _).bind "find" _).bind "load" _

theorem Made.setAll (hm : b.Made) (vars : Variables) : (b.setAll vars).Made := by
  induction vars generalizing b with
  | nil => exact hm
  | cons p rest ih => exact ih (hm.set p.1 p.2)

/-- What is bound before a script starts came about like this. -/
theorem bound_made (types : Catalog) (vars : Variables) : (bound types vars).Made := by
  have hbefore : (install types {}).before = none := (install_binds types {}).before
  have hb := install_inOrder types
  exact (Made.new hb.rooted (hb.plain hbefore) hbefore).setAll vars

/-- A name is found in the globals, or else among the names bound before. -/
theorem InOrder.finds (hb : b.InOrder) (name : String) :
    b.heap.Finds name (if b.heap.globalTable.get (.text name) = .nil then b.earlier.get (.text name)
      else b.heap.globalTable.get (.text name)) := by
  cases hbefore : b.before with
  | none =>
    have hfound := Heap.finds_plain (hb.plain hbefore) name
    have hempty : b.earlier.get (.text name) = .nil := by
      rw [earlier, hbefore]
      rfl
    split
    · rename_i hnil
      rw [hempty, ← hnil]
      exact hfound
    · exact hfound
  | some id =>
    obtain ⟨t, hbacked⟩ := hb.backed id hbefore
    have hearlier : b.earlier = t := by
      rw [earlier, hbefore]
      exact hbacked.holds
    rw [hearlier]
    exact hbacked.finds name

/-! ## Collecting -/

/-- A key is bound to something, now or before the capture. -/
def Bound (b : Binding) (k v : Val) : Prop :=
  v ≠ .nil ∧ (b.earlier.get k = v ∨ b.heap.globalTable.get k = v)

/-- Some value in sight is nested too deep to be read. -/
def BoundTooDeep (b : Binding) : Prop :=
  ∃ bytes v, b.Bound (.string bytes) v ∧ b.heap.TooDeep nestingLimit [] v

/-- No other key in sight is read as this name. All names are of this kind if the keys are well-formed UTF-8. -/
def Sole (b : Binding) (name : String) : Prop :=
  ∀ bytes v, b.Bound (.string bytes) v → Text.decode bytes = name → Val.string bytes = .text name

/-- What holds a name now is no data, and the name was bound to data before. -/
def Hides (b : Binding) (name : String) : Prop :=
  b.heap.globalTable.get (.text name) ≠ .nil ∧
    (b.heap.valueOf (b.heap.globalTable.get (.text name))).result = .ok none ∧
    ∃ w, b.heap.IsData (b.earlier.get (.text name)) w

/-- All that is in sight, in the order in which it is collected. -/
def entries (b : Binding) : List (Val × Val) := b.earlier.entries ++ b.heap.globalTable.entries

/-- The data in sight. -/
def inSight (b : Binding) : Variables := Dict.ofPairs (b.entries.filterMap (asVariable? b.heap.data?))

theorem mem_entries {k v : Val} : (k, v) ∈ b.entries ↔ b.Bound k v := by
  have hentry (t : Table) : (k, v) ∈ t.entries ↔ v ≠ .nil ∧ t.get k = v := by
    refine ⟨fun hmem => ⟨of_decide_eq_true (List.mem_filter.1 hmem).2, Table.get_of_mem hmem⟩, ?_⟩
    rintro ⟨hv, hget⟩
    exact Table.mem_of_get hget hv
  rw [entries, List.mem_append, hentry, hentry, Bound, and_or_left]

theorem entries_eq (b : Binding) : b.entries = b.tables.flatMap fun id => (b.heap.table id).entries := by
  unfold entries tables earlier
  cases b.before <;> simp [Heap.globalTable, Table.entries, Table.empty]

/-- No byte of a well-formed key is lost when it is read as a name. -/
theorem sole_of_utf8 (hkeys : ∀ row ∈ b.entries, row.1.utf8) (name : String) : b.Sole name := by
  rintro bytes v hv rfl
  have hkey : Text.encode (Text.decode bytes) = bytes := of_decide_eq_true (hkeys _ (mem_entries.2 hv))
  exact congrArg Val.string hkey.symm

open Classical in
/-- What is in sight is collected unless some value there cannot be read. -/
theorem quiet_visible (b : Binding) :
    quiet b.visible = within (¬b.BoundTooDeep) b.inSight := by
  have hdeep : (∀ id ∈ b.tables, ∀ row ∈ (b.heap.table id).entries, ∀ bytes, row.1 = .string bytes →
      ¬b.heap.TooDeep nestingLimit [] row.2) ↔ ¬b.BoundTooDeep := by
    constructor
    · rintro hall ⟨bytes, v, hv, htoo⟩
      have hmem := mem_entries.2 hv
      rw [entries_eq] at hmem
      obtain ⟨id, hid, hrow⟩ := List.mem_flatMap.1 hmem
      exact hall id hid _ hrow bytes rfl htoo
    · rintro hnone id hid ⟨k, v⟩ hrow bytes rfl htoo
      refine hnone ⟨bytes, v, mem_entries.1 ?_, htoo⟩
      rw [entries_eq]
      exact List.mem_flatMap.2 ⟨id, hid, hrow⟩
  have hall : b.inSight = b.tables.foldl
      (fun vars id => Dict.extend vars ((b.heap.table id).entries.filterMap (asVariable? b.heap.data?))) [] := by
    rw [inSight, entries_eq, List.filterMap_flatMap]
    exact List.foldl_flatMap
  unfold visible
  rw [quiet_foldlM, foldlM_within fun id _ vars => b.heap.quiet_collect id vars, hall]
  exact within_congr hdeep _

theorem visible_eq_inSight (hdeep : ¬b.BoundTooDeep) : b.visible.result = .ok b.inSight := by
  classical
  exact (result_of_quiet b.quiet_visible).trans (if_pos hdeep)

theorem visible_eq_error (hdeep : b.BoundTooDeep) : b.visible.result = .error (.nestedTooDeep nestingLimit) := by
  classical
  exact (result_of_quiet b.quiet_visible).trans (if_neg (not_not.2 hdeep))

theorem shallow_of_visible (hread : b.visible.result.toBool) : ¬b.BoundTooDeep := by
  intro hdeep
  rw [visible_eq_error hdeep] at hread
  cases hread

section Readable

variable (hdeep : ¬b.BoundTooDeep)

include hdeep

theorem Bound.result_valueOf {bytes : Text.Bytes} {v : Val} (hv : b.Bound (.string bytes) v) :
    (b.heap.valueOf v).result = .ok (b.heap.data? v) :=
  Heap.result_valueOf fun htoo => hdeep ⟨bytes, v, hv, htoo⟩

theorem Bound.isData_iff {bytes : Text.Bytes} {v : Val} (hv : b.Bound (.string bytes) v) (w : Value) :
    b.heap.IsData v w ↔ b.heap.data? v = some w := by
  rw [Heap.IsData, hv.result_valueOf hdeep, Except.ok.injEq, and_iff_right hv.1]

theorem mem_keys_inSight {name : String} :
    name ∈ b.inSight.keys ↔
      ∃ bytes v, b.Bound (.string bytes) v ∧ Text.decode bytes = name ∧ ∃ w, b.heap.IsData v w := by
  rw [inSight, Dict.mem_keys_ofPairs]
  constructor
  · intro hname
    obtain ⟨⟨_, w⟩, hp, rfl⟩ := List.mem_map.1 hname
    obtain ⟨⟨k, v⟩, hrow, hp⟩ := List.mem_filterMap.1 hp
    obtain ⟨bytes, hk, hdecode, hw⟩ := Heap.mem_variables.1 hp
    obtain rfl : k = .string bytes := hk
    have hv := mem_entries.1 hrow
    exact ⟨bytes, v, hv, hdecode, w, (hv.isData_iff hdeep w).2 hw⟩
  · rintro ⟨bytes, v, hv, hdecode, w, hw⟩
    refine List.mem_map.2 ⟨(name, w), List.mem_filterMap.2 ⟨(.string bytes, v), mem_entries.2 hv, ?_⟩, rfl⟩
    exact Heap.mem_variables.2 ⟨bytes, rfl, hdecode, (hv.isData_iff hdeep w).1 hw⟩

/-- Under a name that no other key is read as there is the data that the globals hold, or else what was bound before. -/
theorem get?_inSight {name : String} (hsole : b.Sole name) (w : Value) :
    b.inSight.get? name = some w ↔
      b.heap.IsData (b.heap.globalTable.get (.text name)) w ∨
        (¬∃ u, b.heap.IsData (b.heap.globalTable.get (.text name)) u) ∧
          b.heap.IsData (b.earlier.get (.text name)) w := by
  have hread (t : Table) (ht : ∀ k v, (k, v) ∈ t.entries → b.Bound k v) (u : Value) :
      Dict.get? (t.entries.filterMap (asVariable? b.heap.data?)).reverse name = some u ↔
        b.heap.IsData (t.get (.text name)) u := by
    refine (Heap.get?_collected (fun bytes v hmem => hsole bytes v (ht _ v hmem)) u).trans ?_
    constructor
    · rintro ⟨hv, hu⟩
      exact ((ht _ _ (Table.mem_of_get rfl hv)).isData_iff hdeep u).2 hu
    · intro hu
      exact ⟨hu.1, ((ht _ _ (Table.mem_of_get rfl hu.1)).isData_iff hdeep u).1 hu⟩
  have hown := hread b.heap.globalTable fun _ _ hmem => mem_entries.1 (List.mem_append_right _ hmem)
  have hearlier := hread b.earlier fun _ _ hmem => mem_entries.1 (List.mem_append_left _ hmem)
  rw [inSight, Dict.get?_ofPairs, entries, List.filterMap_append, List.reverse_append, Dict.get?_append,
    Option.or_eq_some_iff, hown, hearlier]
  refine or_congr_right (and_congr_left fun _ => ?_)
  rw [Option.eq_none_iff_forall_ne_some, not_exists]
  exact forall_congr' fun u => not_congr (hown u)

/-- What the globals hold hides data behind it if it is no data. -/
theorem hides_iff {name : String} (hown : b.heap.globalTable.get (.text name) ≠ .nil) :
    b.Hides name ↔ (¬∃ u, b.heap.IsData (b.heap.globalTable.get (.text name)) u) ∧
      ∃ w, b.heap.IsData (b.earlier.get (.text name)) w := by
  have hbound : b.Bound (.text name) (b.heap.globalTable.get (.text name)) := ⟨hown, .inr rfl⟩
  unfold Hides
  rw [hbound.result_valueOf hdeep, and_iff_right hown, Except.ok.injEq, Option.eq_none_iff_forall_ne_some, not_exists]
  exact and_congr_left fun _ => forall_congr' fun u => not_congr (hbound.isData_iff hdeep u).symm

end Readable

end Binding

/-- Whatever is bound and whichever scripts run, before and after the capture starts, the variables in sight are
collected unless one of them, hidden or not, is nested too deep. Then there is one for every name under which something
in sight holds data. Under a name that only one key is read as it is what a script that reads the name finds there, and
there is none if a script finds no data: always as long as the capture has not started, and then unless the name is
hidden, that is, unless it was bound to data before and now holds something that is none. In that case a script finds
what it holds now, and what was bound before is still collected. -/
theorem variables_as_found {b : Binding} (hm : b.Made) :
    ((∃ f, b.visible.result = .error f ∧ f.kind = .usage) ↔ b.BoundTooDeep) ∧
    (b.before = none → ∀ name, ¬b.Hides name) ∧
    (¬b.BoundTooDeep → ∃ vars, b.visible.result = .ok vars ∧ vars.Ascending ∧
      (∀ name, name ∈ vars.keys ↔
        ∃ bytes v, b.Bound (.string bytes) v ∧ Text.decode bytes = name ∧ ∃ w, b.heap.IsData v w) ∧
      ∀ name, b.Sole name → ∃ x, b.heap.Finds name x ∧
        (∀ w, vars.get? name = some w ↔
          b.heap.IsData x w ∨ b.Hides name ∧ b.heap.IsData (b.earlier.get (.text name)) w) ∧
        ((∀ w, vars.get? name = some w ↔ b.heap.IsData x w) ↔ ¬b.Hides name)) := by
  refine ⟨⟨?_, fun hdeep => ⟨_, Binding.visible_eq_error hdeep, rfl⟩⟩, fun hbefore name => ?_, fun hdeep => ?_⟩
  · rintro ⟨f, hf, -⟩
    by_contra hdeep
    cases hf.symm.trans (Binding.visible_eq_inSight hdeep)
  · rintro ⟨-, -, w, hw, -⟩
    refine hw ?_
    rw [Binding.earlier, hbefore]
    rfl
  · refine ⟨_, Binding.visible_eq_inSight hdeep, Dict.ascending_ofPairs _, fun name => ?_, fun name hsole => ?_⟩
    · exact Binding.mem_keys_inSight hdeep
    · have hget := Binding.get?_inSight hdeep hsole
      refine ⟨_, hm.inOrder.finds name, ?_⟩
      by_cases hown : b.heap.globalTable.get (.text name) = .nil
      · -- The globals do not hold the name, so nothing is hidden.
        rw [if_pos hown]
        have hnone : ¬b.Hides name := fun hhides => hhides.1 hown
        have hnothing (u : Value) : ¬b.heap.IsData (b.heap.globalTable.get (.text name)) u := fun hu => hu.1 hown
        have hfound (w : Value) := hget w
        simp only [hnothing, exists_false, not_false_eq_true, true_and, false_or] at hfound
        refine ⟨fun w => ?_, iff_of_true hfound hnone⟩
        rw [hfound, or_iff_left fun hhides => hnone hhides.1]
      · rw [if_neg hown]
        have hhides := Binding.hides_iff hdeep hown
        have hfound (w : Value) : b.inSight.get? name = some w ↔
            b.heap.IsData (b.heap.globalTable.get (.text name)) w ∨
              b.Hides name ∧ b.heap.IsData (b.earlier.get (.text name)) w := by
          refine (hget w).trans (or_congr_right (and_congr_left fun hw => ?_))
          rw [hhides, and_iff_left ⟨w, hw⟩]
        refine ⟨hfound, fun hsame hh => ?_, fun hnone w => ?_⟩
        · obtain ⟨hnothing, w, hw⟩ := hhides.1 hh
          exact hnothing ⟨w, (hsame w).1 ((hfound w).2 (.inr ⟨hh, hw⟩))⟩
        · rw [hfound, or_iff_left fun hh => hnone hh.1]

/-- Of the names bound before a script, one is bound anew to data and one is left alone; a new name is bound to a
function. -/
theorem variables_in_sight_of_script :
    let b := (prepare [] [("count", .integer 1), ("env", .string "test")]).binding
    let b' := ((Prepared.execute "a" "env = 'prod' helper = type" ⟨[], b⟩).runIn (fun _ s => (.ok [], s)) {}).1.2.binding
    b'.Made ∧ ∃ vars, b'.visible.result = .ok vars ∧ (b'.Sole "env" ∧ vars.get? "env" = some (.string "prod")) ∧
      (b'.Sole "count" ∧ vars.get? "count" = some (.integer 1)) ∧
      (b'.Sole "helper" ∧ b'.heap.Finds "helper" (.builtin .type) ∧ vars.get? "helper" = none) := by
  intro b b'
  have hr := bound_rooted [] [("count", .integer 1), ("env", .string "test")]
  have hb := startCapture_bound [] [("count", .integer 1), ("env", .string "test")]
  have hbacked := (Binding.startCapture_captures hr hb).backed hr
  have hm : b'.Made := .run (.start (Binding.bound_made [] _) hb) [] "a" _ _ _
    (hbacked.spares (by decide +kernel) (by decide +kernel) (by decide +kernel))
  have hsole := Binding.sole_of_utf8 (b := b') (by decide +kernel)
  have hread : b'.visible.result.toBool := by decide +kernel
  have hrun : b'.heap.globalTable.get (.text "env") = .text "prod" ∧
      (b'.heap.globalTable.get (.text "count") = .nil ∧ b'.earlier.get (.text "count") = .int 1) ∧
      b'.heap.globalTable.get (.text "helper") = .builtin .type ∧ b'.earlier.get (.text "helper") = .nil := by
    decide +kernel
  obtain ⟨henv, ⟨hcount, hcount₀⟩, hhelper, hhelper₀⟩ := hrun
  obtain ⟨-, -, hvisible⟩ := variables_as_found hm
  obtain ⟨vars, hvars, -, -, hnames⟩ := hvisible (Binding.shallow_of_visible hread)
  refine ⟨hm, vars, hvars, ⟨hsole _, ?_⟩, ⟨hsole _, ?_⟩, hsole _, ?_⟩
  · obtain ⟨x, hx, hget, -⟩ := hnames "env" (hsole _)
    have hfinds := hm.inOrder.finds "env"
    rw [henv] at hfinds
    obtain rfl := hx.unique hfinds
    exact (hget _).2 (.inl ⟨nofun, rfl⟩)
  · obtain ⟨x, hx, hget, -⟩ := hnames "count" (hsole _)
    have hfinds := hm.inOrder.finds "count"
    rw [hcount, hcount₀] at hfinds
    obtain rfl := hx.unique hfinds
    exact (hget _).2 (.inl ⟨nofun, rfl⟩)
  · obtain ⟨x, hx, hget, -⟩ := hnames "helper" (hsole _)
    have hfinds := hm.inOrder.finds "helper"
    rw [hhelper] at hfinds
    obtain rfl := hx.unique hfinds
    refine ⟨hx, Option.eq_none_iff_forall_ne_some.2 fun w hw => ?_⟩
    rcases (hget w).1 hw with ⟨-, hdata⟩ | ⟨-, hnil, -⟩
    · cases hdata
    · exact hnil hhelper₀

/-- A name that was bound to data holds a function now, and the data is collected. -/
theorem data_collected_behind_function :
    let b := (prepare [] [("x", .integer 1)]).binding
    let b' := ((Prepared.execute "a" "x = type" ⟨[], b⟩).runIn (fun _ s => (.ok [], s)) {}).1.2.binding
    b'.Made ∧ b'.heap.Finds "x" (.builtin .type) ∧ (b'.heap.valueOf (.builtin .type)).result = .ok none ∧
      ∃ vars, b'.visible.result = .ok vars ∧ vars.get? "x" = some (.integer 1) := by
  intro b b'
  have hb := startCapture_bound [] [("x", .integer 1)]
  have hbacked := (Binding.startCapture_captures (bound_rooted [] _) hb).backed (bound_rooted [] _)
  have hm : b'.Made := .run (.start (Binding.bound_made [] _) hb) [] "a" _ _ _
    (hbacked.spares (by decide +kernel) (by decide +kernel) (by decide +kernel))
  have hsole := Binding.sole_of_utf8 (b := b') (by decide +kernel) "x"
  have hread : b'.visible.result.toBool := by decide +kernel
  have hrun : b'.heap.globalTable.get (.text "x") = .builtin .type ∧ b'.earlier.get (.text "x") = .int 1 := by
    decide +kernel
  obtain ⟨hx, hx₀⟩ := hrun
  have hdeep := Binding.shallow_of_visible hread
  have hfinds := hm.inOrder.finds "x"
  rw [hx] at hfinds
  refine ⟨hm, hfinds, rfl, _, Binding.visible_eq_inSight hdeep, (Binding.get?_inSight hdeep hsole _).2 (.inr ?_)⟩
  rw [hx, hx₀]
  refine ⟨?_, nofun, rfl⟩
  rintro ⟨u, -, hdata⟩
  cases hdata

end Fixtures.Script
