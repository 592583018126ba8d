import Fixtures.Proofs.Capture
/-!
# Names behind the globals

Once the capture has started, what the globals do not hold is looked up in the
table of the names bound before. As long as the metatable of the globals is
left alone, a name is found as it was last assigned, and as it was bound before
if it was not assigned or was assigned `nil`: an assignment of `nil` uncovers
the earlier binding (`names_found_as_assigned`). What else a script does in the
supported part of Lua (see `Fixtures.Script.Syntax`) are steps of its heap.
-/

namespace Fixtures.Script

theorem Table.eq_iff {t t' : Table} :
    t = t' ↔ t.rows = t'.rows ∧ t.room = t'.room ∧ t.metatable = t'.metatable := by
  cases t
  cases t'
  simp only [mk.injEq]

instance : DecidableEq Table := fun _ _ => decidable_of_iff _ Table.eq_iff.symm

theorem Table.metatable_set (t : Table) (k v : Val) : (t.set k v).metatable = t.metatable := by
  unfold set
  split <;> rfl

namespace Heap

variable {h h' : Heap} {id : Nat} {t : Table}

theorem table_put (h : Heap) (id : Nat) (k v : Val) (j : Nat) :
    (h.put id k v).table j = if j = id ∧ id < h.tables.size then (h.table id).set k v else h.table j :=
  table_setTable h id _ j

/-! ## The table behind -/

/-- What the global names do not hold is looked up in a table of this place and content, and nothing else is special
about them. -/
structure Backed (h : Heap) (id : Nat) (t : Table) : Prop where
  fallback : ∃ m, m ≠ h.globals ∧ h.globalTable.metatable = some m ∧
    h.table m = .ofEntries [(.text "__index", .table id)]
  holds : h.table id = t
  plain : t.metatable = none
  apart : id ≠ h.globals
  inside : id < h.tables.size

/-- The metatable of the global names is left alone, with all it holds, and so is what it refers to for names that are
not found. -/
structure Spares (h h' : Heap) : Prop where
  same : h'.globalTable.metatable = h.globalTable.metatable
  metatable : ∀ m, h.globalTable.metatable = some m → h'.table m = h.table m
  behind : ∀ id, h.handler (.table h.globals) "__index" = .table id → h'.table id = h.table id

/-- A table that holds something has been made. -/
theorem table_lt_size {m : Nat} {k v : Val} (hm : h.table m = .ofEntries [(k, v)]) (hv : v ≠ .nil) :
    m < h.tables.size := by
  by_contra hlt
  have hempty : h.table m = .empty := by
    unfold Heap.table
    rw [Array.getElem?_eq_none (Nat.not_lt.1 hlt)]
    rfl
  have hget : (h.table m).get k = v := by
    rw [hm, Table.ofEntries, Table.setAll, List.foldl_cons, List.foldl_nil, Table.get_set, if_pos rfl]
  rw [hempty] at hget
  exact hv hget.symm

namespace Backed

/-- What the metatable of the globals says about an event. -/
theorem handler (hb : h.Backed id t) (event : String) :
    h.handler (.table h.globals) event = if event = "__index" then .table id else .nil := by
  obtain ⟨m, -, hmeta, hm⟩ := hb.fallback
  exact handler_fallback hmeta hm event

/-- Only the tables matter, and which of them is that of the globals. -/
theorem congr (hb : h.Backed id t) (ht : h'.tables = h.tables) (hg : h'.globals = h.globals) : h'.Backed id t := by
  have htable (j : Nat) : h'.table j = h.table j := by rw [Heap.table, ht, Heap.table]
  obtain ⟨m, hm, hmeta, hfallback⟩ := hb.fallback
  refine ⟨⟨m, hg ▸ hm, ?_, (htable m).trans hfallback⟩, (htable id).trans hb.holds, hb.plain, hg ▸ hb.apart,
    ht ▸ hb.inside⟩
  rw [Heap.globalTable, hg, htable]
  exact hmeta

/-- An assignment to a global name leaves what is behind alone. -/
theorem put (hb : h.Backed id t) (k v : Val) : (h.put h.globals k v).Backed id t := by
  obtain ⟨m, hm, hmeta, hfallback⟩ := hb.fallback
  have hother (j : Nat) (hj : j ≠ h.globals) : (h.put h.globals k v).table j = h.table j := by
    rw [table_put, if_neg fun hg => hj hg.1]
  refine ⟨⟨m, hm, ?_, (hother m hm).trans hfallback⟩, (hother id hb.apart).trans hb.holds, hb.plain, hb.apart, ?_⟩
  · show ((h.put h.globals k v).table h.globals).metatable = some m
    rw [table_put]
    split
    · exact (Table.metatable_set ..).trans hmeta
    · exact hmeta
  · exact Nat.lt_of_lt_of_le hb.inside (Edit.size_le (.put h h.globals k v))

/-- So does building values. -/
theorem builds (hb : h.Backed id t) (hr : h.Rooted) (hs : h.Builds h') : h'.Backed id t := by
  obtain ⟨m, hm, hmeta, hfallback⟩ := hb.fallback
  have hglobals : h'.globals = h.globals := Steps.globals hs.steps
  refine ⟨⟨m, hglobals ▸ hm, hs.globalTable hr ▸ hmeta, ?_⟩, (hs.table hb.inside).trans hb.holds, hb.plain,
    hglobals ▸ hb.apart, Nat.lt_of_lt_of_le hb.inside (Steps.size_le hs.steps)⟩
  rw [hs.table (table_lt_size hfallback nofun), hfallback]

/-- So does everything that leaves the metatable of the globals alone. -/
theorem spared (hb : h.Backed id t) (hs : h.Steps h') (hspared : h.Spares h') : h'.Backed id t := by
  obtain ⟨m, hm, hmeta, hfallback⟩ := hb.fallback
  have hglobals : h'.globals = h.globals := hs.globals
  refine ⟨⟨m, hglobals ▸ hm, hspared.same.trans hmeta, (hspared.metatable m hmeta).trans hfallback⟩, ?_, hb.plain,
    hglobals ▸ hb.apart, Nat.lt_of_lt_of_le hb.inside hs.size_le⟩
  exact (hspared.behind id (hb.handler "__index")).trans hb.holds

/-- What is to be left alone then. -/
theorem spares (hb : h.Backed id t) (hsame : h'.globalTable.metatable = h.globalTable.metatable)
    (hmeta : ∀ m ∈ h.globalTable.metatable, h'.table m = h.table m) (hid : h'.table id = h.table id) : h.Spares h' := by
  refine ⟨hsame, hmeta, fun j hj => ?_⟩
  obtain rfl : id = j := Val.table.inj ((hb.handler "__index").symm.trans hj)
  exact hid

/-- A name is found where the globals hold it, or else behind them. -/
theorem finds (hb : h.Backed id t) (name : String) :
    h.Finds name
      (if h.globalTable.get (.text name) = .nil then t.get (.text name) else h.globalTable.get (.text name)) := by
  intro call trace
  have hplain : (h.table id).metatable = none := by rw [hb.holds, hb.plain]
  have hfound := @index_global h call trace id (hb.handler "__index") hplain name
  rw [hb.holds] at hfound
  exact hfound

end Backed

/-- A name is found as the record says it was last assigned, unless that was `nil` or it was not. -/
theorem Backed.finds_last (hb : h.Backed id t) (hr : h.Recorded) (name : String) :
    let bound := t.get (.text name)
    let ordinary := (h.lastAssigned (.text name)).getD bound
    h.Finds name (if ordinary = .nil then bound else ordinary) := by
  intro bound ordinary
  have hfound := hb.finds name
  rw [hr.holds] at hfound
  have hsame : (if ordinary = .nil then bound else ordinary) =
      if (h.lastAssigned (.text name)).getD .nil = .nil then bound else (h.lastAssigned (.text name)).getD .nil := by
    unfold ordinary
    cases h.lastAssigned (.text name) with
    | none => simp
    | some v => rfl
  rw [hsame]
  exact hfound

/-! ## Assignments and reads -/

/-- How a script assigns to a global name: by that name, through the table of the globals, or with `rawset`. -/
inductive AssignsTo (h : Heap) (name : String) (v : Val) : Eval Unit → Prop
  | byName {call handle : Caller} {a : Activation} (ha : h.IsGlobal a name) (line : Nat) :
    AssignsTo h name v (slotOf call handle a (.name name) >>= Slot.store handle a line v)
  | throughTable (handle : Caller) (trace : Trace) :
    AssignsTo h name v (setIndex handle trace (.table h.globals) (.text name) v)
  | raw (call : Caller) (callers : Trace) :
    AssignsTo h name v do
      let _ ← Library.rawset ⟨call, "rawset", [.table h.globals, .text name, v], callers⟩

/-- How a script reads a global name: by that name, or through the table of the globals. -/
inductive ReadsFrom (h : Heap) (name : String) : Eval Val → Prop
  | byName {handle : Caller} {a : Activation} (ha : h.IsGlobal a name) (line : Nat) :
    ReadsFrom h name (a.valueOf handle name line)
  | throughTable (handle : Caller) (trace : Trace) :
    ReadsFrom h name (index handle trace (.table h.globals) (.text name))

theorem AssignsTo.run {name : String} {v : Val} {store : Eval Unit} (ha : h.AssignsTo name v store)
    (hb : h.Backed id t) : store h = .done (.ok (), h.put h.globals (.text name) v) := by
  have hnew : h.handler (.table h.globals) "__newindex" = .nil := hb.handler "__newindex"
  cases ha with
  | byName ha line => rw [store_global ha, setIndex_global hnew]
  | throughTable handle trace => exact setIndex_global hnew name v
  | raw call callers => rfl

theorem ReadsFrom.run {name : String} {x : Val} {read : Eval Val} (hf : h.Finds name x) (hr : h.ReadsFrom name read) :
    read h = .done (.ok x, h) := by
  cases hr with
  | byName ha line => exact (valueOf_global ha line).trans (hf _ _)
  | throughTable handle trace => exact hf handle trace

/-- Where a script can get from a heap with these assignments to global names, last first. In between it does whatever
else, as long as it leaves the metatable of the globals alone. -/
inductive Assigned (h₀ : Heap) : List (String × Val) → Heap → Prop
  | start : Assigned h₀ [] h₀
  | assign {made : List (String × Val)} {h h' : Heap} (hm : Assigned h₀ made h) {name : String} {v : Val}
    {store : Eval Unit} (hs : h.AssignsTo name v store) (hrun : store h = .done (.ok (), h')) :
    Assigned h₀ ((name, v) :: made) h'
  | other {made : List (String × Val)} {h h' : Heap} (hm : Assigned h₀ made h) (hs : h.Steps h') (hspared : h.Spares h')
    (hnone : h'.assigned = h.assigned) : Assigned h₀ made h'

/-- A name in the record of assignments is one that was assigned. -/
theorem Assigned.sound {h₀ : Heap} {made : List (String × Val)} (hm : h₀.Assigned made h) (hr : h₀.Recorded)
    (hb : h₀.Backed id t) (hnone : h₀.assigned = []) :
    h.Recorded ∧ h.Backed id t ∧ ∀ name, h.lastAssigned (.text name) = made.lookup name := by
  induction hm with
  | start =>
    refine ⟨hr, hb, fun name => ?_⟩
    rw [lastAssigned, hnone]
    rfl
  | @assign made h h' _ name v store hs hrun ih =>
    obtain ⟨hr, hb, hlast⟩ := ih
    obtain ⟨-, rfl⟩ := Prod.mk.inj (Program.done.inj (hrun.symm.trans (hs.run hb)))
    refine ⟨hr.step (.edit (.put ..)), hb.put _ _, fun name' => ?_⟩
    rw [lastAssigned, put_assigned, List.lookup_cons, List.lookup_cons]
    by_cases hname : name' = name
    · simp [hname]
    · have htext : Val.text name' ≠ .text name := fun heq => hname (Val.text_inj.1 heq)
      rw [beq_false_of_ne htext, beq_false_of_ne hname]
      exact hlast name'
  | other _ hs hspared hnone ih =>
    obtain ⟨hr, hb, hlast⟩ := ih
    refine ⟨hr.steps hs, hb.spared hs hspared, fun name => ?_⟩
    rw [lastAssigned, hnone]
    exact hlast name

end Heap

namespace Binding

variable {b₀ b b' : Binding}

/-- When the capture starts, the names bound so far are behind the globals. -/
theorem Captures.backed (hc : Captures b₀ b) (hr : b₀.heap.Rooted) :
    b.heap.Backed b₀.heap.tables.size { b₀.heap.globalTable with metatable := none } := by
  unfold Heap.Rooted at hr
  refine ⟨⟨b₀.heap.tables.size + 1, ?_, congrArg Table.metatable hc.cleared, hc.fallback⟩, hc.moved, rfl, ?_, ?_⟩
  · rw [hc.globals]
    omega
  · rw [hc.globals]
    omega
  · rw [hc.size]
    omega

end Binding

/-- After the capture has started, whatever a script does as long as it leaves the metatable of the globals alone, a
read of a global name, by the name or through the table of globals, gives what was assigned to it last, or what it was
bound to before if nothing was or the last assignment was `nil`. So it differs from a read in an ordinary table just
where `nil` was assigned to a name that was bound before. Every assignment takes effect. The same holds of what is found
after whole scripts have run and names have been bound in between. -/
theorem names_found_as_assigned {b₀ b : Binding} (hr : b₀.heap.Rooted) (hb : b₀.startCapture = .ok b) :
    (∀ made h, b.heap.Assigned made h → ∀ name,
      let bound := b₀.heap.globalTable.get (.text name)
      let ordinary := (made.lookup name).getD bound
      let found := if ordinary = .nil then bound else ordinary
      (∀ read, h.ReadsFrom name read → read h = .done (.ok found, h)) ∧
      (found = ordinary ↔ ¬(made.lookup name = some .nil ∧ bound ≠ .nil)) ∧
      ∀ v store, h.AssignsTo name v store →
        ∃ h', store h = .done (.ok (), h') ∧ b.heap.Assigned ((name, v) :: made) h') ∧
    ∀ b', b.Later b' → b.heap.Spares b'.heap → ∀ name,
      let bound := b₀.heap.globalTable.get (.text name)
      let ordinary := (b'.heap.lastAssigned (.text name)).getD bound
      b'.heap.Finds name (if ordinary = .nil then bound else ordinary) := by
  have hc := Binding.startCapture_captures hr hb
  have hrec := hc.recorded hr
  have hbacked := hc.backed hr
  refine ⟨fun made h hm name => ?_, fun b' hl hspared name => ?_⟩
  · obtain ⟨hrec', hbacked', hlast⟩ := hm.sound hrec hbacked hc.assigned
    have hfinds := hbacked'.finds_last hrec' name
    rw [hlast] at hfinds
    refine ⟨fun read hread => hread.run hfinds, ?_, fun v store hs => ?_⟩
    · cases made.lookup name with
      | none => simp
      | some v =>
        by_cases hv : v = .nil
        · simp [hv]
        · simp [hv]
    · exact ⟨_, hs.run hbacked', hm.assign hs (hs.run hbacked')⟩
  · obtain ⟨hs, -⟩ := hl.steps hrec.rooted
    exact (hbacked.spared hs hspared).finds_last (hrec.steps hs) name

/-- Of two names bound before, one is assigned a new value and one is cleared, so that its earlier value is found. -/
theorem cleared_name_found_as_bound :
    let b₀ := bound [] [("count", .integer 1), ("env", .string "test")]
    let b := (prepare [] [("count", .integer 1), ("env", .string "test")]).binding
    let b' := ((Prepared.execute "a" "env = 'prod' count = nil copy = env size = _G.count" ⟨[], b⟩).runIn
      (fun _ s => (.ok [], s)) {}).1.2.binding
    b₀.startCapture = .ok b ∧
      (∃ h, b.heap.Assigned [("count", .nil), ("env", .text "prod")] h ∧
        index (call []) [] (.table h.globals) (.text "env") h = .done (.ok (.text "prod"), h) ∧
        index (call []) [] (.table h.globals) (.text "count") h = .done (.ok (.int 1), h)) ∧
      b.Later b' ∧ b.heap.Spares b'.heap ∧
      b'.heap.lastAssigned (.text "copy") = some (.text "prod") ∧ b'.heap.Finds "env" (.text "prod") ∧
      b'.heap.lastAssigned (.text "size") = some (.int 1) ∧ b'.heap.Finds "count" (.int 1) := by
  intro b₀ b b'
  have hr := bound_rooted [] [("count", .integer 1), ("env", .string "test")]
  have hb := startCapture_bound [] [("count", .integer 1), ("env", .string "test")]
  have hbacked := (Binding.startCapture_captures hr hb).backed hr
  have hl : b.Later b' := .run (.refl b) [] "a" _ _ _
  have hspared : b.heap.Spares b'.heap := hbacked.spares (by decide +kernel) (by decide +kernel) (by decide +kernel)
  have hbound : b₀.heap.globalTable.get (.text "count") = .int 1 := by decide +kernel
  have hrun : b'.heap.lastAssigned (.text "env") = some (.text "prod") ∧
      b'.heap.lastAssigned (.text "count") = some .nil ∧ b'.heap.lastAssigned (.text "copy") = some (.text "prod") ∧
      b'.heap.lastAssigned (.text "size") = some (.int 1) := by
    decide +kernel
  obtain ⟨henv, hcount, hcopy, hsize⟩ := hrun
  obtain ⟨hassigned, hscripts⟩ := names_found_as_assigned hr hb
  refine ⟨hb, ?_, hl, hspared, hcopy, ?_, hsize, ?_⟩
  · -- Both assignments take effect one after the other.
    obtain ⟨-, -, hstore⟩ := hassigned [] b.heap .start "env"
    obtain ⟨h₁, -, hm₁⟩ := hstore (.text "prod") _ (.throughTable (call []) [])
    obtain ⟨-, -, hstore⟩ := hassigned _ h₁ hm₁ "count"
    obtain ⟨h₂, -, hm₂⟩ := hstore .nil _ (.throughTable (call []) [])
    refine ⟨h₂, hm₂, (hassigned _ h₂ hm₂ "env").1 _ (.throughTable (call []) []), ?_⟩
    have hread := (hassigned _ h₂ hm₂ "count").1 _ (.throughTable (call []) [])
    rw [hbound] at hread
    exact hread
  · have hfinds := hscripts b' hl hspared "env"
    rw [henv] at hfinds
    exact hfinds
  · have hfinds := hscripts b' hl hspared "count"
    rw [hcount, hbound] at hfinds
    exact hfinds

/-- A name that was bound before is cleared, and what is read then is its earlier value. -/
theorem nil_uncovers_earlier_binding :
    let b := (prepare [] [("x", .integer 1)]).binding
    let b' := ((Prepared.execute "a" "x = nil y = x" ⟨[], b⟩).runIn (fun _ s => (.ok [], s)) {}).1.2.binding
    b.Later b' ∧ b.heap.Spares b'.heap ∧ b'.heap.assigned = [(.text "y", .int 1), (.text "x", .nil)] ∧
      b'.heap.Finds "x" (.int 1) := by
  intro b b'
  have hr := bound_rooted [] [("x", .integer 1)]
  have hc := Binding.startCapture_captures hr (startCapture_bound [] [("x", .integer 1)])
  have hbacked := hc.backed hr
  have hl : b.Later b' := .run (.refl b) [] "a" _ _ _
  have hspared : b.heap.Spares b'.heap := hbacked.spares (by decide +kernel) (by decide +kernel) (by decide +kernel)
  have hmade : b'.heap.assigned = [(.text "y", .int 1), (.text "x", .nil)] := by decide +kernel
  have hbound : (bound [] [("x", .integer 1)]).heap.globalTable.get (.text "x") = .int 1 := by decide +kernel
  obtain ⟨hs, -⟩ := hl.steps (hc.recorded hr).rooted
  have hfinds := (hbacked.spared hs hspared).finds_last ((hc.recorded hr).steps hs) "x"
  have hcleared : b'.heap.lastAssigned (.text "x") = some .nil := by
    rw [Heap.lastAssigned, hmade]
    rfl
  rw [hcleared] at hfinds
  refine ⟨hl, hspared, hmade, ?_⟩
  exact hbound ▸ hfinds

end Fixtures.Script
