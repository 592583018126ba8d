import Fixtures.Proofs.Blocks
import Fixtures.Proofs.Conduct
import Fixtures.Proofs.Prebound
import Fixtures.Proofs.Unfolding
/-!
# What a script leaves behind

Starting the capture clears the table of global names and its record. From then
on the record grows with every assignment to a global name, whether a script
makes it or a variable is set, and with nothing else. So what is captured in
the end are the values last assigned, as far as they are data. Scripts are those
of the supported part of Lua (see `Fixtures.Script.Syntax`).
-/

namespace Fixtures.Script

open Reported

/-! ## Collecting variables -/

/-- What an entry adds to the variables, given what is read of the values: nothing unless its key is text and
it holds data. -/
def asVariable? (read : Val → Option Value) (row : Val × Val) : Option (String × Value) :=
  match row.1 with
  | .string bytes => (read row.2).map fun v => (Text.decode bytes, v)
  | _ => none

/-- Text is well-formed UTF-8. -/
def Val.utf8 : Val → Bool
  | .string bytes => Text.encode (Text.decode bytes) = bytes
  | _ => true

namespace Heap

variable {h : Heap}

/-- What there is to read of a value. -/
def data? (h : Heap) (v : Val) : Option Value := h.readout nestingLimit [] v

open Classical in
theorem quiet_addVariable (h : Heap) (row : Val × Val) (vars : Variables) :
    quiet (h.addVariable vars row) =
      within (∀ bytes, row.1 = .string bytes → ¬h.TooDeep nestingLimit [] row.2)
        (Dict.extend vars (asVariable? h.data? row).toList) := by
  have hread := quiet_read h nestingLimit [] row.2
  obtain ⟨k, v⟩ := row
  unfold addVariable asVariable?
  cases k with
  | string bytes =>
    have hkey : (∀ b, Val.string bytes = .string b → ¬h.TooDeep nestingLimit [] v) ↔ ¬h.TooDeep nestingLimit [] v :=
      ⟨fun hall => hall bytes rfl, fun hv _ _ => hv⟩
    simp only [quiet_bind, valueOf, hread]
    rw [within_congr hkey]
    unfold within data?
    split
    · cases h.readout nestingLimit [] v <;> rfl
    · rfl
  | _ =>
    refine (if_pos fun bytes hb => ?_).symm
    cases hb

open Classical in
/-- A table is collected unless some value it holds under text cannot be read. -/
theorem quiet_collect (h : Heap) (id : Nat) (vars : Variables) :
    quiet (h.collect id vars) =
      within (∀ row ∈ (h.table id).entries, ∀ bytes, row.1 = .string bytes → ¬h.TooDeep nestingLimit [] row.2)
        (Dict.extend vars ((h.table id).entries.filterMap (asVariable? h.data?))) := by
  unfold collect
  rw [quiet_foldlM, foldlM_within fun row _ vars => quiet_addVariable h row vars, Dict.foldl_extend]

/-- The value of something that is not nested too deep is what there is to read of it. -/
theorem result_valueOf {v : Val} (hv : ¬h.TooDeep nestingLimit [] v) : (h.valueOf v).result = .ok (h.data? v) := by
  classical
  exact (result_of_quiet (quiet_read h nestingLimit [] v)).trans (if_pos hv)

/-- Every text key of the global names is well-formed UTF-8. -/
def Readable (h : Heap) : Prop := ∀ bytes v, (Val.string bytes, v) ∈ h.assigned → ∃ name, bytes = Text.encode name

theorem readable_iff : h.Readable ↔ ∀ row ∈ h.assigned, row.1.utf8 := by
  constructor
  · rintro hn ⟨k, v⟩ hrow
    unfold Val.utf8
    match k with
    | .string bytes =>
      obtain ⟨name, rfl⟩ := hn bytes v hrow
      exact decide_eq_true (congrArg Text.encode (Text.decode_encode name))
    | .nil | .bool _ | .number _ | .table _ | .function _ | .builtin _ | .object _ | .thread _ => rfl
  · intro hall bytes v hrow
    exact ⟨_, (of_decide_eq_true (hall _ hrow)).symm⟩

instance : DecidablePred Readable := fun _ => decidable_of_iff _ readable_iff.symm

/-- Some global name was last assigned a value that is nested too deep to be read. -/
def AssignedTooDeep (h : Heap) : Prop :=
  ∃ name v, h.lastAssigned (.text name) = some v ∧ h.TooDeep nestingLimit [] v

theorem mem_assigned {k v : Val} (hv : h.lastAssigned k = some v) : (k, v) ∈ h.assigned := by
  obtain ⟨later, earlier, hassigned, -⟩ := List.lookup_eq_some_iff.1 hv
  rw [hassigned]
  exact List.mem_append_right _ List.mem_cons_self

theorem mem_variables {row : Val × Val} {name : String} {w : Value} :
    asVariable? h.data? row = some (name, w) ↔
      ∃ bytes, row.1 = .string bytes ∧ Text.decode bytes = name ∧ h.data? row.2 = some w := by
  obtain ⟨k, v⟩ := row
  unfold asVariable?
  match k with
  | .string bytes =>
    simp only [Option.map_eq_some_iff, Prod.mk.injEq, Val.string.injEq, exists_eq_left']
    exact ⟨fun ⟨u, hu, hname, hw⟩ => ⟨hname, hw ▸ hu⟩, fun ⟨hname, hw⟩ => ⟨w, hw, hname, rfl⟩⟩
  | .nil | .bool _ | .number _ | .table _ | .function _ | .builtin _ | .object _ | .thread _ =>
    exact ⟨nofun, fun ⟨_, hk, _⟩ => nomatch hk⟩

/-- What is collected under a name is the data a table holds there, if it holds nothing under another key that is read as
this name. -/
theorem get?_collected {t : Table} {name : String}
    (hkey : ∀ bytes v, (Val.string bytes, v) ∈ t.entries → Text.decode bytes = name → Val.string bytes = .text name)
    (w : Value) :
    Dict.get? (t.entries.filterMap (asVariable? h.data?)).reverse name = some w ↔
      t.get (.text name) ≠ .nil ∧ h.data? (t.get (.text name)) = some w := by
  have hheld (u : Value) (hp : (name, u) ∈ t.entries.filterMap (asVariable? h.data?)) :
      t.get (.text name) ≠ .nil ∧ h.data? (t.get (.text name)) = some u := by
    obtain ⟨⟨k, v⟩, hrow, hp⟩ := List.mem_filterMap.1 hp
    obtain ⟨bytes, hk, hname, hu⟩ := mem_variables.1 hp
    obtain rfl : k = .string bytes := hk
    rw [hkey bytes v hrow hname] at hrow
    rw [Table.get_of_mem hrow]
    exact ⟨of_decide_eq_true (List.mem_filter.1 hrow).2, hu⟩
  constructor
  · intro hget
    exact hheld w (List.mem_reverse.1 (Dict.mem_of_get? hget))
  · rintro ⟨hv, hw⟩
    have hmem : (name, w) ∈ t.entries.filterMap (asVariable? h.data?) :=
      List.mem_filterMap.2 ⟨(.text name, _), Table.mem_of_get rfl hv,
        mem_variables.2 ⟨Text.encode name, rfl, Text.decode_encode name, hw⟩⟩
    cases hget : Dict.get? (t.entries.filterMap (asVariable? h.data?)).reverse name with
    | none => exact absurd (List.mem_map_of_mem (List.mem_reverse.2 hmem)) (Dict.not_mem_keys hget)
    | some u => exact (hheld u (List.mem_reverse.1 (Dict.mem_of_get? hget))).2.symm.trans hw

namespace Recorded

variable (hr : h.Recorded)

include hr

/-- The entries of the global names are what was assigned last and is not `nil`. -/
theorem mem_entries {k v : Val} : (k, v) ∈ h.globalTable.entries ↔ h.lastAssigned k = some v ∧ v ≠ .nil := by
  constructor
  · intro hmem
    have hv : v ≠ .nil := of_decide_eq_true (List.mem_filter.1 hmem).2
    have hget := (Table.get_of_mem hmem).symm.trans (hr.holds k)
    cases hlast : h.lastAssigned k with
    | none =>
      rw [hlast] at hget
      exact absurd hget hv
    | some w =>
      rw [hlast] at hget
      exact ⟨congrArg some hget.symm, hv⟩
  · rintro ⟨hlast, hv⟩
    have hget := hr.holds k
    rw [hlast] at hget
    exact Table.mem_of_get hget hv

variable (hn : h.Readable)

include hn

theorem key_of_entry {bytes : Text.Bytes} {v : Val} (hmem : (Val.string bytes, v) ∈ h.globalTable.entries) :
    Val.string bytes = .text (Text.decode bytes) := by
  obtain ⟨name, rfl⟩ := hn bytes v (mem_assigned (hr.mem_entries.1 hmem).1)
  rw [Text.decode_encode]
  rfl

/-- What is collected under a name is the data that was assigned to it last. -/
theorem get?_variables (name : String) (w : Value) :
    Dict.get? (Dict.ofPairs (h.globalTable.entries.filterMap (asVariable? h.data?))) name = some w ↔
      ∃ v, h.lastAssigned (.text name) = some v ∧ v ≠ .nil ∧ h.data? v = some w := by
  have hkey (bytes : Text.Bytes) (v : Val) (hmem : (Val.string bytes, v) ∈ h.globalTable.entries)
      (hname : Text.decode bytes = name) : Val.string bytes = .text name :=
    hname ▸ hr.key_of_entry hn hmem
  rw [Dict.get?_ofPairs, get?_collected hkey, hr.holds]
  cases h.lastAssigned (.text name) with
  | none => simp
  | some v => simp

omit hn in
/-- Collecting fails if some global name was last assigned a value that is nested too deep. -/
theorem collect_error (ht : h.AssignedTooDeep) :
    (h.collect h.globals []).result = .error (.nestedTooDeep nestingLimit) := by
  classical
  obtain ⟨name, v, hlast, hdeep⟩ := ht
  refine (result_of_quiet (h.quiet_collect h.globals [])).trans (if_neg fun hall => ?_)
  have hv : v ≠ .nil := by
    rintro rfl
    obtain ⟨_, _, hid, _⟩ := hdeep
    cases hid
  exact hall (.text name, v) (hr.mem_entries.2 ⟨hlast, hv⟩) _ rfl hdeep

/-- Otherwise it gives the data last assigned, name by name. -/
theorem collect_ok (ht : ¬h.AssignedTooDeep) :
    ∃ vars, (h.collect h.globals []).result = .ok vars ∧ ∀ name w, vars.get? name = some w ↔
      ∃ v, h.lastAssigned (.text name) = some v ∧ v ≠ .nil ∧ (h.valueOf v).result = .ok (some w) := by
  classical
  have hall : ∀ row ∈ (h.table h.globals).entries, ∀ bytes, row.1 = .string bytes →
      ¬h.TooDeep nestingLimit [] row.2 := by
    rintro ⟨k, v⟩ hrow bytes rfl hdeep
    rw [hr.key_of_entry hn hrow] at hrow
    exact ht ⟨_, v, (hr.mem_entries.1 hrow).1, hdeep⟩
  refine ⟨_, (result_of_quiet (h.quiet_collect h.globals [])).trans (if_pos hall), fun name w => ?_⟩
  refine (hr.get?_variables hn name w).trans (exists_congr fun v => and_congr_right fun hlast => ?_)
  rw [result_valueOf fun hdeep => ht ⟨name, v, hlast, hdeep⟩, Except.ok.injEq]

end Recorded

end Heap

/-! ## After the capture -/

namespace Binding

/-- What is captured is in the order of its names. -/
theorem captured_ascending {b : Binding} {vars : Variables} (h : b.captured.result = .ok vars) : vars.Ascending := by
  classical
  unfold captured at h
  split at h
  · cases h
  · rw [result_of_quiet (b.heap.quiet_collect b.heap.globals [])] at h
    split at h
    · obtain rfl := Except.ok.inj h
      exact Dict.ascending_ofPairs _
    · cases h

/-- What becomes of a binding as names are bound and scripts run on it. -/
inductive Later : Binding → Binding → Prop
  | refl (b : Binding) : Later b b
  | bind {b b' : Binding} (hb : Later b b') (name : String) (v : Val) : Later b (b'.bind name v)
  | set {b b' : Binding} (hb : Later b b') (name : String) (v : Value) : Later b (b'.set name v)
  | run {b b' : Binding} (hb : Later b b') (types : Catalog) (name text : String)
    (load : List ScriptRef → Session → Except Failure Variables × Session) (s : Session) :
    Later b ((Prepared.execute name text ⟨types, b'⟩).runIn load s).1.2.binding

variable {b b' : Binding}

theorem execute_steps (types : Catalog) (b : Binding) (hr : b.heap.Rooted) (name text : String)
    (load : List ScriptRef → Session → Except Failure Variables × Session) (s : Session) :
    b.heap.Steps ((Prepared.execute name text ⟨types, b⟩).runIn load s).1.2.binding.heap ∧
      ((Prepared.execute name text ⟨types, b⟩).runIn load s).1.2.binding.before = b.before := by
  have hends : (Prepared.execute name text ⟨types, b⟩).Ends fun _ (_, p) =>
      b.heap.Steps p.binding.heap ∧ p.binding.before = b.before :=
    Program.Ends.bind (evaluate_ends types name text hr) fun _ (_, _) hs => ⟨hs, rfl⟩
  exact hends.runIn load s

/-- As long as names are bound and scripts run, nothing but steps is done to the heap. -/
theorem Later.steps (hl : b.Later b') (hr : b.heap.Rooted) :
    b.heap.Steps b'.heap ∧ b'.before = b.before := by
  induction hl with
  | refl => exact ⟨.refl, rfl⟩
  | @bind b' _ name v ih => exact ⟨ih.1.trans (b'.bind_binds name v).steps, ih.2⟩
  | @set b' _ name v ih => exact ⟨ih.1.trans (b'.set_binds name v).steps, ih.2⟩
  | @run b' _ types name text load s ih =>
    obtain ⟨hs, hbefore⟩ := b'.execute_steps types (ih.1.rooted hr) name text load s
    exact ⟨ih.1.trans hs, hbefore.trans ih.2⟩

namespace Captures

variable {b₀ : Binding} (hc : Captures b₀ b)

include hc

/-- When the capture starts there are no global names, and none is recorded. -/
theorem recorded (hr : b₀.heap.Rooted) : b.heap.Recorded := by
  refine ⟨?_, fun k => ?_⟩
  · unfold Heap.Rooted at hr ⊢
    rw [hc.globals, hc.size]
    omega
  · rw [hc.cleared, Heap.lastAssigned, hc.assigned]
    rfl

end Captures

end Binding

/-! ## What is recorded -/

namespace Heap

variable {h : Heap} {call handle : Caller} {trace : Trace}

theorem put_assigned (h : Heap) (k v : Val) : (h.put h.globals k v).assigned = (k, v) :: h.assigned := if_pos rfl

/-- An assignment to a global name is stored and recorded, unless there is a handler for new names. -/
theorem setIndex_global (hh : h.handler (.table h.globals) "__newindex" = .nil) (name : String) (v : Val) :
    setIndex call trace (.table h.globals) (.text name) v h = .done (.ok (), h.put h.globals (.text name) v) := by
  have hset : rawSet trace h.globals (.text name) v h = .done (.ok (), h.put h.globals (.text name) v) := rfl
  rw [setIndex, handlerLimit, setIndexWithin, look_bind]
  cases h.rawGet h.globals (.text name) with
  | nil =>
    dsimp only
    rw [look_bind, hh]
    exact hset
  | _ => exact hset

theorem rawset_global (name : String) (v : Val) (callers : Trace) :
    Library.rawset ⟨call, "rawset", [.table h.globals, .text name, v], callers⟩ h =
      .done (.ok [.table h.globals], h.put h.globals (.text name) v) :=
  rfl

/-- In a function no variable has this name, so that it stands for a global name. -/
def IsGlobal (h : Heap) (a : Activation) (name : String) : Prop :=
  a.scope.lookup name = none ∧ ∃ id, a.scope.lookup "_ENV" = some id ∧ h.cell id = .table h.globals

/-- What is done with the environment there is done with the table of global names. -/
theorem environment_bind {α : Type} {a : Activation} {name : String} (ha : h.IsGlobal a name) (f : Val → Eval α) :
    (a.environment >>= f) h = f (.table h.globals) h := by
  obtain ⟨-, id, henv, hcell⟩ := ha
  rw [Activation.environment, henv, ← hcell]
  rfl

/-- An assignment to such a name is one to a global name. -/
theorem store_global {a : Activation} {name : String} (ha : h.IsGlobal a name) (line : Nat) (v : Val) :
    (slotOf call handle a (.name name) >>= Slot.store handle a line v) h =
      setIndex handle (a.calling line) (.table h.globals) (.text name) v h := by
  have hslot : slotOf call handle a (.name name) h = .done (.ok (.entry (.table h.globals) (.text name)), h) := by
    rw [slotOf, ha.1]
    exact environment_bind ha _
  show (slotOf call handle a (.name name) h).bind _ = _
  rw [hslot]
  rfl

/-- What such a name stands for is what is found under it. -/
theorem valueOf_global {a : Activation} {name : String} (ha : h.IsGlobal a name) (line : Nat) :
    a.valueOf handle name line h = index handle (a.calling line) (.table h.globals) (.text name) h := by
  rw [Activation.valueOf, ha.1]
  exact environment_bind ha _

end Heap

/-- Once the capture has started, whatever is bound and whichever scripts run, what is captured are the names whose last
assignment gave them data other than `nil`, each with the value that data has in the end; only data that is nested too
deep makes it fail. The record of assignments is empty when the capture starts and only grows. An assignment by name, or
through the table of globals, is stored and recorded as long as there is no handler for new names; so is `rawset`, and a
variable that is set. Nothing is recorded when a name is read, though names bound before the capture are found, nor when
something is stored in another table. -/
theorem captured_as_last_assigned {b₀ b b' : Binding} (hr : b₀.heap.Rooted) (hb : b₀.startCapture = .ok b)
    (hl : b.Later b') (hn : b'.heap.Readable) :
    ((∃ f, b'.captured.result = .error f ∧ f.kind = .usage) ↔ b'.heap.AssignedTooDeep) ∧
    (¬b'.heap.AssignedTooDeep → ∃ vars, b'.captured.result = .ok vars ∧ ∀ name w, vars.get? name = some w ↔
      ∃ v, b'.heap.lastAssigned (.text name) = some v ∧ v ≠ .nil ∧ (b'.heap.valueOf v).result = .ok (some w)) ∧
    b.heap.assigned = [] ∧ (∀ b₁, b'.Later b₁ → b'.heap.assigned <:+ b₁.heap.assigned) ∧
    b.heap.handler (.table b.heap.globals) "__newindex" = .nil ∧
    (∃ id, b.heap.handler (.table b.heap.globals) "__index" = .table id ∧ (b.heap.table id).metatable = none ∧
      ∀ k, (b.heap.table id).get k = b₀.heap.globalTable.get k) ∧
    ∀ (h : Heap) (call handle : Caller) (trace : Trace) (a : Activation) (line : Nat) (name : String) (v : Val),
      let stored := h.put h.globals (.text name) v
      stored.assigned = (.text name, v) :: h.assigned ∧
      (h.handler (.table h.globals) "__newindex" = .nil →
        setIndex handle trace (.table h.globals) (.text name) v h = .done (.ok (), stored) ∧
        (h.IsGlobal a name →
          (slotOf call handle a (.name name) >>= Slot.store handle a line v) h = .done (.ok (), stored))) ∧
      Library.rawset ⟨call, "rawset", [.table h.globals, .text name, v], trace⟩ h =
        .done (.ok [.table h.globals], stored) ∧
      (∀ w before, (Binding.set ⟨h, before⟩ name w).heap.assigned = (.text name, (h.receive w).1) :: h.assigned) ∧
      (∀ id k, id ≠ h.globals → (h.put id k v).assigned = h.assigned) ∧
      ∀ id, h.handler (.table h.globals) "__index" = .table id → (h.table id).metatable = none → ∃ x,
        index handle trace (.table h.globals) (.text name) h = .done (.ok x, h) ∧
        (h.IsGlobal a name → a.valueOf handle name line h = .done (.ok x, h)) := by
  have hcaptures := Binding.startCapture_captures hr hb
  have hrecorded := hcaptures.recorded hr
  obtain ⟨hs, hbefore⟩ := hl.steps hrecorded.rooted
  -- From here on the heap in the end is all that matters: it has a record, and is captured as it is.
  have hend := hrecorded.steps hs
  have hcaptured : b'.captured = b'.heap.collect b'.heap.globals [] := by
    rw [Binding.captured, hbefore, hcaptures.before]
  have hmoved : (b.heap.table b₀.heap.tables.size).metatable = none ∧
      ∀ k, (b.heap.table b₀.heap.tables.size).get k = b₀.heap.globalTable.get k := by
    rw [hcaptures.moved]
    exact ⟨rfl, fun _ => rfl⟩
  rw [hcaptured]
  refine ⟨⟨?_, fun ht => ⟨_, hend.collect_error ht, rfl⟩⟩, hend.collect_ok hn, hcaptures.assigned,
    fun b₁ hl₁ => Heap.Steps.assigned (hl₁.steps hend.rooted).1, hcaptures.handler "__newindex",
    ⟨_, hcaptures.handler "__index", hmoved⟩, fun h call handle trace a line name v => ?_⟩
  · rintro ⟨f, hf, -⟩
    by_contra ht
    obtain ⟨vars, hvars, -⟩ := hend.collect_ok hn ht
    cases hf.symm.trans hvars
  · refine ⟨h.put_assigned _ v, fun hh => ⟨Heap.setIndex_global hh name v, fun ha => ?_⟩,
      Heap.rawset_global name v trace, fun w before => ?_, fun id k hid => if_neg hid,
      fun id hh hid => ⟨_, Heap.index_global hh hid name, fun ha => ?_⟩⟩
    · rw [Heap.store_global ha, Heap.setIndex_global hh]
    · show ((h.receive w).2.put (h.receive w).2.globals (.text name) (h.receive w).1).assigned = _
      rw [Heap.put_assigned, (h.receive_builds w).assigned]
    · rw [Heap.valueOf_global ha, Heap.index_global hh hid]

/-- Of the names bound before a script, one is assigned the value it has, one is cleared and one is only read. -/
theorem assigned_names_captured :
    let b := (prepare [] [("count", .integer 1), ("env", .string "test"), ("size", .integer 2)]).binding
    let b' := ((Prepared.execute "a" "env = env count = nil twice = size * 2 function helper() end" ⟨[], b⟩).runIn
      (fun _ s => (.ok [], s)) {}).1.2.binding
    b.Later b' ∧ b'.heap.Readable ∧ ∃ vars, b'.captured.result = .ok vars ∧
      vars.get? "env" = some (.string "test") ∧ vars.get? "twice" = some (.integer 4) ∧
      vars.get? "count" = none ∧ vars.get? "size" = none ∧ vars.get? "helper" = none := by
  intro b b'
  have hl : b.Later b' := .run (.refl b) [] "a" _ _ _
  have hrun : b'.heap.Readable ∧ b'.captured.result.toBool ∧
      b'.heap.lastAssigned (.text "env") = some (.text "test") ∧ b'.heap.lastAssigned (.text "twice") = some (.int 4) ∧
      b'.heap.lastAssigned (.text "count") = some .nil ∧ b'.heap.lastAssigned (.text "size") = none ∧
      b'.heap.lastAssigned (.text "helper") = some (.function 1) := by
    decide +kernel
  obtain ⟨hn, hok, henv, htwice, hcount, hsize, hhelper⟩ := hrun
  obtain ⟨hfails, hvars, -⟩ := captured_as_last_assigned (bound_rooted [] _) (startCapture_bound [] _) hl hn
  have ht : ¬b'.heap.AssignedTooDeep := by
    intro ht
    obtain ⟨f, hf, -⟩ := hfails.2 ht
    rw [hf] at hok
    cases hok
  obtain ⟨vars, hcaptured, hget⟩ := hvars ht
  refine ⟨hl, hn, vars, hcaptured, (hget ..).2 ⟨_, henv, nofun, rfl⟩, (hget ..).2 ⟨_, htwice, nofun, rfl⟩,
      ?_, ?_, ?_⟩ <;>
    refine Option.eq_none_iff_forall_ne_some.2 fun w hw => ?_ <;>
    obtain ⟨v, hlast, hv, hdata⟩ := (hget ..).1 hw
  · exact hv (Option.some.inj (hlast.symm.trans hcount))
  · cases hlast.symm.trans hsize
  · obtain rfl := Option.some.inj (hlast.symm.trans hhelper)
    cases hdata

end Fixtures.Script
