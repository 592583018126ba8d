import Fixtures.Proofs.Dict
import Fixtures.Proofs.HeapSteps
import Fixtures.Script.Engine
/-!
# Names in sight when a script starts

A script finds its variables under their names, each as it was built for it, and
under any other name what a script without variables finds
(`prepare_finds`): a verb, an entity type, a part of the standard library, or
nothing.
-/

namespace Fixtures.Script

theorem Val.text_inj {a b : String} : Val.text a = .text b ↔ a = b := by
  refine ⟨fun hab => ?_, congrArg Val.text⟩
  rw [← Text.decode_encode a, Val.string.inj hab, Text.decode_encode]

/-! ## Reading global names -/

namespace Heap

variable {h h' h'' : Heap} {call : Caller} {trace : Trace}

theorem look_bind {α β : Type} (f : Heap → α) (g : α → Eval β) (h : Heap) :
    (Eval.look f >>= g) h = g (f h) h :=
  rfl

/-- Reading a table without a metatable finds what it holds. -/
theorem indexWithin_plain {id : Nat} (hid : (h.table id).metatable = none) (steps : Nat) (name : String) :
    indexWithin call trace (steps + 1) (.table id) (.text name) h = .done (.ok ((h.table id).get (.text name)), h) := by
  have hraw : h.rawGet id (.text name) = (h.table id).get (.text name) := rfl
  have hhandler : h.handler (.table id) "__index" = .nil := by
    rw [handler, metatable?, hid]
  rw [indexWithin, look_bind, hraw]
  cases hget : (h.table id).get (.text name) with
  | nil =>
    dsimp only
    rw [look_bind, hhandler]
    rfl
  | _ => rfl

/-- Reading a global name finds what it holds, or else what the table behind the globals holds, and changes nothing. -/
theorem index_global {id : Nat} (hh : h.handler (.table h.globals) "__index" = .table id)
    (hid : (h.table id).metatable = none) (name : String) :
    index call trace (.table h.globals) (.text name) h =
      .done (.ok (if h.globalTable.get (.text name) = .nil then (h.table id).get (.text name)
        else h.globalTable.get (.text name)), h) := by
  have hraw : h.rawGet h.globals (.text name) = h.globalTable.get (.text name) := rfl
  rw [index, handlerLimit, indexWithin, look_bind, hraw]
  cases hget : h.globalTable.get (.text name) with
  | nil =>
    dsimp only
    rw [look_bind, hh, if_pos rfl]
    exact indexWithin_plain hid _ name
  | _ => rfl

/-- What a table answers to an event if its metatable only says where to look names up. -/
theorem handler_fallback {id m : Nat} {v : Val} (hmeta : (h.table id).metatable = some m)
    (hm : h.table m = .ofEntries [(.text "__index", v)]) (event : String) :
    h.handler (.table id) event = if event = "__index" then v else .nil := by
  have hfound : h.metatable? (.table id) = some m := hmeta
  rw [handler, hfound]
  dsimp only
  rw [hm, Table.ofEntries, Table.setAll, List.foldl_cons, List.foldl_nil, Table.get_set]
  exact if_congr Val.text_inj rfl rfl

/-- Under a name a script that runs on the heap finds a value. -/
def Finds (h : Heap) (name : String) (x : Val) : Prop :=
  ∀ call trace, index call trace (.table h.globals) (.text name) h = .done (.ok x, h)

/-! ## Values that were built and kept -/

/-- All but the global names stays what it is. -/
structure Keeps (h h' : Heap) : Prop where
  globals : h'.globals = h.globals
  tables : ∀ (id : Nat) (t : Table), id ≠ h.globals → h.tables[id]? = some t → h'.tables[id]? = some t
  objects : ∀ (id : Nat) (o : Object), h.objects[id]? = some o → h'.objects[id]? = some o

theorem Keeps.refl (h : Heap) : h.Keeps h := ⟨rfl, fun _ _ _ ht => ht, fun _ _ ho => ho⟩

theorem Keeps.trans (hk : h.Keeps h') (hk' : h'.Keeps h'') : h.Keeps h'' where
  globals := hk'.globals.trans hk.globals
  tables id t hid ht := hk'.tables id t (hk.globals ▸ hid) (hk.tables id t hid ht)
  objects id o ho := hk'.objects id o (hk.objects id o ho)

theorem Builds.keeps (hs : h.Builds h') : h.Keeps h' :=
  ⟨Steps.globals hs.steps, fun id t _ ht => hs.grows.tables id t ht, hs.grows.objects⟩

theorem put_keeps (h : Heap) (k v : Val) : h.Keeps (h.put h.globals k v) :=
  ⟨rfl, fun _ _ hid ht => (Array.getElem?_setIfInBounds_ne hid.symm).trans ht, fun _ _ ho => ho⟩

/-- A script value was built for a value, and all that was built for it is still there. -/
structure Bears (h : Heap) (x : Val) (v : Value) : Prop where
  built : ∃ h₀ : Heap, h.globals < h₀.tables.size ∧ x = (h₀.receive v).1 ∧
    (∀ (id : Nat) (t : Table), h₀.tables.size ≤ id → (h₀.receive v).2.tables[id]? = some t → h.tables[id]? = some t) ∧
    ∀ (id : Nat) (o : Object), h₀.objects.size ≤ id → (h₀.receive v).2.objects[id]? = some o → h.objects[id]? = some o

theorem receive_bears (hr : h.Rooted) (v : Value) : (h.receive v).2.Bears (h.receive v).1 v := by
  refine ⟨h, ?_, rfl, fun _ _ _ ht => ht, fun _ _ _ ho => ho⟩
  rw [Steps.globals (h.receive_builds v).steps]
  exact hr

theorem Bears.keeps {x : Val} {v : Value} (hb : h.Bears x v) (hk : h.Keeps h') : h'.Bears x v := by
  obtain ⟨h₀, hg, hx, htables, hobjects⟩ := hb
  refine ⟨h₀, hk.globals ▸ hg, hx, fun id t hid ht => ?_, fun id o hid ho => hk.objects id o (hobjects id o hid ho)⟩
  exact hk.tables id t (Nat.ne_of_gt (Nat.lt_of_lt_of_le hg hid)) (htables id t hid ht)

end Heap

/-! ## Binding names -/

namespace Binding

variable {b b' b'' : Binding}

/-- Only these names are bound anew. -/
structure Binds (names : List String) (b b' : Binding) : Prop where
  steps : b.heap.Steps b'.heap
  before : b'.before = b.before
  finalizable : b'.heap.finalizable = b.heap.finalizable
  others : b.heap.Rooted → ∀ k ∉ names, b'.heap.globalTable.get (.text k) = b.heap.globalTable.get (.text k)

variable {names names' : List String}

theorem Binds.trans (hb : Binds names b b') (hb' : Binds names' b' b'') : Binds (names ++ names') b b'' where
  steps := Relation.ReflTransGen.trans hb.steps hb'.steps
  before := hb'.before.trans hb.before
  finalizable := hb'.finalizable.trans hb.finalizable
  others hr k hk := by
    rw [List.mem_append, not_or] at hk
    exact (hb'.others (hb.steps.rooted hr) k hk.2).trans (hb.others hr k hk.1)

theorem bind_get (b : Binding) (hr : b.heap.Rooted) (name : String) (v : Val) (k : String) :
    (b.bind name v).heap.globalTable.get (.text k) =
      if k = name then v else b.heap.globalTable.get (.text k) := by
  show ((b.heap.setTable b.heap.globals (b.heap.globalTable.set (.text name) v)).table b.heap.globals).get (.text k) = _
  rw [Heap.table_setTable, if_pos ⟨rfl, hr⟩, Table.get_set]
  exact if_congr Val.text_inj rfl rfl

theorem bind_binds (b : Binding) (name : String) (v : Val) : Binds [name] b (b.bind name v) where
  steps := .single (.edit (.put ..))
  before := rfl
  finalizable := rfl
  others hr k hk := by
    rw [bind_get b hr]
    exact if_neg fun hname => hk (List.mem_singleton.2 hname)

/-- Building values binds no names. -/
theorem builds_binds {h' : Heap} (hs : b.heap.Builds h') : Binds [] b { b with heap := h' } where
  steps := hs.steps
  before := rfl
  finalizable := hs.finalizable
  others hr k _ := congrArg (Table.get · (.text k)) (hs.globalTable hr)

theorem setMetatable_binds (b : Binding) (id : Nat) (m : Option Nat) :
    Binds [] b { b with heap := b.heap.setTable id { b.heap.table id with metatable := m } } where
  steps := .single (.edit (.setMetatable ..))
  before := rfl
  finalizable := rfl
  others hr k _ := by
    show ((b.heap.setTable id { b.heap.table id with metatable := m }).table b.heap.globals).get _ = _
    rw [Heap.table_setTable]
    split
    · rename_i hid
      obtain ⟨rfl, -⟩ := hid
      rfl
    · rfl

end Binding

theorem sequences_builds (h : Heap) : h.Builds h.sequences.2 := by
  unfold Heap.sequences
  split
  · exact .refl h
  · exact .addTable (.refl h) _

theorem bindTypes_binds (ts : List EntityType) (b : Binding) :
    Binding.Binds (ts.map EntityType.name) b (ts.foldl Binding.bindType b) := by
  induction ts generalizing b with
  | nil => exact ⟨.refl, rfl, rfl, fun _ _ _ => rfl⟩
  | cons t ts ih =>
    have hobject := b.builds_binds ((Heap.Builds.refl b.heap).newObject (.entityType t))
    exact (hobject.trans (Binding.bind_binds _ t.name _)).trans (ih _)

/-- The entity types and the verbs are bound, and nothing else. -/
theorem install_binds (types : Catalog) (b : Binding) :
    Binding.Binds (types.values.map EntityType.name ++ ["table", "row", "find", "load"]) b (install types b) := by
  refine (bindTypes_binds types.values b).trans ?_
  have htables := Binding.builds_binds ((sequences_builds (types.values.foldl Binding.bindType b).heap).addTable
    (.ofEntries [(.text "__call", .builtin .openTable)]))
  show Binding.Binds (((([] ++ []) ++ ["table"]) ++ ["row"]) ++ ["find"] ++ ["load"]) _ _
  exact ((((htables.trans (Binding.setMetatable_binds _ _ _)).trans (Binding.bind_binds _ "table" _)).trans
    (Binding.bind_binds _ "row" _)).trans (Binding.bind_binds _ "find" _)).trans (Binding.bind_binds _ "load" _)

/-! ## Variables -/

namespace Binding

theorem set_keeps (b : Binding) (name : String) (v : Value) : b.heap.Keeps (b.set name v).heap :=
  (b.heap.receive_builds v).keeps.trans (Heap.put_keeps ..)

theorem setAll_keeps (b : Binding) (vars : Variables) : b.heap.Keeps (b.setAll vars).heap := by
  induction vars generalizing b with
  | nil => exact .refl _
  | cons p rest ih => exact (b.set_keeps p.1 p.2).trans (ih _)

theorem set_binds (b : Binding) (name : String) (v : Value) : Binds [name] b (b.set name v) :=
  (b.builds_binds (b.heap.receive_builds v)).trans (bind_binds _ name _)

theorem setAll_binds (b : Binding) (vars : Variables) : Binds vars.keys b (b.setAll vars) := by
  induction vars generalizing b with
  | nil => exact ⟨.refl, rfl, rfl, fun _ _ _ => rfl⟩
  | cons p rest ih => exact (b.set_binds p.1 p.2).trans (ih _)

/-- A variable that is set is bound to what is built for it. -/
theorem set_bears (b : Binding) (hr : b.heap.Rooted) (name : String) (v : Value) :
    (b.set name v).heap.Bears ((b.set name v).heap.globalTable.get (.text name)) v := by
  have hr' := Heap.Steps.rooted (b.heap.receive_builds v).steps hr
  have hget := bind_get { b with heap := (b.heap.receive v).2 } hr' name (b.heap.receive v).1 name
  rw [if_pos rfl] at hget
  have hbears := (Heap.receive_bears hr v).keeps (Heap.put_keeps (b.heap.receive v).2 (.text name) (b.heap.receive v).1)
  show (b.set name v).heap.Bears ((Binding.bind ⟨(b.heap.receive v).2, b.before⟩ name _).heap.globalTable.get _) v
  rw [hget]
  exact hbears

/-- Variables with different names are all bound to what is built for them. -/
theorem setAll_bears {vars : Variables} (hd : vars.Distinct) (b : Binding) (hr : b.heap.Rooted) {k : String} {v : Value}
    (hk : vars.get? k = some v) : (b.setAll vars).heap.Bears ((b.setAll vars).heap.globalTable.get (.text k)) v := by
  induction vars generalizing b with
  | nil => cases hk
  | cons p rest ih =>
    obtain ⟨name, w⟩ := p
    have hr' := (b.set_binds name w).steps.rooted hr
    simp only [Dict.get?] at hk
    split at hk
    · rename_i hname
      obtain rfl := Option.some.inj hk
      obtain rfl := Std.LawfulEqOrd.eq_of_compare hname
      -- No later variable has this name, so what it is bound to stays.
      have hlater : k ∉ Dict.keys rest := Dict.not_mem_keys (hd.get?_tail hname)
      have hget := ((b.set k w).setAll_binds rest).others hr' k hlater
      have hbears := (b.set_bears hr k w).keeps ((b.set k w).setAll_keeps rest)
      rw [← hget] at hbears
      exact hbears
    · exact ih (List.pairwise_cons.1 hd).2 (b.set name w) hr' hk

/-- What the start of a capture does: the names bound so far are in a table of their own, behind the globals. -/
structure Captures (b₀ b : Binding) : Prop where
  before : b.before = some b₀.heap.tables.size
  globals : b.heap.globals = b₀.heap.globals
  size : b.heap.tables.size = b₀.heap.tables.size + 2
  cleared : b.heap.globalTable = { Table.empty with metatable := some (b₀.heap.tables.size + 1) }
  moved : b.heap.table b₀.heap.tables.size = { b₀.heap.globalTable with metatable := none }
  fallback : b.heap.table (b₀.heap.tables.size + 1) =
    .ofEntries [(.text "__index", .table b₀.heap.tables.size)]
  others : ∀ id < b₀.heap.tables.size, id ≠ b₀.heap.globals → b.heap.tables[id]? = b₀.heap.tables[id]?
  objects : b.heap.objects = b₀.heap.objects
  assigned : b.heap.assigned = []

theorem getElem?_pushed {α : Type} (xs : Array α) (a b c : α) {i : Nat} (hi : i < xs.size) (j : Nat) :
    (((xs.push a).push b).setIfInBounds i c)[j]? =
      if j = i then some c else if j = xs.size + 1 then some b else if j = xs.size then some a else xs[j]? := by
  rw [Array.getElem?_setIfInBounds, Array.getElem?_push, Array.getElem?_push, Array.size_push, Array.size_push]
  by_cases hj : j = i
  · subst hj
    rw [if_pos rfl, if_pos rfl, if_pos (by omega)]
  · rw [if_neg (Ne.symm hj), if_neg hj]

theorem startCapture_captures {b₀ : Binding} (hr : b₀.heap.Rooted) (hb : b₀.startCapture = .ok b) :
    Captures b₀ b := by
  unfold startCapture at hb
  split at hb
  · cases hb
  · have hb := Except.ok.inj hb
    have hg : b₀.heap.globals < b₀.heap.tables.size := hr
    let moved : Table := { b₀.heap.globalTable with metatable := none }
    let fallback : Table := .ofEntries [(.text "__index", .table b₀.heap.tables.size)]
    let cleared : Table := { Table.empty with metatable := some (b₀.heap.tables.size + 1) }
    have hglobals : b.heap.globals = b₀.heap.globals := by rw [← hb]; rfl
    have htables : b.heap.tables =
        ((b₀.heap.tables.push moved).push fallback).setIfInBounds b₀.heap.globals cleared := by
      rw [← hb]
      rfl
    have hget (id : Nat) := getElem?_pushed b₀.heap.tables moved fallback cleared hg id
    refine ⟨by rw [← hb], hglobals, ?_, ?_, ?_, ?_, fun id hid hne => ?_, by rw [← hb]; rfl, by rw [← hb]⟩
    · rw [htables, Array.size_setIfInBounds, Array.size_push, Array.size_push]
    · rw [Heap.globalTable, hglobals, Heap.table, htables, hget, if_pos rfl]
      rfl
    · rw [Heap.table, htables, hget, if_neg (by omega), if_neg (by omega), if_pos rfl]
      rfl
    · rw [Heap.table, htables, hget, if_neg (by omega), if_pos rfl]
      rfl
    · rw [htables, hget, if_neg hne, if_neg (by omega), if_neg (by omega)]

namespace Captures

variable {b₀ b : Binding} (hc : Captures b₀ b)

include hc

/-- What the metatable of the globals says about an event. -/
theorem handler (event : String) :
    b.heap.handler (.table b.heap.globals) event =
      if event = "__index" then .table b₀.heap.tables.size else .nil :=
  Heap.handler_fallback (congrArg Table.metatable hc.cleared) hc.fallback event

theorem keeps : b₀.heap.Keeps b.heap where
  globals := hc.globals
  tables _ _ hid ht := (hc.others _ (Array.getElem?_eq_some_iff.1 ht).1 hid).trans ht
  objects _ _ ho := hc.objects ▸ ho

/-- A script finds what was bound before the capture. -/
theorem finds (name : String) : b.heap.Finds name (b₀.heap.globalTable.get (.text name)) := by
  intro call trace
  have hfound := @Heap.index_global b.heap call trace _ (hc.handler "__index") (congrArg Table.metatable hc.moved) name
  rw [hc.cleared, hc.moved] at hfound
  exact hfound

end Captures

end Binding

/-! ## What a script starts from -/

theorem fresh_rooted : Heap.fresh.Rooted := by
  unfold Heap.Rooted
  decide +kernel

/-- What is bound before a script starts. -/
def bound (types : Catalog) (vars : Variables) : Binding := (install types {}).setAll vars

theorem bound_rooted (types : Catalog) (vars : Variables) : (bound types vars).heap.Rooted :=
  ((install_binds types {}).trans ((install types {}).setAll_binds vars)).steps.rooted fresh_rooted

/-- The capture has started when a script starts. -/
theorem startCapture_bound (types : Catalog) (vars : Variables) :
    (bound types vars).startCapture = .ok (prepare types vars).binding := by
  have hbefore : (bound types vars).before = none :=
    ((install_binds types {}).trans ((install types {}).setAll_binds vars)).before
  have hprepared : (prepare types vars).binding =
      (bound types vars).startCapture.toOption.getD (bound types vars) := rfl
  rw [hprepared, Binding.startCapture, hbefore]
  rfl

/-- No finalizer is set when a script starts. -/
theorem prepare_finalizable (types : Catalog) (vars : Variables) :
    (prepare types vars).binding.heap.finalizable = [] := by
  have hbound : (bound types vars).heap.finalizable = [] :=
    ((install_binds types {}).trans ((install types {}).setAll_binds vars)).finalizable
  have hstart := startCapture_bound types vars
  unfold Binding.startCapture at hstart
  split at hstart
  · cases hstart
  · rw [← Except.ok.inj hstart]
    exact hbound

/-- A script finds its variables, each as it was built, and under any other name what it finds without variables:
nothing if that is no verb, no entity type and no standard global. -/
theorem prepare_finds (types : Catalog) {vars : Variables} (hd : vars.Distinct) (k : String) :
    let h := (prepare types vars).binding.heap
    (∀ v, vars.get? k = some v → ∃ x, h.Finds k x ∧ h.Bears x v) ∧
    (vars.get? k = none → ∃ x, h.Finds k x ∧ (prepare types []).binding.heap.Finds k x ∧
      (k ∉ ["table", "row", "find", "load"] → (∀ t ∈ types.values, t.name ≠ k) →
        Heap.fresh.globalTable.get (.text k) = .nil → x = .nil)) := by
  intro h
  have hcaptures := Binding.startCapture_captures (bound_rooted types vars) (startCapture_bound types vars)
  have hinstalled := (install_binds types {}).steps.rooted fresh_rooted
  constructor
  · intro v hk
    exact ⟨_, hcaptures.finds k, (Binding.setAll_bears hd (install types {}) hinstalled hk).keeps hcaptures.keeps⟩
  · intro hk
    have hplain := Binding.startCapture_captures (bound_rooted types []) (startCapture_bound types [])
    have hsame := ((install types {}).setAll_binds vars).others hinstalled k (Dict.not_mem_keys hk)
    refine ⟨_, hcaptures.finds k, ?_, fun hverb htype hfresh => ?_⟩
    · have hfinds := hplain.finds k
      rw [show (bound types vars).heap.globalTable.get (.text k) = _ from hsame]
      exact hfinds
    · have hinstall := (install_binds types {}).others fresh_rooted k fun hmem => ?_
      · exact (hsame.trans hinstall).trans hfresh
      · rcases List.mem_append.1 hmem with hmem | hmem
        · obtain ⟨t, ht, hname⟩ := List.mem_map.1 hmem
          exact htype t ht hname
        · exact hverb hmem

end Fixtures.Script
