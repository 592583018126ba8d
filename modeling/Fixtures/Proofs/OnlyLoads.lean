import Fixtures.Proofs.Backing
import Fixtures.Proofs.Nesting
/-!
# Scripts that only load

A program may ask for one load and for nothing else (`Program.LoadsOnly`). Then
it makes one call, in a session that does not depend on the answer, and all it
does to a transaction is what this call does. The text `load 'b'` is such a
program: it ends well if the load returns, and else with the failure of the load
(`Script.execute_loads`).
-/

namespace Fixtures

/-! ## Programs that load and do nothing else -/

namespace Program

variable {α β : Type} {P : α → Prop}

/-- A program asks for nothing, and its result is of this kind. -/
def Silent : {α : Type} → Program α → (α → Prop) → Prop
  | _, .done a, P => P a
  | _, .note _ next, P => (next ()).Silent P
  | _, .row .., _ | _, .find .., _ | _, .load .., _ | _, .table .., _ => False

instance decidableSilent : {α : Type} → (p : Program α) → (P : α → Prop) → [DecidablePred P] → Decidable (p.Silent P)
  | _, .done a, P, _ => inferInstanceAs (Decidable (P a))
  | _, .note _ next, P, _ => decidableSilent (next ()) P
  | _, .row .., _, _ | _, .find .., _, _ | _, .load .., _, _ | _, .table .., _, _ => inferInstanceAs (Decidable False)

/-- A program asks for one load of these scripts and for nothing else. Its result is of a kind that depends on what the
load returns. -/
def LoadsOnly (scripts : List ScriptRef) : {α : Type} → Program α → (Except Failure Variables → α → Prop) → Prop
  | _, .note _ next, P => (next ()).LoadsOnly scripts P
  | _, .load asked next, P => asked = scripts ∧ ∀ r, (next r).Silent (P r)
  | _, .done .., _ | _, .row .., _ | _, .find .., _ | _, .table .., _ => False

theorem Silent.bind {p : Program α} (h : p.Silent P) {f : α → Program β} {Q : β → Prop}
    (hf : ∀ a, P a → (f a).Silent Q) : (p.bind f).Silent Q := by
  induction p with
  | done a => exact hf a h
  | note e next ih => exact ih () h hf
  | row | find | load | table => cases h

theorem LoadsOnly.bind {p : Program α} {scripts : List ScriptRef} {P : Except Failure Variables → α → Prop}
    (h : p.LoadsOnly scripts P) {f : α → Program β} {Q : Except Failure Variables → β → Prop}
    (hf : ∀ r a, P r a → (f a).Silent (Q r)) : (p.bind f).LoadsOnly scripts Q := by
  induction p with
  | note e next ih => exact ih () h hf
  | load asked next ih => exact ⟨h.1, fun r => (h.2 r).bind (hf r)⟩
  | done | row | find | table => cases h

/-- The run of a silent program has one result, makes no calls and does nothing to a transaction. -/
theorem Silent.run {p : Program α} (h : p.Silent P) (loads : Loads) (s : Session) :
    P (p.runIn loads.run s).1 ∧ p.calls loads.run s = [] ∧ p.acts loads s = [] := by
  induction p generalizing s with
  | done a => exact ⟨h, rfl, rfl⟩
  | note e next ih => exact ih () h (s.note e)
  | row | find | load | table => cases h

/-- The run of a program that only loads makes one call, in a session that does not depend on how it is answered. -/
theorem LoadsOnly.run {p : Program α} {scripts : List ScriptRef} {P : Except Failure Variables → α → Prop}
    (h : p.LoadsOnly scripts P) (s : Session) : ∃ s₁ : Session, ∀ loads : Loads,
      P (loads.run scripts s₁).1 (p.runIn loads.run s).1 ∧ p.calls loads.run s = [⟨scripts, s₁⟩] ∧
      p.acts loads s = loads.acts scripts s₁ := by
  induction p generalizing s with
  | note e next ih => exact ih () h (s.note e)
  | load asked next ih =>
    obtain ⟨rfl, hnext⟩ := h
    refine ⟨s, fun loads => ?_⟩
    obtain ⟨hresult, hcalls, hacts⟩ := (hnext (loads.run asked s).1).run loads (loads.run asked s).2
    refine ⟨hresult, congrArg (LoadCall.mk asked s :: ·) hcalls, ?_⟩
    show loads.acts asked s ++ Program.acts loads _ _ = loads.acts asked s
    rw [hacts, List.append_nil]
  | done | row | find | table => cases h

end Program

/-- A state asks for nothing when it is given up. -/
def Engine.Rests {σ : Type} (engine : Engine σ) (state : σ) : Prop := (engine.discard state).Silent fun _ => True

/-- A script ends with success, its outputs can be read, and it asks for nothing more. -/
def Engine.EndsWell {σ : Type} (engine : Engine σ) (ending : Except Failure Unit × σ) : Prop :=
  ending.1 = .ok () ∧ (∃ outputs, (engine.capture ending.2).2 = .ok outputs) ∧ engine.Rests ending.2

theorem exists_ok_iff {ε α : Type} {r : Except ε α} : r.isOk = true ↔ ∃ a, r = .ok a := by
  cases r <;> simp [Except.isOk, Except.toBool]

instance {σ : Type} (engine : Engine σ) : DecidablePred engine.Rests := fun state =>
  inferInstanceAs (Decidable ((engine.discard state).Silent fun _ => True))

instance {σ : Type} (engine : Engine σ) : DecidablePred engine.EndsWell := fun ending =>
  decidable_of_iff (ending.1 = .ok () ∧ (engine.capture ending.2).2.isOk = true ∧ engine.Rests ending.2)
    (and_congr_right fun _ => and_congr_left fun _ => exists_ok_iff)

/-- A script ends well if the load it makes returns, and else with the failure of the load. It asks for nothing
more. -/
def Engine.Relayed {σ : Type} (engine : Engine σ) : Except Failure Variables → Except Failure Unit × σ → Prop
  | .ok _, ending => engine.EndsWell ending
  | .error f, ending => ending.1 = .error f ∧ engine.Rests ending.2

theorem Engine.Relayed.rests {σ : Type} {engine : Engine σ} {r : Except Failure Variables}
    {ending : Except Failure Unit × σ} (h : engine.Relayed r ending) : engine.Rests ending.2 := by
  cases r with
  | ok vars => exact h.2.2
  | error f => exact h.2

namespace Script

/-! ## Texts that only load -/

/-- The script that a text loads by name, if that is all it does. -/
def Chunk.loads? (text : String) : Option String :=
  match parse text with
  | .ok (.mk [] true [.call (.plain (.name "load" _) [.string bytes] _)]) => some (Text.decode bytes)
  | _ => none

theorem Chunk.loads?_eq_some {text name : String} (h : loads? text = some name) :
    ∃ line line' bytes, Text.decode bytes = name ∧
      parse text = .ok (.mk [] true [.call (.plain (.name "load" line) [.string bytes] line')]) := by
  unfold loads? at h
  split at h
  · rename_i hparse
    exact ⟨_, _, _, Option.some.inj h, hparse⟩
  · cases h

theorem Eval.bind_of_done {α β : Type} {x : Eval α} {f : α → Eval β} {h g : Heap} {a : α}
    (hx : x h = .done (.ok a, g)) : (x >>= f) h = f a g := by
  show (x h).bind _ = _
  rw [hx]
  rfl

section
variable {types : Catalog} {limit calls innerCalls : Nat} {args : List Val} {callers : Trace} {h : Heap}

theorem callWithin_function {id : Nat} {c : Closure} (hc : h.closure? id = some c) :
    callWithin types (limit + 1) ⟨calls + 1, innerCalls + 1⟩ (.function id) args callers h =
      c.run (callWithin types limit ⟨calls, innerCalls + 1⟩) (callWithin types limit ⟨calls, innerCalls⟩)
        (callWithin types limit ⟨calls + 1, innerCalls + 1⟩) args callers h := by
  rw [callWithin]
  dsimp only
  rw [Heap.look_bind, hc]

theorem callWithin_builtin (b : Builtin) :
    callWithin types (limit + 1) ⟨calls + 1, innerCalls + 1⟩ (.builtin b) args callers h =
      b.run types (callWithin types limit ⟨calls, innerCalls⟩) args callers h := by
  rw [callWithin]

end

/-! ## What the call of `load` comes to -/

/-- What a computation that only loads ends with: if the load returns, with a value of some kind on a heap where no more
was done than values were built, and else with a raised value that stands for the failure. -/
def Answered {α : Type} (h : Heap) (good : α → Prop) : Except Failure Variables → Except Val α × Heap → Prop
  | .ok _, (result, h') => (∃ a, result = .ok a ∧ good a) ∧ h.Builds h'
  | .error f, (result, h') => (∃ v, result = .error v ∧ h'.failure? v = some f) ∧ h'.finalizable = h.finalizable

section

variable {α β : Type} {h₀ h : Heap} {scripts : List ScriptRef} {good : α → Prop} {good' : β → Prop}

/-- What is done afterwards without asking for anything changes the value. -/
theorem Answered.bind {x : Eval α} {f : α → Eval β} (hx : (x h).LoadsOnly scripts (Answered h₀ good))
    (hf : ∀ a, good a → ∃ b, f a = pure b ∧ good' b) : ((x >>= f) h).LoadsOnly scripts (Answered h₀ good') := by
  refine Program.LoadsOnly.bind hx ?_
  rintro (g | vars) ⟨v | a, h'⟩ hanswered
  · obtain ⟨⟨w, hw, hg⟩, hfinalizable⟩ := hanswered
    obtain rfl := Except.error.inj hw
    exact ⟨⟨v, rfl, hg⟩, hfinalizable⟩
  · obtain ⟨⟨v, hv, -⟩, -⟩ := hanswered
    cases hv
  · obtain ⟨⟨a, ha, -⟩, -⟩ := hanswered
    cases ha
  · obtain ⟨⟨a, ha, hgood⟩, hs⟩ := hanswered
    obtain rfl := Except.ok.inj ha
    obtain ⟨b, hb, hgood'⟩ := hf _ hgood
    dsimp only
    rw [hb]
    exact ⟨⟨b, rfl, hgood'⟩, hs⟩

theorem Vocabulary.load_answered (h : Heap) (bytes : Text.Bytes) :
    (Vocabulary.load [.string bytes] h).LoadsOnly [⟨Text.decode bytes, none⟩] (Answered h fun _ => True) := by
  refine ⟨rfl, fun r => ?_⟩
  cases r with
  | ok vars => exact ⟨⟨_, rfl, trivial⟩, h.receiveVariables_builds vars⟩
  | error f =>
    obtain ⟨v, h', hraise, hv, -⟩ := @Eval.fault_eq Variables (.failure f) h
    have hfinalizable : h'.finalizable = h.finalizable := by
      rw [← (Prod.mk.inj (Program.done.inj hraise)).2]
      rfl
    show Program.Silent (Program.bind (Eval.fault (.failure f) h) _) _
    rw [hraise]
    exact ⟨⟨v, rfl, hv⟩, hfinalizable⟩

end

/-- A function whose body calls what it finds under a name does what this does. -/
theorem Closure.run_answered {call handle replace : Caller} {callers : Trace} {h : Heap} {c : Closure}
    {cell line line' : Nat} {name : String} {f : Val} {bytes : Text.Bytes} {scripts : List ScriptRef}
    (hbody : c.function = .mk [] true [.call (.plain (.name name line) [.string bytes] line')])
    (hscope : c.scope = [("_ENV", cell)]) (hname : name ≠ "_ENV") (hcell : h.cell cell = .table h.globals)
    (hfinds : h.Finds name f)
    (hcall : ∀ trace, (call f [.string bytes] trace h).LoadsOnly scripts (Answered h fun _ => True)) :
    (c.run call handle replace [] callers h).LoadsOnly scripts (Answered h fun _ => True) := by
  obtain ⟨function, scope, chunk⟩ := c
  obtain rfl : function = _ := hbody
  obtain rfl : scope = _ := hscope
  let a : Activation := ⟨chunk, [("_ENV", cell)], [], callers⟩
  have hglobal : h.IsGlobal a name := by
    refine ⟨?_, cell, rfl, hcell⟩
    show List.lookup name [("_ENV", cell)] = none
    rw [List.lookup_cons, beq_false_of_ne hname]
    rfl
  have hvalue : values call handle a (.name name line) h = .done (.ok [f], h) := by
    rw [values]
    exact Eval.bind_of_done ((Heap.valueOf_global hglobal line).trans (hfinds _ _))
  have hfunction : single (values call handle a (.name name line)) h = .done (.ok f, h) := Eval.bind_of_done hvalue
  have hstring : values call handle a (.string bytes) h = .done (.ok [.string bytes], h) := by
    rw [values]
    rfl
  have hargs : valueList call handle a [.string bytes] h = .done (.ok [.string bytes], h) := by
    rw [valueList]
    exact Eval.bind_of_done hstring
  have hcalls : calls call handle a (.plain (.name name line) [.string bytes] line') h =
      .done (.ok (f, [.string bytes], line'), h) := by
    rw [calls, Eval.bind_of_done hfunction]
    exact Eval.bind_of_done hargs
  -- From the call on nothing else is asked for.
  have hperform : (perform call handle a (.call (.plain (.name name line) [.string bytes] line')) h).LoadsOnly scripts
      (Answered h fun ended => ended = (.next, a.scope)) := by
    rw [perform, Eval.bind_of_done hcalls]
    exact Answered.bind (hcall _) fun _ _ => ⟨_, rfl, rfl⟩
  have hrun : (Script.run call handle a [.call (.plain (.name name line) [.string bytes] line')] h).LoadsOnly scripts
      (Answered h fun ended => ended = (.next, a.scope)) := by
    rw [Script.run]
    refine Answered.bind hperform ?_
    rintro _ rfl
    refine ⟨_, ?_, rfl⟩
    dsimp only
    rw [Script.run]
  unfold Closure.run
  rw [Eval.bind_of_done (a := a) (g := h) rfl]
  refine Answered.bind hrun ?_
  rintro _ rfl
  exact ⟨_, rfl, trivial⟩

/-- A function whose body is the call of `load` with a text loads that script. -/
theorem run_loads {types : Catalog} {h : Heap} {c : Closure} {id cell line line' : Nat} {bytes : Text.Bytes}
    (hc : h.closure? id = some c)
    (hbody : c.function = .mk [] true [.call (.plain (.name "load" line) [.string bytes] line')])
    (hscope : c.scope = [("_ENV", cell)]) (hcell : h.cell cell = .table h.globals)
    (hfinds : h.Finds "load" (.builtin .load)) :
    (call types (.function id) [] [] h).LoadsOnly [⟨Text.decode bytes, none⟩] (Answered h fun _ => True) := by
  obtain ⟨limit, hlimit⟩ : ∃ limit, callLimit = limit + 2 := ⟨callLimit - 2, by decide⟩
  unfold call
  rw [hlimit, Room.full, callWithin_function hc]
  refine Closure.run_answered hbody hscope (by decide) hcell hfinds fun trace => ?_
  rw [callWithin_builtin]
  exact Vocabulary.load_answered h bytes

/-- What was settled of a computation that only loads. -/
def Delivered (h : Heap) {α : Type} : Except Failure Variables → Except Failure α × Heap → Prop
  | .ok _, (result, h') => (∃ a, result = .ok a) ∧ h.Builds h'
  | .error f, (result, h') => result = .error f ∧ h'.finalizable = h.finalizable

theorem settle_answered {types : Catalog} {α : Type} {x : Eval α} {h h₀ : Heap} {scripts : List ScriptRef}
    (hx : (x h).LoadsOnly scripts (Answered h₀ fun _ => True)) :
    (Vocabulary.settle (call types) x h).LoadsOnly scripts (Delivered h₀) := by
  refine Program.LoadsOnly.bind hx ?_
  rintro (f | vars) ⟨v | a, h'⟩ hanswered
  · obtain ⟨⟨w, hw, hf⟩, hfinalizable⟩ := hanswered
    obtain rfl := Except.error.inj hw
    dsimp only
    unfold Vocabulary.raiseLimit Vocabulary.failureOf
    rw [hf]
    exact ⟨rfl, hfinalizable⟩
  · obtain ⟨⟨w, hw, -⟩, -⟩ := hanswered
    cases hw
  · obtain ⟨⟨a, ha, -⟩, -⟩ := hanswered
    cases ha
  · exact ⟨⟨a, rfl⟩, hanswered.2⟩

/-- The verb is bound to its name when a script starts, unless a variable takes its place. -/
theorem bound_load (types : Catalog) {vars : Variables} (hvars : vars.get? "load" = none) :
    (bound types vars).heap.globalTable.get (.text "load") = .builtin .load := by
  have hinstalled := (install_binds types {}).steps.rooted fresh_rooted
  refine (((install types {}).setAll_binds vars).others hinstalled "load" (Dict.not_mem_keys hvars)).trans ?_
  have hbind (b : Binding) (v : Val) (hr : (b.bind "load" v).heap.Rooted) :
      (b.bind "load" v).heap.globalTable.get (.text "load") = v := by
    have hrooted : b.heap.Rooted := by
      unfold Heap.Rooted at hr ⊢
      exact hr.trans_eq (Array.size_setIfInBounds ..)
    exact (b.bind_get hrooted "load" v "load").trans (if_pos rfl)
  exact hbind _ _ hinstalled

/-- A text is compiled to a function that knows the table of the globals, and nothing is done to tables. -/
theorem compile_eq {name text : String} {function : Function} (hname : zeroByte? name = none)
    (hparse : Chunk.parse text = .ok function) (h : Heap) : ∃ h₁ : Heap,
      compile name text h = .ok (.function h.closures.size, h₁) ∧ h₁.tables = h.tables ∧ h₁.globals = h.globals ∧
      h₁.finalizable = h.finalizable ∧
      h₁.cell h.cells.size = .table h₁.globals ∧
      h₁.closure? h.closures.size = some ⟨function, [("_ENV", h.cells.size)], Chunk.label name⟩ := by
  refine ⟨((h.newCell (.table h.globals)).2.newClosure ⟨function, [("_ENV", h.cells.size)], Chunk.label name⟩).2,
    ?_, rfl, rfl, rfl, ?_, Array.getElem?_push_size⟩
  · unfold compile
    rw [hname, hparse]
    rfl
  · show ((h.cells.push (.table h.globals))[h.cells.size]?).getD .nil = _
    rw [Array.getElem?_push_size]
    rfl

/-- Once the capture has started, empty globals leave nothing to read. -/
theorem captured_of_empty {b : Binding} {id : Nat} (hb : b.before = some id)
    (hempty : b.heap.globalTable.entries = []) : b.captured.result = .ok [] := by
  rw [Binding.captured, hb]
  show (List.foldlM b.heap.addVariable [] b.heap.globalTable.entries).result = _
  rw [hempty]
  rfl

/-- A state without finalizers asks for nothing when it is given up. -/
theorem rests_of_unfinalized {p : Prepared} (hp : p.binding.heap.finalizable = []) : engine.Rests p := by
  show Program.Silent (Prepared.discard p) _
  rw [Prepared.discard, hp]
  trivial

/-- The run of a text that only loads a script does just that. -/
theorem execute_loads {types : Catalog} {vars : Variables} {name text next : String}
    (hloads : Chunk.loads? text = some next) (hname : zeroByte? name = none) (hvars : vars.get? "load" = none) :
    (engine.execute name text (engine.prepare types vars)).LoadsOnly [⟨next, none⟩] engine.Relayed := by
  obtain ⟨line, line', bytes, rfl, hparse⟩ := Chunk.loads?_eq_some hloads
  have hr := bound_rooted types vars
  have hc := Binding.startCapture_captures hr (startCapture_bound types vars)
  obtain ⟨h₁, hcompile, htables, hglobals, hfinalizable, hcell, hclosure⟩ :=
    compile_eq hname hparse (prepare types vars).binding.heap
  rw [prepare_finalizable] at hfinalizable
  have hbacked := (hc.backed hr).congr htables hglobals
  have hcleared :
      h₁.globalTable = { Table.empty with metatable := some ((bound types vars).heap.tables.size + 1) } := by
    rw [← hc.cleared, Heap.globalTable, hglobals, Heap.table, htables]
    rfl
  have hfinds : h₁.Finds "load" (.builtin .load) := by
    have hfound := hbacked.finds "load"
    have hnone : h₁.globalTable.get (.text "load") = .nil := by
      rw [hcleared]
      rfl
    rw [if_pos hnone] at hfound
    exact bound_load types hvars ▸ hfound
  show (Prepared.execute name text (prepare types vars)).LoadsOnly _ _
  unfold Prepared.execute evaluate
  rw [hcompile]
  refine (settle_answered (run_loads hclosure rfl rfl hcell hfinds)).bind ?_
  rintro (f | _) ⟨result, h'⟩ hdelivered
  · obtain ⟨rfl, hkept⟩ : result = .error f ∧ h'.finalizable = h₁.finalizable := hdelivered
    exact ⟨rfl, rests_of_unfinalized (hkept.trans hfinalizable)⟩
  · obtain ⟨⟨vs, rfl⟩, hs⟩ := hdelivered
    have hrooted : h₁.Rooted := by
      unfold Heap.Rooted
      rw [htables, hglobals]
      exact (hc.recorded hr).rooted
    -- Nothing was assigned, so there is nothing to read.
    have hempty : h'.globalTable.entries = [] := by
      rw [hs.globalTable hrooted, hcleared]
      rfl
    refine ⟨rfl, ⟨[], ?_⟩, rests_of_unfinalized (hs.finalizable.trans hfinalizable)⟩
    exact captured_of_empty (b := { (prepare types vars).binding with heap := h' }) hc.before hempty

end Script

end Fixtures
