import Fixtures.Proofs.HeapSteps
import Fixtures.Script.Engine
/-!
# What scripts do to their heap

Whatever a script of the supported part of Lua (see `Fixtures.Script.Syntax`)
computes, it does nothing but steps to its heap (`call_stepwise`,
`evaluate_ends`), and what it is refused or raises is caught or ends it
(`evaluate_accounts`). What only looks at the heap need not be looked into
(`Stepwise.lift`). There is a lemma for each operator, for each library function
that does more, and for each kind of statement; calls are an induction on how
many may be made.
-/

namespace Fixtures.Script

open Eval (Stepwise)

variable {call handle : Caller} (trace : Trace)

/-! ## Operators -/

section Operators

theorem rawSet_stepwise (id : Nat) (k v : Val) : (rawSet trace id k v).Stepwise := by
  unfold rawSet
  split
  · exact .change fun h => .put h id _ v
  · exact .complain trace _

theorem unfit_stepwise {α : Type} (deed : String) (v : Val) : (unfit trace deed v : Eval α).Stepwise :=
  .complain trace _

theorem field_stepwise (o : Object) (k : Val) : (field trace o k).Stepwise := by
  unfold field
  extract_lets named
  have hnamed (f : String → Eval Val) (hf : ∀ name, (f name).Stepwise) : (named f).Stepwise := by
    unfold named
    split
    · exact hf _
    · exact .fault _
  cases o with
  | entity e =>
    refine hnamed _ fun name => ?_
    split
    · exact .build fun h => h.receive_builds _
    · exact .pure _
  | entityType t => exact hnamed _ fun name => .pure _
  | fault f => exact .complain trace _
  | stream => exact .pure _

variable (hc : call.Stepwise)

include hc

theorem indexWithin_stepwise (steps : Nat) (v k : Val) : (indexWithin call trace steps v k).Stepwise := by
  induction steps generalizing v with
  | zero => exact .complain trace _
  | succ steps ih =>
    unfold indexWithin
    extract_lets onward
    have honward (orElse : Eval Val) (ho : orElse.Stepwise) : (onward orElse).Stepwise := by
      refine (Stepwise.look _).bind fun handler => ?_
      split
      · exact ho
      · exact .ite ((hc _ _ _).map _) (ih _)
    split
    · refine (Stepwise.look _).bind fun found => ?_
      split
      · exact honward _ (.pure _)
      · exact .pure _
    · exact (Stepwise.look _).bind fun o => field_stepwise trace o k
    · exact honward _ (unfit_stepwise trace _ _)

theorem index_stepwise (v k : Val) : (index call trace v k).Stepwise := indexWithin_stepwise trace hc _ v k

theorem setIndexWithin_stepwise (steps : Nat) (v k x : Val) :
    (setIndexWithin call trace steps v k x).Stepwise := by
  induction steps generalizing v with
  | zero => exact .complain trace _
  | succ steps ih =>
    unfold setIndexWithin
    extract_lets onward
    have honward (orElse : Eval Unit) (ho : orElse.Stepwise) : (onward orElse).Stepwise := by
      refine (Stepwise.look _).bind fun handler => ?_
      split
      · exact ho
      · exact .ite ((hc _ _ _).map _) (ih _)
    split
    · refine (Stepwise.look _).bind fun found => ?_
      split
      · exact honward _ (rawSet_stepwise trace _ _ _)
      · exact rawSet_stepwise trace _ _ _
    · exact honward _ (unfit_stepwise trace _ _)

theorem setIndex_stepwise (v k x : Val) : (setIndex call trace v k x).Stepwise :=
  setIndexWithin_stepwise trace hc _ v k x

theorem byHandler_stepwise (event : String) (a b : Val) {orElse : Eval Val} (ho : orElse.Stepwise) :
    (byHandler call trace event a b orElse).Stepwise := by
  refine (Stepwise.look _).bind fun handler => ?_
  split
  · exact ho
  · exact (hc _ _ _).map _

theorem arith_stepwise (op : Arith) (a b : Val) : (arith call trace op a b).Stepwise := by
  unfold arith
  split
  · split
    · exact .pure _
    · exact .complain trace _
  · exact byHandler_stepwise trace hc _ _ _ (unfit_stepwise trace _ _)

theorem negate_stepwise (a : Val) : (negate call trace a).Stepwise := by
  unfold negate
  split
  · exact .pure _
  · exact byHandler_stepwise trace hc _ _ _ (unfit_stepwise trace _ _)

theorem concat_stepwise (a b : Val) : (concat call trace a b).Stepwise := by
  unfold concat
  split
  · exact .pure _
  · exact byHandler_stepwise trace hc _ _ _ (unfit_stepwise trace _ _)

theorem length_stepwise (a : Val) : (length call trace a).Stepwise := by
  refine (Stepwise.look _).bind fun handler => ?_
  split
  · exact .pure _
  · exact .look _
  · exact unfit_stepwise trace _ _
  · exact (hc _ _ _).map _

theorem equal_stepwise (a b : Val) : (equal call trace a b).Stepwise := by
  unfold equal
  split
  · exact .ite (.pure _) ((byHandler_stepwise trace hc _ _ _ (.pure _)).map _)
  · exact .pure _

theorem ordered_stepwise (event : String) (numbers : Number → Number → Bool)
    (texts : List UInt8 → List UInt8 → Bool) (a b : Val) :
    (ordered call trace event numbers texts a b).Stepwise := by
  unfold ordered
  split
  · exact .pure _
  · exact .pure _
  · refine (byHandler_stepwise trace hc _ _ _ ?_).map _
    exact .ite (.complain trace _) (.complain trace _)

theorem display_stepwise (v : Val) : (display call trace v).Stepwise := by
  refine (Stepwise.look _).bind fun handler => ?_
  split
  · split
    case h_9 =>
      refine (Stepwise.look _).bind fun o => ?_
      split <;> exact .pure _
    all_goals exact .pure _
  · refine (hc _ _ _).bind fun vs => ?_
    split
    · exact .pure _
    · exact .pure _
    · exact .complain trace _

end Operators

/-! ## Library functions -/

namespace Invocation

variable {c : Invocation}

variable (hc : c.call.Stepwise)

include hc

theorem get_stepwise (v k : Val) : (c.get v k).Stepwise := index_stepwise _ hc v k

theorem set_stepwise (v k x : Val) : (c.set v k x).Stepwise := setIndex_stepwise _ hc v k x

theorem lengthOf_stepwise (v : Val) : (c.lengthOf v).Stepwise := by
  refine (length_stepwise _ hc v).bind fun n => ?_
  split
  · exact .pure _
  · exact .lift _

end Invocation

namespace Library

open Invocation

variable {c : Invocation}

theorem setmetatable_stepwise : (setmetatable c).Stepwise := by
  refine (Stepwise.lift _).bind fun id => ?_
  -- All checks lead on to the same part, which sets the metatable.
  extract_lets rest
  have hrest (m : Option Nat) : (rest m).Stepwise := by
    refine (Stepwise.look _).bind fun handler => ?_
    split
    · exact (Stepwise.change fun h => .setMetatable h id m).bind fun _ => (Stepwise.change fun h => .enlist h id).map _
    · exact .lift _
  split
  · exact hrest _
  · exact .ite ((Stepwise.lift _).bind hrest) (hrest _)
  · exact (Stepwise.lift _).bind hrest

theorem rawset_stepwise : (rawset c).Stepwise :=
  (Stepwise.lift _).bind fun id => (Stepwise.lift _).bind fun v => (rawSet_stepwise _ id _ v).map _

theorem pack_stepwise : (pack c).Stepwise := (Stepwise.newTable _).map _

variable (hc : c.call.Stepwise)

include hc

theorem pcall_stepwise : (pcall c).Stepwise := by
  unfold pcall
  split
  · exact .raise _
  · refine ((hc _ _ _).attempt Fate.caught_lands).bind fun r => ?_
    split <;> exact .pure _

theorem tostring_stepwise : (tostring c).Stepwise :=
  (Stepwise.lift _).bind fun v => (display_stepwise _ hc v).map _

theorem pairs_stepwise : (pairs c).Stepwise := by
  refine (Stepwise.lift _).bind fun v => (Stepwise.look _).bind fun handler => ?_
  split
  · exact .pure _
  · refine (hc _ _ _).bind fun vs => ?_
    split <;> exact .pure _

theorem ipairsStep_stepwise : (ipairsStep c).Stepwise := by
  refine (Stepwise.lift _).bind fun i => (get_stepwise hc _ _).bind fun v => ?_
  split <;> exact .pure _

theorem moveUp_stepwise (t : Val) (i : Int64) (left : Nat) : (moveUp c t i left).Stepwise := by
  induction left generalizing i with
  | zero => exact .pure _
  | succ left ih => exact (get_stepwise hc _ _).bind fun _ => (set_stepwise hc _ _ _).bind fun _ => ih _

theorem moveDown_stepwise (t : Val) (i : Int64) (left : Nat) : (moveDown c t i left).Stepwise := by
  induction left generalizing i with
  | zero => exact .pure _
  | succ left ih => exact (get_stepwise hc _ _).bind fun _ => (set_stepwise hc _ _ _).bind fun _ => ih _

theorem insert_stepwise : (insert c).Stepwise := by
  refine (Stepwise.lift _).bind fun t => (lengthOf_stepwise hc _).bind fun e => ?_
  split
  · exact (set_stepwise hc _ _ _).map _
  · refine (Stepwise.lift _).bind fun i => .ite (.lift _) ?_
    exact (moveDown_stepwise hc _ _ _).bind fun _ => (set_stepwise hc _ _ _).map _
  · exact .lift _

theorem remove_stepwise : (remove c).Stepwise := by
  refine (Stepwise.lift _).bind fun t => (lengthOf_stepwise hc _).bind fun size =>
    (Stepwise.lift _).bind fun i => .ite (.lift _) ?_
  exact (get_stepwise hc _ _).bind fun _ => (moveUp_stepwise hc _ _ _).bind fun _ => (set_stepwise hc _ _ _).map _

theorem joined_stepwise (t : Val) (separator : Text.Bytes) (i : Int64) (acc : Text.Bytes) (left : Nat) :
    (joined c t separator i acc left).Stepwise := by
  induction left generalizing i acc with
  | zero => exact .pure _
  | succ left ih =>
    refine (get_stepwise hc _ _).bind fun v => ?_
    split
    · exact ih _ _
    · exact .lift _

theorem concat_stepwise : (concat c).Stepwise := by
  refine (Stepwise.lift _).bind fun t => (lengthOf_stepwise hc _).bind fun size => ?_
  extract_lets rest
  have hrest (separator : Text.Bytes) : (rest separator).Stepwise :=
    (Stepwise.lift _).bind fun i => (Stepwise.lift _).bind fun j =>
      (joined_stepwise hc _ _ _ _ _).map _
  exact .ite (hrest _) ((Stepwise.lift _).bind hrest)

theorem items_stepwise (t : Val) (i : Int64) (left : Nat) : (items c t i left).Stepwise := by
  induction left generalizing i with
  | zero => exact .pure _
  | succ left ih => exact (get_stepwise hc _ _).bind fun _ => (ih _).map _

theorem unpack_stepwise : (unpack c).Stepwise := by
  refine (Stepwise.lift _).bind fun i => ?_
  extract_lets rest
  have hrest (j : Int64) : (rest j).Stepwise := .ite (.lift _) (items_stepwise hc _ _ _)
  exact .ite ((lengthOf_stepwise hc _).bind hrest) ((Stepwise.lift _).bind hrest)

end Library

/-! ## Verbs -/

namespace Vocabulary

theorem misuse_stepwise {α : Type} (verb : Verb) (complaint : Complaint) :
    (misuse verb complaint : Eval α).Stepwise :=
  .fail _

theorem typeArgument_stepwise (types : Catalog) (verb : Verb) (v : Val) : (typeArgument types verb v).Stepwise := by
  unfold typeArgument
  split
  · refine (Stepwise.look _).bind fun o => ?_
    split
    · exact .pure _
    · exact (Stepwise.lift _).bind fun _ => misuse_stepwise _ _
    · exact misuse_stepwise _ _
  · split
    · exact .pure _
    · exact .fail _
  · exact (Stepwise.lift _).bind fun _ => misuse_stepwise _ _

theorem columnsArgument_stepwise (v : Val) : (columnsArgument v).Stepwise := by
  unfold columnsArgument
  split
  · refine (Stepwise.report _).bind fun value? => ?_
    split
    · split
      · exact .pure _
      · exact misuse_stepwise _ _
    · exact misuse_stepwise _ _
  · exact misuse_stepwise _ _

theorem rowValues_stepwise (position : Nat) (vs : List Val) : (rowValues position vs).Stepwise := by
  induction vs generalizing position with
  | nil => exact .pure _
  | cons v rest ih =>
    refine (Stepwise.report _).bind fun value? => ?_
    split
    · exact (ih _).map _
    · exact (Stepwise.lift _).bind fun _ => .fail _

theorem row_stepwise (args : List Val) : (row args).Stepwise :=
  (rowValues_stepwise 1 args).bind fun values =>
    .inquire (p := .row values .done) (fun _ => List.append_nil _) fun _ => (Stepwise.newObject _).map _

theorem find_stepwise (types : Catalog) (args : List Val) : (find types args).Stepwise := by
  unfold find
  split
  · refine (typeArgument_stepwise _ _ _).bind fun type => (Stepwise.report _).bind fun id? => ?_
    split
    · exact (Stepwise.lift _).bind fun _ => misuse_stepwise _ _
    · refine Stepwise.inquire ?_ fun found => ?_
      · exact fun _ => (List.append_nil _)
      · split
        · exact (Stepwise.newObject _).map _
        · exact .pure _
  · exact misuse_stepwise _ _

theorem scriptNames_stepwise (args : List Val) : (scriptNames args).Stepwise := by
  induction args with
  | nil => exact .pure _
  | cons v rest ih =>
    unfold scriptNames
    split
    · contradiction
    · rename_i heq
      cases heq
      exact ih.map _
    · exact (Stepwise.lift _).bind fun _ => misuse_stepwise _ _

theorem loadArguments_stepwise (args : List Val) : (loadArguments args).Stepwise := by
  unfold loadArguments
  split
  · exact misuse_stepwise _ _
  · exact .ite (misuse_stepwise _ _) ((Stepwise.report _).bind fun _ => .orFail _)
  · exact scriptNames_stepwise _
  · exact (Stepwise.lift _).bind fun _ => misuse_stepwise _ _

theorem load_stepwise (args : List Val) : (load args).Stepwise :=
  (loadArguments_stepwise args).bind fun scripts =>
    .inquire (p := .load scripts .done) (fun _ => List.append_nil _) fun vars =>
      (Stepwise.build fun h => h.receiveVariables_builds vars).map _

variable (hc : call.Stepwise)

include hc

theorem failureOf_steps (raises : Nat) (v : Val) {h : Heap} (hr : h.Rooted) :
    (failureOf call raises v h).Ends fun _ (_, h') => h.Steps h' := by
  induction raises generalizing v h with
  | zero =>
    unfold failureOf
    split <;> exact .refl
  | succ raises ih =>
    unfold failureOf
    split
    · exact .refl
    · refine Program.Ends.bind ((display_stepwise _ hc v).steps h hr) ?_
      rintro _ ⟨w | text, h'⟩ hs
      · exact (ih w (hs.rooted hr)).mono fun _ _ hs' => Relation.ReflTransGen.trans hs hs'
      · exact hs

/-- A failure that is still in flight, for which the raised value stands or what was raised in its place, is told. -/
theorem failureOf_accounts (raises : Nat) (v : Val) {h : Heap} (hcoherent : Fate.Coherent h.fates)
    (hv : Fate.inFlight h.fates = h.failure? v) :
    (failureOf call raises v h).Ends fun fs (f, h') =>
      h.Accounts fs h' ∧ ∀ g, Fate.inFlight h'.fates = some g → g = f := by
  induction raises generalizing v h with
  | zero =>
    unfold failureOf
    split
    · rename_i f hf
      exact ⟨.refl hcoherent, fun g hg => Option.some.inj ((hg.symm.trans hv).trans hf)⟩
    · rename_i hf
      exact ⟨.refl hcoherent, fun g hg => absurd ((hg.symm.trans hv).trans hf) nofun⟩
  | succ raises ih =>
    unfold failureOf
    split
    · rename_i f hf
      exact ⟨.refl hcoherent, fun g hg => Option.some.inj ((hg.symm.trans hv).trans hf)⟩
    · rename_i hf
      refine Program.Ends.bind ((display_stepwise _ hc v).accounts h ⟨hcoherent, hv.trans hf⟩) ?_
      rintro fs ⟨w | text, h'⟩ ⟨ha, hl⟩
      · exact (ih w ha.coherent hl).mono fun _ _ ⟨ha', hf⟩ => ⟨ha.trans ha', hf⟩
      · exact ⟨ha.trans (.refl ha.coherent), fun g hg => absurd (hg.symm.trans hl) nofun⟩

theorem settle_steps {α : Type} {x : Eval α} (hx : x.Stepwise) {h : Heap} (hr : h.Rooted) :
    (settle call x h).Ends fun _ (_, h') => h.Steps h' := by
  refine Program.Ends.bind (hx.steps h hr) ?_
  rintro _ ⟨v | a, h'⟩ hs
  · refine Program.Ends.bind (failureOf_steps hc raiseLimit v (hs.rooted hr)) ?_
    exact fun _ _ hs' => Relation.ReflTransGen.trans hs hs'
  · exact hs

theorem settle_accounts {α : Type} {x : Eval α} (hx : x.Stepwise) {h : Heap} (hs : h.Settled) :
    (settle call x h).Ends fun fs (result, h') =>
      h.Accounts fs h' ∧ ∀ g, Fate.inFlight h'.fates = some g → result = .error g := by
  refine Program.Ends.bind (hx.accounts h hs) ?_
  rintro fs ⟨v | a, h'⟩ ⟨ha, hl⟩
  · refine Program.Ends.bind (failureOf_accounts hc raiseLimit v ha.coherent hl) ?_
    exact fun fs' ⟨f, h''⟩ ⟨ha', hf⟩ =>
      ⟨ha.trans (ha'.trans (.refl ha'.coherent)), fun g hg => congrArg Except.error (hf g hg).symm⟩
  · exact ⟨ha.trans (.refl ha.coherent), fun g hg => absurd (hg.symm.trans hl) nofun⟩

/-- A block is part of the request, so what it does to the heap comes before the answer. -/
theorem block_stepwise (schema : Schema) {body : Eval Unit} (hb : body.Stepwise) :
    (block call schema body).Stepwise where
  steps h hr := by
    refine Program.Ends.mono (p := settle call body h) (settle_steps hc hb hr) ?_
    rintro _ ⟨_, h'⟩ hs result -
    exact ((Stepwise.orFail result).steps h' (hs.rooted hr)).mono fun _ _ hs' => Relation.ReflTransGen.trans hs hs'
  accounts h hs := by
    refine Program.Ends.mono (p := settle call body h) (settle_accounts hc hb hs) ?_
    rintro fs ⟨ending, h'⟩ ⟨ha, hf⟩ result hresult
    cases result with
    | ok entities =>
      have hl : Fate.inFlight h'.fates = none := by
        refine Option.eq_none_iff_forall_ne_some.2 fun g hg => ?_
        cases hresult g (hf g hg)
      exact ⟨(ha.trans (.refl ha.coherent)).trans (.refl ha.coherent), hl⟩
    | error f =>
      -- The failure of the block may still be in flight; it is the one that is raised now.
      refine (Eval.fault_accounts (.failure f) ha.coherent fun g hg => ?_).mono fun fs' _ ⟨ha', hl⟩ => ?_
      · cases hresult g (hf g hg)
        rfl
      · refine ⟨?_, hl⟩
        rw [List.append_assoc]
        exact ha.trans ha'

theorem table_stepwise (types : Catalog) (args : List Val) (callers : Trace) :
    (table types call args callers).Stepwise := by
  unfold table
  split
  · refine (typeArgument_stepwise _ _ _).bind fun type => (columnsArgument_stepwise _).bind fun columns => ?_
    extract_lets rest
    have hrest (_ : Unit) : (rest ()).Stepwise := by
      refine (Stepwise.orFail _).bind fun schema => ?_
      refine (block_stepwise hc schema ((hc _ _ _).map _)).bind fun entities => ?_
      exact (Stepwise.build fun h => h.receiveEntities_builds _).bind fun _ => (Stepwise.newTable _).map _
    exact .ite (hrest ()) ((Stepwise.lift _).bind fun _ => (misuse_stepwise _ _).bind hrest)
  · exact misuse_stepwise _ _

end Vocabulary

/-! ## Statements -/

theorem rounds_stepwise {σ : Type} {step : σ → Eval (Flow ⊕ σ)} (hs : ∀ s, (step s).Stepwise) (fuel : Nat) (s : σ) :
    (rounds step fuel s).Stepwise := by
  induction fuel generalizing s with
  | zero => exact .complain _ _
  | succ fuel ih =>
    refine (hs s).bind fun r => ?_
    split
    · exact .pure _
    · exact ih _

theorem counted_stepwise {body : Nat → Eval Flow} (hb : ∀ i, (body i).Stepwise) (i left : Nat) :
    (counted body i left).Stepwise := by
  induction left generalizing i with
  | zero => exact .pure _
  | succ left ih =>
    refine (hb i).bind fun flow => ?_
    split
    · exact ih _
    · exact .pure _
    · exact .pure _

section Statements

variable (a : Activation)

theorem declare_stepwise (name : String) (v : Val) : (a.declare name v).Stepwise :=
  (Stepwise.make fun h => .newCell h v).map _

theorem declareAll_stepwise (names : List String) (vs : List Val) : (a.declareAll names vs).Stepwise := by
  induction names generalizing a vs with
  | nil => exact .pure _
  | cons name names ih => exact (declare_stepwise a name _).bind fun a => ih a _

theorem environment_stepwise : a.environment.Stepwise := by
  unfold Activation.environment
  split
  · exact .look _
  · exact .pure _

theorem single_stepwise {x : Eval (List Val)} (hx : x.Stepwise) : (single x).Stepwise := hx.map _

variable (hc : call.Stepwise) (hh : handle.Stepwise)

include hh

theorem valueOf_stepwise (name : String) (line : Nat) : (a.valueOf handle name line).Stepwise := by
  unfold Activation.valueOf
  split
  · exact .look _
  · exact (environment_stepwise a).bind fun _ => index_stepwise _ hh _ _

theorem store_stepwise (line : Nat) (v : Val) (s : Slot) : (s.store handle a line v).Stepwise := by
  cases s with
  | cell id => exact .change fun h => .setCell h id v
  | entry t k => exact setIndex_stepwise _ hh t k v

theorem storeAll_stepwise (line : Nat) (slots : List Slot) (vs : List Val) :
    (storeAll handle a line slots vs).Stepwise := by
  induction slots generalizing vs with
  | nil => exact .pure _
  | cons s slots ih => exact (ih _).bind fun _ => store_stepwise a hh line _ s

theorem close_stepwise (v reason : Val) : (close handle trace v reason).Stepwise :=
  (Stepwise.look _).bind fun _ => (hh _ _ _).map _

theorem closing_stepwise (line : Nat) (v : Val) {loop : Eval Flow} (hl : loop.Stepwise) :
    (closing handle a line v loop).Stepwise := by
  refine (Stepwise.look _).bind fun _ => .ite hl ?_
  refine (Stepwise.look _).bind fun _ => .ite (.complain _ _) ?_
  refine (hl.attempt Fate.aside_lands).bind fun ended => ?_
  split
  · exact (close_stepwise _ hh v _).map _
  · exact (close_stepwise _ hh v _).bind fun _ => .raise _

theorem operate_stepwise (op : Binary) (x y : Val) : (operate handle trace op x y).Stepwise := by
  cases op with
  | arith op => exact arith_stepwise trace hh op x y
  | concat => exact concat_stepwise trace hh x y
  | eq => exact (equal_stepwise trace hh x y).map _
  | ne => exact (equal_stepwise trace hh x y).map _
  | lt => exact (ordered_stepwise trace hh _ _ _ x y).map _
  | le => exact (ordered_stepwise trace hh _ _ _ x y).map _
  | gt => exact (ordered_stepwise trace hh _ _ _ y x).map _
  | ge => exact (ordered_stepwise trace hh _ _ _ y x).map _
  | and => exact .pure _
  | or => exact .pure _

omit hh

mutual

theorem values_stepwise (hc : call.Stepwise) (hh : handle.Stepwise) (a : Activation) :
    (e : Exp) → (values call handle a e).Stepwise
  | .nil | .bool _ | .number _ | .string _ | .rest => .pure _
  | .function _ => (Stepwise.make fun h => .newClosure h _).map _
  | .name n line => (valueOf_stepwise a hh n line).map _
  | .index t k line =>
    (single_stepwise (values_stepwise hc hh a t)).bind fun _ =>
      (single_stepwise (values_stepwise hc hh a k)).bind fun _ => (index_stepwise _ hh _ _).map _
  | .call c => (calls_stepwise hc hh a c).bind fun _ => hc _ _ _
  | .unary op e line => by
    unfold values
    refine (single_stepwise (values_stepwise hc hh a e)).bind fun x => ?_
    split
    · exact .pure _
    · exact (negate_stepwise _ hh x).map _
    · exact (length_stepwise _ hh x).map _
  | .binary op e e' line => by
    unfold values
    refine (single_stepwise (values_stepwise hc hh a e)).bind fun x => ?_
    -- Where the first operand decides, the second is not looked at.
    split
    · exact .pure _
    · exact .pure _
    · exact (single_stepwise (values_stepwise hc hh a e')).bind fun y => (operate_stepwise _ hh _ x y).map _
  | .table fields =>
    .fill (fun t => entries_stepwise hc hh a t fields)
      (fun items table => { table.setAll (Table.numbered 1 items) with room := items.length }) _
  | .first e => (values_stepwise hc hh a e).map _

theorem valueList_stepwise (hc : call.Stepwise) (hh : handle.Stepwise) (a : Activation) :
    (es : List Exp) → (valueList call handle a es).Stepwise
  | [] => .pure _
  | e :: rest => by
    unfold valueList
    refine (values_stepwise hc hh a e).bind fun vs => ?_
    split
    · exact .pure _
    · exact (valueList_stepwise hc hh a rest).map _

theorem calls_stepwise (hc : call.Stepwise) (hh : handle.Stepwise) (a : Activation) :
    (c : Call) → (calls call handle a c).Stepwise
  | .plain f args _ =>
    (single_stepwise (values_stepwise hc hh a f)).bind fun _ => (valueList_stepwise hc hh a args).map _
  | .method o _ args _ =>
    (single_stepwise (values_stepwise hc hh a o)).bind fun _ => (index_stepwise _ hh _ _).bind fun _ =>
      (valueList_stepwise hc hh a args).map _

theorem entries_stepwise (hc : call.Stepwise) (hh : handle.Stepwise) (a : Activation) (t : Nat) :
    (fields : List Field) → (entries call handle a t fields).Stepwise
  | [] => .pure _
  | .keyed k v line :: rest =>
    (single_stepwise (values_stepwise hc hh a k)).bind fun _ =>
      (single_stepwise (values_stepwise hc hh a v)).bind fun _ =>
        (rawSet_stepwise _ t _ _).bind fun _ => entries_stepwise hc hh a t rest
  | .item e :: rest => by
    unfold entries
    refine (values_stepwise hc hh a e).bind fun vs => ?_
    split
    · exact .pure _
    · exact (entries_stepwise hc hh a t rest).map _

end

include hc hh

theorem slotOf_stepwise (target : Target) : (slotOf call handle a target).Stepwise := by
  unfold slotOf
  split
  · split
    · exact .pure _
    · exact (environment_stepwise a).map _
  · exact (single_stepwise (values_stepwise hc hh a _)).bind fun _ =>
      (single_stepwise (values_stepwise hc hh a _)).map _

theorem slotsOf_stepwise (targets : List Target) : (slotsOf call handle a targets).Stepwise := by
  induction targets with
  | nil => exact .pure _
  | cons t rest ih => exact (slotOf_stepwise a hc hh t).bind fun _ => ih.map _

omit hc hh

mutual

theorem run_stepwise (hc : call.Stepwise) (hh : handle.Stepwise) (a : Activation) :
    (stats : List Stat) → (run call handle a stats).Stepwise
  | [] => .pure _
  | s :: rest => by
    unfold run
    refine (perform_stepwise hc hh a s).bind fun ended => ?_
    split
    · exact run_stepwise hc hh _ rest
    · exact .pure _

theorem perform_stepwise (hc : call.Stepwise) (hh : handle.Stepwise) (a : Activation) :
    (s : Stat) → (perform call handle a s).Stepwise
  | .declare names es =>
    (valueList_stepwise hc hh a es).bind fun vs => (declareAll_stepwise a names vs).map _
  | .declareFunction name f => by
    unfold perform
    refine (declare_stepwise a name _).bind fun a => (Stepwise.make fun h => .newClosure h _).bind fun v => ?_
    split
    · exact (Stepwise.change fun h => .setCell h _ v).map _
    · exact .pure _
  | .assign targets es line =>
    (slotsOf_stepwise a hc hh targets).bind fun slots => (valueList_stepwise hc hh a es).bind fun vs =>
      (storeAll_stepwise a hh line slots vs).map _
  | .call c => (calls_stepwise hc hh a c).bind fun _ => (hc _ _ _).map _
  | .block body => (run_stepwise hc hh a body).map _
  | .branch condition yes no =>
    (single_stepwise (values_stepwise hc hh a condition)).bind fun _ =>
      .ite ((run_stepwise hc hh a yes).map _) ((run_stepwise hc hh a no).map _)
  | .while condition body =>
    (rounds_stepwise (fun _ => (single_stepwise (values_stepwise hc hh a condition)).bind fun _ =>
      .ite ((run_stepwise hc hh a body).map _) (.pure _)) _ _).map _
  | .repeat body condition => by
    unfold perform
    refine (rounds_stepwise (fun _ => (run_stepwise hc hh a body).bind fun ended => ?_) _ _).map _
    split
    · exact (single_stepwise (values_stepwise hc hh _ condition)).bind fun _ => .ite (.pure _) (.pure _)
    · exact .pure _
  | .count name start limit step body line => by
    unfold perform
    have hbody (v : Val) : Stepwise (do return (← run call handle (← a.declare name v) body).1) :=
      (declare_stepwise a name v).bind fun a => (run_stepwise hc hh a body).map _
    refine (single_stepwise (values_stepwise hc hh a start)).bind fun start =>
      (single_stepwise (values_stepwise hc hh a limit)).bind fun limit =>
      (single_stepwise (values_stepwise hc hh a step)).bind fun step => ?_
    extract_lets run
    refine (Stepwise.lift _).bind fun range => ?_
    split
    · exact (counted_stepwise (fun i => hbody _) _ _).map _
    · exact (rounds_stepwise (fun x => .ite ((hbody _).map _) (.pure _)) _ _).map _
  | .each names es body line head => by
    unfold perform
    refine (valueList_stepwise hc hh a es).bind fun vs => ?_
    split
    · extract_lets round loop
      have hround (control : Val) : (round control).Stepwise := by
        refine (hh _ _ _).bind fun vs => ?_
        split
        · exact .pure _
        · exact (declareAll_stepwise a names vs).bind fun a => (run_stepwise hc hh a body).map _
      have hloop : loop.Stepwise := by
        refine (rounds_stepwise hround _ _).bind fun flow => ?_
        split
        · exact (hc _ _ _).map _
        · exact .pure _
      exact (closing_stepwise a hh head _ hloop).map _
    · exact .pure _
  | .return es => (valueList_stepwise hc hh a es).map _
  | .returnCall c => (calls_stepwise hc hh a c).map _
  | .break => .pure _

end

end Statements

/-! ## Calls -/

theorem Closure.run_stepwise {replace : Caller} (hc : call.Stepwise) (hh : handle.Stepwise) (hr : replace.Stepwise)
    (c : Closure) (args : List Val) (callers : Trace) : (c.run call handle replace args callers).Stepwise := by
  refine (declareAll_stepwise _ _ _).bind fun a => (Script.run_stepwise hc hh a _).bind fun ended => ?_
  split
  · exact .pure _
  · split
    · exact hr _ _ _
    · exact hc _ _ _
  · exact .pure _

theorem Builtin.run_stepwise (types : Catalog) (hc : call.Stepwise) (b : Builtin) (args : List Val)
    (callers : Trace) : (b.run types call args callers).Stepwise := by
  cases b with
  | ipairsStep => exact Library.ipairsStep_stepwise hc
  | pairs => exact Library.pairs_stepwise hc
  | pcall => exact Library.pcall_stepwise hc
  | rawset => exact Library.rawset_stepwise
  | setmetatable => exact Library.setmetatable_stepwise
  | tostring => exact Library.tostring_stepwise hc
  | concat => exact Library.concat_stepwise hc
  | insert => exact Library.insert_stepwise hc
  | pack => exact Library.pack_stepwise
  | remove => exact Library.remove_stepwise hc
  | unpack => exact Library.unpack_stepwise hc
  | newThread => exact .ite ((Stepwise.make fun h => .newThread h).map _) (.lift _)
  | openTable => exact Vocabulary.table_stepwise hc types args callers
  | row => exact Vocabulary.row_stepwise args
  | find => exact Vocabulary.find_stepwise types args
  | load => exact Vocabulary.load_stepwise args
  -- All others only look.
  | _ => exact .lift _

theorem callWithin_stepwise (types : Catalog) (limit : Nat) (room : Room) :
    (callWithin types limit room).Stepwise := by
  -- On the calls that may still be open: whatever is called there has one less.
  induction limit generalizing room with
  | zero => exact fun _ _ _ => .complain _ _
  | succ limit ih =>
    intro f args callers
    unfold callWithin
    split
    · exact .complain _ _
    · exact .complain _ _
    · split
      · refine (Stepwise.look _).bind fun c? => ?_
        split
        · exact Closure.run_stepwise (ih _) (ih _) (ih _) _ _ _
        · exact unfit_stepwise _ _ _
      · exact Builtin.run_stepwise types (ih _) _ _ _
      · refine (Stepwise.look _).bind fun handler => ?_
        split
        · exact unfit_stepwise _ _ _
        · exact ih _ _ _ _

theorem call_stepwise (types : Catalog) : (Script.call types).Stepwise := callWithin_stepwise types _ _

theorem compile_steps {name text : String} {h h' : Heap} {f : Val} (hf : compile name text h = .ok (f, h')) :
    h.Steps h' := by
  unfold compile at hf
  split at hf
  · cases hf
  · split at hf
    · cases hf
    · cases hf
      exact .tail (.single (.edit (.newCell h _))) (.edit (.newClosure _ _))

theorem compile_fates {name text : String} {h h' : Heap} {f : Val} (hf : compile name text h = .ok (f, h')) :
    h'.fates = h.fates := by
  unfold compile at hf
  split at hf
  · cases hf
  · split at hf <;> cases hf
    rfl

/-- However a script runs and whatever it is answered, it does nothing but steps to its heap. -/
theorem evaluate_ends (types : Catalog) (name text : String) {h : Heap} (hr : h.Rooted) :
    (evaluate types name text h).Ends fun _ (_, h') => h.Steps h' := by
  unfold evaluate
  split
  · exact .refl
  · rename_i f h' hf
    have hs := compile_steps hf
    refine (Vocabulary.settle_steps (call_stepwise types) (call_stepwise types f [] []) (hs.rooted hr)).mono ?_
    exact fun _ _ hs' => Relation.ReflTransGen.trans hs hs'

/-- A failure that is in flight when a script ends is the one that it ends with. -/
theorem evaluate_accounts (types : Catalog) (name text : String) {h : Heap} (hs : h.Settled) :
    (evaluate types name text h).Ends fun fs (result, h') =>
      h.Accounts fs h' ∧ ∀ f, Fate.inFlight h'.fates = some f → result = .error f := by
  unfold evaluate
  split
  · exact ⟨.refl hs.coherent, fun f hf => absurd (hf.symm.trans hs.landed) nofun⟩
  · rename_i fn h' hcompiled
    have hfates := compile_fates hcompiled
    have hsettle := Vocabulary.settle_accounts (call_stepwise types) (call_stepwise types fn [] []) (hs.of_fates hfates)
    refine hsettle.mono ?_
    exact fun fs _ ⟨ha, hf⟩ => ⟨(Heap.Accounts.of_fates hs.coherent hfates).trans ha, hf⟩

end Fixtures.Script
