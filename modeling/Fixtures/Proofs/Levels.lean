import Fixtures.Proofs.Loads
/-!
# Loads inside loads

A load bounds the loads inside it by levels, which it uses up one by one. The
session counts the loads under way and refuses the next before the levels run
out, so a load answers the loads inside it as it answers itself
(`Loader.load_eq`), and the count is what it was afterwards
(`Loader.load_loadDepth`).
-/

namespace Fixtures

/-! ## The count is kept -/

namespace Session

theorem noteAll_loadDepth (events : List Event) (s : Session) : (s.noteAll events).loadDepth = s.loadDepth := by
  induction events generalizing s with
  | nil => rfl
  | cons e events ih => exact ih (s.note e)

theorem row_loadDepth (values : List Value) (s : Session) : (s.row values).2.loadDepth = s.loadDepth := by
  rcases s.row_cases values with ⟨-, hr⟩ | ⟨e, contexts, -, hr⟩ <;> rw [hr]

theorem find_loadDepth (type : EntityType) (id : Value) (s : Session) : (s.find type id).2.loadDepth = s.loadDepth := by
  rw [find_eq]
  rfl

theorem table_loadDepth {β : Type} (schema : Schema) (block : Session → (Except Failure Unit × β) × Session)
    (s : Session) : (s.table schema block).2.loadDepth = (block (s.inBlock schema)).2.loadDepth :=
  noteAll_loadDepth _ (block (s.inBlock schema)).2

/-- Only the session a block starts in matters. -/
theorem table_congr {β : Type} {schema : Schema} {f g : Session → (Except Failure Unit × β) × Session}
    {s : Session} (h : f (s.inBlock schema) = g (s.inBlock schema)) : s.table schema f = s.table schema g := by
  unfold inBlock at h
  unfold table withContext ContextStack.enter
  simp only [h]

theorem exec_loadDepth {ρ : Type} [Ending ρ] (work : Session → ρ × Session) (s : Session) :
    (s.exec work).2.loadDepth = (work s.entered).2.loadDepth := by
  unfold exec
  dsimp only
  split <;> rfl

theorem exec_congr {ρ : Type} [Ending ρ] {f g : Session → ρ × Session} {s : Session}
    (h : f s.entered = g s.entered) :
    s.exec f = s.exec g := by
  unfold entered at h
  unfold exec
  simp only [h]

end Session

/-! ## Agreement -/

/-- Two ways to answer loads agree while so many loads are under way, and keep this number. -/
structure Loads.Agree (a b : Loads) (depth : Nat) : Prop where
  run : ∀ scripts s, s.loadDepth = depth → a.run scripts s = b.run scripts s
  acts : ∀ scripts s, s.loadDepth = depth → a.acts scripts s = b.acts scripts s
  kept : ∀ scripts s, s.loadDepth = depth → (a.run scripts s).2.loadDepth = depth

variable {a b : Loads} {depth : Nat}

/-- Whatever a program asks, the session comes back with the count it had, so the rest agrees as well. -/
theorem Program.agree (h : a.Agree b depth) {α : Type} (p : Program α) (s : Session) (hs : s.loadDepth = depth) :
    p.runIn a.run s = p.runIn b.run s ∧ p.acts a s = p.acts b s ∧ (p.runIn a.run s).2.loadDepth = depth := by
  induction p generalizing s with
  | done x => exact ⟨rfl, rfl, hs⟩
  | note e next ih => exact ih () (s.note e) hs
  | row values next ih =>
    obtain ⟨hrun, hacts, hkept⟩ := ih (s.row values).1 (s.row values).2 ((s.row_loadDepth values).trans hs)
    exact ⟨hrun, congrArg (s.rowActs values ++ ·) hacts, hkept⟩
  | find type id next ih =>
    obtain ⟨hrun, hacts, hkept⟩ := ih (s.find type id).1 (s.find type id).2 ((s.find_loadDepth type id).trans hs)
    exact ⟨hrun, congrArg (s.store.acts type.name (.find id) ++ ·) hacts, hkept⟩
  | load scripts next ih =>
    obtain ⟨hrun, hacts, hkept⟩ := ih (a.run scripts s).1 (a.run scripts s).2 (h.kept scripts s hs)
    simp only [runIn, acts, ← h.run scripts s hs, ← h.acts scripts s hs]
    exact ⟨hrun, congrArg (a.acts scripts s ++ ·) hacts, hkept⟩
  | table schema block next ihBlock ih =>
    obtain ⟨hrunB, hactsB, hkeptB⟩ := ihBlock (s.inBlock schema) hs
    have hk := (Session.table_loadDepth schema (block.runIn a.run) s).trans hkeptB
    obtain ⟨hrun, hacts, hkept⟩ := ih _ _ (s.table schema (block.runIn a.run)).2 hk
    simp only [runIn, acts, ← Session.table_congr hrunB, ← hactsB]
    exact ⟨hrun, congrArg (block.acts a (s.inBlock schema) ++ ·) hacts, hkept⟩

theorem Loads.Agree.withoutContexts (h : a.Agree b depth) : a.withoutContexts.Agree b.withoutContexts depth where
  run scripts s hs := by
    simp only [Loads.withoutContexts, Loader.withoutContexts, h.run scripts { s with contexts := [] } hs]
  acts scripts s hs := h.acts scripts { s with contexts := [] } hs
  kept scripts s hs := h.kept scripts { s with contexts := [] } hs

namespace Loader

variable {σ : Type} (engine : Engine σ) (l : Loader)

theorem body_agree (h : a.Agree b depth) (vars : Variables) (script : ScriptRef) (text : String) (s : Session)
    (hs : s.loadDepth = depth) :
    l.body engine a.run vars script text s = l.body engine b.run vars script text s ∧
      l.bodyActs engine a vars script text s = l.bodyActs engine b vars script text s ∧
      (l.body engine a.run vars script text s).2.loadDepth = depth := by
  exact (engine.execute script.name text (engine.prepare l.types vars)).agree h.withoutContexts s hs

theorem conclude_loadDepth (script : ScriptRef) (r : (Except Failure Unit × σ) × Session) :
    (conclude engine script r).2.loadDepth = r.2.loadDepth := by
  obtain ⟨⟨f | u, state⟩, s⟩ := r
  · rfl
  · have h := Session.noteAll_loadDepth (engine.capture state).1 s
    unfold conclude
    dsimp only
    split <;> exact h

theorem produce_agree (h : a.Agree b depth) (vars : Variables) (script : ScriptRef) (s : Session)
    (hs : s.loadDepth = depth) :
    l.produce engine a.run vars script s = l.produce engine b.run vars script s ∧
      l.produceActs engine a vars script s = l.produceActs engine b vars script s ∧
      (l.produce engine a.run vars script s).2.loadDepth = depth := by
  cases ht : l.source.read (l.options.resolve script.name) with
  | error f =>
    simp only [produce_unread engine l _ vars ht, produceActs, ht]
    exact ⟨trivial, trivial, hs⟩
  | ok text =>
    obtain ⟨hrun, hacts, hk⟩ := body_agree engine l h vars script text (l.opened script s) hs
    rw [produce_eq engine l a.run vars ht, produce_eq engine l b.run vars ht, produceActs, produceActs, ht]
    refine ⟨congrArg _ (Session.exec_congr hrun), ?_, ?_⟩
    · simp only [hrun, hacts]
    · rw [conclude_loadDepth, Session.exec_loadDepth]
      exact hk

theorem runScript_agree (h : a.Agree b depth) (vars : Variables) (script : ScriptRef) (s : Session)
    (hs : s.loadDepth = depth) :
    l.runScript engine a.run vars script s = l.runScript engine b.run vars script s ∧
      l.scriptActs engine a vars script s = l.scriptActs engine b vars script s ∧
      (l.runScript engine a.run vars script s).2.loadDepth = depth := by
  obtain ⟨hrun, hacts, hk⟩ := produce_agree engine l h vars script s hs
  unfold runScript scriptActs giveUp giveUpActs
  rw [← hrun, ← hacts]
  obtain ⟨hrest, hrestActs, hkept⟩ := (engine.discard (l.produce engine a.run vars script s).1.2).agree
    h.withoutContexts (l.produce engine a.run vars script s).2 hk
  exact ⟨congrArg (fun r => (_, r.2)) hrest, congrArg (_ ++ ·) hrestActs, hkept⟩

theorem runAll_agree (h : a.Agree b depth) (vars : Variables) (scripts : List ScriptRef) (s : Session)
    (hs : s.loadDepth = depth) :
    runAll (l.runScript engine a.run) vars scripts s = runAll (l.runScript engine b.run) vars scripts s ∧
      allActs (l.runScript engine a.run) (l.scriptActs engine a) vars scripts s =
        allActs (l.runScript engine b.run) (l.scriptActs engine b) vars scripts s ∧
      (runAll (l.runScript engine a.run) vars scripts s).2.loadDepth = depth := by
  induction scripts generalizing vars s with
  | nil => exact ⟨rfl, rfl, hs⟩
  | cons script rest ih =>
    obtain ⟨hrun, hacts, hk⟩ := runScript_agree engine l h vars script s hs
    simp only [runAll, allActs, ← hrun, ← hacts]
    rcases hr : l.runScript engine a.run vars script s with ⟨f | outputs, s'⟩
    · rw [hr] at hk
      exact ⟨rfl, rfl, hk⟩
    · rw [hr] at hk
      obtain ⟨hrun', hacts', hk'⟩ := ih (merge vars script outputs) s' hk
      exact ⟨hrun', congrArg (l.scriptActs engine a vars script s ++ ·) hacts', hk'⟩

/-- Loads that have room for loads inside agree if these do. -/
theorem once_agree (h : depth + 1 ≤ l.options.maxLoadDepth → a.Agree b (depth + 1)) :
    (l.once engine a).Agree (l.once engine b) depth := by
  have key (scripts : List ScriptRef) (s : Session) (hs : s.loadDepth = depth) :
      l.loadOnce engine a.run scripts s = l.loadOnce engine b.run scripts s ∧
        l.actsOnce engine a scripts s = l.actsOnce engine b scripts s ∧
        (l.loadOnce engine a.run scripts s).2.loadDepth = depth := by
    unfold loadOnce actsOnce
    cases l.options.validate with
    | error f => exact ⟨rfl, rfl, hs⟩
    | ok u =>
      by_cases hd : l.options.maxLoadDepth < s.loadDepth + 1
      · simp only [hd, if_true]
        exact ⟨trivial, trivial, hs⟩
      · have ha := h (by omega)
        have hs' : s.loading.loadDepth = depth + 1 := congrArg (· + 1) hs
        obtain ⟨hrun, hacts, hk⟩ := runAll_agree engine l ha l.options.inputs scripts s.loading hs'
        simp only [hd, if_false, hacts]
        unfold Session.loading at hrun hk
        simp only [← hrun, hk, Nat.add_sub_cancel, and_self]
  exact ⟨fun scripts s hs => (key scripts s hs).1, fun scripts s hs => (key scripts s hs).2.1,
    fun scripts s hs => (key scripts s hs).2.2⟩

/-- Loads with enough levels left agree, however many these are. -/
theorem within_agree {levels levels' : Nat} (h : l.options.maxLoadDepth ≤ levels + depth)
    (h' : l.options.maxLoadDepth ≤ levels' + depth) :
    (l.within engine levels).Agree (l.within engine levels') depth := by
  induction levels generalizing levels' depth with
  -- Without levels left the count is at its maximum, and no load inside is let through.
  | zero => cases levels' <;> exact once_agree engine l fun hd => absurd hd (by omega)
  | succ levels ih =>
    cases levels' with
    | zero => exact once_agree engine l fun hd => absurd hd (by omega)
    | succ levels' => exact once_agree engine l fun _ => ih (by omega) (by omega)

/-- Loads inside scripts are answered as the loads around them are. -/
theorem inner_agree (depth : Nat) : (l.inner engine).Agree (l.once engine (l.inner engine)) depth := by
  unfold inner
  cases hm : l.options.maxLoadDepth with
  | zero => exact once_agree engine l fun hd => absurd hd (by omega)
  | succ levels => exact once_agree engine l fun _ => within_agree engine l (by omega) (by omega)

theorem load_eq (scripts : List ScriptRef) (s : Session) :
    l.load engine scripts s = l.loadOnce engine (l.load engine) scripts s := by
  have h := (inner_agree engine l s.loadDepth).run scripts s rfl
  rw [once, inner_run] at h
  exact h

theorem load_loadDepth (scripts : List ScriptRef) (s : Session) :
    (l.load engine scripts s).2.loadDepth = s.loadDepth := by
  rw [← inner_run]
  exact (inner_agree engine l s.loadDepth).kept scripts s rfl

end Loader

end Fixtures
