import Fixtures.Proofs.Blocks
import Mathlib.Data.List.Nodup
import Mathlib.Data.List.Range
/-!
# Frames on one stack

Frames are entered, and closed in any order; a frame that is closed takes the
innermost context off, whichever frame pushed it. So much is certain in any
order: there are as many contexts as open frames, and every context comes off
once at most, complete. Frames that are closed innermost first take off their
own contexts, with the entities that were recorded while these were on top.
-/

namespace Fixtures

/-- What can be done with frames on one stack. Frames are numbered as they are entered, from 0. -/
inductive FrameStep where
  | enter (type : EntityType) (columns : List String)
  /-- Record an entity in the innermost context, if there is one. -/
  | record (e : Entity)
  | finish (n : Nat)
  /-- Let go of a frame that was not finished. -/
  | drop (n : Nat)

/-! ## Histories, latest step first -/

namespace FrameStep

/-- What contexts were pushed with, first one first. -/
def entered : List FrameStep → List (EntityType × List String)
  | [] => []
  | enter type columns :: h => entered h ++ [(type, columns)]
  | _ :: h => entered h

/-- The frames that are open, last entered first. -/
def held : List FrameStep → List Nat
  | [] => []
  | enter _ _ :: h => (entered h).length :: held h
  | finish n :: h | drop n :: h => (held h).erase n
  | record _ :: h => held h

/-- The frames whose contexts are on the stack, innermost first. -/
def stacked : List FrameStep → List Nat
  | [] => []
  | enter _ _ :: h => (entered h).length :: stacked h
  | finish _ :: h | drop _ :: h => (stacked h).tail
  | record _ :: h => stacked h

/-- The frames whose contexts were taken off, in this order. -/
def taken : List FrameStep → List Nat
  | [] => []
  | finish _ :: h | drop _ :: h => taken h ++ (stacked h).take 1
  | _ :: h => taken h

/-- The entities that were recorded while the context of frame `n` was on top, in this order. -/
def recorded (n : Nat) : List FrameStep → List Entity
  | [] => []
  | record e :: h => recorded n h ++ if (stacked h).head? = some n then [e] else []
  | _ :: h => recorded n h

/-- The context that frame `n` pushed, with the entities that were recorded while it was on top. -/
def contextOf (h : List FrameStep) (n : Nat) : Option Context :=
  (entered h)[n]?.map fun (type, columns) => ⟨type, columns, recorded n h⟩

/-- Of the open frames always the one entered last was closed. -/
def InOrder : List FrameStep → Prop
  | [] => True
  | finish n :: h | drop n :: h => (held h).head? = some n ∧ InOrder h
  | _ :: h => InOrder h

end FrameStep

open FrameStep

/-- A stack in use. -/
structure Framing where
  session : Session
  /-- The open frames with their numbers. -/
  frames : List (Nat × Frame) := []
  /-- What the closed frames took off, with their numbers, in the order of closing. -/
  closings : List (Nat × Option Context) := []

namespace Framing

variable (s : Framing)

/-- Enter a frame, which gets this number. -/
def enter (number : Nat) (type : EntityType) (columns : List String) : Framing :=
  let (frame, contexts) := s.session.contexts.enter type columns
  { s with session := { s.session with contexts }, frames := (number, frame) :: s.frames }

/-- Record an entity in the innermost context, if there is one. -/
def record (e : Entity) : Framing :=
  match s.session.contexts.record e with
  | some contexts => { s with session := { s.session with contexts } }
  | none => s

/-- Close a frame. -/
def close (n : Nat) (frame : Frame) : Framing :=
  let (context, session) := s.session.close frame
  { session, frames := s.frames.erase (n, frame), closings := s.closings ++ [(n, context)] }

end Framing

/-- Where steps can lead from a session in which no frame is open. Only open frames are closed. -/
inductive Framed (start : Session) : List FrameStep → Framing → Prop where
  | start : Framed start [] { session := start }
  | enter {h : List FrameStep} {s : Framing} (run : Framed start h s) (type : EntityType) (columns : List String) :
    Framed start (.enter type columns :: h) (s.enter (entered h).length type columns)
  | record {h : List FrameStep} {s : Framing} (run : Framed start h s) (e : Entity) :
    Framed start (.record e :: h) (s.record e)
  | finish {h : List FrameStep} {s : Framing} {n : Nat} {frame : Frame} (run : Framed start h s)
    (isOpen : (n, frame) ∈ s.frames) : Framed start (.finish n :: h) (s.close n frame)
  | drop {h : List FrameStep} {s : Framing} {n : Nat} {frame : Frame} (run : Framed start h s)
    (isOpen : (n, frame) ∈ s.frames) : Framed start (.drop n :: h) (s.close n frame)

namespace FrameStep

variable {h : List FrameStep} {n : Nat}

/-! ## The histories of frames -/

/-- Every frame's context is on the stack or was taken off, and not twice. -/
theorem taken_stacked_perm (h : List FrameStep) :
    (taken h ++ stacked h).Perm (List.range (entered h).length) := by
  induction h with
  | nil => exact .nil
  | cons step h ih =>
    cases step with
    | enter type columns =>
      simp only [taken, stacked, entered, List.length_append, List.length_singleton, List.range_succ]
      exact List.perm_middle.trans ((ih.cons _).trans (List.perm_append_singleton _ _).symm)
    | record e => exact ih
    | finish n | drop n =>
      have hparts : (stacked h).take 1 ++ (stacked h).tail = stacked h := by
        rw [← List.drop_one, List.take_append_drop]
      rw [taken, stacked, List.append_assoc, hparts]
      exact ih

theorem lt_of_mem (hn : n ∈ taken h ∨ n ∈ stacked h) : n < (entered h).length :=
  List.mem_range.1 ((taken_stacked_perm h).mem_iff.1 (List.mem_append.2 hn))

theorem nodup_taken_stacked (h : List FrameStep) : (taken h ++ stacked h).Nodup :=
  (taken_stacked_perm h).nodup_iff.2 List.nodup_range

/-- Nothing is recorded for a frame that is still to be entered. -/
theorem recorded_eq_nil (hn : (entered h).length ≤ n) : recorded n h = [] := by
  induction h with
  | nil => rfl
  | cons step h ih =>
    cases step with
    | enter type columns =>
      rw [entered, List.length_append] at hn
      exact ih (Nat.le_of_add_right_le hn)
    | record e =>
      have htop : (stacked h).head? ≠ some n := fun ht =>
        Nat.not_lt.2 hn (lt_of_mem (.inr (List.mem_of_mem_head? ht)))
      rw [recorded, ih hn, if_neg htop]
      rfl
    | finish m | drop m => exact ih hn

theorem contextOf_enter_self (h : List FrameStep) (type : EntityType) (columns : List String) :
    contextOf (enter type columns :: h) (entered h).length = some { type, columns } := by
  have hnone : recorded (entered h).length (enter type columns :: h) = [] := recorded_eq_nil (h := h) le_rfl
  simp [contextOf, entered, hnone]

theorem contextOf_enter_of_lt (hn : n < (entered h).length) (type : EntityType) (columns : List String) :
    contextOf (enter type columns :: h) n = contextOf h n := by
  rw [contextOf, entered, List.getElem?_append_left hn]
  rfl

theorem contextOf_record_top (ht : (stacked h).head? = some n) (e : Entity) :
    contextOf (record e :: h) n = (contextOf h n).map fun c => { c with created := c.created ++ [e] } := by
  rw [contextOf, contextOf, recorded, if_pos ht, Option.map_map]
  rfl

theorem contextOf_record_other (ht : (stacked h).head? ≠ some n) (e : Entity) :
    contextOf (record e :: h) n = contextOf h n := by
  rw [contextOf, recorded, if_neg ht, List.append_nil]
  rfl

theorem isSome_contextOf (hn : n < (entered h).length) : (contextOf h n).isSome = true := by
  rw [contextOf, List.getElem?_eq_getElem hn]
  rfl

/-- Finishing a frame and dropping it are the same to the history. -/
theorem closing {step : FrameStep} (hstep : step = .finish n ∨ step = .drop n) (h : List FrameStep) :
    held (step :: h) = (held h).erase n ∧ stacked (step :: h) = (stacked h).tail ∧
      taken (step :: h) = taken h ++ (stacked h).take 1 ∧ contextOf (step :: h) = contextOf h := by
  rcases hstep with rfl | rfl <;> exact ⟨rfl, rfl, rfl, rfl⟩

theorem lt_of_mem_held (hn : n ∈ held h) : n < (entered h).length := by
  induction h with
  | nil => cases hn
  | cons step h ih =>
    cases step with
    | enter type columns =>
      rw [entered, List.length_append, List.length_singleton]
      rcases List.mem_cons.1 hn with rfl | hn
      · exact Nat.lt_succ_self _
      · exact Nat.lt_succ_of_lt (ih hn)
    | record e => exact ih hn
    | finish m | drop m => exact ih (List.mem_of_mem_erase hn)

theorem nodup_held (h : List FrameStep) : (held h).Nodup := by
  induction h with
  | nil => exact .nil
  | cons step h ih =>
    cases step with
    | enter type columns => exact List.nodup_cons.2 ⟨fun hn => Nat.lt_irrefl _ (lt_of_mem_held hn), ih⟩
    | record e => exact ih
    | finish m | drop m => exact ih.erase m

/-- Frames that are closed in order leave the contexts of the open ones on the stack. -/
theorem held_eq_stacked (hin : InOrder h) : held h = stacked h := by
  induction h with
  | nil => rfl
  | cons step h ih =>
    cases step with
    | enter type columns => rw [held, stacked, ih hin]
    | record e => exact ih hin
    | finish n | drop n =>
      obtain ⟨hlast, hin⟩ := hin
      obtain ⟨rest, hrest⟩ := List.head?_eq_some_iff.1 hlast
      rw [held, stacked, ← ih hin, hrest, List.erase_cons_head, List.tail_cons]

end FrameStep

/-! ## What a run keeps -/

/-- With distinct numbers, a frame goes with its number. -/
theorem Framing.numbers_erase {frames : List (Nat × Frame)} (hd : (frames.map Prod.fst).Nodup) {q : Nat × Frame}
    (hq : q ∈ frames) : (frames.erase q).map Prod.fst = (frames.map Prod.fst).erase q.1 := by
  induction frames with
  | nil => cases hq
  | cons p rest ih =>
    obtain ⟨hp, hd⟩ := List.nodup_cons.1 hd
    rcases List.mem_cons.1 hq with rfl | hq
    · rw [List.erase_cons_head, List.map_cons, List.erase_cons_head]
    · have hne : p.1 ≠ q.1 := fun h => hp (List.mem_map.2 ⟨q, hq, h.symm⟩)
      have hne' : p ≠ q := fun h => hne (congrArg Prod.fst h)
      rw [List.erase_cons_tail (by simpa using hne'), List.map_cons, List.map_cons,
        List.erase_cons_tail (by simpa using hne), ih hd hq]

/-- The session stands as its history says. -/
structure Framing.Tracks (s : Framing) (h : List FrameStep) : Prop where
  depth : s.session.contexts.length = s.frames.length
  numbers : s.frames.map Prod.fst = held h
  contexts : s.session.contexts.map some = (stacked h).map (contextOf h)
  closings : s.closings.map Prod.snd = (taken h).map (contextOf h)

namespace Framing.Tracks

variable {s : Framing} {h : List FrameStep} {n : Nat} {frame : Frame}

theorem start {session : Session} (hempty : session.contexts = []) : Tracks { session } [] where
  depth := congrArg List.length hempty
  numbers := rfl
  contexts := congrArg (List.map some) hempty
  closings := rfl

theorem enter (hs : s.Tracks h) (type : EntityType) (columns : List String) :
    (s.enter (entered h).length type columns).Tracks (.enter type columns :: h) := by
  have hold : ∀ n, n ∈ taken h ∨ n ∈ stacked h → contextOf (.enter type columns :: h) n = contextOf h n :=
    fun n hn => contextOf_enter_of_lt (lt_of_mem hn) type columns
  refine ⟨congrArg (· + 1) hs.depth, congrArg (_ :: ·) hs.numbers, ?_, ?_⟩
  · show some _ :: s.session.contexts.map some = List.map _ (_ :: stacked h)
    rw [List.map_cons, contextOf_enter_self, hs.contexts, List.map_congr_left fun n hn => hold n (.inr hn)]
  · show s.closings.map Prod.snd = (taken h).map _
    rw [hs.closings, List.map_congr_left fun n hn => hold n (.inl hn)]

/-- With an open frame there is a context to take off, and the history knows whose it is. -/
theorem innermost (hs : s.Tracks h) (hopen : s.frames ≠ []) :
    ∃ c rest m ms, s.session.contexts = c :: rest ∧ stacked h = m :: ms ∧ contextOf h m = some c ∧
      rest.map some = ms.map (contextOf h) := by
  have hdepth := hs.depth
  have hcontexts := hs.contexts
  cases hc : s.session.contexts with
  | nil =>
    rw [hc] at hdepth
    exact absurd (List.length_eq_zero_iff.1 hdepth.symm) hopen
  | cons c rest =>
    cases hm : stacked h with
    | nil => simp [hc, hm] at hcontexts
    | cons m ms =>
      rw [hc, hm, List.map_cons, List.map_cons, List.cons.injEq] at hcontexts
      exact ⟨c, rest, m, ms, rfl, rfl, hcontexts.1.symm, hcontexts.2⟩

theorem record (hs : s.Tracks h) (e : Entity) : (s.record e).Tracks (.record e :: h) := by
  cases hc : s.session.contexts with
  | nil =>
    have hsame : s.record e = s := by rw [Framing.record, hc]; rfl
    have hnone : stacked h = [] := by simpa [hc] using hs.contexts.symm
    have hold : contextOf (.record e :: h) = contextOf h :=
      funext fun n => contextOf_record_other (by simp [hnone]) e
    rw [hsame]
    exact ⟨hs.depth, hs.numbers, by rw [hold]; exact hs.contexts, by rw [hold]; exact hs.closings⟩
  | cons c rest =>
    have hopen : s.frames ≠ [] := fun hf => by simpa [hc, hf] using hs.depth
    obtain ⟨c, rest, m, ms, hc, hm, htop, hbelow⟩ := hs.innermost hopen
    have hnow : s.record e =
        { s with session := { s.session with contexts := { c with created := c.created ++ [e] } :: rest } } := by
      rw [Framing.record, hc]
      rfl
    -- The context on top is neither below itself nor taken off.
    have hnodup := nodup_taken_stacked h
    rw [hm] at hnodup
    obtain ⟨-, hstack, hapart⟩ := List.nodup_append.1 hnodup
    have hother : ∀ n, n ∈ taken h ∨ n ∈ ms → contextOf (.record e :: h) n = contextOf h n := by
      intro n hn
      refine contextOf_record_other (fun hhead => ?_) e
      obtain rfl : m = n := by simpa [hm] using hhead
      rcases hn with hn | hn
      · exact hapart m hn m List.mem_cons_self rfl
      · exact (List.nodup_cons.1 hstack).1 hn
    rw [hnow]
    refine ⟨?_, hs.numbers, ?_, ?_⟩
    · show rest.length + 1 = s.frames.length
      rw [← hs.depth, hc, List.length_cons]
    · show some _ :: rest.map some = (stacked h).map _
      rw [hm, List.map_cons, contextOf_record_top (by rw [hm]; rfl), htop, hbelow,
        List.map_congr_left fun n hn => hother n (.inr hn)]
      rfl
    · show s.closings.map Prod.snd = (taken h).map _
      rw [hs.closings, List.map_congr_left fun n hn => hother n (.inl hn)]

theorem nodup_numbers (hs : s.Tracks h) : (s.frames.map Prod.fst).Nodup := hs.numbers ▸ nodup_held h

/-- Closing an open frame, by finishing or by dropping it. -/
theorem close (hs : s.Tracks h) (isOpen : (n, frame) ∈ s.frames) {step : FrameStep}
    (hstep : step = .finish n ∨ step = .drop n) : (s.close n frame).Tracks (step :: h) := by
  obtain ⟨c, rest, m, ms, hc, hm, htop, hbelow⟩ := hs.innermost (List.ne_nil_of_mem isOpen)
  obtain ⟨hcontext, hrest⟩ := Session.close_eq hc frame
  obtain ⟨hheld, hstacked, htaken, hold⟩ := closing hstep h
  refine ⟨?_, ?_, ?_, ?_⟩
  · show (s.session.close frame).2.contexts.length = (s.frames.erase (n, frame)).length
    rw [hrest, List.length_erase_of_mem isOpen, ← hs.depth, hc, List.length_cons, Nat.add_sub_cancel]
  · show (s.frames.erase (n, frame)).map Prod.fst = _
    rw [hheld, ← hs.numbers, numbers_erase hs.nodup_numbers isOpen]
  · show (s.session.close frame).2.contexts.map some = _
    rw [hrest, hstacked, hold, hm, List.tail_cons, hbelow]
  · show (s.closings ++ [(n, (s.session.close frame).1)]).map Prod.snd = _
    rw [List.map_append, hs.closings, hcontext, htaken, hold, hm, List.map_append]
    exact congrArg (_ ++ [·]) htop.symm

end Framing.Tracks

variable {start : Session} {h : List FrameStep} {s : Framing}

theorem Framed.tracks (hempty : start.contexts = []) (run : Framed start h s) : s.Tracks h := by
  induction run with
  | start => exact .start hempty
  | enter run type columns ih => exact ih.enter type columns
  | record run e ih => exact ih.record e
  | finish run isOpen ih => exact ih.close isOpen (.inl rfl)
  | drop run isOpen ih => exact ih.close isOpen (.inr rfl)

/-! ## Closing in order -/

/-- Every frame knows the depth at which its context is, as long as frames are closed in order. -/
def Framing.Leveled : List (Nat × Frame) → Prop
  | [] => True
  | q :: rest => q.2.depth = rest.length + 1 ∧ Leveled rest

/-- What a run in order keeps: frames took off their own contexts, and nothing was reported. -/
structure Framing.Settled (start : Session) (h : List FrameStep) (s : Framing) : Prop where
  own : s.closings.map Prod.fst = taken h
  leveled : Leveled s.frames
  quiet : s.session.store = start.store

namespace Framing.Settled

variable {n : Nat} {frame : Frame}

theorem enter (hs : Settled start h s) (ht : s.Tracks h) (type : EntityType) (columns : List String) :
    Settled start (.enter type columns :: h) (s.enter (entered h).length type columns) where
  own := hs.own
  leveled := ⟨congrArg (· + 1) ht.depth, hs.leveled⟩
  quiet := hs.quiet

theorem record (hs : Settled start h s) (e : Entity) : Settled start (.record e :: h) (s.record e) := by
  unfold Framing.record
  split
  · exact ⟨hs.own, hs.leveled, hs.quiet⟩
  · exact ⟨hs.own, hs.leveled, hs.quiet⟩

/-- The frame entered last is on top, and closing it reports nothing. -/
theorem close (hs : Settled start h s) (ht : s.Tracks h) (isOpen : (n, frame) ∈ s.frames)
    (hlast : (held h).head? = some n) (hin : InOrder h) {step : FrameStep}
    (hstep : step = .finish n ∨ step = .drop n) : Settled start (step :: h) (s.close n frame) := by
  obtain ⟨-, -, htaken, -⟩ := closing hstep h
  obtain ⟨ms, hms⟩ := List.head?_eq_some_iff.1 hlast
  obtain ⟨rest, hrest⟩ : ∃ rest, s.frames = (n, frame) :: rest := by
    cases hf : s.frames with
    | nil => rw [hf] at isOpen; cases isOpen
    | cons q rest =>
      have hnumbers := ht.numbers
      have hnodup := ht.nodup_numbers
      rw [hf, List.map_cons] at hnumbers hnodup
      rw [hms, List.cons.injEq] at hnumbers
      rw [hf] at isOpen
      rcases List.mem_cons.1 isOpen with rfl | hmem
      · exact ⟨rest, rfl⟩
      · exact absurd (List.mem_map.2 ⟨_, hmem, hnumbers.1.symm⟩) (List.nodup_cons.1 hnodup).1
  obtain ⟨hdepth, hleveled⟩ : Leveled ((n, frame) :: rest) := hrest ▸ hs.leveled
  have hreport : s.session.contexts.closingReport frame = [] := by
    rw [ContextStack.closingReport, if_pos]
    rw [ht.depth, hrest, hdepth, List.length_cons]
  refine ⟨?_, ?_, ?_⟩
  · show (s.closings ++ [(n, _)]).map Prod.fst = _
    rw [List.map_append, hs.own, htaken, ← held_eq_stacked hin, hms]
    rfl
  · show Leveled (s.frames.erase (n, frame))
    rw [hrest, List.erase_cons_head]
    exact hleveled
  · show (s.session.noteAll (s.session.contexts.closingReport frame)).store = _
    rw [hreport]
    exact hs.quiet

end Framing.Settled

theorem Framed.settled (hempty : start.contexts = []) (run : Framed start h s) (hin : InOrder h) :
    s.Settled start h := by
  induction run with
  | start => exact ⟨rfl, trivial, rfl⟩
  | enter run type columns ih => exact (ih hin).enter (run.tracks hempty) type columns
  | record run e ih => exact (ih hin).record e
  | finish run isOpen ih => exact (ih hin.2).close (run.tracks hempty) isOpen hin.1 hin.2 (.inl rfl)
  | drop run isOpen ih => exact (ih hin.2).close (run.tracks hempty) isOpen hin.1 hin.2 (.inr rfl)

/-- In whatever order frames are closed, there are as many contexts as open frames, closing a frame takes a context
off, and every context that was pushed is still there or came off once, with all that was recorded while it was on
top. If it was always the frame entered last that was closed, each took off the context it had pushed, and no closing
was reported. -/
theorem frames_take_contexts_off (hempty : start.contexts = []) (run : Framed start h s) :
    s.session.contexts.length = s.frames.length ∧
    (∀ r ∈ s.closings, r.2.isSome = true) ∧
    (s.frames = [] → s.session.contexts = []) ∧
    (s.closings.map Prod.snd ++ s.session.contexts.map some).Perm
      ((List.range (entered h).length).map (contextOf h)) ∧
    (InOrder h → (∀ r ∈ s.closings, r.2 = contextOf h r.1) ∧ s.session.store = start.store) := by
  have ht := run.tracks hempty
  refine ⟨ht.depth, fun r hr => ?_, fun hclosed => ?_, ?_, fun hin => ⟨?_, ?_⟩⟩
  · have hmem : r.2 ∈ (taken h).map (contextOf h) := ht.closings ▸ List.mem_map_of_mem hr
    obtain ⟨n, hn, hcontext⟩ := List.mem_map.1 hmem
    exact hcontext ▸ isSome_contextOf (lt_of_mem (.inl hn))
  · refine List.length_eq_zero_iff.1 ?_
    rw [ht.depth, hclosed, List.length_nil]
  · rw [ht.closings, ht.contexts, ← List.map_append]
    exact (taken_stacked_perm h).map _
  · have hpairs := ht.closings
    rw [← (run.settled hempty hin).own, List.map_map] at hpairs
    exact List.map_inj_left.1 hpairs
  · exact (run.settled hempty hin).quiet

/-- A table opened within another takes its own row off when it is closed first, and the outer one the rest. -/
theorem inner_table_closed_first :
    let user := EntityType.new "User"
    let task := EntityType.new "Task"
    let ann : Entity := ⟨"User", [("id", .integer 1)]⟩
    let mow : Entity := ⟨"Task", [("id", .integer 1)]⟩
    let bob : Entity := ⟨"User", [("id", .integer 2)]⟩
    let h : List FrameStep :=
      [.drop 0, .record bob, .finish 1, .record mow, .enter task ["id"], .record ann, .enter user ["id"]]
    InOrder h ∧ ∃ s, Framed {} h s ∧
      s.closings = [(1, some ⟨task, ["id"], [mow]⟩), (0, some ⟨user, ["id"], [ann, bob]⟩)] ∧
      s.session.contexts = [] ∧ s.session.store.journal = #[] := by
  intro user task ann mow bob h
  have hin : InOrder h := ⟨rfl, rfl, trivial⟩
  have inside : Framed {} [.record mow, .enter task ["id"], .record ann, .enter user ["id"]] _ :=
    (((Framed.start.enter user ["id"]).record ann).enter task ["id"]).record mow
  have run : Framed {} h _ :=
    ((inside.finish List.mem_cons_self).record bob).drop List.mem_cons_self
  obtain ⟨-, -, hclosed, -, hown⟩ := frames_take_contexts_off rfl run
  obtain ⟨-, hquiet⟩ := hown hin
  exact ⟨hin, _, run, rfl, hclosed rfl, congrArg Store.journal hquiet⟩

end Fixtures
