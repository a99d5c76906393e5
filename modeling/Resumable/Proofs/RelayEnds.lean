import Resumable.Proofs.RelayTurns

set_option autoImplicit false

/-!
# The last turn

How a generator that passes on the items of its argument comes to its end when there is no item.
-/

namespace Resumable

variable {e : Engine} {v x it closure : Value} {w w' s t u : World} {g : GeneratorRef} {r : FrameRef}
  {c : CodeRef} {y z : Exception} {given : Option Value} {n m : Nat}

open Engine (Exhausted FailedWith Echoes)

/-! ## An iterator that has run dry -/

namespace Engine

/-- Asked for the next item, an iterator has none, and nothing comes with that. -/
def RunsDry (e : Engine) (it : Value) (w s : World) : Prop :=
  e.pull it w = .ok none s ∨
    ∃ y, e.pull it w = .error (.raised y) s ∧ y.kind = .stopIteration ∧ Value.objectsOfAll y.args = []

/-- Asked by a loop. -/
theorem nextItem_of_runsDry (hit : w.Pullable it) (h : e.RunsDry it w s) :
    e.nextItem it w = .ok none s := by
  cases it with
  | generator j =>
      show e.nextOrEnd j w = _
      unfold nextOrEnd
      unfold RunsDry at h
      rw [pull_generator] at h
      rw [Run.bind_apply, Run.attempt_apply]
      rcases hnext : e.next j w with ⟨a, t⟩ | ⟨y | _ | _, t⟩ <;> rw [hnext] at h <;>
        rcases h with h | ⟨_, h, hstop, hbare⟩ <;> cases h
      simp only
      rw [if_pos hstop]
      exact Run.bind_ok (releaseAll_of_objects_nil hbare _)
  | iterator i =>
      obtain ⟨l, k, hlist⟩ := hit
      unfold RunsDry at h
      rw [pull_list hlist] at h
      rcases h with h | ⟨_, h, -⟩
      · exact (pull_list hlist).trans h
      · cases h
  | _ => exact hit.elim

theorem nextItem_of_failed (hit : w.Pullable it) (h : e.pull it w = .error (.raised y) s)
    (hkind : y.kind ≠ .stopIteration) : e.nextItem it w = .error (.raised y) s := by
  cases it with
  | generator j =>
      show e.nextOrEnd j w = _
      unfold nextOrEnd
      rw [pull_generator] at h
      rw [Run.bind_apply, Run.attempt_apply]
      rcases hnext : e.next j w with ⟨a, t⟩ | ⟨_ | _ | _, t⟩ <;> rw [hnext] at h <;> cases h
      simp only
      rw [if_neg hkind]
      rfl
  | iterator i => exact h
  | _ => exact hit.elim

end Engine

namespace Machine

/-- Asked by a delegation. -/
theorem sendInto_of_runsDry (hit : w.Pullable it) (h : (engine (n + 1)).RunsDry it w s) :
    ∃ result : Value, result.objects = [] ∧
      (engine (n + 1)).sendInto it .none w = .ok (.finished result) s := by
  cases it with
  | generator j =>
      unfold Engine.sendInto
      simp only [Run.bind_apply, Run.attempt_apply, send_eq_pull hit]
      rcases h with h | ⟨y, h, hstop, hbare⟩ <;> rw [h]
      · exact ⟨.none, rfl, rfl⟩
      · have hvalue : y.stopValue.objects = [] := by
          unfold Exception.stopValue
          cases hargs : y.args with
          | nil => rfl
          | cons a as =>
              rw [hargs, Value.objectsOfAll] at hbare
              exact (List.append_eq_nil_iff.1 hbare).1
        refine ⟨y.stopValue, hvalue, ?_⟩
        simp only
        rw [if_pos hstop]
        unfold Engine.takeStopValue World.share
        simp only [Run.bind_apply, Run.modify_apply, World.retain_of_objects_nil _ hvalue]
        rw [show (engine (n + 1)).releaseException y s = _ from releaseAll_of_objects_nil hbare s]
        rfl
  | iterator i =>
      obtain ⟨l, k, hlist⟩ := hit
      unfold Engine.RunsDry at h
      rw [Engine.pull_list hlist] at h
      refine ⟨.none, rfl, ?_⟩
      rw [Engine.sendInto_of_list hlist]
      rcases h with h | ⟨_, h, -⟩
      · obtain ⟨hnone, rfl⟩ := EStateM.Result.ok.inj h
        rw [hnone]
        rfl
      · cases h
  | _ => exact hit.elim

theorem sendInto_of_failed (hit : w.Pullable it) (h : (engine (n + 1)).pull it w = .error (.raised y) s)
    (hkind : y.kind ≠ .stopIteration) :
    (engine (n + 1)).sendInto it .none w = .error (.raised y) s := by
  cases it with
  | generator j =>
      unfold Engine.sendInto
      simp only [Run.bind_apply, Run.attempt_apply, send_eq_pull hit, h]
      rw [if_neg hkind]
      rfl
  | iterator i =>
      obtain ⟨l, k, hlist⟩ := hit
      rw [Engine.pull_list hlist] at h
      cases h
  | _ => exact hit.elim

end Machine

/-! ## The bodies at their end -/

/-- The frame of a body that has come to its end: it still holds the argument. -/
def Frame.spent (c : CodeRef) (x : Value) : Frame := (Frame.new c [x]).markFinished

namespace Exec

/-- An exception leaves a frame without handlers, which forgets what is on its stack. -/
theorem unwind_of_released {a : Activation} (hblocks : a.frame.blocks = [])
    (hreleased : e.releaseAll (a.frame.above 0) w = .ok () t) :
    unwind e y (a, w) = .error (.raised (y.pushEntry (w.placeIn a.frame.code (a.counter - 1))))
      ({ a with frame := (a.frame.truncate 0).markFinished }, t) := by
  rw [unwind_unhandled hblocks, cutDown, Run.onInterruption_ok hreleased]

section Loop

variable {position : Int}

/-- The loop is left, and its iterator is forgotten. -/
theorem forIter_of_none (hnone : e.nextItem it (w.retain it) = .ok none s)
    (hkept : e.release it s = .ok () t) (hasked : e.release it t = .ok () u) :
    execute e .looping closure (.forIter 3) (pastInstruction (looping c x it position, w)) =
      .ok none (⟨{ Frame.new c [x] with position := position }, 6, .none⟩, u) := by
  let left : Activation := ⟨{ Frame.new c [x] with position := position }, 3, .none⟩
  have hlands : Lands left 3 :=
    ⟨show (0 : Int) ≤ 3 + 3 by decide, show (3 + 3 : Int) ≤ Frame.greatestPosition by decide⟩
  have hleft : (do
      release e (← pop)
      jump 3 : Exec Unit) (⟨{ Frame.new c [x] with position := position, stack := [it] }, 3, .none⟩, s) =
        .ok () ({ left with counter := 6 }, t) :=
    (Run.bind_ok (shared_ok hkept left)).trans (jump_of_lands hlands t)
  refine Run.bind_ok (a := ()) (Run.ensuring_ok (t := (_, t)) ?_ (shared_ok hasked _))
  exact (Run.bind_ok (shared_ok hnone _)).trans hleft

/-- An exception leaves the loop. -/
theorem forIter_of_raised (hraised : e.nextItem it (w.retain it) = .error (.raised y) s)
    (hasked : e.release it s = .ok () t) :
    execute e .looping closure (.forIter 3) (pastInstruction (looping c x it position, w)) =
      .error (.raised y) (⟨{ Frame.new c [x] with position := position, stack := [it] }, 3, .none⟩, t) :=
  Run.bind_error (Run.ensuring_raised (t := (_, s)) (Run.bind_error (shared_error hraised _))
    (shared_ok hasked _))

end Loop

end Exec

namespace Code.Program

variable {first second last : World}

/-- The body that loops returns if its iterator has run dry. -/
theorem looping_dry (hiter : World.iteratorOf x given w = .ok it s) (hit : (s.retain it).Pullable it)
    (hdry : e.RunsDry it (s.retain it) t) (hkept : e.release it t = .ok () first)
    (hasked : e.release it first = .ok () second) (hfuel : 5 ≤ e.fuel) :
    looping.resume e closure none (.looping c x given, w) =
      .ok (.returned .none) (.spent c x, second) := by
  obtain ⟨n, hn⟩ : ∃ n, e.fuel = n + 5 := ⟨_, (Nat.sub_add_cancel hfuel).symm⟩
  obtain ⟨position, hstarted⟩ := Exec.resume_looping (c := c) closure hiter hn
  have hleft : Exec.execute e .looping closure (.forIter 3)
      (Exec.pastInstruction (Exec.looping c x it position, s)) =
        .ok none (⟨{ Frame.new c [x] with position := position }, 6, .none⟩, second) :=
    Exec.forIter_of_none (Engine.nextItem_of_runsDry hit hdry) hkept hasked
  have hran : Exec.run e .looping closure (n + 3) (Exec.looping c x it position, s) =
      .ok (.returned .none) (⟨.spent c x, 8, .none⟩, second) :=
    (Exec.run_next (i := .forIter 3) rfl hleft).trans ((Exec.run_next (i := .loadConst 0) rfl rfl).trans
      (Exec.run_last (i := .returnValue) rfl rfl))
  rw [resume_apply (Frame.looping_started c x given), hstarted.trans hran]
  rfl

/-- The body that loops passes an exception on. -/
theorem looping_failed (hiter : World.iteratorOf x given w = .ok it s) (hit : (s.retain it).Pullable it)
    (hraised : e.pull it (s.retain it) = .error (.raised y) t) (hkind : y.kind ≠ .stopIteration)
    (hasked : e.release it t = .ok () first) (hkept : e.release it first = .ok () second)
    (hfuel : 3 ≤ e.fuel) :
    looping.resume e closure none (.looping c x given, w) =
      .error (.raised (y.pushEntry (first.placeIn c 2))) (.spent c x, second) := by
  obtain ⟨n, hn⟩ : ∃ n, e.fuel = n + 3 := ⟨_, (Nat.sub_add_cancel hfuel).symm⟩
  obtain ⟨position, hstarted⟩ := Exec.resume_looping (c := c) closure hiter hn
  have hleft : Exec.execute e .looping closure (.forIter 3)
      (Exec.pastInstruction (Exec.looping c x it position, s)) =
        .error (.raised y) (⟨{ Frame.new c [x] with position := position, stack := [it] }, 3, .none⟩, first) :=
    Exec.forIter_of_raised (Engine.nextItem_of_failed hit hraised hkind) hasked
  have hran := (hstarted.trans (Exec.run_raised (n := n) (i := .forIter 3) rfl hleft)).trans
    (Run.bind_error (Exec.unwind_of_released rfl ((congrFun (Engine.releaseAll_singleton e it) _).trans hkept)))
  rw [resume_apply (Frame.looping_started c x given), hran]
  rfl

/-- There is nothing to loop over. -/
theorem looping_refused (hx : x.NotIterable y) (halive : ∀ o ∈ x.objects, 1 ≤ w.owners o)
    (hfuel : 2 ≤ e.fuel) :
    looping.resume e closure none (.looping c x none, w) =
      .error (.raised (y.pushEntry (w.placeIn c 1))) (.spent c x, w) := by
  obtain ⟨n, hn⟩ : ∃ n, e.fuel = n + 2 := ⟨_, (Nat.sub_add_cancel hfuel).symm⟩
  have hrefused : (Exec.owning e x (do Exec.push (← Run.shared (World.getIter x))) : Exec Unit)
      (⟨.new c [x], 2, .none⟩, w.retain x) = .error (.raised y) (⟨.new c [x], 2, .none⟩, w) :=
    Run.ensuring_raised (Run.bind_error (Exec.shared_error (hx.raises _) _))
      (Exec.shared_ok (Engine.release_retain halive) _)
  have hexecuted := Run.bind_error (f := fun _ => (pure none : Exec (Option Suspension))) hrefused
  have hstarted : Exec.resume e .looping closure none (activate (.looping c x none), w) =
      Exec.run e .looping closure (n + 1) (⟨{ Frame.new c [x] with stack := [x] }, 1, .none⟩, w.retain x) := by
    calc
      _ = Exec.run e .looping closure (n + 2) (⟨.new c [x], 0, .none⟩, w) := by
          rw [← hn]
          rfl
      _ = _ := Exec.run_next rfl rfl
  have hran := (hstarted.trans (Exec.run_raised (n := n) (i := .getIter) rfl hexecuted)).trans
    (Run.bind_error (Exec.unwind_of_released rfl rfl))
  rw [resume_apply (Frame.looping_started c x none), hran]
  rfl

/-- The delegate of the body has run dry: its frame is to be told so, and keeps it until then. -/
theorem delegating_dry (hiter : World.iteratorOf x given w = .ok it s) (hit : (s.retain it).Pullable it)
    (hdry : (Machine.engine (n + 3)).RunsDry it (s.retain it) t)
    (hasked : (Machine.engine (n + 3)).release it t = .ok () first) :
    ∃ result : Value, result.objects = [] ∧
      delegating.resume (Machine.engine (n + 3)) closure none (.delegating c x given, w) =
        .ok (.delegateExhausted result) (.delegating c x (some it), first) := by
  obtain ⟨k, a, u, hstarted, hcounter, hyields⟩ := Exec.resume_delegating (e := Machine.engine (n + 3))
    (c := c) (n := n + 1) closure hiter rfl
  obtain ⟨result, hresult, hsent⟩ := Machine.sendInto_of_runsDry hit hdry
  refine ⟨result, hresult, ?_⟩
  have hi : delegating.instructions[a.counter]? = some .yieldFrom := by rw [hcounter]; rfl
  have hconversed : Exec.converse (Machine.engine (n + 3)) it .none (Exec.relaying c x it, s.retain it) =
      .ok (.delegateExhausted result) (Exec.relaying c x it, t) := by
    unfold Exec.converse
    rw [Run.bind_apply]
    simp only [Run.attempt, Exec.shared_ok hsent]
    rfl
  have hexhausted : Exec.execute (Machine.engine (n + 3)) delegating closure .yieldFrom
      (Exec.pastInstruction (a, u)) =
        .ok (some (.delegateExhausted result)) (Exec.relaying c x it, first) := by
    rw [hyields, ← bind_pure_comp]
    exact Run.bind_ok (Run.ensuring_ok hconversed (Exec.shared_ok hasked _))
  rw [resume_apply (Frame.delegating_started c x given), hstarted.trans (Exec.run_last hi hexhausted)]
  rfl

/-- The body that delegates passes an exception on. -/
theorem delegating_failed (hiter : World.iteratorOf x given w = .ok it s) (hit : (s.retain it).Pullable it)
    (hraised : (Machine.engine (n + 3)).pull it (s.retain it) = .error (.raised y) t)
    (hkind : y.kind ≠ .stopIteration)
    (hkept : (Machine.engine (n + 3)).release it t = .ok () first)
    (hasked : (Machine.engine (n + 3)).release it first = .ok () second) :
    delegating.resume (Machine.engine (n + 3)) closure none (.delegating c x given, w) =
      .error (.raised (y.pushEntry (second.placeIn c 1))) (.spent c x, second) := by
  obtain ⟨k, a, u, hstarted, hcounter, hyields⟩ := Exec.resume_delegating (e := Machine.engine (n + 3))
    (c := c) (n := n + 1) closure hiter rfl
  have hi : delegating.instructions[a.counter]? = some .yieldFrom := by rw [hcounter]; rfl
  have hconversed : Exec.converse (Machine.engine (n + 3)) it .none (Exec.relaying c x it, s.retain it) =
      .error (.raised y) ({ Exec.relaying c x it with frame := (Exec.relaying c x it).frame.removeDelegate.1 },
        first) := by
    unfold Exec.converse
    rw [Run.bind_apply]
    simp only [Run.attempt, Exec.shared_error (Machine.sendInto_of_failed hit hraised hkind)]
    exact Run.bind_ok (Exec.shared_ok ((congrFun (Engine.releaseAll_singleton _ it) _).trans hkept) _)
  have hfailed : Exec.execute (Machine.engine (n + 3)) delegating closure .yieldFrom
      (Exec.pastInstruction (a, u)) = .error (.raised y)
        ({ Exec.relaying c x it with frame := (Exec.relaying c x it).frame.removeDelegate.1 }, second) := by
    rw [hyields, ← bind_pure_comp]
    exact Run.bind_error (Run.ensuring_raised hconversed (Exec.shared_ok hasked _))
  have hran := (hstarted.trans (Exec.run_raised (n := k) hi hfailed)).trans
    (Run.bind_error (Exec.unwind_of_released rfl rfl))
  rw [resume_apply (Frame.delegating_started c x given), hran]
  rfl

/-- There is nothing to delegate to. -/
theorem delegating_refused (hx : x.NotIterable y) (halive : ∀ o ∈ x.objects, 1 ≤ w.owners o)
    (hfuel : 2 ≤ e.fuel) :
    delegating.resume e closure none (.delegating c x none, w) =
      .error (.raised (y.pushEntry (w.placeIn c 1))) (.spent c x, w) := by
  obtain ⟨n, hn⟩ : ∃ n, e.fuel = n + 2 := ⟨_, (Nat.sub_add_cancel hfuel).symm⟩
  have hrefused : (Exec.owning e x (Run.shared (World.getIter x)) : Exec Value)
      (⟨.new c [x], 2, .none⟩, w.retain x) = .error (.raised y) (⟨.new c [x], 2, .none⟩, w) :=
    Run.ensuring_raised (Exec.shared_error (hx.raises _) _)
      (Exec.shared_ok (Engine.release_retain halive) _)
  have hdelegated : Exec.delegate e (⟨{ Frame.new c [x] with stack := [x] }, 2, .none⟩, w.retain x) =
      .error (.raised y) (⟨.new c [x], 2, .none⟩, w) := by
    rw [Exec.delegate_of_none rfl]
    exact (Run.bind_error hrefused :)
  have hyielded : Exec.execute e .delegating closure .yieldFrom
      (⟨{ Frame.new c [x] with stack := [x] }, 2, .none⟩, w.retain x) =
        .error (.raised y) (⟨.new c [x], 2, .none⟩, w) := by
    show (some <$> Exec.yieldFrom e) _ = _
    rw [← bind_pure_comp]
    exact Run.bind_error (Run.bind_error hdelegated)
  have hstarted : Exec.resume e .delegating closure none (activate (.delegating c x none), w) =
      Exec.run e .delegating closure (n + 1)
        (⟨{ Frame.new c [x] with stack := [x] }, 1, .none⟩, w.retain x) := by
    calc
      _ = Exec.run e .delegating closure (n + 2) (⟨.new c [x], 0, .none⟩, w) := by
          rw [← hn]
          rfl
      _ = _ := Exec.run_next rfl rfl
  have hran := (hstarted.trans (Exec.run_raised (n := n) (i := .yieldFrom) rfl hyielded)).trans
    (Run.bind_error (Exec.unwind_of_released rfl rfl))
  rw [resume_apply (Frame.delegating_started c x none), hran]
  rfl

/-- The body that delegates returns once it was told that its delegate has run dry. -/
theorem undelegated_dry {result : Value} (hresult : result.objects = []) (hfuel : 3 ≤ e.fuel) :
    delegating.resume e closure none (.undelegated c x result, w) = .ok (.returned .none) (.spent c x, w) := by
  obtain ⟨n, hn⟩ : ∃ n, e.fuel = n + 3 := ⟨_, (Nat.sub_add_cancel hfuel).symm⟩
  let popped : Activation := ⟨{ Frame.new c [x] with position := 2 }, 3, .none⟩
  have hpopped : Exec.execute e delegating closure .popTop
      (Exec.pastInstruction (⟨{ Frame.new c [x] with position := 2, stack := [result] }, 2, .none⟩, w)) =
        .ok none (popped, w) :=
    Run.bind_ok (a := ()) (Exec.shared_ok (e.release_of_objects_nil hresult w) popped)
  have hran : Exec.resume e delegating closure none (activate (.undelegated c x result), w) =
      .ok (.returned .none) (⟨.spent c x, 5, .none⟩, w) := by
    calc
      _ = Exec.run e delegating closure (n + 3)
            (⟨{ Frame.new c [x] with position := 2, stack := [result] }, 2, .none⟩, w) := by
          rw [← hn]
          rfl
      _ = Exec.run e delegating closure (n + 2) (popped, w) := Exec.run_next (i := .popTop) rfl hpopped
      _ = _ := (Exec.run_next (i := .loadConst 0) rfl rfl).trans (Exec.run_last (i := .returnValue) rfl rfl)
  rw [resume_apply (show (0 : Int) ≤ 2 by decide), hran]
  rfl

end Code.Program

/-! ## The last turn -/

/-- What is left of a turn is to forget the frame. -/
def Engine.LastTurn (e : Engine) (g : GeneratorRef) (r : FrameRef) (w : World) (z : Exception) (t : World) : Prop :=
  e.resume g .none w = (Run.raise z : Run World Value).ensuring (e.release (.frame r)) t

/-- The body of a generator runs, which has one holder, and the frame is shared. -/
structure World.Working (w : World) (g : GeneratorRef) (r : FrameRef) (c : CodeRef) : Prop where
  record : w.generator g = ⟨c, .none, some r, true⟩
  generators : w.owners (.generator g) = 1
  frames : 2 ≤ w.owners (.frame r)

/-- A generator is at its end but for the frame, which has one holder left and holds the argument. -/
structure World.Parted (w : World) (g : GeneratorRef) (r : FrameRef) (c : CodeRef) (x : Value) : Prop where
  record : w.generator g = ⟨c, .none, none, false⟩
  frame : w.frame? r = some (.spent c x)
  generators : w.owners (.generator g) = 1
  frames : w.owners (.frame r) = 1

namespace World.Working

variable (h : u.Working g r c)

include h

theorem of_keeps (hkeeps : u.Keeps (Own g r) t) : t.Working g r c where
  record := (hkeeps.generator own_generator).trans h.record
  generators := (hkeeps.owners own_generator).trans h.generators
  frames := (hkeeps.owners own_frame).symm ▸ h.frames

/-- The generator and its frame are all that changes when the body has come to its end, but for the level. -/
theorem agreeBut_ended (f : Frame) : u.left.AgreeBut (Own g r) (u.ended g r f) := by
  have hgenerators := h.generators
  have hframes := h.frames
  have hput : u.AgreeBut (Own g r) (u.setFrame r (some f)) := .of_setFrame own_frame (by omega) _
  have hsettled : (u.setFrame r (some f)).AgreeBut (Own g r) (u.settled g r f) :=
    .of_setGenerator own_generator (by simp [hgenerators]) _
  have hframeless : (u.settled g r f).AgreeBut (Own g r) ((u.settled g r f).frameless g) :=
    .of_setGenerator own_generator (by simp [hgenerators]) _
  have hforgotten : ((u.settled g r f).frameless g).AgreeBut (Own g r)
      (((u.settled g r f).frameless g).setOwners (u.owners (.frame r) - 1) (.frame r)) :=
    .of_setOwners own_frame (by simp [World.frameless]; omega) _
  exact (((hput.trans hsettled).trans hframeless).trans hforgotten).left

variable {f : Frame}

theorem lastTurn_of_returned (hrest : w.AtRest g r f) (hroom : w.thread.depth < w.thread.limit)
    (hbody : e.bodyOf w g (f, w.underway g r) = .ok (.returned .none) (.spent c x, u)) :
    e.LastTurn g r w .stopIteration (u.ended g r (.spent c x)) := by
  have hturn := resumeFrame_of_returned (v := .none) hrest (by rw [h.record]) rfl rfl h.frames hbody
  rw [Engine.LastTurn, resume_of_turnsOut (.raised hrest.idle hrest.slot hroom hturn), World.forgottenAfter,
    hrest.slot, ← Engine.releaseAll_singleton]
  rfl

theorem lastTurn_of_raised (hrest : w.AtRest g r f) (hroom : w.thread.depth < w.thread.limit)
    (hbody : e.bodyOf w g (f, w.underway g r) = .error (.raised z) (.spent c x, u)) :
    e.LastTurn g r w z (u.ended g r (.spent c x)) := by
  have hturn := resumeFrame_of_raised (v := .none) hrest (by rw [h.record]) rfl rfl h.frames hbody
  rw [Engine.LastTurn, resume_of_turnsOut (.raised hrest.idle hrest.slot hroom hturn), World.forgottenAfter,
    hrest.slot, ← Engine.releaseAll_singleton]
  rfl

theorem parted_ended (htwo : u.owners (.frame r) = 2) : (u.ended g r (.spent c x)).Parted g r c x where
  record := by rw [generator_ended, if_pos rfl, h.record]
  frame := by rw [frame_ended, if_pos rfl]
  generators := by rw [owners_ended, if_neg nofun, h.generators]
  frames := by rw [owners_ended, if_pos rfl, htwo]

end World.Working

/-! ## An iterator without an item -/

namespace Engine

/-- No item comes: the exception that says so, or says why, and the world in which the iterator is forgotten. -/
inductive Dries (e : Engine) (x : Value) (w : World) : Option Value → Exception → World → Prop where
  /-- there is no iterator -/
  | refused {y : Exception} (hx : x.NotIterable y) : Dries e x w none y w
  /-- the iterator has run dry -/
  | dry {given : Option Value} {it : Value} {s t first second : World}
      (hiter : World.iteratorOf x given w = .ok it s) (hdry : e.RunsDry it (s.retain it) t)
      (hfirst : e.release it t = .ok () first) (hsecond : e.release it first = .ok () second) :
      Dries e x w given .stopIteration second
  /-- the iterator raises -/
  | failed {given : Option Value} {it : Value} {s t first second : World} {y : Exception}
      (hiter : World.iteratorOf x given w = .ok it s)
      (hraised : e.pull it (s.retain it) = .error (.raised y) t) (hkind : y.kind ≠ .stopIteration)
      (hfirst : e.release it t = .ok () first) (hsecond : e.release it first = .ok () second) :
      Dries e x w given y second

end Engine

theorem Exception.holds_of_bare (h : Value.objectsOfAll y.args = []) : holds y = 0 := by
  have hobjects : (holds y : Bag) = Bag.of (Value.objectsOfAll y.args) := rfl
  rw [hobjects, h]
  rfl

namespace Relay

variable {P : Relay} {F : Bag}

/-- What is known of a world in which the iterator was asked. -/
structure Pulled (w w' t t' : World) (g : GeneratorRef) (r : FrameRef) (x it : Value) (B : Bag) : Prop where
  agrees : t.AgreeBut (World.Own g r) t'
  keeps : (w.underway g r).Keeps (World.Own g r) t
  secludes : t.Secludes (World.Own g r) (holds it + (holds it + (B + holds x)))
  unheld : ∀ o, World.Own g r o → holds it o = 0

/-- The iterator is forgotten. -/
theorem Pulled.forgets {B : Bag} {t' first second : World} (h : Pulled w w' t t' g r x it B)
    (hfirst : (Machine.engine n).release it t = .ok () first)
    (hsecond : (Machine.engine n).release it first = .ok () second) :
    ∃ first' second', (Machine.engine n).release it t' = .ok () first' ∧
      (Machine.engine n).release it first' = .ok () second' ∧ second.AgreeBut (World.Own g r) second' ∧
      (w.underway g r).Keeps (World.Own g r) first ∧ (w.underway g r).Keeps (World.Own g r) second ∧
      first.Secludes (World.Own g r) (holds it + (B + holds x)) ∧
      second.Secludes (World.Own g r) (B + holds x) := by
  obtain ⟨first', hfirst', hagree, hkeeps, -, hsecludes⟩ := h.secludes.release h.unheld h.agrees hfirst
  obtain ⟨second', hsecond', hagree', hkeeps', -, hsecludes'⟩ := hsecludes.release h.unheld hagree hsecond
  exact ⟨first', second', hfirst', hsecond', hagree', h.keeps.trans hkeeps, (h.keeps.trans hkeeps).trans hkeeps',
    hsecludes, hsecludes'⟩

section Asking

variable (h : P.Poised w F g r c x given) (hP : P.Framed) (hagree : w.AgreeBut (World.Own g r) w')

include h hP hagree

/-- The iterator is asked in the same way in two worlds that agree but for the generator. -/
theorem Poised.pulled (hiter : World.iteratorOf x given (w.underway g r) = .ok it s) :
    ∃ s', World.iteratorOf x given (w'.underway g r) = .ok it s' ∧
      Ends (Zone.apart (World.Own g r) (holds x) (w.underway g r) (w'.underway g r)).bond
        (holds it + holds it) holds ((Machine.engine n).pull it (s.retain it))
        ((Machine.engine n).pull it (s'.retain it)) := by
  obtain ⟨hsecludes, -, hlinked, hcovered⟩ := h.underway_linked hP hagree
  have hfit := Zone.apart_fit hsecludes (holds x) (w'.underway g r)
  have hiterators := iteratorOf_ends hfit hcovered hlinked
  rw [hiter] at hiterators
  cases hiter' : World.iteratorOf x given (w'.underway g r) with
  | error reason s' => rw [hiter'] at hiterators; cases hiterators
  | ok it' s' =>
      rw [hiter'] at hiterators
      cases hiterators with
      | ok hs =>
          exact ⟨s', rfl, shared_pull_ends (Zone.serves_apart (le_refl n)) hfit (hs.le (by rw [add_zero]))⟩

theorem Poised.pulled_of_linked {B : Bag} {t' : World}
    (ht : (Zone.apart (World.Own g r) (holds x) (w.underway g r) (w'.underway g r)).Linked
      (B + (holds it + holds it)) t t') : Pulled w w' t t' g r x it B where
  agrees := ht.agrees
  keeps := ht.keeps_left
  secludes := (ht.secludes (h.underway_linked hP hagree).1).le fun o => by
    simp only [Pi.add_apply]
    omega
  unheld o ho := by
    have := ht.accounted.unseen o ho
    simp only [Pi.add_apply] at this
    omega

/-- The iterator has run dry. -/
theorem Poised.pulled_of_dry (hiter : World.iteratorOf x given (w.underway g r) = .ok it s)
    (hdry : (Machine.engine n).RunsDry it (s.retain it) t) :
    ∃ s' t', World.iteratorOf x given (w'.underway g r) = .ok it s' ∧
      (Machine.engine n).RunsDry it (s'.retain it) t' ∧ Pulled w w' t t' g r x it 0 := by
  obtain ⟨s', hiter', hends⟩ := h.pulled (n := n) hP hagree hiter
  rcases hdry with hnone | ⟨y, hraised, hstop, hbare⟩
  · rw [hnone] at hends
    cases hpull : (Machine.engine n).pull it (s'.retain it) with
    | error reason t' => rw [hpull] at hends; cases hends
    | ok given' t' =>
        rw [hpull] at hends
        cases hends with
        | ok ht => exact ⟨s', t', hiter', .inl hpull, h.pulled_of_linked hP hagree ht⟩
  · rw [hraised] at hends
    cases hpull : (Machine.engine n).pull it (s'.retain it) with
    | ok given' t' => rw [hpull] at hends; cases hends
    | error reason t' =>
        rw [hpull] at hends
        cases hends with
        | raised ht =>
            refine ⟨s', t', hiter', .inr ⟨y, hpull, hstop, hbare⟩, h.pulled_of_linked hP hagree ?_⟩
            rwa [Exception.holds_of_bare hbare] at ht

/-- The iterator raises. -/
theorem Poised.pulled_of_raised (hiter : World.iteratorOf x given (w.underway g r) = .ok it s)
    (hraised : (Machine.engine n).pull it (s.retain it) = .error (.raised y) t) :
    ∃ s' t', World.iteratorOf x given (w'.underway g r) = .ok it s' ∧
      (Machine.engine n).pull it (s'.retain it) = .error (.raised y) t' ∧
      Pulled w w' t t' g r x it (holds y) := by
  obtain ⟨s', hiter', hends⟩ := h.pulled (n := n) hP hagree hiter
  rw [hraised] at hends
  cases hpull : (Machine.engine n).pull it (s'.retain it) with
  | ok given' t' => rw [hpull] at hends; cases hends
  | error reason t' =>
      rw [hpull] at hends
      cases hends with
      | raised ht => exact ⟨s', t', hiter', hpull, h.pulled_of_linked hP hagree ht⟩

/-- If no item comes in the one world, none comes in the other, for the same reason. -/
theorem Poised.dries_follow (hdries : (Machine.engine n).Dries x (w.underway g r) given y u) :
    ∃ u', (Machine.engine n).Dries x (w'.underway g r) given y u' ∧ u.AgreeBut (World.Own g r) u' ∧
      (w.underway g r).Keeps (World.Own g r) u ∧ u.Secludes (World.Own g r) (holds y + holds x) := by
  cases hdries with
  | refused hx =>
      obtain ⟨hsecludes, hunderway, -⟩ := h.underway_linked hP hagree
      refine ⟨_, .refused hx, hunderway, .refl _ _, hsecludes.le ?_⟩
      rw [Exception.holds_of_bare hx.bare]
      exact add_le_add_left bot_le _
  | dry hiter hdry hfirst hsecond =>
      obtain ⟨s', t', hiter', hdry', hpulled⟩ := h.pulled_of_dry hP hagree hiter hdry
      obtain ⟨first', second', hfirst', hsecond', hafter, -, hkeeps, -, hsecludes⟩ :=
        hpulled.forgets hfirst hsecond
      exact ⟨second', .dry hiter' hdry' hfirst' hsecond', hafter, hkeeps, hsecludes⟩
  | failed hiter hraised hkind hfirst hsecond =>
      obtain ⟨s', t', hiter', hraised', hpulled⟩ := h.pulled_of_raised hP hagree hiter hraised
      obtain ⟨first', second', hfirst', hsecond', hafter, -, hkeeps, -, hsecludes⟩ :=
        hpulled.forgets hfirst hsecond
      exact ⟨second', .failed hiter' hraised' hkind hfirst' hsecond', hafter, hkeeps, hsecludes⟩

end Asking

end Relay

end Resumable
