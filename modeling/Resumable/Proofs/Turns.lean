import Resumable.Proofs.Raising
import Resumable.Proofs.Stepping

set_option autoImplicit false

/-!
# One turn of a generator

A generator that is at rest has its frame in the cell, and nothing waits there (`World.AtRest`).  When it
is resumed, the frame is given what is sent and is out of its cell, and the body is run in a world that
differs from the one before in a level, in an owner of the frame and of the value, and in the running mark
(`World.underway`).  How the body ends there decides how the frame is resumed.

A resume as a whole is what it does on the frame, and then to forget the value and the frame
(`Engine.TurnsOut`, `resume_of_turnsOut`).
-/

namespace Resumable

variable {e : Engine} {v : Value} {w t u : World} {g : GeneratorRef} {r : FrameRef} {x : Exception}
  {f b : Frame}

theorem Bag.of_singleton (o u : Object) : Bag.of [o] u = if o = u then 1 else 0 := by
  simp [Bag.of, List.count_singleton]

namespace World

/-- The world in which the body of a generator is run that is resumed. -/
def underway (w : World) (g : GeneratorRef) (r : FrameRef) : World :=
  ((w.entered r).setRunning g true).setFrame r none

/-- The world in which a body is done with its frame. -/
def settled (w : World) (g : GeneratorRef) (r : FrameRef) (f : Frame) : World :=
  (w.setFrame r (some f)).setRunning g false

/-- The world in which a level is given back. -/
def left (w : World) : World := { w with thread := w.thread.leave }

/-- The world in which a generator has let go of its frame, after its body raised. -/
def ended (w : World) (g : GeneratorRef) (r : FrameRef) (f : Frame) : World :=
  (((w.settled g r f).frameless g).setOwners (w.owners (.frame r) - 1) (.frame r)).left

section Fields

variable {j : GeneratorRef} {q : FrameRef} {o : Object}

theorem generator_underway :
    (w.underway g r).generator j =
      if g = j then { w.generator g with running := true } else w.generator j := by
  simp [underway, setRunning]

theorem frame_underway : (w.underway g r).frame? q = if r = q then none else w.frame? q := by
  simp [underway, setRunning]

theorem owners_underway :
    (w.underway g r).owners o = w.owners o + if .frame r = o then 1 else 0 := by
  have hshared : (w.underway g r).owners o = (w.retain (.frame r)).owners o := by
    unfold underway setRunning
    rw [owners_setFrame, owners_setGenerator]
    cases o <;> rfl
  rw [hshared, owners_retain, Value.objects, Bag.of_singleton]

theorem generator_settled :
    (w.settled g r f).generator j =
      if g = j then { w.generator g with running := false } else w.generator j := by
  simp [settled, setRunning]

theorem frame_settled :
    (w.settled g r f).frame? q = if r = q then some f else w.frame? q := by
  simp [settled, setRunning]

@[simp] theorem owners_settled : (w.settled g r f).owners o = w.owners o := by
  simp [settled, setRunning]

@[simp] theorem owners_left : w.left.owners o = w.owners o := by
  cases o <;> rfl

@[simp] theorem generator_left : w.left.generator j = w.generator j := rfl

@[simp] theorem frame_left : w.left.frame? q = w.frame? q := rfl

theorem generator_ended :
    (w.ended g r f).generator j =
      if g = j then { w.generator g with running := false, frame := none } else w.generator j := by
  simp only [ended, frameless, generator_left, generator_setOwners, generator_setGenerator,
    generator_settled, if_true]
  split <;> rfl

theorem frame_ended : (w.ended g r f).frame? q = if r = q then some f else w.frame? q := by
  simp [ended, frameless, frame_settled]

theorem owners_ended :
    (w.ended g r f).owners o = if .frame r = o then w.owners (.frame r) - 1 else w.owners o := by
  simp [ended, frameless]

@[simp] theorem thread_left : w.left.thread = w.thread.leave := rfl

@[simp] theorem thread_settled : (w.settled g r f).thread = w.thread := rfl

@[simp] theorem thread_frameless : (w.frameless g).thread = w.thread := rfl

/-- After a level was taken and given back, the thread is as it was. -/
theorem leave_underway : (w.underway g r).thread.leave = w.thread := by
  show ((w.retain (.frame r)).deepened).thread.leave = w.thread
  rw [retain, addOwners_deepened, thread_addOwners]
  rfl

@[simp] theorem thread_ended : (w.ended g r f).thread = w.thread.leave := rfl

@[simp] theorem codes_ended : (w.ended g r f).codes = w.codes := rfl

end Fields

theorem setOwners_setGenerator (w : World) (n : Nat) (o : Object) (y : Generator) :
    (w.setOwners n o).setGenerator g y = (w.setGenerator g y).setOwners n o := by
  cases o with
  | generator j =>
      by_cases hj : j.index = g.index
      · simp only [setOwners, setGenerator, Store.setOwners, Store.setContent, hj,
          Store.get_set_self, Store.set_set]
      · simp only [setOwners, setGenerator, Store.setOwners, Store.setContent,
          Store.get_set_ne _ _ hj, Store.get_set_ne _ _ (Ne.symm hj), Store.set_comm _ _ _ hj]
  | _ => rfl

theorem addOwners_setGenerator (w : World) (os : List Object) (y : Generator) :
    (w.addOwners os).setGenerator g y = (w.setGenerator g y).addOwners os := by
  unfold addOwners
  induction os generalizing w with
  | nil => rfl
  | cons o os ih =>
      rw [List.foldl_cons, List.foldl_cons, ih, setOwners_setGenerator, owners_setGenerator]

/-- It makes no difference whether the value that is sent is shared before or after the body is begun. -/
theorem underway_retain (w : World) (g : GeneratorRef) (r : FrameRef) (v : Value)
    (c : Option Frame) :
    ((((w.entered r).setFrame r c).retain v).setRunning g true).setFrame r none =
      (w.underway g r).retain v := by
  have hrunning : (((w.entered r).setFrame r c).retain v).setRunning g true =
      (((w.entered r).setRunning g true).setFrame r c).retain v := by
    rw [setRunning, retain, generator_addOwners, addOwners_setGenerator]
    rfl
  rw [hrunning, retain, addOwners_setFrame, setFrame_setFrame]
  rfl

@[simp] theorem codes_addOwners (w : World) (os : List Object) : (w.addOwners os).codes = w.codes := by
  unfold addOwners
  induction os generalizing w with
  | nil => rfl
  | cons o os ih => rw [List.foldl_cons, ih]; cases o <;> rfl

/-- A generator that can be resumed and in whose frame nothing waits. -/
structure AtRest (w : World) (g : GeneratorRef) (r : FrameRef) (f : Frame) : Prop where
  idle : (w.generator g).running = false
  slot : (w.generator g).frame = some r
  frame : w.frame? r = some f
  pending : f.pending = none
  input : f.input = none
  unfinished : f.isFinished = false

end World

/-- Resumes the body of a generator. -/
def Engine.bodyOf (e : Engine) (w : World) (g : GeneratorRef) : Run (Frame × World) Suspension :=
  (w.code (w.generator g).code).resume e (w.generator g).closure none

/-! ## Resuming the frame -/

/-- A generator lets go of a frame that is marked as finished and that someone else owns as well. -/
theorem terminate_of_finished (hslot : (w.generator g).frame = some r) (hf : w.frame? r = some f)
    (hfinished : f.markFinished = f) (hdelegate : f.delegate = none)
    (htwo : 2 ≤ w.owners (.frame r)) :
    e.terminate g w = .ok () ((w.frameless g).setOwners (w.owners (.frame r) - 1) (.frame r)) := by
  have hkept : (w.frameless g).frame? r = some f := by rw [World.frameless, World.frame_setGenerator, hf]
  -- the frame is marked as finished, which it is already
  have hmarked : World.withFrame r (do
      modify fun s => (s.1.markFinished, s.2)
      e.replace Frame.removeDelegate) (w.frameless g) = .ok () (w.frameless g) := by
    have hsame : (f.markFinished.removeDelegate).1 = f := by
      rw [hfinished, Frame.removeDelegate, ← hdelegate]
    have hnothing : Value.objectsOfAll (f.markFinished.removeDelegate).2 = [] := by
      rw [hfinished, Frame.removeDelegate, hdelegate]
      rfl
    rw [withFrame_of_rest hkept (replace_of_objects_nil (e := e) _ hnothing _), hsame,
      World.setFrame_self hkept]
  have hreleased := Engine.release_of_shared (e := e) (v := .frame r) (o := .frame r)
    (w := w.frameless g) rfl (by simpa [World.frameless] using htwo)
  rw [World.frameless, World.owners_setGenerator] at hreleased
  rw [terminate_of_frame hslot]
  refine Run.ensuring_ok ?_ hreleased
  rw [Run.bind_apply]
  simp only [Run.get_apply, hkept, Option.isSome_some, if_true]
  exact hmarked

section Turn

variable (hrest : w.AtRest g r f)

include hrest

/-- The body of a generator at rest is run on its frame, which is given what is sent. -/
theorem startBody_of_rest :
    e.startBody g r v (w.entered r) =
      Run.attempt (World.whileRunning g (World.withFrame r fun s =>
          e.bodyOf w g (s.1.given v, s.2)))
        (((w.entered r).setFrame r (some f)).retain v) := by
  obtain ⟨-, -, hframe, hpending, hinput, -⟩ := hrest
  have hsame : ({ f with pending := none } : Frame) = f := by
    obtain ⟨_, _, _, _, _, _, _, _, _⟩ := f
    cases hpending
    rfl
  rw [startBody_of_empty (by rw [World.frame_entered, hframe]) hinput, World.setFrame_setFrame, hsame,
    hpending]
  generalize hs : ((w.entered r).setFrame r (some f)).retain v = s
  have hgenerator : s.generator g = w.generator g := by simp [← hs, World.retain]
  have hcodes : s.codes = w.codes := by
    rw [← hs, World.retain, World.codes_addOwners]
    exact World.codes_addOwners w _
  unfold Run.attempt
  rw [show e.runBodyOn g r none (Frame.given v) s = World.whileRunning g (World.withFrame r fun b =>
      (s.code (s.generator g).code).resume e (s.generator g).closure none (b.1.given v, b.2)) s from rfl,
    hgenerator, World.code, hcodes]
  rfl

/-- The body comes to a result. -/
theorem startBody_of_result {a : Suspension}
    (hbody : e.bodyOf w g (f.given v, (w.underway g r).retain v) = .ok a (b, u)) :
    e.startBody g r v (w.entered r) = .ok (.ok a) (u.settled g r b) := by
  rw [startBody_of_rest hrest]
  rw [← World.underway_retain w g r v (some f)] at hbody
  have hran := World.withFrame_eq_ok (r := r) (m := fun s => e.bodyOf w g (s.1.given v, s.2)).2
    ⟨f, b, u, by simp [World.setRunning, World.retain], hbody, rfl⟩
  exact Run.attempt_eq_ok.2 (.inl ⟨a, rfl, World.whileRunning_eq_ok.2 ⟨_, hran, rfl⟩⟩)

/-- The body raises. -/
theorem startBody_of_raised (hbody : e.bodyOf w g (f.given v, (w.underway g r).retain v) =
      .error (.raised x) (b, u)) :
    e.startBody g r v (w.entered r) = .ok (.error x) (u.settled g r b) := by
  rw [startBody_of_rest hrest]
  rw [← World.underway_retain w g r v (some f)] at hbody
  have hran := World.withFrame_eq_raised (r := r) (m := fun s => e.bodyOf w g (s.1.given v, s.2)).2
    ⟨f, b, u, by simp [World.setRunning, World.retain], hbody, rfl⟩
  exact Run.attempt_eq_ok.2 (.inr ⟨x, rfl, World.whileRunning_eq_raised.2 ⟨_, hran, rfl⟩⟩)

/-- The body comes to an end, and what follows depends on it alone. -/
theorem resumeFrame_of_outcome {outcome : Except Exception Suspension}
    (hbody : e.startBody g r v (w.entered r) = .ok outcome t) :
    e.resumeFrame g r v (w.entered r) = e.settleBody g r outcome t := by
  rw [resumeFrame_of_unfinished (by rw [World.frame_entered, hrest.frame]) hrest.unfinished,
    Run.bind_ok hbody]

/-- The body yields. -/
theorem resumeFrame_of_yielded {y : Value}
    (hbody : e.bodyOf w g (f.given v, (w.underway g r).retain v) = .ok (.yielded y) (b, u)) :
    e.resumeFrame g r v (w.entered r) = .ok (some y) (u.settled g r b) :=
  resumeFrame_of_outcome hrest (startBody_of_result hrest hbody)

section Finished

variable (hslot : (u.generator g).frame = some r) (hfinished : b.markFinished = b)
  (hdelegate : b.delegate = none) (htwo : 2 ≤ u.owners (.frame r))

include hslot hfinished hdelegate htwo

omit hrest in
theorem terminate_of_settled :
    e.terminate g (u.settled g r b) = .ok ()
      (((u.settled g r b).frameless g).setOwners (u.owners (.frame r) - 1) (.frame r)) := by
  rw [terminate_of_finished (f := b) (by rw [World.generator_settled, if_pos rfl]; exact hslot)
    (by rw [World.frame_settled, if_pos rfl]) hfinished hdelegate (by simpa using htwo),
    World.owners_settled]

/-- The body returns, and has finished its frame. -/
theorem resumeFrame_of_returned {y : Value}
    (hbody : e.bodyOf w g (f.given v, (w.underway g r).retain v) = .ok (.returned y) (b, u)) :
    e.resumeFrame g r v (w.entered r) = .error (.raised (.stopIterationWith y))
      (((u.settled g r b).frameless g).setOwners (u.owners (.frame r) - 1) (.frame r)) := by
  rw [resumeFrame_of_outcome hrest (startBody_of_result hrest hbody)]
  exact Run.bind_ok (Run.onInterruption_ok (terminate_of_settled hslot hfinished hdelegate htwo))

/-- The body raises, and has finished its frame. -/
theorem resumeFrame_of_raised
    (hbody : e.bodyOf w g (f.given v, (w.underway g r).retain v) = .error (.raised x) (b, u)) :
    e.resumeFrame g r v (w.entered r) = .error (.raised x)
      (((u.settled g r b).frameless g).setOwners (u.owners (.frame r) - 1) (.frame r)) := by
  rw [resumeFrame_of_outcome hrest (startBody_of_raised hrest hbody)]
  exact Run.bind_ok (Run.onInterruption_ok (terminate_of_settled hslot hfinished hdelegate htwo))

end Finished

end Turn

/-! ## Runs, one instruction at a time -/

namespace Exec

variable {p : Code.Program} {closure : Value} {i : Code.Instruction} {s s' : Activation × World} {n : Nat}
  (hi : p.instructions[s.1.counter]? = some i)

include hi

/-- An instruction leads to the next one. -/
theorem run_next (h : execute e p closure i (pastInstruction s) = .ok none s') :
    run e p closure (n + 1) s = run e p closure n s' := by
  have hdone : Run.attempt (execute e p closure i) (pastInstruction s) = .ok (.ok none) s' :=
    Run.attempt_eq_ok.2 (.inl ⟨_, rfl, h⟩)
  rw [run_succ]
  simp only [hi, hdone]

/-- An instruction ends the run. -/
theorem run_last {a : Suspension} (h : execute e p closure i (pastInstruction s) = .ok (some a) s') :
    run e p closure (n + 1) s = .ok a s' := by
  have hdone : Run.attempt (execute e p closure i) (pastInstruction s) = .ok (.ok (some a)) s' :=
    Run.attempt_eq_ok.2 (.inl ⟨_, rfl, h⟩)
  rw [run_succ]
  simp only [hi, hdone]

/-- An instruction raises. -/
theorem run_raised (h : execute e p closure i (pastInstruction s) = .error (.raised x) s') :
    run e p closure (n + 1) s = (unwind e x >>= fun _ => run e p closure n) s' := by
  have hdone : Run.attempt (execute e p closure i) (pastInstruction s) = .ok (.error x) s' :=
    Run.attempt_eq_ok.2 (.inr ⟨_, rfl, h⟩)
  rw [run_succ]
  simp only [hi, hdone]

end Exec

/-- A frame that is suspended at a yield goes on with what is sent as the value of the yield. -/
theorem Code.Program.resume_given {p : Code.Program} {closure : Value} {k : Nat}
    (hposition : f.position = k + 1) (hinput : f.input = none) (hdelegate : f.delegate = none)
    (hyield : p.instructions[k]? = some .yieldValue) :
    p.resume e closure none (f.given v, w) = settle e (Exec.run e p closure e.fuel
      (⟨{ f with stack := v :: f.stack }, k + 1, .none⟩, w)) := by
  have hactivate : activate (f.given v) = ⟨f, k + 1, v⟩ := by
    unfold Frame.given
    split
    · next hnone =>
        obtain rfl : v = .none := by cases v <;> simp_all [Value.isNone]
        exact Exec.activate_thrown hposition hinput
    · exact Exec.activate_sent hposition hinput v
  have hstarted : 0 ≤ (f.given v).position := by
    have hsame : (f.given v).position = f.position := by unfold Frame.given; split <;> rfl
    omega
  rw [resume_apply hstarted, hactivate, Exec.resume_eq,
    Run.bind_ok (Exec.enterFrame_sent hdelegate hyield w)]

/-- A resume of a code object that is an assembled program. -/
theorem CodeObject.resume_of_program {p : Code.Program} {closure : Value} {code : CodeObject} {pending : Option Exception}
    (hbody : code.body = .program p) :
    code.resume e closure pending = p.resume e closure pending := by
  unfold CodeObject.resume
  rw [hbody]

/-! ## Whole resumes -/

/-- What a resume does before it forgets the value and the frame: how it ends, and the world that it has
come to. -/
inductive Engine.TurnsOut (e : Engine) (g : GeneratorRef) (v : Value) (w : World) :
    Except Exception Value → World → Prop where
  /-- there is no frame any more -/
  | finished (hidle : (w.generator g).running = false) (hslot : (w.generator g).frame = none) :
      TurnsOut e g v w (.error .stopIteration) w
  /-- there is no level left -/
  | refused {r : FrameRef} (hidle : (w.generator g).running = false)
      (hslot : (w.generator g).frame = some r) (hfull : w.thread.limit ≤ w.thread.depth) :
      TurnsOut e g v w (.error .recursionError) (w.retain (.frame r))
  | yielded {r : FrameRef} {y : Value} {t : World} (hidle : (w.generator g).running = false)
      (hslot : (w.generator g).frame = some r) (hroom : w.thread.depth < w.thread.limit)
      (hframe : e.resumeFrame g r v (w.entered r) = .ok (some y) t) :
      TurnsOut e g v w (.ok y) t.left
  | raised {r : FrameRef} {x : Exception} {t : World} (hidle : (w.generator g).running = false)
      (hslot : (w.generator g).frame = some r) (hroom : w.thread.depth < w.thread.limit)
      (hframe : e.resumeFrame g r v (w.entered r) = .error (.raised x) t) :
      TurnsOut e g v w (.error x) t.left

/-- What a resume forgets in the end. -/
def World.forgottenAfter (w : World) (g : GeneratorRef) (v : Value) : List Value :=
  v :: ((w.generator g).frame.map Value.frame).toList

/-- A resume turns out in some way, and then forgets the value and the frame. -/
theorem resume_of_turnsOut {outcome : Except Exception Value} (h : e.TurnsOut g v w outcome u) :
    e.resume g v w = (Run.ofExcept outcome).ensuring (e.releaseAll (w.forgottenAfter g v)) u := by
  have hforgotten : ∀ {r}, (w.generator g).frame = some r → ∀ m : Run World Value,
      (m.ensuring (e.release v)).ensuring (e.release (.frame r)) =
        m.ensuring (e.releaseAll (w.forgottenAfter g v)) := fun {r} hslot m => by
    rw [World.forgottenAfter, hslot, Run.ensuring_assoc, ← Engine.releaseAll_singleton,
      ← Engine.releaseAll_singleton, ← Engine.releaseAll_append]
    rfl
  cases h with
  | finished hidle hslot =>
      have hover : e.resume g v w = e.owning v (Run.raise .stopIteration) w := by
        unfold Engine.resume
        rw [Run.bind_apply]
        simp only [Run.get_apply]
        rw [if_neg (by simp [hidle]), hslot]
      rw [hover, World.forgottenAfter, hslot]
      exact congrFun (congrArg _ (Engine.releaseAll_singleton e v).symm) w
  | refused hidle hslot hfull =>
      rw [resume_of_full hidle hslot hfull, ← hforgotten hslot]
      refine congrFun (congrArg (Run.ensuring · _) ?_) _
      exact (Run.raise_ensuring ..).symm
  | yielded hidle hslot hroom hframe =>
      rw [resume_of_room hidle hslot hroom, ← hforgotten hslot]
      refine Run.ensuring_congr ((Run.bind_ok (Run.onInterruption_ok hframe)).trans ?_)
      rfl
  | @raised r x t hidle hslot hroom hframe =>
      rw [resume_of_room hidle hslot hroom, ← hforgotten hslot]
      refine Run.ensuring_congr ?_
      show _ = (Run.raise x : Run World Value).ensuring (e.release v) t.left
      have hback : (do World.leave; e.release v : Run World Unit) t = e.release v t.left := rfl
      rw [Run.raise_ensuring, Run.bind_apply, Engine.proceed, Run.bind_apply, Run.onInterruption, hframe]
      simp only [hback]
      cases e.release v t.left <;> rfl

/-- A resume turns out in one way. -/
theorem Engine.TurnsOut.unique {first second : Except Exception Value} (h : e.TurnsOut g v w first t)
    (h' : e.TurnsOut g v w second u) : first = second ∧ t = u := by
  cases h with
  | finished _ hslot =>
      cases h' with
      | finished => exact ⟨rfl, rfl⟩
      | refused _ hslot' => simp [hslot] at hslot'
      | yielded _ hslot' => simp [hslot] at hslot'
      | raised _ hslot' => simp [hslot] at hslot'
  | refused _ hslot hfull =>
      cases h' with
      | finished _ hslot' => simp [hslot] at hslot'
      | refused _ hslot' =>
          obtain rfl := Option.some.inj (hslot.symm.trans hslot')
          exact ⟨rfl, rfl⟩
      | yielded _ _ hroom => omega
      | raised _ _ hroom => omega
  | yielded _ hslot hroom hframe =>
      cases h' with
      | finished _ hslot' => simp [hslot] at hslot'
      | refused _ _ hfull => omega
      | yielded _ hslot' _ hframe' =>
          obtain rfl := Option.some.inj (hslot.symm.trans hslot')
          cases hframe.symm.trans hframe'
          exact ⟨rfl, rfl⟩
      | raised _ hslot' _ hframe' =>
          obtain rfl := Option.some.inj (hslot.symm.trans hslot')
          cases hframe.symm.trans hframe'
  | raised _ hslot hroom hframe =>
      cases h' with
      | finished _ hslot' => simp [hslot] at hslot'
      | refused _ _ hfull => omega
      | yielded _ hslot' _ hframe' =>
          obtain rfl := Option.some.inj (hslot.symm.trans hslot')
          cases hframe.symm.trans hframe'
      | raised _ hslot' _ hframe' =>
          obtain rfl := Option.some.inj (hslot.symm.trans hslot')
          cases hframe.symm.trans hframe'
          exact ⟨rfl, rfl⟩

/-! ## Calls -/

namespace World

/-- A value can be sent to a generator: there is nobody to receive it before the first resume. -/
def Accepts (w : World) (g : GeneratorRef) (v : Value) : Prop :=
  v = .none ∨ ∀ r, (w.generator g).frame = some r → w.isJustStarted r = false

/-- A generator is left as it is: its record, its frame, and its code. -/
structure Spares (w u : World) (g : GeneratorRef) : Prop where
  generator : u.generator g = w.generator g
  frame : ∀ r, (w.generator g).frame = some r → u.frame? r = w.frame? r ∧ 1 ≤ u.owners (.frame r)
  code : u.code (w.generator g).code = w.code (w.generator g).code

end World

/-- What has come of the calls of a generator that is only resumed and sent values.  A call is over in this
sense before it forgets its arguments.  Meanwhile anything may happen that leaves the generator as it
is. -/
inductive Dialogue (fuel : Nat) (g : GeneratorRef) (w : World) :
    List (Except Exception Value) → World → Prop where
  | start : Dialogue fuel g w [] w
  | call {outcomes : List (Except Exception Value)} {outcome : Except Exception Value} {m : Nat}
      {v : Value} {s t : World} (h : Dialogue fuel g w outcomes s) (hfuel : fuel ≤ m)
      (howned : ∀ o ∈ v.objects, 1 ≤ s.owners o) (haccepts : s.Accepts g v)
      (hturn : (Machine.engine m).TurnsOut g v s outcome t) :
      Dialogue fuel g w (outcomes ++ [outcome]) t
  | meanwhile {outcomes : List (Except Exception Value)} {s t : World}
      (h : Dialogue fuel g w outcomes s) (hspares : s.Spares t g) : Dialogue fuel g w outcomes t

/-- A call has an outcome, and forgets its arguments after that. -/
def Concludes (m : Nat) (call : Run World Value) (w : World) (outcome : Except Exception Value)
    (arguments : List Value) (t : World) : Prop :=
  ∃ k, m ≤ k ∧
    call w = (Run.ofExcept outcome).ensuring ((Machine.engine k).releaseAll arguments) t

/-- To resume a generator is what the resume turns out to be. -/
theorem Engine.TurnsOut.next {m : Nat} {outcome : Except Exception Value}
    (h : (Machine.engine m).TurnsOut g .none w outcome t) :
    Concludes m ((Machine.engine (m + 1)).next g) w outcome (w.forgottenAfter g .none) t :=
  ⟨m, le_rfl, resume_of_turnsOut h⟩

/-- To send a value is what the resume with it turns out to be. -/
theorem Engine.TurnsOut.send {m : Nat} {outcome : Except Exception Value} (haccepts : w.Accepts g v)
    (h : (Machine.engine m).TurnsOut g v w outcome t) :
    Concludes m ((Machine.engine (m + 1)).send g v) w outcome (w.forgottenAfter g v) t := by
  cases hslot : (w.generator g).frame with
  | none =>
      have hover : outcome = .error .stopIteration ∧ t = w := by
        cases h with
        | finished => exact ⟨rfl, rfl⟩
        | refused _ hslot' => simp [hslot] at hslot'
        | yielded _ hslot' => simp [hslot] at hslot'
        | raised _ hslot' => simp [hslot] at hslot'
      obtain ⟨rfl, rfl⟩ := hover
      refine ⟨m + 1, Nat.le_succ m, ?_⟩
      rw [World.forgottenAfter, hslot]
      unfold Engine.send
      rw [Run.bind_apply]
      simp only [Run.get_apply, hslot]
      exact congrFun (congrArg _ (Engine.releaseAll_singleton _ v).symm) t
  | some r =>
      refine ⟨m, le_rfl, Eq.trans ?_ (resume_of_turnsOut h)⟩
      have hready : (w.isJustStarted r && !v.isNone) = false := by
        rcases haccepts with rfl | hstarted
        · simp [Value.isNone]
        · simp [hstarted r hslot]
      unfold Engine.send
      rw [Run.bind_apply]
      simp only [Run.get_apply, hslot, hready]
      rfl

end Resumable
