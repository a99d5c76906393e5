import Resumable.Proofs.Escaping
import Resumable.Proofs.Finishing
import Resumable.Proofs.Limit
import Resumable.Proofs.Sending

set_option autoImplicit false

/-!
# Raising an exception at a yield

A body that is suspended at a `yieldValue` and raises what is sent to it does the same as if the exception
had been thrown into it.  The exception reaches the unwinder in two different ways: as the exception
that is pending in the frame, or as the value of the yield which a `raise` takes from the stack.  There
the states differ in the counter only (`Exec.resume_raising`), and a handler sets the counter anew.  Without
a handler, the counter goes into what the exception records.
-/

namespace Resumable

variable {σ α β : Type} {R : Exception → Exception → Prop} {Q : Prop} {e : Engine} {w t u : World}
  {C : Zone → Prop} {Z : Zone} {F : Bag} {e' : Engine} {w' : World}
  {g : GeneratorRef} {r : FrameRef} {f : Frame} {x : Exception} {p : Code.Program} {closure v : Value} {k n : Nat}

/-! ## Ending alike -/

/-- An end of a computation is like another one.  A result is the same, if there may be results at all,
and an exception that is raised corresponds to one that is raised by the other; the states are the same. -/
structure Run.Follows (R : Exception → Exception → Prop) (Q : Prop)
    (a b : EStateM.Result Interruption σ α) : Prop where
  ok : ∀ {v s}, a = .ok v s → Q ∧ b = .ok v s
  raised : ∀ {x s}, a = .error (.raised x) s → ∃ y, R x y ∧ b = .error (.raised y) s

namespace Run

variable {m m' : Run σ α} {s s' : σ}

theorem Follows.refl (hR : ∀ x, R x x) (hQ : Q) (a : EStateM.Result Interruption σ α) :
    Follows R Q a a :=
  ⟨fun h => ⟨hQ, h⟩, fun h => ⟨_, hR _, h⟩⟩

theorem ensuring_outOfFuel {c : Run σ Unit} (h : m s = .error .outOfFuel s') :
    m.ensuring c s = .error .outOfFuel s' := by
  simp only [ensuring, bind_apply, onInterruption, h]

theorem Follows.outOfFuel (s : σ) (b : EStateM.Result Interruption σ α) :
    Follows R Q (.error .outOfFuel s) b where
  ok h := by cases h
  raised h := by cases h

theorem Follows.aborted (s : σ) (b : EStateM.Result Interruption σ α) :
    Follows R Q (.error .aborted s) b where
  ok h := by cases h
  raised h := by cases h

theorem Follows.exception {x y : Exception} (h : R x y) (s : σ) :
    Follows R Q (.error (.raised x) s : EStateM.Result Interruption σ α) (.error (.raised y) s) where
  ok h := by cases h
  raised hx := by
    cases hx
    exact ⟨y, h, rfl⟩

/-- The same clean-up afterwards. -/
theorem Follows.ensuring {c : Run σ Unit} (h : Follows R Q (m s) (m' s')) (hc : Silent c) :
    Follows R Q (m.ensuring c s) (m'.ensuring c s') where
  ok hok := by
    obtain ⟨t, hm, hct⟩ := ensuring_eq_ok.1 hok
    obtain ⟨hQ, hm'⟩ := h.ok hm
    exact ⟨hQ, ensuring_ok hm' hct⟩
  raised hraised := by
    obtain ⟨t, hm, hct⟩ := (ensuring_eq_raised hc).1 hraised
    obtain ⟨y, hy, hm'⟩ := h.raised hm
    exact ⟨y, hy, ensuring_raised hm' hct⟩

/-- What is done about the outcomes. -/
theorem Follows.answered {k k' : Except Exception α → Run σ β} (h : Follows R Q (m s) (m' s'))
    (hok : ∀ v t, Q → Follows R Q (k (.ok v) t) (k' (.ok v) t))
    (hraised : ∀ x y t, R x y → Follows R Q (k (.error x) t) (k' (.error y) t)) :
    Follows R Q ((attempt m >>= k) s) ((attempt m' >>= k') s') := by
  cases hm : m s with
  | ok v t =>
      obtain ⟨hQ, hm'⟩ := h.ok hm
      rw [bind_ok (attempt_eq_ok.2 (.inl ⟨v, rfl, hm⟩)), bind_ok (attempt_eq_ok.2 (.inl ⟨v, rfl, hm'⟩))]
      exact hok v t hQ
  | error reason t =>
      cases reason with
      | raised x =>
          obtain ⟨y, hy, hm'⟩ := h.raised hm
          rw [bind_ok (attempt_eq_ok.2 (.inr ⟨x, rfl, hm⟩)), bind_ok (attempt_eq_ok.2 (.inr ⟨y, rfl, hm'⟩))]
          exact hraised x y t hy
      | aborted =>
          have hout : (attempt m >>= k) s = .error .aborted t := bind_error (by rw [attempt, hm])
          rw [hout]
          exact .aborted _ _
      | outOfFuel =>
          have hout : (attempt m >>= k) s = .error .outOfFuel t := bind_error (by rw [attempt, hm])
          rw [hout]
          exact .outOfFuel _ _

/-- Work on a frame that is out of its cell. -/
theorem Follows.withFrame {m m' : Run (Frame × World) α} (hf : w.frame? r = some f)
    (h : Follows R Q (m (f, w.setFrame r none)) (m' (f, w.setFrame r none))) :
    Follows R Q (World.withFrame r m w) (World.withFrame r m' w) where
  ok hok := by
    obtain ⟨_, b, t, hf', hm, rfl⟩ := World.withFrame_eq_ok.1 hok
    obtain rfl := Option.some.inj (hf.symm.trans hf')
    obtain ⟨hQ, hm'⟩ := h.ok hm
    exact ⟨hQ, World.withFrame_eq_ok.2 ⟨_, b, t, hf, hm', rfl⟩⟩
  raised hraised := by
    obtain ⟨_, b, t, hf', hm, rfl⟩ := World.withFrame_eq_raised.1 hraised
    obtain rfl := Option.some.inj (hf.symm.trans hf')
    obtain ⟨y, hy, hm'⟩ := h.raised hm
    exact ⟨y, hy, World.withFrame_eq_raised.2 ⟨_, b, t, hf, hm', rfl⟩⟩

end Run

namespace Exec

/-! ## From the unwinder on -/

/-- A run that comes to an end comes to the same end with more fuel. -/
theorem run_more {s : Activation × World} (h : ∀ t, run e p closure n s ≠ .error .outOfFuel t) :
    run e p closure (n + 1) s = run e p closure n s := by
  induction n generalizing s with
  | zero => exact absurd rfl (h s)
  | succ n ih =>
      rw [run_succ] at h ⊢
      rw [run_succ n]
      cases hi : p.instructions[s.1.counter]? with
      | none => rfl
      | some i =>
          simp only [hi] at h ⊢
          cases hx : Run.attempt (execute e p closure i) (pastInstruction s) with
          | error reason t => rfl
          | ok outcome t =>
              simp only [hx] at h ⊢
              rcases outcome with y | _ | suspension
              · simp only [Run.bind_apply] at h ⊢
                cases hu : unwind e y t with
                | error reason t' => rfl
                | ok _ t' =>
                    simp only [hu] at h ⊢
                    exact ih h
              · exact ih h
              · rfl

/-- Letting go of what the exception takes from the stack. -/
def cutDown (e : Engine) (x : Exception) (f : Frame) (depth : Nat) : Run World Unit :=
  (e.releaseAll (f.above depth)).onInterruption (e.release x.toValue)

theorem cutDown_silent (he : e.Lenient) (x : Exception) (f : Frame) (depth : Nat) :
    Run.Silent (cutDown e x f depth) :=
  (Engine.releaseObjects_silent he _).onInterruption (Engine.releaseObjects_silent he _)

/-- Handing an exception to a handler does not depend on where it was raised. -/
theorem unwind_handled {a : Activation} {block : HandlerBlock} {rest : List HandlerBlock}
    (hblocks : a.frame.blocks = block :: rest) :
    unwind e x (a, w) =
      let cut : Frame := { a.frame.truncate block.stackDepth with blocks := rest }
      match cutDown e x a.frame block.stackDepth w with
      | .ok _ t => .ok () (⟨{ cut with stack := x.toValue :: cut.stack }, block.handler, a.sent⟩, t)
      | .error reason t => .error reason ({ a with frame := cut }, t) := by
  unfold unwind
  rw [Run.bind_ok (rfl : activation (a, w) = .ok a (a, w)), hblocks]
  unfold cutDown
  simp only [Run.bind_apply, modifyFrame, Run.onInterruption, Run.shared, release, push, goTo]
  cases e.releaseAll (a.frame.above block.stackDepth) w with
  | ok _ t => rfl
  | error reason t =>
      cases reason with
      | outOfFuel => rfl
      | _ =>
          simp only
          cases e.release x.toValue t <;> rfl

/-- An exception that no handler waits for leaves the frame finished, wherever it was raised, and records
the instruction before the counter. -/
theorem unwind_unhandled {a : Activation} (hblocks : a.frame.blocks = []) :
    unwind e x (a, w) =
      match cutDown e x a.frame 0 w with
      | .ok _ t => .error (.raised (x.pushEntry (w.placeIn a.frame.code (a.counter - 1))))
          ({ a with frame := (a.frame.truncate 0).markFinished }, t)
      | .error reason t => .error reason
          ({ a with frame := { a.frame.truncate 0 with position := (a.counter - 1 : Nat) } }, t) := by
  unfold unwind
  rw [Run.bind_ok (rfl : activation (a, w) = .ok a (a, w)), hblocks]
  unfold cutDown
  simp only [Run.bind_apply, modifyFrame, Run.onInterruption, Run.shared, release, clearStack, activation,
    Run.get_apply]
  have habove : ({ a.frame with position := (a.counter - 1 : Nat) } : Frame).above 0 = a.frame.above 0 := rfl
  rw [habove]
  cases e.releaseAll (a.frame.above 0) w with
  | ok _ t => rfl
  | error reason t =>
      cases reason with
      | outOfFuel => rfl
      | _ =>
          simp only
          cases e.release x.toValue t <;> rfl

/-! ## To the unwinder -/

theorem exceptionOf_toValue (x : Exception) (w : World) :
    World.exceptionOf x.toValue w = .ok x (w.retain x.toValue) := by
  unfold World.exceptionOf World.normalize
  rw [Exception.normalize_toValue]
  rfl

/-- An exception that is raised as a value which has another owner. -/
theorem raiseValue_toValue (howned : ∀ o ∈ x.toValue.objects, 1 ≤ w.owners o) :
    (e.raiseValue x.toValue : Run World α) w = .error (.raised x) w :=
  Run.ensuring_raised (Run.bind_ok (exceptionOf_toValue x w)) (Engine.releaseObjects_addOwners howned)

theorem activate_thrown (hposition : f.position = k + 1) (hinput : f.input = none) :
    Code.Program.activate f = ⟨f, k + 1, .none⟩ := by
  obtain ⟨_, _, _, _, _, _, _, _, _⟩ := f
  cases hinput
  cases hposition
  rfl

theorem activate_sent (hposition : f.position = k + 1) (hinput : f.input = none) (v : Value) :
    Code.Program.activate { f with input := some v } = ⟨f, k + 1, v⟩ := by
  obtain ⟨_, _, _, _, _, _, _, _, _⟩ := f
  cases hinput
  cases hposition
  rfl

/-- What is sent to a yield becomes its value. -/
theorem enterFrame_sent (hdelegate : f.delegate = none)
    (hyield : p.instructions[k]? = some .yieldValue) (w : World) :
    enterFrame e p none (⟨f, k + 1, v⟩, w) =
      .ok () (⟨{ f with stack := v :: f.stack }, k + 1, .none⟩, w) := by
  show pushResumeValue p _ = _
  rw [pushResumeValue_apply (Nat.succ_ne_zero k) (by simp [isDelegating, hdelegate])]
  simp only [Nat.add_sub_cancel, hyield]
  rfl

/-- From there the `raise` takes it to the unwinder. -/
theorem run_raising (hraise : p.instructions[k + 1]? = some .raise)
    (howned : ∀ o ∈ x.toValue.objects, 1 ≤ w.owners o) :
    run e p closure (n + 1) (⟨{ f with stack := x.toValue :: f.stack }, k + 1, .none⟩, w) =
      (unwind e x >>= fun _ => run e p closure n) (⟨f, k + 2, .none⟩, w) := by
  have hraised : Run.attempt (execute e p closure .raise)
      (pastInstruction (⟨{ f with stack := x.toValue :: f.stack }, k + 1, .none⟩, w)) =
      .ok (.error x) (⟨f, k + 2, .none⟩, w) := by
    refine Run.attempt_eq_ok.2 (.inr ⟨x, rfl, ?_⟩)
    show Run.shared (e.raiseValue x.toValue) ((⟨f, k + 2, .none⟩, w) : Activation × World) = _
    unfold Run.shared
    simp only [raiseValue_toValue howned]
  rw [run_succ]
  simp only [hraise, hraised]

end Exec

/-- A frame is suspended at a `yieldValue` that a `raise` follows, and nothing waits in it. -/
structure Frame.BeforeRaise (f : Frame) (p : Code.Program) (k : Nat) : Prop where
  position : f.position = k + 1
  yields : p.instructions[k]? = some .yieldValue
  raises : p.instructions[k + 1]? = some .raise
  delegate : f.delegate = none
  pending : f.pending = none
  input : f.input = none

/-- How what comes of an exception that is sent to a `raise` corresponds to what comes of it when it is
thrown: it is the same where a handler is active, and else the exception records two places. -/
def Frame.Corresponds (f : Frame) (x : Exception) (sent thrown : TraceEntry) (y y' : Exception) : Prop :=
  (f.blocks ≠ [] ∧ y = y') ∨ (f.blocks = [] ∧ y = x.pushEntry sent ∧ y' = x.pushEntry thrown)

theorem Run.Follows.same (hblocks : f.blocks ≠ []) (x : Exception) (sent thrown : TraceEntry)
    (a : EStateM.Result Interruption σ α) :
    Run.Follows (f.Corresponds x sent thrown) (f.blocks ≠ []) a a :=
  .refl (fun _ => .inl ⟨hblocks, rfl⟩) hblocks a

namespace Code.Program

/-- Where a resume ends for lack of a result, the counter is forgotten. -/
theorem settle_counter (c d : Nat) {reason : Interruption} {t : World} :
    settle e (.error reason (⟨f, c, v⟩, t) : EStateM.Result _ _ α) =
      settle e (.error reason (⟨f, d, v⟩, t)) := by
  cases reason <;> rfl

/-- A body that raises what is sent to it does the same as when that is thrown into it. -/
theorem resume_raising (he : e.Lenient) (hbefore : f.BeforeRaise p k)
    (howned : ∀ o ∈ x.toValue.objects, 1 ≤ w.owners o) :
    Run.Follows (f.Corresponds x (w.placeIn f.code (k + 1)) (w.placeIn f.code k)) (f.blocks ≠ [])
      (p.resume e closure none ({ f with input := some x.toValue }, w))
      (p.resume e closure (some x) (f, w)) := by
  have hposition := hbefore.position
  have hstarted : 0 ≤ f.position := by omega
  have hnothing : ∀ t, e.release .none t = .ok () t := e.release_of_objects_nil rfl
  rw [resume_apply (f := { f with input := some x.toValue }) hstarted, resume_apply hstarted,
    Exec.activate_sent hposition hbefore.input, Exec.activate_thrown hposition hbefore.input,
    Exec.resume_eq, Run.bind_ok (Exec.enterFrame_sent hbefore.delegate hbefore.yields _)]
  cases hfuel : e.fuel with
  | zero => exact .outOfFuel _ _
  | succ n =>
      rw [Exec.run_raising hbefore.raises howned, Exec.resume_eq, hfuel]
      show Run.Follows _ _
        (settle e ((Exec.unwind e x >>= fun _ => Exec.run e p closure n) (⟨f, k + 2, .none⟩, w)))
        (settle e ((Exec.unwind e x >>= fun _ => Exec.run e p closure (n + 1)) (⟨f, k + 1, .none⟩, w)))
      rw [Run.bind_apply, Run.bind_apply]
      cases hblocks : f.blocks with
      | nil =>
          rw [Exec.unwind_unhandled hblocks, Exec.unwind_unhandled hblocks]
          simp only
          cases hcut : Exec.cutDown e x f 0 w with
          | ok _ t =>
              simp only [settle, hnothing]
              exact .exception (.inr ⟨hblocks, rfl, rfl⟩) _
          | error reason t =>
              cases reason with
              | raised y => exact absurd hcut (Exec.cutDown_silent he x f 0 _ y t)
              | aborted =>
                  simp only [settle, hnothing]
                  exact .aborted _ _
              | outOfFuel => exact .outOfFuel _ _
      | cons block rest =>
          have hsome : f.blocks ≠ [] := by simp [hblocks]
          rw [Exec.unwind_handled hblocks, Exec.unwind_handled hblocks, ← hblocks]
          simp only
          cases Exec.cutDown e x f block.stackDepth w with
          | ok _ t =>
              simp only
              generalize ((⟨_, block.handler, .none⟩, t) : Activation × World) = s
              by_cases hout : ∃ t, Exec.run e p closure n s = .error .outOfFuel t
              · obtain ⟨t, hout⟩ := hout
                rw [hout]
                exact .outOfFuel _ _
              · rw [Exec.run_more fun t ht => hout ⟨t, ht⟩]
                exact .same hsome x _ _ _
          | error reason t =>
              simp only
              rw [settle_counter (k + 2) (k + 1)]
              exact .same hsome x _ _ _

end Code.Program

/-! ## Out of the body -/

section Body

variable (he : e.Lenient) (hprogram : (w.code (w.generator g).code).body = .program p)
  (hf : w.frame? r = some f) (hbefore : f.BeforeRaise p k)

include he hprogram hf hbefore

/-- Running the body of a generator with an exception that is sent, and with one that is thrown. -/
theorem runBody_raising (howned : ∀ o ∈ x.toValue.objects, 1 ≤ w.owners o) :
    Run.Follows (f.Corresponds x (w.placeIn f.code (k + 1)) (w.placeIn f.code k)) (f.blocks ≠ [])
      (e.runBodyOn g r none (Frame.given x.toValue) w) (e.runBody g r (some x) w) := by
  have hresume : ∀ pending, (w.code (w.generator g).code).resume e (w.generator g).closure pending
      = p.resume e (w.generator g).closure pending := fun pending => by
    unfold CodeObject.resume
    rw [hprogram]
  show Run.Follows _ _
    ((World.withFrame r fun s => (w.code (w.generator g).code).resume e (w.generator g).closure none
        (s.1.given x.toValue, s.2)).ensuring (modify (·.setRunning g false)) (w.setRunning g true))
    ((World.withFrame r ((w.code (w.generator g).code).resume e (w.generator g).closure (some x))).ensuring
      (modify (·.setRunning g false)) (w.setRunning g true))
  rw [hresume, hresume]
  refine Run.Follows.ensuring ?_ fun _ _ _ h => nomatch h
  have hf' : (w.setRunning g true).frame? r = some f := hf
  refine Run.Follows.withFrame hf' ?_
  rw [show f.given x.toValue = { f with input := some x.toValue } from rfl]
  refine Code.Program.resume_raising (w := (w.setRunning g true).setFrame r none) he hbefore
    fun o ho => ?_
  rw [World.owners_setFrame, World.setRunning, World.owners_setGenerator]
  exact howned o ho

end Body

/-- The world in which an exception is pending in a frame, which is to be resumed. -/
def World.raisingIn (w : World) (r : FrameRef) (f : Frame) (x : Exception) : World :=
  (w.retain x.toValue).setFrame r (some (f.withPending x))

theorem Frame.BeforeRaise.unfinished (h : f.BeforeRaise p k) : f.isFinished = false := by
  have hne : f.position ≠ Frame.finished := fun heq => by
    have hposition := h.position
    rw [heq, Frame.finished] at hposition
    omega
  simpa [Frame.isFinished] using hne

theorem Frame.BeforeRaise.lowered (h : f.BeforeRaise p k) (x : Exception) :
    { f.withPending x with pending := none } = f := by
  obtain ⟨_, _, _, _, _, _, _, _, _⟩ := f
  cases h.pending
  rfl

/-- What is done about two exceptions that correspond. -/
theorem settleBody_corresponds (he : e.Lenient) {sent thrown : TraceEntry} {y y' : Exception}
    (hy : f.Corresponds x sent thrown y y') (t : World) :
    Run.Follows (f.Corresponds x sent thrown) (f.blocks ≠ []) (e.settleBody g r (.error y) t)
      (e.settleBody g r (.error y') t) := by
  have hargs : y.args = y'.args := by
    rcases hy with ⟨_, rfl⟩ | ⟨_, rfl, rfl⟩ <;> rfl
  have hforget : e.releaseException y = e.releaseException y' := by
    unfold Engine.releaseException
    rw [hargs]
  have hsilent : Run.Silent ((e.terminate g).onInterruption (e.releaseException y')) :=
    (Engine.terminate_silent he g).onInterruption (Engine.releaseObjects_silent he _)
  show Run.Follows _ _
    ((((e.terminate g).onInterruption (e.releaseException y)) >>= fun _ => Run.raise y) t)
    ((((e.terminate g).onInterruption (e.releaseException y')) >>= fun _ => Run.raise y') t)
  rw [hforget, Run.bind_apply, Run.bind_apply]
  cases hended : (e.terminate g).onInterruption (e.releaseException y') t with
  | ok _ s => exact .exception hy s
  | error reason s =>
      cases reason with
      | raised z => exact absurd hended (hsilent t z s)
      | aborted => exact .aborted _ _
      | outOfFuel => exact .outOfFuel _ _

/-- Resuming the frame with an exception that is sent, and with one that is pending. -/
theorem resumeFrame_raising (he : e.Lenient)
    (hprogram : (w.code (w.generator g).code).body = .program p) (hf : w.frame? r = some f)
    (hbefore : f.BeforeRaise p k) :
    Run.Follows (f.Corresponds x (w.placeIn f.code (k + 1)) (w.placeIn f.code k)) (f.blocks ≠ [])
      (e.resumeFrame g r x.toValue w) (e.resumeFrame g r .none (w.raisingIn r f x)) := by
  let u := w.retain x.toValue
  have hu : u.frame? r = some f := (frame_addOwners w _ r).trans hf
  have hgenerator : u.generator g = w.generator g := generator_addOwners w _ g
  have hcodes : u.codes = w.codes := (World.Same.addOwners w x.toValue.objects []).codes
  have hplace : ∀ offset, u.placeIn f.code offset = w.placeIn f.code offset := fun offset => by
    rw [World.placeIn, World.placeIn, World.code, World.code, hcodes]
  have howned : ∀ o ∈ x.toValue.objects, 1 ≤ u.owners o := fun o ho => by
    show 1 ≤ (w.addOwners x.toValue.objects).owners o
    rw [World.owners_addOwners]
    exact Nat.le_add_left_of_le (Bag.one_le_of_mem ho)
  have hrest : (w.setFrame r none).setFrame r (some { f with pending := none }) = w := by
    have hsame : { f with pending := none } = f := by rw [← hbefore.pending]
    rw [World.setFrame_setFrame, hsame, World.setFrame_self hf]
  have hsent : e.resumeFrame g r x.toValue w =
      (Run.attempt (e.runBodyOn g r none (Frame.given x.toValue)) >>= e.settleBody g r) u := by
    rw [resumeFrame_of_unfinished hf hbefore.unfinished, Run.bind_apply,
      startBody_of_empty hf hbefore.input, hbefore.pending, hrest, ← Run.bind_apply]
  have hback : ((w.raisingIn r f x).setFrame r none).setFrame r
      (some { f.withPending x with pending := none }) = u := by
    rw [World.raisingIn, World.setFrame_setFrame, World.setFrame_setFrame, hbefore.lowered,
      World.setFrame_self hu]
  have hraising : (w.raisingIn r f x).frame? r = some (f.withPending x) := by
    rw [World.raisingIn, World.frame_setFrame, if_pos rfl]
  have hthrown : e.resumeFrame g r .none (w.raisingIn r f x) =
      (Run.attempt (e.runBody g r (some x)) >>= e.settleBody g r) u := by
    rw [resumeFrame_of_pending hraising hbefore.unfinished rfl, hback]
  rw [hsent, hthrown]
  have hran := runBody_raising (x := x) he (by rwa [hgenerator, World.code, hcodes]) hu hbefore howned
  rw [hplace, hplace] at hran
  exact hran.answered (fun _ _ hblocks => .same hblocks x _ _ _)
    fun _ _ t hy => settleBody_corresponds he hy t

/-- Resuming a generator with an exception that is sent, once a level is taken, unless a delegate runs
out: what is sent is let go of at the end. -/
theorem proceed_raising (he : e.Lenient)
    (hprogram : (w.code (w.generator g).code).body = .program p) (hf : w.frame? r = some f)
    (hbefore : f.BeforeRaise p k) (hlasts : ∀ t, e.resumeFrame g r x.toValue w ≠ .ok none t) :
    Run.Follows (f.Corresponds x (w.placeIn f.code (k + 1)) (w.placeIn f.code k)) (f.blocks ≠ [])
      (e.proceed g r x.toValue w)
      ((e.proceed g r .none).ensuring (e.release x.toValue) (w.raisingIn r f x)) := by
  have hresumed := resumeFrame_raising (x := x) he hprogram hf hbefore
  have hforget : ∀ v, Run.Silent (e.release v) := fun v => Engine.releaseObjects_silent he v.objects
  have hback : ∀ v, Run.Silent (do World.leave; e.release v : Run World Unit) := fun v =>
    Run.Silent.bind (fun _ _ _ h => nomatch h) fun _ => hforget v
  have hnothing : ∀ t, e.release .none t = .ok () t := e.release_of_objects_nil rfl
  constructor
  · intro y s hok
    obtain ⟨result, t, hframe, hrest⟩ := Run.bind_eq_ok.1 hok
    rw [Run.onInterruption_eq_ok] at hframe
    cases result with
    | none => exact absurd hframe (hlasts t)
    | some y' =>
        obtain ⟨_, t₁, hleft, hrest⟩ := Run.bind_eq_ok.1 hrest
        obtain ⟨_, t₂, hreleased, hlast⟩ := Run.bind_eq_ok.1 hrest
        cases hlast
        obtain ⟨hblocks, hframe'⟩ := hresumed.ok hframe
        refine ⟨hblocks, Run.ensuring_ok ?_ hreleased⟩
        refine Run.bind_eq_ok.2 ⟨some y, t, Run.onInterruption_ok hframe', ?_⟩
        exact Run.bind_eq_ok.2 ⟨(), t₁, hleft, Run.bind_eq_ok.2 ⟨(), t₁, hnothing t₁, rfl⟩⟩
  · intro y s hraised
    rcases Run.bind_eq_raised.1 hraised with hraised | ⟨result, t, hframe, hrest⟩
    · obtain ⟨t, hframe, hcleaned⟩ := (Run.onInterruption_eq_raised (hback _)).1 hraised
      obtain ⟨_, t₁, hleft, hreleased⟩ := Run.bind_eq_ok.1 hcleaned
      obtain ⟨y', hy, hframe'⟩ := hresumed.raised hframe
      refine ⟨y', hy, Run.ensuring_raised (Run.bind_error ?_) hreleased⟩
      refine (Run.onInterruption_eq_raised (hback _)).2 ⟨t, hframe', ?_⟩
      exact Run.bind_eq_ok.2 ⟨(), t₁, hleft, hnothing t₁⟩
    · rw [Run.onInterruption_eq_ok] at hframe
      cases result with
      | none => exact absurd hframe (hlasts t)
      | some y' =>
          have hsilent : Run.Silent (do World.leave; e.release x.toValue; return y' : Run World Value) :=
            Run.Silent.bind (fun _ _ _ h => nomatch h) fun _ =>
              Run.Silent.bind (hforget _) fun _ => Run.silent_pure _
          exact absurd hrest (hsilent _ _ _)

/-! ## Around the body -/

namespace World

/-- A level of the thread is taken. -/
def deepened (w : World) : World := { w with thread := { w.thread with depth := w.thread.depth + 1 } }

theorem addOwners_deepened (w : World) (os : List Object) :
    (w.addOwners os).deepened = w.deepened.addOwners os := by
  unfold addOwners
  induction os generalizing w with
  | nil => rfl
  | cons o os ih =>
      rw [List.foldl_cons, List.foldl_cons, ih]
      cases o <;> rfl

theorem setOwners_setFrame (w : World) (n : Nat) (o : Object) (c : Option Frame) :
    (w.setOwners n o).setFrame r c = (w.setFrame r c).setOwners n o := by
  cases o with
  | frame s =>
      by_cases hs : s.index = r.index
      · simp only [setOwners, setFrame, Store.setOwners, Store.setContent, hs, Store.get_set_self,
          Store.set_set]
      · simp only [setOwners, setFrame, Store.setOwners, Store.setContent, Store.get_set_ne _ _ hs,
          Store.get_set_ne _ _ (Ne.symm hs), Store.set_comm _ _ _ hs]
  | _ => rfl

theorem addOwners_setFrame (w : World) (os : List Object) (c : Option Frame) :
    (w.addOwners os).setFrame r c = (w.setFrame r c).addOwners os := by
  unfold addOwners
  induction os generalizing w with
  | nil => rfl
  | cons o os ih => rw [List.foldl_cons, List.foldl_cons, ih, setOwners_setFrame, owners_setFrame]

/-- Leaving a copy of an exception in a frame that has been entered. -/
theorem raisingIn_entered (w : World) (r : FrameRef) (f : Frame) (x : Exception) :
    (w.entered r).raisingIn r f x =
      (((w.setFrame r (some (f.withPending x))).retain (.frame r)).retain x.toValue).deepened := by
  show ((w.retain (.frame r)).deepened.retain x.toValue).setFrame r _ = _
  rw [retain, ← addOwners_deepened]
  show (((w.retain (.frame r)).addOwners x.toValue.objects).setFrame r _).deepened = _
  rw [addOwners_setFrame, retain, addOwners_setFrame]
  rfl

end World

/-- A generator is idle, and a level is left for resuming it on its frame. -/
structure World.CanResume (w : World) (g : GeneratorRef) (r : FrameRef) : Prop where
  idle : (w.generator g).running = false
  slot : (w.generator g).frame = some r
  room : w.thread.depth < w.thread.limit

namespace World.CanResume

theorem congr (h : w.CanResume g r) (hgenerator : t.generator g = w.generator g)
    (hthread : t.thread = w.thread) : t.CanResume g r where
  idle := by rw [hgenerator, h.idle]
  slot := by rw [hgenerator, h.slot]
  room := by rw [hthread]; exact h.room

theorem retain (h : w.CanResume g r) (v : Value) : (w.retain v).CanResume g r :=
  h.congr (generator_addOwners w _ g) (thread_addOwners w _)

theorem setFrame (h : w.CanResume g r) (s : FrameRef) (c : Option Frame) :
    (w.setFrame s c).CanResume g r :=
  h.congr rfl rfl

end World.CanResume

/-- Resuming a generator in which an exception is pending, while its frame is shared. -/
def Engine.raisePending (e : Engine) (g : GeneratorRef) (r : FrameRef) : Run World Value := fun w =>
  e.proceed g r .none w.deepened

/-- Resuming a generator in which an exception is pending. -/
theorem resume_raisePending (hready : w.CanResume g r) :
    e.resume g .none w = (e.raisePending g r).ensuring (e.release (.frame r)) (w.retain (.frame r)) :=
  (resume_of_room hready.idle hready.slot hready.room).trans (Run.ensuring_congr rfl)

theorem raisePending_ends (hs : Serves C e e') (hZ : Z.Fit C) (hheld : Z.Held F g)
    (hadmits : Z.Admits g) (hready : w.CanResume g r) (hframe : 1 ≤ F (.frame r) + Z.left (.frame r))
    (h : Z.Linked F w w') :
    Ends Z.bond F holds (e.raisePending g r w) (e'.raisePending g r w') := by
  have hdeep := hZ.deeper (by rw [← h.pinned.thread]; exact hready.room)
  have hlinked : Z.deeper.Linked (holds Value.none + F) w.deepened w'.deepened := by
    have hset := h.setThread Z.deeper.leftThread Z.deeper.rightThread
    unfold World.deepened
    rw [h.pinned.thread, h.alike.thread]
    exact hset.le (by rw [holds_value_none, zero_add])
  exact proceed_ends hs hZ hdeep hheld hadmits hready.idle hready.slot hframe hlinked

theorem Law.not_barred_sparing (w t : World) (g : GeneratorRef) : ¬ (Law.sparing w t).Barred g := by
  intro hbarred
  obtain ⟨o, hclose, -⟩ := hbarred (.close g) default rfl
  cases hclose

/-- A frame that is held is still held where no less is. -/
theorem frame_kept {Y : Zone} {G : Bag} (h : holds (Value.frame r) + F ≤ G) :
    1 ≤ G (.frame r) + Y.left (.frame r) :=
  Nat.le_add_right_of_le ((Session.frame_held r F).trans (Bag.apply_le h (.frame r)))

/-- What is pending in a frame has an owner. -/
theorem Zone.Linked.covered_pending (h : Z.Linked F w w') (hr : ¬ Z.hidden (.frame r))
    (hf : w.frame? r = some f) (hx : f.pending = some x) : Z.Covered w (holds x.toValue) := by
  refine h.covered_of_references (le_trans (fun o => ?_) (World.holds_frame_le hr))
  rw [hf, holds_some, holds_frame, hx, holds_some]
  show holds x o ≤ _
  simp only [Pi.add_apply]
  omega

section Pending

variable {L : Law} [L.Free] {m : Nat} (hheld : Z.Held F g) (hready : w.CanResume g r)

include hheld hready

theorem raisePending_keeping {L : Law} {Y : Zone} {G : Bag} {t t' : World}
    (hs : Serves (Zone.Under L) e e') (hbarred : ¬ L.Barred g) (hkeeping : Z.Keeping F w L Y G t)
    (hframe : 1 ≤ G (.frame r) + Y.left (.frame r)) (h : Y.Linked G t t') :
    Ends Y.bond G holds (e.raisePending g r t) (e'.raisePending g r t') := by
  have hadmits : Y.Admits g := Or.inr (by rwa [show Y.law = L from hkeeping.fit.property])
  exact raisePending_ends hs hkeeping.fit (hkeeping.held hheld) hadmits
    (hready.congr (hkeeping.generator g) hkeeping.thread) hframe h

/-- It makes no difference to raising the exception whether the frame is shared once more. -/
theorem raisePending_holding (hZ : Z.Fit (Zone.Level L)) (h : Z.Linked (holds (Value.frame r) + F) w w)
    (hends : ∀ s, (Machine.engine n).raisePending g r w ≠ .error .outOfFuel s) :
    ((Machine.engine n).raisePending g r).ensuring ((Machine.engine m).release (.frame r))
        (w.retain (.frame r)) = (Machine.engine n).raisePending g r w := by
  have hserves : Serves (Zone.Under (.holding w.held)) (Machine.engine n) (Machine.engine n) :=
    Machine.machine_serves (fun _ hY => hY.free) le_rfl
  refine ensuring_release_of_kept (q := holds) hZ h (fun {Y G t t'} hkeeping hkept ht => ?_) hends
  have hframe : 1 ≤ G (.frame r) + Y.left (.frame r) :=
    (Session.frame_held r F).trans (Bag.apply_le hkept (.frame r))
  have hends := raisePending_keeping hheld hready hserves (Law.Free.not_barred _ g) hkeeping hframe ht
  exact ⟨⟨_, hends⟩, _, hends⟩

section Shared

variable (hZ : Z.Fit (Zone.Level L)) (h : Z.Linked (holds (Value.frame r) + F) w w)
  (hcovered : Z.Covered w (holds v))

include hZ h hcovered

/-- Nor does it make a difference whether somebody else keeps a value, if nothing is disposed of that the
value refers to. -/
theorem raisePending_keep
    (hkept : ∀ s, (Machine.observedEngine (Machine.keeping v.objects) n).raisePending g r w ≠
      .error .outOfFuel s) :
    ((Machine.engine n).raisePending g r).ensuring ((Machine.engine m).release v) (w.retain v) =
        (Machine.engine n).raisePending g r w ∧
      ∀ s, (Machine.engine n).raisePending g r w ≠ .error .outOfFuel s := by
  have howned : ∀ o ∈ v.objects, 1 ≤ w.owners o := fun o ho => (hcovered o (Bag.one_le_of_mem ho)).2
  have hheld : Z.Held (holds (Value.frame r) + F) g := hheld.le le_add_self
  obtain ⟨hkeep, hsame⟩ := ensuring_release_of_lasting (n := m) (q := holds) hZ h hcovered
    (fun hkeeping ht => ⟨_, raisePending_keeping hheld hready (Machine.keeping_serves howned le_rfl)
      (Law.not_barred_sparing _ w g) hkeeping (frame_kept hkeeping.more) ht⟩)
    (fun hkeeping ht => ⟨_, raisePending_keeping hheld hready
      (Machine.machine_serves (fun _ hY => hY.free) (le_refl n)) (Law.Free.not_barred _ g) hkeeping
      (frame_kept hkeeping.more) ht⟩) hkept
  exact ⟨by rw [hkeep, hsame], fun s hs => hkept s (by rw [← hsame, hs])⟩

/-- The same holds when the frame is let go of as well. -/
theorem raisePending_release_keep (hnm : n ≤ m)
    (hkept : ∀ s, ((Machine.observedEngine (Machine.keeping v.objects) n).raisePending g r).ensuring
        ((Machine.observedEngine (Machine.keeping v.objects) n).release (.frame r)) w ≠
      .error .outOfFuel s) :
    (((Machine.engine n).raisePending g r).ensuring ((Machine.engine m).release (.frame r))).ensuring
        ((Machine.engine m).release v) (w.retain v) =
      ((Machine.engine n).raisePending g r).ensuring ((Machine.engine n).release (.frame r)) w := by
  let observed := Machine.observedEngine (Machine.keeping v.objects) n
  have howned : ∀ o ∈ v.objects, 1 ≤ w.owners o := fun o ho => (hcovered o (Bag.one_le_of_mem ho)).2
  have hheld : Z.Held (holds (Value.frame r) + F) g := hheld.le le_add_self
  have hends : ∀ {K : Law} {Y : Zone} {G : Bag} {t t' : World} {e e₁ e' e₂ : Engine}, ¬ K.Barred g →
      Serves (Zone.Under K) e e' → Serves (Zone.Under K) e₁ e₂ →
      Z.Keeping (holds (Value.frame r) + F) w K Y G t → Y.Linked G t t' → ∃ H, Ends Y.bond H holds
        ((e.raisePending g r).ensuring (e₁.release (.frame r)) t)
        ((e'.raisePending g r).ensuring (e₂.release (.frame r)) t') := by
    intro K Y G t t' e e₁ e' e₂ hbarred hs hs₁ hkeeping ht
    obtain ⟨H, rfl⟩ := exists_add_of_le hkeeping.more
    have hraised := raisePending_keeping hheld hready hs hbarred hkeeping (frame_kept hkeeping.more) ht
    rw [add_assoc] at hraised
    exact ⟨_, hraised.ensuring fun _ _ _ _ hss => release_ends hs₁ hkeeping.fit hss⟩
  have hboth : ∀ k, n ≤ k →
      (((Machine.engine n).raisePending g r).ensuring ((Machine.engine k).release (.frame r))).ensuring
          ((Machine.engine m).release v) (w.retain v) =
        (observed.raisePending g r).ensuring (observed.release (.frame r)) w ∧
      ((Machine.engine n).raisePending g r).ensuring ((Machine.engine k).release (.frame r)) w =
        (observed.raisePending g r).ensuring (observed.release (.frame r)) w := by
    intro k hnk
    refine ensuring_release_of_lasting (q := holds) hZ h hcovered (fun hkeeping ht => ?_)
      (fun hkeeping ht => ?_) hkept
    · exact hends (Law.not_barred_sparing _ w g) (Machine.keeping_serves howned le_rfl)
        (Machine.keeping_serves howned hnk) hkeeping ht
    · exact hends (Law.Free.not_barred _ g) (Machine.machine_serves (fun _ hY => hY.free) (le_refl n))
        (Machine.machine_serves (fun _ hY => hY.free) (le_refl k)) hkeeping ht
  rw [(hboth m hnm).1, (hboth n le_rfl).2]

end Shared

/-- Whether the call keeps the exception, or the frame as well, resuming a generator in which it is
pending comes to the same, if nothing is disposed of that the exception refers to. -/
theorem resume_keep (hZ : Z.Fit (Zone.Level L)) (h : Z.Linked F w w) (hf : w.frame? r = some f)
    (hx : f.pending = some x) (hnm : n ≤ m)
    (hkept : ∀ s, (Machine.observedEngine (Machine.keeping x.toValue.objects) n).resume g .none w ≠
      .error .outOfFuel s) :
    (((Machine.engine n).raisePending g r).ensuring ((Machine.engine n).release x.toValue)).ensuring
        ((Machine.engine n).release (.frame r)) ((w.retain (.frame r)).retain x.toValue) =
      (Machine.engine n).resume g .none w ∧
    (((Machine.engine n).resume g .none).ensuring ((Machine.engine m).release (.frame r))).ensuring
        ((Machine.engine m).release x.toValue) ((w.retain (.frame r)).retain x.toValue) =
      (Machine.engine n).resume g .none w := by
  let t := w.retain (.frame r)
  let u := t.retain x.toValue
  have hready_t : t.CanResume g r := hready.retain _
  have hready_u : u.CanResume g r := hready_t.retain _
  have ht : Z.Linked (holds (Value.frame r) + F) t t := shareFrame_linked hZ.valid hheld.1 hready.slot h
  have hcovered : Z.Covered t (holds x.toValue) :=
    ht.covered_pending (hZ.property.hidden _) ((frame_addOwners w _ r).trans hf) hx
  have hu : Z.Linked (holds (Value.frame r) + F) u u := (ht.retain hZ.valid hcovered).le le_add_self
  rw [resume_raisePending hready] at hkept ⊢
  -- while the call keeps the exception
  obtain ⟨hkeep, hends⟩ := raisePending_keep (m := n) hheld hready_t hZ ht hcovered
    fun s hs => hkept s (Run.ensuring_outOfFuel hs)
  refine ⟨Run.ensuring_congr hkeep, ?_⟩
  -- while it keeps the frame as well
  have hframe : (Machine.engine n).resume g .none u = (Machine.engine n).raisePending g r u := by
    rw [resume_raisePending hready_u]
    refine raisePending_holding hheld hready_u hZ hu fun s hs => hends s ?_
    rw [← hkeep]
    exact Run.ensuring_outOfFuel hs
  rw [← raisePending_release_keep hheld hready_t hZ ht hcovered hnm hkept]
  exact Run.ensuring_congr (Run.ensuring_congr hframe)

end Pending

/-! ## The two calls -/

/-- Leaving an exception in a frame keeps worlds linked. -/
theorem Zone.Linked.leavePending (h : Z.Linked (holds x + F) w w') (hr : ¬ Z.hidden (.frame r))
    (hcell : Z.cells r = none) (hf : w.frame? r = some f) (hpending : f.pending = none) :
    Z.Linked F (w.setFrame r (some (f.withPending x))) (w'.setFrame r (some (f.withPending x))) := by
  have htaken := h.takeFrame hr hf
  have hput := (htaken.le (fun o => ?_)).putFrame (f := f.withPending x) (F := F) hr hcell fun hlaw => ?_
  · rw [World.setFrame_setFrame, World.setFrame_setFrame] at hput
    exact hput
  · simp only [Frame.withPending, holds_frame, hpending, holds_some, holds_none, Pi.add_apply, Pi.zero_apply]
    omega
  · have htame := (h.tame hlaw).frames r f hf
    exact ⟨⟨htame.start, htame.position, htame.next⟩, htame.input⟩

theorem Frame.BeforeRaise.started (h : f.BeforeRaise p k) : f.isStarted = true := by
  have hne : f.position ≠ Frame.notStarted := fun heq => by
    have hposition := h.position
    rw [heq, Frame.notStarted] at hposition
    omega
  simpa [Frame.isStarted] using hne

section Calls

variable (hready : u.CanResume g r) (hf : u.frame? r = some f) (hbefore : f.BeforeRaise p k)

include hready hf hbefore

/-- A generator that has been started is resumed with what is sent. -/
theorem send_of_beforeRaise : e.send g v u = e.perform (.resume g v) u := by
  have hnot : (u.isJustStarted r && !v.isNone) = false := by
    simp [World.isJustStarted, hf, hbefore.started]
  unfold Engine.send
  rw [Run.bind_apply]
  simp only [Run.get_apply]
  rw [hready.slot]
  simp only [hnot]
  rfl

/-- A send raises the exception while the call keeps a copy of it, and lets go of that before the frame. -/
theorem resume_raising (he : e.Lenient)
    (hprogram : (u.code (u.generator g).code).body = .program p)
    (hlasts : ∀ t, e.resumeFrame g r x.toValue (u.entered r) ≠ .ok none t) :
    Run.Follows (f.Corresponds x (u.placeIn f.code (k + 1)) (u.placeIn f.code k)) (f.blocks ≠ [])
      (e.resume g x.toValue u)
      (((e.raisePending g r).ensuring (e.release x.toValue)).ensuring (e.release (.frame r))
        (((u.setFrame r (some (f.withPending x))).retain (.frame r)).retain x.toValue)) := by
  have hcodes : (u.entered r).codes = u.codes := (World.Same.addOwners u _ []).codes
  have hplace : ∀ offset, (u.entered r).placeIn f.code offset = u.placeIn f.code offset :=
    fun offset => by rw [World.placeIn, World.placeIn, World.code, World.code, hcodes]
  have hproceeds := proceed_raising (w := u.entered r) (x := x) he
    (by rwa [World.generator_entered, World.code, hcodes]) ((World.frame_entered u r r).trans hf) hbefore
    hlasts
  rw [hplace, hplace, World.raisingIn_entered] at hproceeds
  rw [resume_of_room hready.idle hready.slot hready.room]
  exact hproceeds.ensuring (Engine.releaseObjects_silent he _)

/-- A throw raises the exception while the call keeps the frame and a copy of the exception, and lets go
of the frame first. -/
theorem answerThrow_raising :
    e.answerThrow g ⟨x.toValue, none, none⟩ u =
      (((e.perform (.resume g .none)).ensuring (e.release (.frame r))).ensuring (e.release x.toValue))
        (((u.setFrame r (some (f.withPending x))).retain (.frame r)).retain x.toValue) := by
  let t := u.retain (.frame r)
  have hft : t.frame? r = some f := (frame_addOwners u _ r).trans hf
  have hread : World.readFrame r t = .ok f t := World.readFrame_eq_ok.2 ⟨hft, rfl⟩
  have hmade : World.normalize x.toValue none t = .ok x (t.retain x.toValue) := by
    unfold World.normalize
    rw [Exception.normalize_toValue]
    rfl
  have hft' : (t.retain x.toValue).frame? r = some f := (frame_addOwners t _ r).trans hft
  have hpends : f.PendsNothing := by
    rw [Frame.PendsNothing, hbefore.pending]
    rfl
  have hworld : (t.retain x.toValue).setFrame r (some (f.withPending x)) =
      ((u.setFrame r (some (f.withPending x))).retain (.frame r)).retain x.toValue := by
    show ((u.addOwners _).addOwners _).setFrame r _ = _
    rw [World.addOwners_setFrame, World.addOwners_setFrame]
    rfl
  have hraised : e.raiseIntoFrame g r x.toValue none none t = e.perform (.resume g .none)
      (((u.setFrame r (some (f.withPending x))).retain (.frame r)).retain x.toValue) := by
    show Run.ensuring _ (pure ()) t = _
    rw [Machine.ensuring_pure, Run.bind_ok hmade, ← hworld]
    exact inject_of_rest hft' hbefore.delegate hpends
  unfold Engine.answerThrow
  refine Run.ensuring_congr ?_
  show (get >>= fun s => _ : Run World Value) u = _
  rw [Run.bind_apply]
  simp only [Run.get_apply]
  rw [if_neg (by simp [hready.idle]), hready.slot]
  show e.throwInto g r x.toValue none none t = _
  unfold Engine.throwInto
  rw [Run.bind_ok (Run.onInterruption_ok hread), hbefore.delegate]
  show Run.ensuring _ (e.releaseAll [.frame r]) t = _
  rw [Engine.releaseAll_singleton]
  exact Run.ensuring_congr hraised

end Calls

/-- A generator may be resumed on its frame, which is suspended at a yield of its program that a `raise`
follows. -/
structure World.AtRaise (w : World) (g : GeneratorRef) (r : FrameRef) (f : Frame) (k : Nat) : Prop
    extends w.CanResume g r where
  frame : w.frame? r = some f
  program : ∃ p : Code.Program, (w.code (w.generator g).code).body = .program p ∧ f.BeforeRaise p k

instance (f : Frame) (p : Code.Program) (k : Nat) : Decidable (f.BeforeRaise p k) :=
  decidable_of_iff (f.position = k + 1 ∧ p.instructions[k]? = some .yieldValue ∧
      p.instructions[k + 1]? = some .raise ∧ f.delegate = none ∧ f.pending = none ∧ f.input = none)
    ⟨fun ⟨hposition, hyields, hraises, hdelegate, hpending, hinput⟩ =>
        ⟨hposition, hyields, hraises, hdelegate, hpending, hinput⟩,
      fun h => ⟨h.position, h.yields, h.raises, h.delegate, h.pending, h.input⟩⟩

instance (w : World) (g : GeneratorRef) (r : FrameRef) (f : Frame) (k : Nat) :
    Decidable (w.AtRaise g r f k) :=
  match hp : (w.code (w.generator g).code).body with
  | .script _ => .isFalse fun h => by
      obtain ⟨_, hprogram, _⟩ := h.program
      cases hp.symm.trans hprogram
  | .program p =>
    decidable_of_iff ((w.generator g).running = false ∧ (w.generator g).frame = some r ∧
        w.thread.depth < w.thread.limit ∧ w.frame? r = some f ∧ f.BeforeRaise p k)
      ⟨fun ⟨hidle, hslot, hroom, hf, hbefore⟩ => ⟨⟨hidle, hslot, hroom⟩, hf, p, hp, hbefore⟩,
        fun h => by
          obtain ⟨q, hq, hbefore⟩ := h.program
          obtain rfl : p = q := Body.program.inj (hp.symm.trans hq)
          exact ⟨h.idle, h.slot, h.room, h.frame, hbefore⟩⟩

namespace Session

/-- A body that yields, and raises what is sent to it. -/
def raisingGiven : Code.Source :=
  ⟨"body", [], "<bytecode>", 0, [.loadConst (.int 1), .emit .yieldValue, .emit .raise]⟩

/-- What makes a generator that is suspended there. -/
def raisingCommands : List Command :=
  [.assemble "p" raisingGiven, .makeGenerator "g" "p" [] .none, .drive "g" .next none]

/-- An exception that is sent. -/
def keyErrorGiven : Exception := ⟨.keyError, [.int 7], none⟩

/-- The moment when it is sent to the generator. -/
def raisingWorld : World :=
  brokenOffAt (runUpTo raisingCommands (.drive "g" (.send (.exception .keyError [.int 7] none [])) none)
    (.asked (.resume ⟨0⟩ keyErrorGiven.toValue)))

/-- The frame then. -/
def raisingFrame : Frame := { Frame.new ⟨0⟩ [] with position := 2 }

/-- A body that yields, catches what it raises when that is sent to it, and returns. -/
def catchingGiven : Code.Source :=
  ⟨"body", ["it"], "<bytecode>", 1,
    [.setupExcept 0, .loadConst (.int 1), .emit .yieldValue, .emit .raise,
      .bind 0, .emit .popTop, .loadConst .none, .emit .returnValue]⟩

/-- A body that sends the result of its delegation to the generator in a variable. -/
def sendingResult : Script := ⟨[[], [.call (.mk "g" .send [.field .result])]], .finish⟩

/-- A generator that makes a note when it is asked to finish is held by the frame of another one, and
such a generator by the exception that is sent to that. -/
def catchingCommands : List Command :=
  [.assemble "pk1" (notingExit 1), .assemble "pk2" (notingExit 2), .assemble "p" catchingGiven,
    .bind "seen" (.list []),
    .makeGenerator "k1" "pk1" [.variable "seen"] .none, .drive "k1" .next none,
    .makeGenerator "k2" "pk2" [.variable "seen"] .none, .drive "k2" .next none,
    .makeGenerator "g" "p" [.variable "k2"] .none, .drive "g" .next none,
    .makeScript "pc" "caller" "<native>" sendingResult, .makeGenerator "c" "pc" [] .none,
    .editFrame (.variable "c") (.delegation (.exception .valueError [.variable "k1"] none [])),
    .unbind "k1", .unbind "k2"]

/-- The exception that is sent. -/
def generatorGiven : Exception := ⟨.valueError, [.generator ⟨0⟩], none⟩

/-- The moment when it is sent. -/
def catchingWorld : World :=
  brokenOffAt (runUpTo catchingCommands (.drive "c" .next none)
    (.asked (.resume ⟨2⟩ generatorGiven.toValue)))

end Session

end Resumable
