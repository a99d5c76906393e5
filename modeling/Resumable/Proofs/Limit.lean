import Resumable.Proofs.Termination

set_option autoImplicit false

/-!
# Calls that are refused a level

A resume that finds no level left is refused before the body runs.  To resume with or without a value
leaves everything as it was: whatever is sent is forgotten, and that is all (`AtLimit.resume`).  To
throw and to close write the exception into the frame first and resume then, so that it stays there
when the resume is refused, and is raised by the next resume that is not (`AtLimit.throw`,
`AtLimit.close`).
-/

namespace Resumable

variable {e : Engine} {g : GeneratorRef} {r : FrameRef} {f : Frame} {v : Value} {w t u : World}

namespace World

/-! ## A frame that is shared for a while -/

theorem retain_frame (w : World) (r : FrameRef) :
    w.retain (.frame r) = w.setOwners (w.owners (.frame r) + 1) (.frame r) := rfl

theorem setFrame_retain (w : World) (r : FrameRef) (x : Option Frame) :
    (w.retain (.frame r)).setFrame r x = (w.setFrame r x).retain (.frame r) := by
  simp only [retain_frame, setFrame, setOwners, owners, Store.setContent, Store.setOwners,
    Store.get_set_self, Store.set_set, Store.owners]

/-- A frame that is shared and forgotten again, while there is an owner. -/
theorem release_retained (e : Engine) (hf : w.frame? r = some f) (howned : 1 ≤ w.owners (.frame r)) :
    e.release (.frame r) (w.retain (.frame r)) = .ok () w := by
  obtain ⟨n, hn⟩ : ∃ n, w.owners (.frame r) = n + 1 := ⟨_, (Nat.sub_add_cancel howned).symm⟩
  have hrelease : e.release (.frame r) (w.retain (.frame r)) =
      .ok () ((w.retain (.frame r)).setOwners (n + 1) (.frame r)) := by
    have htwo : (w.retain (.frame r)).owners (.frame r) = n + 2 := by
      rw [retain_frame, owners_setOwners, if_pos rfl, hn]
    show Run.ensuring (e.releaseObject (.frame r)) (pure ()) _ = _
    rw [Machine.ensuring_pure, e.releaseObject_of_two_le htwo]
  have hback : (w.retain (.frame r)).setOwners (n + 1) (.frame r) = w := by
    have hcell : ({ w.frames.get r.index with owners := n + 1 } : Cell (Option Frame))
        = w.frames.get r.index := by
      rw [← hn]
      rfl
    simp only [retain_frame, setOwners, Store.setOwners, Store.get_set_self, Store.set_set, hcell,
      Store.set_get (frame_made hf)]
  rw [hrelease, hback]

end World

theorem releaseAll_of_objects_nil {vs : List Value} (h : Value.objectsOfAll vs = []) (w : World) :
    e.releaseAll vs w = .ok () w := by
  rw [Engine.releaseAll, h]
  rfl

/-- Carrying out a computation that raises, and forgetting what refers to nothing. -/
theorem ensuring_raised_silent {x : Exception} {m : Run World Value} {vs : List Value}
    (hm : m w = .error (.raised x) t) (hvs : Value.objectsOfAll vs = []) :
    m.ensuring (e.releaseAll vs) w = .error (.raised x) t :=
  Run.ensuring_raised hm (releaseAll_of_objects_nil hvs t)

/-! ## Changing a frame that is at rest -/

/-- What a frame at rest is to raise refers to nothing. -/
def Frame.PendsNothing (f : Frame) : Prop :=
  Value.objectsOfAll ((f.pending.map (·.args)).getD []) = []

theorem withFrame_of_rest {α : Type} {a : α} {f' : Frame} {m : Run (Frame × World) α}
    (hf : w.frame? r = some f)
    (hm : m (f, w.setFrame r none) = .ok a (f', w.setFrame r none)) :
    World.withFrame r m w = .ok a (w.setFrame r (some f')) := by
  unfold World.withFrame Run.withPrivate
  rw [hf]
  simp only [hm, Run.modify_apply, World.setFrame_setFrame]

theorem replace_of_objects_nil (change : Frame → Frame × List Value)
    (h : Value.objectsOfAll (change f).2 = []) (w : World) :
    e.replace change (f, w) = .ok () ((change f).1, w) := by
  show Run.shared (e.releaseAll (change f).2) ((change f).1, w) = _
  unfold Run.shared
  simp only [releaseAll_of_objects_nil h]

/-- The frame with an exception to raise. -/
def Frame.withPending (f : Frame) (x : Exception) : Frame := { f with pending := some x }

theorem leavePending_of_rest {x : Exception} (hf : w.frame? r = some f) (hpending : f.PendsNothing) :
    e.leavePending r x w = .ok () (w.setFrame r (some (f.withPending x))) := by
  have hread : World.readFrame r w = .ok f w := by
    unfold World.readFrame
    rw [hf]
  unfold Engine.leavePending Engine.withFrameFor
  rw [Run.bind_ok (Run.onInterruption_ok hread)]
  exact withFrame_of_rest hf (replace_of_objects_nil (·.replacePending x) hpending _)

theorem inject_of_rest {x : Exception} (hf : w.frame? r = some f) (hdelegate : f.delegate = none)
    (hpending : f.PendsNothing) :
    e.inject g r x w = e.perform (.resume g .none) (w.setFrame r (some (f.withPending x))) := by
  have hread : World.readFrame r w = .ok f w := by
    unfold World.readFrame
    rw [hf]
  unfold Engine.inject Engine.withFrameFor
  refine Run.bind_ok (a := ()) ?_
  rw [Run.bind_ok (Run.onInterruption_ok hread)]
  refine withFrame_of_rest hf ?_
  have hsame : (f.removeDelegate).1 = f := by
    unfold Frame.removeDelegate
    rw [← hdelegate]
  have hremoved : e.replace Frame.removeDelegate (f, w.setFrame r none) =
      .ok () (f, w.setFrame r none) := by
    rw [replace_of_objects_nil _ (by simp [Frame.removeDelegate, hdelegate, Value.objectsOfAll]),
      hsame]
  rw [Run.bind_ok (Run.onInterruption_ok hremoved)]
  exact replace_of_objects_nil (·.replacePending x) hpending _

/-! ## Refusals -/

/-- A generator is idle, its frame is at rest and belongs to it, the body does not delegate, and no
level is left. -/
structure World.AtLimit (w : World) (g : GeneratorRef) (r : FrameRef) (f : Frame) : Prop where
  idle : (w.generator g).running = false
  slot : (w.generator g).frame = some r
  frame : w.frame? r = some f
  owned : 1 ≤ w.owners (.frame r)
  simple : f.delegate = none
  pending : f.PendsNothing
  full : w.thread.limit ≤ w.thread.depth

namespace World.AtLimit

theorem withPending {x : Exception} (h : w.AtLimit g r f) (hx : Value.objectsOfAll x.args = []) :
    (w.setFrame r (some (f.withPending x))).AtLimit g r (f.withPending x) where
  idle := h.idle
  slot := h.slot
  frame := by simp
  owned := by simpa using h.owned
  simple := h.simple
  pending := hx
  full := h.full

theorem retain (h : w.AtLimit g r f) : (w.retain (.frame r)).AtLimit g r f where
  idle := h.idle
  slot := h.slot
  frame := by rw [World.retain, frame_addOwners, h.frame]
  owned := by rw [retain_frame, owners_setOwners, if_pos rfl]; omega
  simple := h.simple
  pending := h.pending
  full := h.full

/-- A resume is refused, and changes nothing. -/
theorem resume (h : w.AtLimit g r f) (n : Nat) {v : Value} (hv : v.objects = []) :
    Machine.perform (n + 1) (.resume g v) w = .error (.raised .recursionError) w := by
  show (Machine.engine n).resume g v w = _
  rw [resume_of_full h.idle h.slot h.full]
  refine Run.ensuring_raised ?_ (release_retained _ h.frame h.owned)
  exact Run.bind_ok ((Machine.engine n).release_of_objects_nil hv _)

/-- What is released last is the frame. -/
theorem owning_frame {x : Exception} {m : Run World Value} (h : w.AtLimit g r f)
    (hm : m (w.retain (.frame r)) = .error (.raised x) (w.retain (.frame r))) :
    e.owning (.frame r) m (w.retain (.frame r)) = .error (.raised x) w :=
  Run.ensuring_raised hm (release_retained e h.frame h.owned)

theorem close (h : w.AtLimit g r f) (n : Nat) :
    (Machine.engine (n + 2)).close g w =
      .error (.raised .recursionError) (w.setFrame r (some (f.withPending .generatorExit))) := by
  have hafter := h.withPending (x := .generatorExit) rfl
  have hread : World.readFrame r (w.retain (.frame r)) = .ok f (w.retain (.frame r)) := by
    unfold World.readFrame
    rw [h.retain.frame]
  have hdelegate : (Machine.engine (n + 1)).closeDelegate g r (w.retain (.frame r)) =
      .ok () (w.retain (.frame r)) := by
    unfold Engine.closeDelegate
    rw [Run.bind_ok hread, h.simple]
    rfl
  have hleft := leavePending_of_rest (e := Machine.engine (n + 1)) (x := .generatorExit)
    h.retain.frame h.pending
  have hrefused : Run.attempt ((Machine.engine (n + 1)).perform (.resume g .none))
      ((w.retain (.frame r)).setFrame r (some (f.withPending .generatorExit))) =
        .ok (.error .recursionError)
          ((w.retain (.frame r)).setFrame r (some (f.withPending .generatorExit))) := by
    have := (h.retain.withPending (x := .generatorExit) rfl).resume n (v := .none) rfl
    unfold Run.attempt
    rw [show (Machine.engine (n + 1)).perform = Machine.perform (n + 1) from rfl, this]
  show (Machine.engine (n + 1)).answerClose g w = _
  unfold Engine.answerClose
  rw [Run.bind_apply]
  simp only [Run.get_apply]
  rw [if_neg (by simp [h.idle]), h.slot]
  show (Machine.engine (n + 1)).owning (.frame r) _ (w.retain (.frame r)) = _
  refine Run.ensuring_raised (t := (w.setFrame r (some (f.withPending .generatorExit))).retain (.frame r))
    ?_ (release_retained _ hafter.frame hafter.owned)
  unfold Engine.closeWith
  rw [Run.bind_ok hdelegate, Run.bind_ok hleft, Run.bind_ok hrefused, ← setFrame_retain]
  rfl

/-- The exception that a throw leaves in the frame. -/
def thrownException (x : Exception) : Option Traceback → Exception
  | none => x
  | some t => x.setTraceback t

theorem throw (h : w.AtLimit g r f) (n : Nat) {thrown : Throw} {tb : Option Traceback}
    {x : Exception} (htb : Engine.tracebackOf thrown.traceback = .ok tb)
    (hx : Exception.normalize thrown.type thrown.value = .ok x)
    (htype : thrown.type.objects = []) (hvalue : Value.objectsOfAll thrown.value.toList = []) :
    (Machine.engine (n + 2)).throw g thrown w =
      .error (.raised .recursionError)
        (w.setFrame r (some (f.withPending (thrownException x tb)))) := by
  obtain ⟨type, value, traceback⟩ := thrown
  have hargs : Value.objectsOfAll x.args = [] := by
    have hle := holds_normalize_le hx
    have hnone : holds type + holds value = 0 := by
      have hv : holds value = .of (Value.objectsOfAll value.toList) := (holds_toList value).symm
      rw [hv, hvalue, holds_value, htype, Bag.of_nil, add_zero]
    exact Bag.eq_nil_of_le_zero (hle.trans hnone.le)
  have hthrown : Value.objectsOfAll (thrownException x tb).args = [] := by
    cases tb <;> exact hargs
  have hafter := h.withPending hthrown
  have hread : World.readFrame r (w.retain (.frame r)) = .ok f (w.retain (.frame r)) := by
    unfold World.readFrame
    rw [h.retain.frame]
  have hnormal : World.normalize type value (w.retain (.frame r)) = .ok x (w.retain (.frame r)) := by
    unfold World.normalize
    rw [hx]
    show EStateM.Result.ok x ((w.retain (.frame r)).addOwners (Value.objectsOfAll x.args)) = _
    rw [hargs]
    rfl
  have hrefused := (h.retain.withPending hthrown).resume n (v := .none) rfl
  have hraised : (Machine.engine (n + 1)).raiseIntoFrame g r type value tb (w.retain (.frame r)) =
      .error (.raised .recursionError)
        ((w.retain (.frame r)).setFrame r (some (f.withPending (thrownException x tb)))) := by
    refine ensuring_raised_silent ?_ hvalue
    rw [Run.bind_ok hnormal]
    refine (inject_of_rest h.retain.frame h.simple h.pending).trans ?_
    cases tb <;> exact hrefused
  show (Machine.engine (n + 1)).answerThrow g _ w = _
  unfold Engine.answerThrow
  refine Run.ensuring_raised ?_ ((Machine.engine (n + 1)).release_of_objects_nil htype _)
  simp only [htb]
  rw [Run.bind_apply]
  simp only [Run.get_apply]
  rw [if_neg (by simp [h.idle]), h.slot]
  show (Machine.engine (n + 1)).throwInto g r type value tb (w.retain (.frame r)) = _
  unfold Engine.throwInto
  rw [Run.bind_ok (Run.onInterruption_ok hread), h.simple]
  show Run.ensuring _ ((Machine.engine (n + 1)).releaseAll [.frame r]) _ = _
  rw [Engine.releaseAll_singleton]
  refine Run.ensuring_raised hraised ?_
  rw [setFrame_retain]
  exact release_retained _ hafter.frame hafter.owned

/-- A send that is refused forgets the value while the frame is shared. -/
theorem send (h : w.AtLimit g r f) (n : Nat) {v : Value}
    (hready : v.isNone = true ∨ f.isStarted = true) :
    (Machine.engine (n + 1)).send g v w =
      (Machine.engine n).refuse .recursionError [v, .frame r] (w.retain (.frame r)) := by
  have hnot : (w.isJustStarted r && !v.isNone) = false := by
    unfold World.isJustStarted
    rw [h.frame]
    rcases hready with hv | hf
    · simp [hv]
    · simp [hf]
  unfold Engine.send
  rw [Run.bind_apply]
  simp only [Run.get_apply]
  rw [h.slot]
  simp only [hnot]
  show (Machine.engine n).resume g v w = _
  rw [resume_of_full h.idle h.slot h.full, ← Engine.releaseAll_singleton]
  exact congrFun ((Machine.engine n).owning_refuse .recursionError (.frame r) [v]) _

end World.AtLimit

/-- Resumes that are refused a level.

Without a level left, an idle generator that does not delegate refuses every call, and its body does
not run.  To step it leaves the world as it was, and so does to send a value but for forgetting the
value.  To close it, or to throw into it, leaves the exception of that call behind in the frame, as
what the next resume raises. -/
theorem refused_at_limit (h : w.AtLimit g r f) (n : Nat) :
    (Machine.engine (n + 2)).next g w = .error (.raised .recursionError) w ∧
      (∀ v : Value, v.isNone = true ∨ f.isStarted = true →
        (Machine.engine (n + 2)).send g v w =
            (Machine.engine (n + 1)).refuse .recursionError [v, .frame r] (w.retain (.frame r)) ∧
          (v.objects = [] →
            (Machine.engine (n + 2)).send g v w = .error (.raised .recursionError) w)) ∧
      (Machine.engine (n + 2)).close g w =
        .error (.raised .recursionError) (w.setFrame r (some (f.withPending .generatorExit))) ∧
      ∀ (thrown : Throw) (tb : Option Traceback) (x : Exception),
        Engine.tracebackOf thrown.traceback = .ok tb →
        Exception.normalize thrown.type thrown.value = .ok x →
        thrown.type.objects = [] → Value.objectsOfAll thrown.value.toList = [] →
        (Machine.engine (n + 2)).throw g thrown w =
          .error (.raised .recursionError)
            (w.setFrame r (some (f.withPending (World.AtLimit.thrownException x tb)))) := by
  refine ⟨h.resume (n + 1) rfl, fun v hready => ⟨h.send (n + 1) hready, fun hv => ?_⟩, h.close n,
    fun thrown tb x htb hx htype hvalue => h.throw n htb hx htype hvalue⟩
  rw [h.send (n + 1) hready]
  have hforgotten : (Machine.engine (n + 1)).releaseAll [v, .frame r] (w.retain (.frame r)) =
      .ok () w := by
    have hobjects : Value.objectsOfAll [v, .frame r] = (Value.frame r).objects := by
      simp [Value.objectsOfAll, hv]
    rw [Engine.releaseAll, hobjects]
    exact World.release_retained _ h.frame h.owned
  exact Run.bind_ok hforgotten

/-! ### A throw that is remembered -/

/-- A generator that yields once, on a thread with so many levels. -/
def yieldingOnce (limit : Nat) : World :=
  let program : Code.Program := ⟨[.loadConst 0, .yieldValue, .returnValue], [], 0, [.int 1]⟩
  let code : CodeObject := ⟨"one", "<bytecode>", .program program⟩
  ({ World.new limit .collecting with codes := [code] }.newGenerator ⟨0⟩ [] .none).2

/-- The world in which the only level is taken. -/
def yieldingAtLimit : World :=
  { yieldingOnce 1 with thread := { (yieldingOnce 1).thread with depth := 1 } }

theorem refused_at_limit_yieldingOnce :
    (Machine.engine 2).next ⟨0⟩ yieldingAtLimit = .error (.raised .recursionError) yieldingAtLimit :=
  (refused_at_limit (r := ⟨0⟩) (f := .new ⟨0⟩ [])
    ⟨rfl, rfl, rfl, by decide, rfl, rfl, by decide⟩ 0).1

/-- What stepping the generator gives or raises after a call that was made with no level left. -/
def stepAfter (refused : Engine → Run World Value) : Option (Except Exception Value) :=
  let e := Machine.engine 20
  let m : Run World (Except Exception Value) := do
    World.enter
    let _ ← Run.attempt (refused e)
    World.leave
    Run.attempt (e.next ⟨0⟩)
  match m (yieldingOnce 1) with
  | .ok outcome _ => some (outcome.mapError fun x => .new x.kind x.args)
  | .error _ _ => none

/-- An exception whose throw was refused is raised by the next step; without the throw the step gives
the value. -/
theorem refused_throw_remembered :
    stepAfter (fun e => e.throw ⟨0⟩ ⟨.exceptionType .valueError, none, none⟩)
        = some (.error (.newEmpty .valueError)) ∧
      stepAfter (fun e => e.next ⟨0⟩) = some (.ok (.int 1)) := by
  decide +kernel

end Resumable
