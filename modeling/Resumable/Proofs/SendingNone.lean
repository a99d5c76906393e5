import Resumable.Proofs.Delegators
import Resumable.Proofs.Refusal
import Resumable.Proofs.Termination

set_option autoImplicit false

/-!
# Sending `none`

A resume takes an argument that may be left out.  A request does not record that it was: it carries
`none` then.  A resume that keeps the two apart, and hands on what it was given when the delegate of
the body ran out, does not tell them apart in what it does (`Machine.perform_resume_eq`).

So `next` and sending `none` only differ in what they look at first.  Sending looks at the frame before
it looks at the running mark.  This would matter for a generator that is running and has no frame, and
there is none at any moment of a session.
-/

namespace Resumable

variable {g : GeneratorRef} {u w : World}

namespace Machine

/-- Resumes a generator with an argument that may be left out.  If the delegate of the body ran out,
the argument is handed on as it is. -/
def advance : Nat → GeneratorRef → Option Value → Run World Value
  | 0, _, _ => throw .outOfFuel
  | n + 1, g, arg => do
      let generator := (← get).generator g
      if generator.running then
        Run.ensuring (Run.raise .alreadyExecuting) ((engine n).releaseAll arg.toList)
      else
        match generator.frame with
        | none => Run.ensuring (Run.raise .stopIteration) ((engine n).releaseAll arg.toList)
        | some r =>
            World.share (.frame r)
            (engine n).owning (.frame r) do
              World.enter.onInterruption ((engine n).releaseAll arg.toList)
              let result ← ((engine n).resumeFrame g r (arg.getD .none)).onInterruption do
                World.leave
                (engine n).releaseAll arg.toList
              match result with
              | some v =>
                  World.leave
                  (engine n).releaseAll arg.toList
                  return v
              | none => Run.ensuring (advance n g arg) World.leave

/-- There is nothing to forget about an argument that is left out, nor about `none`. -/
theorem releaseAll_toList (e : Engine) (arg : Option Value) :
    e.releaseAll arg.toList = e.release (arg.getD .none) := by
  cases arg with
  | none => rfl
  | some v => exact Engine.releaseAll_singleton e v

/-- A request to resume does what a resume does that tells an argument that is left out from `none`. -/
theorem perform_resume_eq (n : Nat) (g : GeneratorRef) (arg : Option Value) :
    perform n (.resume g (arg.getD .none)) = advance n g arg := by
  induction n with
  | zero => rfl
  | succ n ih =>
      show (engine n).resume g (arg.getD .none) = advance (n + 1) g arg
      have hagain : (engine n).perform (.resume g (arg.getD .none)) = advance n g arg := ih
      unfold Engine.resume advance
      simp only [hagain, releaseAll_toList]
      refine bind_congr fun w => ?_
      cases (w.generator g).running with
      | true => rfl
      | false =>
          cases (w.generator g).frame with
          | none => rfl
          | some r =>
              refine bind_congr fun _ => congrArg _ (bind_congr fun _ => bind_congr fun result => ?_)
              cases result with
              | some v => rfl
              | none => rfl

end Machine

namespace World

/-- A generator that is running has a frame. -/
def RunsOnFrames (w : World) : Prop :=
  ∀ g, (w.generator g).frame = none → (w.generator g).running = false

end World

/-- Looking at the frame before the running mark makes no difference where what runs has a frame. -/
theorem Engine.send_none_eq_next (h : u.RunsOnFrames) (g : GeneratorRef) (n : Nat) :
    (Machine.engine (n + 1)).send g .none u = (Machine.engine (n + 1)).next g u := by
  cases hslot : (u.generator g).frame with
  | some r => exact Engine.send_none hslot
  | none =>
      have hnext : (Machine.engine (n + 1)).next g u = .error (.raised .stopIteration) u :=
        Engine.next_refused (World.refusal?_frameless (h g hslot) hslot)
      have hsend : (Machine.engine (n + 1)).send g .none u = .error (.raised .stopIteration) u :=
        Engine.send_frameless hslot .none
      rw [hsend, hnext]

namespace Session

theorem runsOnFrames (h : Reachable u ∨ ∃ event, Amid event u) : u.RunsOnFrames := by
  intro g hframe
  rcases h with hreachable | ⟨event, hamid⟩
  · exact hreachable.sound.idle g
  · obtain ⟨Z, F, w', hZ, _, hlinked⟩ := hamid.moment
    exact hlinked.idle_of_frameless hZ.valid hframe

/-- To look up a variable only adds an owner. -/
theorem evaluate_variable (name : String) (w : World) :
    evaluate (.variable name) w =
      .ok ((w.names.get? name).getD .none) (w.retain ((w.names.get? name).getD .none)) := rfl

/-- Works that do the same with whatever generator a variable holds are the same work. -/
theorem withGenerator_congr {e : Engine} {name : String} {m m' : GeneratorRef → Run World Report}
    (h : ∀ g, m g (w.retain (.generator g)) = m' g (w.retain (.generator g))) :
    withGenerator e name m w = withGenerator e name m' w := by
  unfold withGenerator withOperand
  rw [Run.bind_ok (evaluate_variable name w), Run.bind_ok (evaluate_variable name w)]
  generalize (w.names.get? name).getD .none = v
  refine Run.ensuring_congr ?_
  cases v with
  | generator g => exact h g
  | _ => rfl

/-- The commands to resume the generator in a variable and to send it `none`. -/
theorem carryOut_send_none (h : w.RunsOnFrames) (n : Nat) (full : Bool) (name : String)
    (keep : Option String) :
    carryOut (Machine.engine (n + 1)) full (.drive name (.send .none) keep) w =
      carryOut (Machine.engine (n + 1)) full (.drive name .next keep) w := by
  refine withGenerator_congr fun g => ?_
  have hlooked : (w.retain (.generator g)).RunsOnFrames := fun i => by
    rw [World.retain, generator_addOwners]
    exact h i
  have hdriven : drive (Machine.engine (n + 1)) g (.send .none) (w.retain (.generator g)) =
      drive (Machine.engine (n + 1)) g .next (w.retain (.generator g)) :=
    Engine.send_none_eq_next hlooked g n
  simp only [Run.bind_apply, Run.attempt, hdriven]

/-- To resume a generator is to send it `none`.

A resume does not tell an argument that is left out from `none`.  Between the commands of a session,
and at every moment of a command, sending `none` to any generator has the same outcome as resuming it
and leaves the same world.  So have the two commands. -/
theorem next_is_send_none :
    (∀ n g, Machine.advance n g none = Machine.advance n g (some .none)) ∧
    (∀ {u : World}, (Reachable u ∨ ∃ event, Amid event u) → ∀ n g,
      (Machine.engine (n + 1)).send g .none u = (Machine.engine (n + 1)).next g u) ∧
    ∀ {w : World}, Reachable w → ∀ n full name keep,
      step (n + 1) full w (.drive name (.send .none) keep) =
        step (n + 1) full w (.drive name .next keep) := by
  refine ⟨fun n g => ?_, fun hu n g => Engine.send_none_eq_next (runsOnFrames hu) g n,
    fun {w} hw n full name keep => ?_⟩
  · exact (Machine.perform_resume_eq n g none).symm.trans (Machine.perform_resume_eq n g (some .none))
  · have hfresh : (fresh w).RunsOnFrames := fun i hframe =>
      runsOnFrames (u := w) (Or.inl hw) i hframe
    have hcarried := carryOut_send_none hfresh n full name keep
    simp only [step, show ({ w with diagnostics := "", log := [] } : World) = fresh w from rfl,
      hcarried]

/-- A generator refuses to be sent `none` by its own body as it refuses to be resumed by it. -/
theorem next_is_send_none_closingItself :
    let u := firstMoment (.asked (.close ⟨0⟩))
    (u.generator ⟨0⟩).running = true ∧
      (Machine.engine 1).send ⟨0⟩ .none u = (Machine.engine 1).next ⟨0⟩ u :=
  ⟨rfl, next_is_send_none.2.1 (Or.inr ⟨_, firstMoment_amid (Or.inr rfl)⟩) 0 ⟨0⟩⟩

end Session

end Resumable
