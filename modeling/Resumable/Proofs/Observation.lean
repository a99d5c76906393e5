import Mathlib
import Resumable.Proofs.Closing
import Resumable.Proofs.Crossing

set_option autoImplicit false

/-!
# What is seen of a delegate

The delegate of a generator is read off its frame, and cannot be read while the frame is in use.  A
generator is running for one of two reasons.  Either it executes its body, with its frame in use, and then
nothing is seen of a delegate.  Or it calls its delegate for a throw or a close, and then its frame is in
its cell and has a delegate, which is seen (`running_observed`).

Of a generator that is not running, the delegate is seen if and only if the generator is delegating
(`idle_observed`).
-/

namespace Resumable

variable {g : GeneratorRef} {u : World} {event : Event}

/-- A generator that runs has a frame, and if this is in its cell, it has a delegate. -/
theorem Machine.Moment.delegate_of_running (h : Machine.Moment (Zone.Level .trivial) event u)
    (hrunning : (u.generator g).running = true) :
    ∃ r, (u.generator g).frame = some r ∧ ∀ f, u.frame? r = some f → f.delegate.isSome = true := by
  obtain ⟨Z, F, u', hZ, _, hlinked⟩ := h
  obtain ⟨x, hfixed⟩ := Option.isSome_iff_exists.1 (hlinked.pinned.running g hrunning)
  have hx := hlinked.pinned.fixed g x hfixed
  obtain ⟨r, c, hslot, hc⟩ := hZ.valid.slot g x hfixed (hx ▸ hrunning)
  refine ⟨r, hx ▸ hslot, fun f hf => ?_⟩
  have hcell : Z.cells r = some (some f) := by rw [hc, ← hlinked.pinned.cells r c hc, hf]
  rcases hZ.valid.cell r f hcell with hh | ⟨i, y, _, _, ⟨_, hdelegate⟩ | hbarred, _⟩
  · exact absurd hh (hZ.property.hidden _)
  · exact hdelegate
  · rw [hZ.property.law] at hbarred
    exact absurd hbarred (Law.Free.not_barred .trivial i)

namespace World

theorem getAttribute_yieldFrom (w : World) (g : GeneratorRef) :
    w.getAttribute g "gi_yieldfrom" = .ok ((w.delegateOf g).getD .none) := rfl

/-- Of a running generator whose frame is in its cell only if it has a delegate, the delegate is seen if and
only if the frame is in its cell. -/
theorem delegate_seen_of_running (hrunning : (u.generator g).running = true)
    (h : ∃ r, (u.generator g).frame = some r ∧ ∀ f, u.frame? r = some f → f.delegate.isSome = true) :
    u.stateOf g = .running ∧ ∃ r, (u.generator g).frame = some r ∧
      match u.frame? r with
      | none => u.delegateOf g = none ∧ u.getAttribute g "gi_yieldfrom" = .ok .none
      | some f => ∃ inner, f.delegate = some inner ∧ u.delegateOf g = some inner ∧
          u.getAttribute g "gi_yieldfrom" = .ok inner := by
  obtain ⟨r, hslot, hdelegate⟩ := h
  refine ⟨if_pos hrunning, r, hslot, ?_⟩
  have hseen : u.delegateOf g = u.frame? r >>= Frame.delegate := by
    unfold delegateOf
    rw [hslot]
    rfl
  cases hf : u.frame? r with
  | none =>
      have hnone : u.delegateOf g = none := by
        rw [hseen, hf]
        rfl
      exact ⟨hnone, by rw [getAttribute_yieldFrom, hnone]; rfl⟩
  | some f =>
      obtain ⟨inner, hinner⟩ := Option.isSome_iff_exists.1 (hdelegate f hf)
      have hsome : u.delegateOf g = some inner := by
        rw [hseen, hf]
        exact hinner
      exact ⟨inner, hinner, hsome, by rw [getAttribute_yieldFrom, hsome]; rfl⟩

/-- Of a generator that is not running and whose frame is aligned with a program, the delegate is seen if
and only if it is delegating. -/
theorem Aligned.delegate_seen_iff (h : u.Aligned g) (hprogram : (u.generator g).RunsProgram u.codes)
    (hidle : (u.generator g).running = false) :
    (u.delegateOf g).isSome = true ↔ u.stateOf g = .delegating := by
  obtain ⟨p, hp⟩ := hprogram
  have hbody : u.bodyOf g = .program p := hp
  unfold delegateOf stateOf
  rw [if_neg (by simp [hidle])]
  cases hslot : (u.generator g).frame with
  | none => exact ⟨nofun, nofun⟩
  | some r =>
      show (u.frame? r >>= Frame.delegate).isSome = true ↔ _
      simp only
      cases hf : u.frame? r with
      | none => exact ⟨nofun, nofun⟩
      | some f =>
          show f.delegate.isSome = true ↔ _
          simp only
          have haligned : f.Aligned (.program p) := hbody ▸ h.frame r f hslot hf
          by_cases hfinished : f.isFinished = true
          · -- a frame that has finished would be at no instruction
            simp [hfinished, haligned.delegate_of_finished hfinished]
          · rw [if_neg hfinished]
            split
            · next hdelegate => simp [hdelegate]
            · next hdelegate =>
              refine ⟨fun hsome => absurd hsome hdelegate, fun hstate => ?_⟩
              split at hstate <;> cases hstate

end World

namespace Session

/-- Of a generator that runs, the delegate is seen if and only if the frame is in its cell: whenever the
generator does not execute its body, but calls its delegate.  Between the commands no generator runs.  Of
one that does not run and executes a program, the delegate is seen if and only if it is delegating, unless
it was resumed while it was crossed, or a command has handled a frame. -/
theorem delegate_observed (g : GeneratorRef) (event : Event) (u : World) :
    (Amid event u → (u.generator g).running = true →
      u.stateOf g = .running ∧ ∃ r, (u.generator g).frame = some r ∧
        match u.frame? r with
        | none => u.delegateOf g = none ∧ u.getAttribute g "gi_yieldfrom" = .ok .none
        | some f => ∃ inner, f.delegate = some inner ∧ u.delegateOf g = some inner ∧
            u.getAttribute g "gi_yieldfrom" = .ok inner) ∧
    (Reachable u → (u.generator g).running = false) ∧
    (AmidUncrossed g event u ∨ Uncrossed g u → (u.generator g).RunsProgram u.codes →
      (u.generator g).running = false →
        ((u.delegateOf g).isSome = true ↔ u.stateOf g = .delegating)) := by
  refine ⟨fun h hrunning => World.delegate_seen_of_running hrunning (h.moment.delegate_of_running hrunning),
    fun h => h.sound.idle g, fun h hprogram hidle => ?_⟩
  have haligned : u.Aligned g := h.elim AmidUncrossed.aligned Uncrossed.aligned
  exact haligned.delegate_seen_iff hprogram hidle

/-! ### A delegate that is seen while it is closed -/

/-- A generator delegates to an iterator that asks for the generator to be closed when it is closed
itself. -/
def closedByDelegateCommands : List Command :=
  [.assemble "p" delegatingOnce,
    .bind "i" (.scripted "probe" [.give (.value (.int 1))] (some (.call (.mk "g" .close []))) false),
    .makeGenerator "g" "p" [.variable "i"] .none, .drive "g" .next none]

/-- An exception is thrown into the generator, up to the moment when it comes to an event. -/
def relayedThrow (event : Event) : EStateM.Result Interruption World Report :=
  runUpTo closedByDelegateCommands (.drive "g" (.throw (.exceptionType .valueError) none none) none) event

/-- The moment when the delegate asks for the generator to be closed. -/
def disturbedMoment : World := brokenOffAt (relayedThrow (.asked (.close ⟨0⟩)))

theorem disturbedMoment_amid : Amid (.asked (.close ⟨0⟩)) disturbedMoment :=
  runUpTo_amid (by decide +kernel) (by decide +kernel) (by decide +kernel)

/-- The generator is running then, and its delegate is seen. -/
theorem delegate_of_running_observed :
    ∃ event u, Amid event u ∧ (u.generator ⟨0⟩).RunsProgram u.codes ∧
      (u.generator ⟨0⟩).running = true ∧ u.stateOf ⟨0⟩ = .running ∧
      u.delegateOf ⟨0⟩ = some (.iterator ⟨0⟩) ∧
      u.getAttribute ⟨0⟩ "gi_yieldfrom" = .ok (.iterator ⟨0⟩) := by
  have hdelegate : disturbedMoment.delegateOf ⟨0⟩ = some (.iterator ⟨0⟩) := by decide +kernel
  exact ⟨_, _, disturbedMoment_amid, by decide +kernel, by decide +kernel, by decide +kernel, hdelegate,
    by rw [World.getAttribute_yieldFrom, hdelegate]; rfl⟩

/-- The exception that is thrown. -/
def thrownError : Throw := ⟨.exceptionType .valueError, none, none⟩

/-- The moment when it is asked for the exception to be thrown. -/
def undisturbedMoment : World := brokenOffAt (relayedThrow (.asked (.throw ⟨0⟩ thrownError)))

theorem undisturbedMoment_amidUncrossed :
    AmidUncrossed ⟨0⟩ (.asked (.throw ⟨0⟩ thrownError)) undisturbedMoment := by
  have huncrossed : Uncrossed ⟨0⟩ (afterAll (.new 5 .collecting) closedByDelegateCommands) := by
    refine (Uncrossed.start 5 .collecting).afterAll (by decide) ?_ (by decide +kernel)
    refine ⟨?_, ?_, ?_, ?_, trivial⟩ <;> unfold Spares <;> cbv
  refine runUpTo_amidUncrossed huncrossed rfl (by decide +kernel) (by decide +kernel) ?_
  unfold runUpTo
  cbv

/-- Before the exception is thrown the generator is not running, and while its delegate asks for it to be
closed it is.  Its delegate is seen both times. -/
theorem delegate_observed_closedByDelegate :
    ∃ u v r inner, Amid (.asked (.close ⟨0⟩)) u ∧ (u.generator ⟨0⟩).running = true ∧
      u.stateOf ⟨0⟩ = .running ∧ (u.generator ⟨0⟩).frame = some r ∧ (u.frame? r).isSome = true ∧
      u.delegateOf ⟨0⟩ = some inner ∧
      AmidUncrossed ⟨0⟩ (.asked (.throw ⟨0⟩ thrownError)) v ∧ (v.generator ⟨0⟩).running = false ∧
      v.stateOf ⟨0⟩ = .delegating ∧ (v.delegateOf ⟨0⟩).isSome = true := by
  have hseen : ∀ u, Amid (.asked (.close ⟨0⟩)) u → (u.generator ⟨0⟩).running = true →
      ((u.generator ⟨0⟩).frame.bind u.frame?).isSome = true →
        u.stateOf ⟨0⟩ = .running ∧ ∃ r inner, (u.generator ⟨0⟩).frame = some r ∧
          (u.frame? r).isSome = true ∧ u.delegateOf ⟨0⟩ = some inner := by
    intro u hamid hrunning hrest
    obtain ⟨hstate, r, hslot, hseen⟩ := (delegate_observed ⟨0⟩ _ u).1 hamid hrunning
    rw [hslot, Option.bind_some] at hrest
    obtain ⟨f, hf⟩ := Option.isSome_iff_exists.1 hrest
    rw [hf] at hseen
    obtain ⟨inner, _, hinner, _⟩ := hseen
    exact ⟨hstate, r, inner, hslot, hrest, hinner⟩
  obtain ⟨hstate, r, inner, hslot, hrest, hinner⟩ :=
    hseen disturbedMoment disturbedMoment_amid (by decide +kernel) (by decide +kernel)
  have hidle := (delegate_observed ⟨0⟩ _ undisturbedMoment).2.2 (.inl undisturbedMoment_amidUncrossed)
    (by decide +kernel) (by decide +kernel)
  have hdelegating : undisturbedMoment.stateOf ⟨0⟩ = .delegating := by decide +kernel
  exact ⟨_, _, r, inner, disturbedMoment_amid, by decide +kernel, hstate, hslot, hrest, hinner,
    undisturbedMoment_amidUncrossed, by decide +kernel, hdelegating, hidle.2 hdelegating⟩

end Session

end Resumable
