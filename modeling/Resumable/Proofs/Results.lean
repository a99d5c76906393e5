import Resumable.Proofs.Outcomes
import Resumable.Proofs.Refusal

set_option autoImplicit false

/-!
# What an exception tells

Most clean-ups raise nothing (`Run.Silent`), so an exception that escapes tells what was done before.
For each way of composing computations there is a lemma that names the worlds on the way.
-/

namespace Resumable

variable {α β σ : Type}

namespace Run

section Results

variable {m : Run σ α} {f : α → Run σ β} {c : Run σ Unit} {a : α} {b : β} {x : Exception} {s t : σ}

theorem onInterruption_eq_raised (hc : Silent c) :
    m.onInterruption c s = .error (.raised x) t ↔
      ∃ u, m s = .error (.raised x) u ∧ c u = .ok () t := by
  have hsilent : ∀ u, c u ≠ .error (.raised x) t := fun u => hc u x t
  unfold onInterruption
  rcases m s with ⟨a, u⟩ | ⟨_ | _ | _, u⟩
  · simp
  · have := hsilent u
    rcases hu : c u with ⟨_, v⟩ | ⟨reason, v⟩ <;> simp_all
  · have := hsilent u
    rcases hu : c u with ⟨_, v⟩ | ⟨reason, v⟩ <;> simp_all
  · simp

theorem ensuring_eq_raised (hc : Silent c) :
    m.ensuring c s = .error (.raised x) t ↔
      ∃ u, m s = .error (.raised x) u ∧ c u = .ok () t := by
  unfold ensuring
  rw [bind_eq_raised, onInterruption_eq_raised hc]
  refine or_iff_left ?_
  rintro ⟨a, u, _, hlast⟩
  rcases bind_eq_raised.1 hlast with hraised | ⟨_, v, _, hpure⟩
  · exact hc _ _ _ hraised
  · cases hpure

end Results

end Run

namespace World

variable {g : GeneratorRef} {r : FrameRef} {w t : World} {a : α} {x : Exception}

theorem whileRunning_eq_raised {m : Run World α} :
    whileRunning g m w = .error (.raised x) t ↔
      ∃ s, m (w.setRunning g true) = .error (.raised x) s ∧ t = s.setRunning g false := by
  unfold whileRunning
  rw [Run.bind_apply]
  simp only [Run.modify_apply]
  have hsilent : Run.Silent (modify (·.setRunning g false) : Run World Unit) := by
    intro _ _ _ h
    cases h
  rw [Run.ensuring_eq_raised hsilent]
  simp [eq_comm]

end World

/-! ## Changes of a frame -/

namespace Engine

variable {e : Engine} {r : FrameRef} {w t : World} {f b : Frame} {a : α}

section Lenient

variable (he : e.Lenient)

include he

omit he in
theorem withFrame_silent {m : Run (Frame × World) α} (hm : Run.Silent m) :
    Run.Silent (World.withFrame r m) := fun _ _ _ h => by
  obtain ⟨_, _, _, _, h, _⟩ := World.withFrame_eq_raised.1 h
  exact hm _ _ _ h

theorem withFrameFor_silent (vs : List Value) {m : Run (Frame × World) α} (hm : Run.Silent m) :
    Run.Silent (e.withFrameFor vs r m) :=
  Run.Silent.bind
    (Run.Silent.onInterruption (fun _ _ _ => World.readFrame_ne_raised) (releaseObjects_silent he _))
    fun _ => withFrame_silent hm

theorem dropDelegate_silent (r : FrameRef) : Run.Silent (e.dropDelegate r) :=
  withFrame_silent (replace_silent he _)

theorem leavePending_silent (r : FrameRef) (x : Exception) : Run.Silent (e.leavePending r x) :=
  withFrameFor_silent he _ (replace_silent he _)

theorem finishDelegation_silent (r : FrameRef) (v : Value) : Run.Silent (e.finishDelegation r v) := by
  have hstep : Run.Silent World.stepOn := by
    refine Run.Silent.bind (fun _ _ _ h => nomatch h) fun s => ?_
    split
    · exact fun _ _ _ h => nomatch h
    · exact Run.Silent.shared fun _ _ _ h => nomatch h
  refine withFrameFor_silent he _ (Run.Silent.bind ?_ fun _ => replace_silent he _)
  exact ((replace_silent he _).bind fun _ => hstep).onInterruption
    (releaseObjects_silent he _).shared

end Lenient

end Engine

/-! ## Requests under observation -/

section Observation

variable {w t : World} {n : Nat} {v : Value} {x : Exception} {o : Observer} {event : Event}
  {request : Request}

theorem see_silent (o : Observer) (event : Event) : Run.Silent (o.see event) := by
  intro w x t h
  rcases Machine.see_cases o event w with ⟨_, hw⟩ | ⟨_, hw⟩ <;> rw [hw] at h <;> cases h

/-- The disposal of objects by the machine under observation does not raise. -/
theorem observed_lenient (o : Observer) (n : Nat) : (Machine.observedEngine o n).Lenient := by
  induction n with
  | zero => exact fun _ _ _ _ h => nomatch h
  | succ n ih =>
      intro u
      refine (see_silent o _).bind fun _ => Run.Silent.ensuring ?_ (see_silent o _)
      exact (Engine.reclaim_silent ih u).bind fun _ => Run.silent_pure _

/-- Being shown an event, where the run goes on. -/
theorem see_eq_ok :
    o.see event w = .ok () t ↔
      o.stops event (w.noted (o.note event w)) = false ∧ t = w.noted (o.note event w) := by
  rcases Machine.see_cases o event w with ⟨hstops, hw⟩ | ⟨hgoes, hw⟩
  · rw [hw]
    simp [hstops]
  · rw [hw]
    simp [hgoes, eq_comm]

/-- What a request under observation has come to. -/
theorem observed_eq_ok :
    Machine.observed o (n + 1) request w = .ok v t ↔
      o.stops (.asked request) (w.noted (o.note (.asked request) w)) = false ∧
        ∃ u, request.answer (Machine.observedEngine o n) (w.noted (o.note (.asked request) w))
            = .ok v u ∧ o.see (.answered request) u = .ok () t := by
  show (o.see (.asked request) >>= fun _ =>
    (request.answer (Machine.observedEngine o n)).ensuring (o.see (.answered request))) w = _ ↔ _
  rw [Run.bind_eq_ok]
  constructor
  · rintro ⟨⟨⟩, u, hsee, hrest⟩
    obtain ⟨hgoes, rfl⟩ := see_eq_ok.1 hsee
    exact ⟨hgoes, Run.ensuring_eq_ok.1 hrest⟩
  · rintro ⟨hgoes, hrest⟩
    exact ⟨(), _, see_eq_ok.2 ⟨hgoes, rfl⟩, Run.ensuring_eq_ok.2 hrest⟩

theorem observed_eq_raised :
    Machine.observed o (n + 1) request w = .error (.raised x) t ↔
      o.stops (.asked request) (w.noted (o.note (.asked request) w)) = false ∧
        ∃ u, request.answer (Machine.observedEngine o n) (w.noted (o.note (.asked request) w))
            = .error (.raised x) u ∧ o.see (.answered request) u = .ok () t := by
  show (o.see (.asked request) >>= fun _ =>
    (request.answer (Machine.observedEngine o n)).ensuring (o.see (.answered request))) w = _ ↔ _
  rw [Run.bind_eq_raised, or_iff_right (see_silent o _ _ _ _)]
  constructor
  · rintro ⟨⟨⟩, u, hsee, hrest⟩
    obtain ⟨hgoes, rfl⟩ := see_eq_ok.1 hsee
    exact ⟨hgoes, (Run.ensuring_eq_raised (see_silent o _)).1 hrest⟩
  · rintro ⟨hgoes, hrest⟩
    exact ⟨(), _, see_eq_ok.2 ⟨hgoes, rfl⟩, (Run.ensuring_eq_raised (see_silent o _)).2 hrest⟩

end Observation

end Resumable
