import Resumable.Proofs.Bag

set_option autoImplicit false

/-!
# What a result tells

A computation that comes to a result has gone through certain worlds on the way.  For each way of
composing computations there is a lemma that names them.
-/

namespace Resumable

variable {α β σ : Type}

namespace Run

section Results

variable {m : Run σ α} {f : α → Run σ β} {c : Run σ Unit} {a : α} {b : β} {x : Exception} {s t : σ}

theorem bind_eq_ok : (m >>= f) s = .ok b t ↔ ∃ a u, m s = .ok a u ∧ f a u = .ok b t := by
  rw [bind_apply]
  cases m s <;> simp

theorem bind_eq_raised :
    (m >>= f) s = .error (.raised x) t ↔
      m s = .error (.raised x) t ∨ ∃ a u, m s = .ok a u ∧ f a u = .error (.raised x) t := by
  rw [bind_apply]
  cases m s <;> simp

theorem attempt_eq_ok {outcome : Except Exception α} :
    attempt m s = .ok outcome t ↔
      (∃ a, outcome = .ok a ∧ m s = .ok a t) ∨
        ∃ x, outcome = .error x ∧ m s = .error (.raised x) t := by
  unfold attempt
  rcases m s with ⟨a, u⟩ | ⟨_ | _ | _, u⟩ <;> simp [eq_comm]

theorem attempt_ne_raised : attempt m s ≠ .error (.raised x) t := by
  unfold attempt
  rcases m s with ⟨a, u⟩ | ⟨_ | _ | _, u⟩ <;> simp

theorem onInterruption_eq_ok : m.onInterruption c s = .ok a t ↔ m s = .ok a t := by
  unfold onInterruption
  rcases m s with ⟨a, u⟩ | ⟨_ | _ | _, u⟩
  case ok => rfl
  case error.outOfFuel => simp
  all_goals
    simp only
    generalize c u = y
    rcases y with ⟨_, v⟩ | ⟨reason, v⟩ <;> simp

theorem ensuring_eq_ok : m.ensuring c s = .ok a t ↔ ∃ u, m s = .ok a u ∧ c u = .ok () t := by
  unfold ensuring
  simp only [bind_eq_ok, onInterruption_eq_ok, pure_apply]
  constructor
  · rintro ⟨a', u, hm, _, v, hc, hend⟩
    cases hend
    exact ⟨u, hm, hc⟩
  · rintro ⟨u, hm, hc⟩
    exact ⟨a, u, hm, (), t, hc, rfl⟩

end Results

section Shared

variable {τ ω : Type} {m : Run ω α} {a : α} {b : τ} {w : ω} {t : τ × ω}

theorem shared_eq_ok : shared m (b, w) = .ok a t ↔ ∃ u, m w = .ok a u ∧ t = (b, u) := by
  unfold shared
  simp only
  cases m w <;> simp [eq_comm, and_comm]

end Shared

end Run

namespace World

variable {g : GeneratorRef} {r : FrameRef} {w t : World} {a : α} {x : Exception}

/-- What a cell is set to last counts. -/
theorem setFrame_setFrame (w : World) (r : FrameRef) (x y : Option Frame) :
    (w.setFrame r x).setFrame r y = w.setFrame r y := by
  simp only [setFrame, Store.setContent, Store.get_set_self, Store.set_set]

/-- A frame that is in its cell was made. -/
theorem frame_made {f : Frame} (h : w.frame? r = some f) : r.index < w.frames.size := by
  by_contra hsize
  have hnone : w.frame? r = default := Store.content_of_size_le (Nat.not_lt.1 hsize)
  rw [hnone] at h
  cases h

theorem setFrame_same {x : Option Frame} (h : w.frame? r = x) (hmade : r.index < w.frames.size) :
    w.setFrame r x = w := by
  have hcell : ({ w.frames.get r.index with content := x } : Cell (Option Frame))
      = w.frames.get r.index := by
    rw [← h]
    rfl
  simp only [setFrame, Store.setContent, hcell, Store.set_get hmade]

theorem setFrame_self {f : Frame} (h : w.frame? r = some f) : w.setFrame r (some f) = w :=
  setFrame_same h (frame_made h)

theorem readFrame_eq_ok {f : Frame} : readFrame r w = .ok f t ↔ w.frame? r = some f ∧ t = w := by
  unfold readFrame
  cases w.frame? r <;> simp [abort, eq_comm]

theorem readFrame_ne_raised : readFrame r w ≠ .error (.raised x) t := by
  unfold readFrame
  cases w.frame? r <;> simp [abort]

theorem withFrame_eq_ok {m : Run (Frame × World) α} :
    withFrame r m w = .ok a t ↔
      ∃ f b u, w.frame? r = some f ∧ m (f, w.setFrame r none) = .ok a (b, u) ∧
        t = u.setFrame r (some b) := by
  unfold withFrame Run.withPrivate
  cases w.frame? r with
  | none => simp [abort]
  | some f =>
      simp only [Option.some.injEq, exists_and_left, exists_eq_left']
      rcases m (f, w.setFrame r none) with ⟨a', b, u⟩ | ⟨_ | _ | _, b, u⟩ <;> simp
      exact fun _ => eq_comm

theorem withFrame_eq_raised {m : Run (Frame × World) α} :
    withFrame r m w = .error (.raised x) t ↔
      ∃ f b u, w.frame? r = some f ∧ m (f, w.setFrame r none) = .error (.raised x) (b, u) ∧
        t = u.setFrame r (some b) := by
  unfold withFrame Run.withPrivate
  cases w.frame? r with
  | none => simp [abort]
  | some f =>
      simp only [Option.some.injEq, exists_and_left, exists_eq_left']
      rcases m (f, w.setFrame r none) with ⟨a, b, u⟩ | ⟨_ | _ | _, b, u⟩ <;> simp
      exact fun _ => eq_comm

theorem whileRunning_eq_ok {m : Run World α} :
    whileRunning g m w = .ok a t ↔
      ∃ s, m (w.setRunning g true) = .ok a s ∧ t = s.setRunning g false := by
  unfold whileRunning
  rw [Run.bind_apply]
  simp only [Run.modify_apply, Run.ensuring_eq_ok]
  simp [eq_comm]

theorem stepOn_eq_ok {f b : Frame} (h : stepOn (f, w) = .ok () (b, t)) : b = f.stepOn ∧ t = w := by
  unfold stepOn at h
  simp only [Run.bind_apply, Run.get_apply] at h
  split at h <;> cases h
  exact ⟨rfl, rfl⟩

end World

namespace Engine

variable {e : Engine} {r : FrameRef} {w t : World} {f b : Frame} {a : α}

theorem replace_eq_ok {c : Frame → Frame × List Value} :
    e.replace c (f, w) = .ok () (b, t) ↔ b = (c f).1 ∧ e.releaseAll (c f).2 w = .ok () t := by
  show Run.shared (e.releaseAll (c f).2) ((c f).1, w) = _ ↔ _
  rw [Run.shared_eq_ok]
  simp [and_comm, Prod.ext_iff]

theorem withFrameFor_eq_ok {vs : List Value} {m : Run (Frame × World) α} :
    e.withFrameFor vs r m w = .ok a t ↔ World.withFrame r m w = .ok a t := by
  unfold withFrameFor
  simp only [Run.bind_eq_ok, Run.onInterruption_eq_ok, World.readFrame_eq_ok]
  constructor
  · rintro ⟨f, u, ⟨_, rfl⟩, h⟩
    exact h
  · intro h
    obtain ⟨f, _, _, hf, _⟩ := World.withFrame_eq_ok.1 h
    exact ⟨f, w, ⟨hf, rfl⟩, h⟩

end Engine

end Resumable
