import Resumable.Proofs.Invariants
import Resumable.Proofs.Results

set_option autoImplicit false

/-!
# What a program does not touch

The exception that is pending in a frame is taken out before the body runs, and left there by others.
A program that runs the frame does not look at that place, so it leaves it as it is.
-/

namespace Resumable

/-- A program leaves what is pending in a frame as it is. -/
theorem Code.Program.keeps_pending (p : Code.Program) (e : Engine) (closure : Value)
    (pending : Option Exception) (f : Frame) (w : World) :
    (Run.stateOf (p.resume e closure pending (f, w))).1.pending = f.pending :=
  Code.Program.resume_maintains (P := fun b => b.pending = f.pending)
    ⟨⟨fun _ _ _ _ h => h, fun _ h => h, fun _ _ _ h => h⟩, fun _ _ h => h, fun _ _ h => h,
      fun _ _ h => h, fun _ _ h => h⟩ pending (fun _ => rfl) rfl w

/-! ## Running a body -/

/-- The body of a generator is a program, where the code objects are given. -/
def Generator.RunsProgram (x : Generator) (codes : List CodeObject) : Prop :=
  ∃ p, (codes[x.code.index]?.getD default).body = .program p

instance (x : Generator) (codes : List CodeObject) : Decidable (x.RunsProgram codes) :=
  match h : (codes[x.code.index]?.getD default).body with
  | .program p => .isTrue ⟨p, h⟩
  | .script _ => .isFalse fun ⟨_, hp⟩ => nomatch h.symm.trans hp

/-- Running a program leaves what is pending in the frame as it is. -/
theorem runBody_pending {e : Engine} {g : GeneratorRef} {r : FrameRef} {pending : Option Exception}
    {w t : World} {f : Frame} {outcome : Except Exception Suspension}
    (hprogram : (w.generator g).RunsProgram w.codes)
    (hf : w.frame? r = some f) (hrun : Run.attempt (e.runBody g r pending) w = .ok outcome t) :
    ∃ b, t.frame? r = some b ∧ b.pending = f.pending := by
  obtain ⟨p, hp⟩ := hprogram
  have hresume : (w.code (w.generator g).code).resume e (w.generator g).closure pending
      = p.resume e (w.generator g).closure pending := by
    unfold CodeObject.resume World.code
    rw [hp]
  have hkeeps := p.keeps_pending e (w.generator g).closure pending f
    ((w.setRunning g true).setFrame r none)
  have hbody : e.runBody g r pending w = World.whileRunning g (World.withFrame r
      (p.resume e (w.generator g).closure pending)) w := by
    rw [← hresume]
    rfl
  rcases Run.attempt_eq_ok.1 hrun with ⟨a, _, hran⟩ | ⟨x, _, hran⟩ <;> rw [hbody] at hran
  · obtain ⟨s, hinside, rfl⟩ := World.whileRunning_eq_ok.1 hran
    obtain ⟨f', b, u, hf', hresumed, rfl⟩ := World.withFrame_eq_ok.1 hinside
    obtain rfl : f' = f := Option.some.inj (hf'.symm.trans hf)
    rw [hresumed] at hkeeps
    exact ⟨b, by simp [World.setRunning], hkeeps⟩
  · obtain ⟨s, hinside, rfl⟩ := World.whileRunning_eq_raised.1 hran
    obtain ⟨f', b, u, hf', hresumed, rfl⟩ := World.withFrame_eq_raised.1 hinside
    obtain rfl : f' = f := Option.some.inj (hf'.symm.trans hf)
    rw [hresumed] at hkeeps
    exact ⟨b, by simp [World.setRunning], hkeeps⟩

end Resumable
