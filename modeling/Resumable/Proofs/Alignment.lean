import Resumable.Proofs.Refusal

set_option autoImplicit false

/-!
# Frames that delegate where the body does

A frame may have a delegate only where its body delegates: its resume point is at an instruction that
does (`Frame.Aligned`).  A program that runs such a frame leaves it so, also if the run is abandoned in
the middle (`Code.Program.resume_aligned`).

Between two instructions a frame has no delegate at all, except before the first one of a resume that goes
on with a delegation.  An exception that is raised at the resume point would leave that delegate behind, so
a frame in which one is pending must not have a delegate.
-/

namespace Resumable

namespace Frame

variable {b : Body} {p : Code.Program} {f : Frame}

/-- Where the frame has a delegate, the body delegates.  Nothing is asked of scripted bodies. -/
def Aligned (b : Body) (f : Frame) : Prop :=
  match b with
  | .program p =>
      f.delegate.isSome = true → ∃ n : Nat, f.position = n ∧ p.instructions[n]? = some .yieldFrom
  | .script _ => True

theorem aligned_of_delegate_none (h : f.delegate = none) : f.Aligned b := by
  cases b with
  | program p =>
      intro hsome
      rw [h] at hsome
      cases hsome
  | script s => trivial

theorem aligned_of_position {n : Nat} (h : f.position = n) (hi : p.instructions[n]? = some .yieldFrom) :
    f.Aligned (.program p) := fun _ => ⟨n, h, hi⟩

/-- The same resume point, and the same delegate. -/
theorem Aligned.congr {f' : Frame} (h : f.Aligned b) (hposition : f'.position = f.position)
    (hdelegate : f'.delegate = f.delegate) : f'.Aligned b := by
  cases b with
  | program p =>
      intro hsome
      obtain ⟨n, hn, hi⟩ := h (hdelegate ▸ hsome)
      exact ⟨n, hposition.trans hn, hi⟩
  | script s => trivial

/-- A frame of a program that has finished has no delegate. -/
theorem Aligned.delegate_of_finished (h : f.Aligned (.program p)) (hfinished : f.isFinished = true) :
    f.delegate = none := by
  by_contra hdelegate
  obtain ⟨n, hn, _⟩ := h (Option.isSome_iff_ne_none.2 hdelegate)
  have hposition : f.position = -1 := by simpa [isFinished, finished] using hfinished
  omega

end Frame

namespace Run.Leaves

variable {α τ ω : Type} {Q : α → τ → Prop} {E A : τ → Prop} {b : τ}

/-- A computation on the shared half that raises nothing. -/
theorem shared_silent {m : Run ω α} (hm : Silent m) (hQ : ∀ a, Q a b) (hA : A b) :
    Leaves Q E A (Run.shared m) b := by
  intro w
  unfold Meets Run.shared
  simp only
  rcases hx : m w with ⟨a, t⟩ | ⟨x | _ | _, t⟩
  · exact hQ a
  · exact absurd hx (hm w x t)
  · exact hA
  · exact hA

/-- A clean-up of the shared half that raises nothing. -/
theorem ensuring_silent {m : Run (τ × ω) α} {c : Run ω Unit} (hm : Leaves Q E A m b) (hc : Silent c)
    (hQ : ∀ a d, Q a d → A d) (hE : ∀ d, E d → A d) :
    Leaves Q E A (m.ensuring (Run.shared c)) b :=
  hm.ensuring (fun a d h => shared_silent hc (fun _ => h) (hQ a d h))
    (fun d h => shared_silent hc (fun _ => h) (hE d h)) fun _ h => shared_silent hc (fun _ => h) h

end Run.Leaves

namespace Exec

open Run (Leaves Meets)

variable {e : Engine} {p : Code.Program} {closure : Value} {a : Activation}

/-- The frame has no delegate. -/
def Alone (a : Activation) : Prop := a.frame.delegate = none

/-- The frame is aligned with a program. -/
def Aligned (p : Code.Program) (a : Activation) : Prop := a.frame.Aligned (.program p)

/-- The frame has no delegate, or the next instruction goes on with the delegation. -/
def Continues (p : Code.Program) (a : Activation) : Prop :=
  Alone a ∨ a.frame.position = a.counter ∧ p.instructions[a.counter]? = some .yieldFrom

theorem Alone.aligned (h : Alone a) : Aligned p a := Frame.aligned_of_delegate_none h

theorem Continues.aligned (h : Continues p a) : Aligned p a := by
  rcases h with h | ⟨hposition, hi⟩
  · exact h.aligned
  · exact Frame.aligned_of_position hposition hi

theorem stable_alone : Stable Alone := ⟨fun _ _ _ _ h => h, fun _ h => h, fun _ _ _ h => h⟩

/-- The iterator to delegate to is in the frame, and the counter does not move.  A frame that gets none has
no delegate. -/
theorem delegate_aligned :
    Leaves (fun _ b => b.counter = a.counter) Alone (Aligned p) (delegate e) a := by
  unfold delegate
  refine leaves_activation_bind ?_
  split
  · exact fun w => rfl
  · next hnone =>
    have hpopped : Leaves (fun _ b => Alone b ∧ b.counter = a.counter) Alone (Aligned p) pop a := by
      intro w
      unfold Meets pop
      simp only
      cases a.frame.stack with
      | nil => exact hnone
      | cons v rest => exact ⟨hnone, rfl⟩
    refine hpopped.bind fun iterable b hb => ?_
    have hiter : Leaves (fun _ d => d = b) Alone (Aligned p)
        (owning e iterable (Run.shared (World.getIter iterable))) b :=
      (Leaves.shared (Q := fun _ d => d = b) (E := (· = b)) (A := (· = b)) (fun _ => rfl) rfl rfl
        |>.ensuring_shared (fun _ _ hd => ⟨hd, hd⟩) (fun _ hd => hd) (fun _ hd => hd)).mono
        (fun _ _ hd => hd) (fun _ hd => hd ▸ hb.1) fun _ hd => hd ▸ hb.1.aligned
    refine hiter.bind fun inner d hd => ?_
    subst hd
    exact fun w => hb.2

/-- A delegation is suspended at its instruction, and an exception ends it. -/
theorem yieldFrom_aligned (he : e.Lenient) {n : Nat} (hcounter : a.counter = n + 1)
    (hi : p.instructions[n]? = some .yieldFrom) :
    Leaves (fun _ => Aligned p) Alone (Aligned p) (yieldFrom e) a := by
  rw [yieldFrom_eq]
  refine (delegate_aligned (p := p)).bind fun inner b hb => ?_
  -- from here on the resume point is at the instruction
  let P : Activation → Prop := fun d => d.frame.position = n
  have haligned : ∀ d, P d → Aligned p d := fun d hd => Frame.aligned_of_position hd hi
  have hasked : ∀ sent, Leaves (fun _ => P) (fun _ => False) P
      (Run.attempt (Run.shared (e.sendInto inner sent)) : Exec (Except Exception Engine.Delegated))
      { b with frame := { b.frame with position := (b.counter : Int) - 1 }, sent := .none } := by
    intro sent w
    have hstart : P { b with frame := { b.frame with position := (b.counter : Int) - 1 }, sent := .none } := by
      show (b.counter : Int) - 1 = n
      omega
    unfold Meets Run.attempt Run.shared
    simp only
    rcases e.sendInto inner sent w with ⟨v, t⟩ | ⟨_ | _ | _, t⟩ <;> exact hstart
  have hsettled : ∀ outcome d, P d → Leaves (fun _ => P) Alone P (settleDelegation e outcome) d := by
    intro outcome d hd
    rcases outcome with x | v | v
    · refine Leaves.bind (Q := fun _ => Alone) (fun w => ?_) fun _ _ hu => Leaves.raise hu
      have hremoved : Alone { d with frame := d.frame.removeDelegate.1 } := rfl
      exact Leaves.shared (Q := fun _ => Alone) (E := Alone) (A := P)
        (m := e.releaseAll d.frame.delegate.toList) (fun _ => hremoved) hremoved hd w
    · exact Leaves.pure hd
    · exact Leaves.pure hd
  have hrest : Leaves (fun _ => P) Alone P (delegateTo e inner) b :=
    ((hasked b.sent).mono (fun _ _ hd => hd) (fun d hd => (hd.elim : Alone d)) fun _ hd => hd).bind
      hsettled
  refine (hrest.mono (fun _ _ hd => haligned _ hd) (fun _ hd => hd) haligned).ensuring_silent
    (Engine.releaseObjects_silent he _) (fun _ _ hd => hd) fun _ hd => hd.aligned

/-- One instruction.  Unless it suspends the frame, there is no delegate afterwards. -/
theorem execute_aligned (he : e.Lenient) {n : Nat} {i : Code.Instruction}
    (hcounter : a.counter = n + 1) (hi : p.instructions[n]? = some i)
    (hstart : Alone a ∨ i = .yieldFrom) :
    Leaves (fun suspension b => Aligned p b ∧ (suspension = none → Alone b)) Alone (Aligned p)
      (execute e p closure i) a := by
  by_cases hdelegates : i = .yieldFrom
  · subst hdelegates
    exact (yieldFrom_aligned he hcounter hi).map fun _ _ hb => ⟨hb, nofun⟩
  · have halone : Alone a := hstart.resolve_right hdelegates
    have hkept : Maintains Alone (execute e p closure i) := by
      by_cases hyields : i = .yieldValue
      · subst hyields
        exact (maintains_pop stable_alone.steady).bind fun v => maintains_activation.bind fun b =>
          Maintains.edit (fun _ hd => hd) fun _ => Run.maintains_pure _
      · by_cases hreturns : i = .returnValue
        · subst hreturns
          exact (maintains_pop stable_alone.steady).bind fun v =>
            (maintains_finish stable_alone.steady v fun _ hd => hd).map some
        · exact maintains_execute stable_alone hyields hdelegates hreturns
    exact (Leaves.of_maintains hkept halone).mono (fun _ _ hb => ⟨hb.aligned, fun _ => hb⟩)
      (fun _ hb => hb) fun _ hb => hb.aligned

/-- An exception does not bring a delegate. -/
theorem unwind_alone (x : Exception) : Maintains Alone (unwind e x) := by
  refine maintains_activation.bind fun a => ?_
  split
  · refine Maintains.edit (fun _ hb => hb) fun _ => ?_
    refine ((maintains_shared _).onInterruption (maintains_shared _)).bind fun _ => ?_
    exact (maintains_push stable_alone.steady _).bind fun _ _ hb => hb
  · refine Maintains.edit (fun _ hb => hb) fun _ => Run.maintains_get.bind fun s => ?_
    refine maintains_activation.bind fun b => ?_
    refine ((maintains_clearStack stable_alone.steady).onInterruption (maintains_shared _)).bind
      fun _ => ?_
    exact Maintains.edit (fun _ hb => hb) fun _ => Run.maintains_raise _

theorem unwind_leaves_alone (x : Exception) (h : Alone a) :
    Leaves (fun _ => Alone) (Aligned p) (Aligned p) (unwind e x) a :=
  (Leaves.of_maintains (unwind_alone x) h).mono (fun _ _ hb => hb) (fun _ hb => hb.aligned)
    fun _ hb => hb.aligned

theorem run_aligned (he : e.Lenient) (n : Nat) (h : Continues p a) :
    Leaves (fun _ => Aligned p) (Aligned p) (Aligned p) (run e p closure n) a := by
  induction n generalizing a with
  | zero => exact Leaves.outOfFuel h.aligned
  | succ n ih =>
      rw [run]
      refine leaves_activation_bind ?_
      cases hi : p.instructions[a.counter]? with
      | none =>
          have halone : Alone a := h.resolve_right fun hrest => by simp [hi] at hrest
          have hfinished : Maintains Alone (finish e .none) :=
            maintains_finish stable_alone.steady .none fun _ hd => hd
          exact (Leaves.of_maintains hfinished halone).mono (fun _ _ hb => hb.aligned)
            (fun _ hb => hb.aligned) fun _ hb => hb.aligned
      | some i =>
          let next : Activation := { a with counter := a.counter + 1 }
          have hstart : Alone next ∨ i = .yieldFrom := h.imp_right fun hrest => by
            simpa [hi] using hrest.2
          have hexecute : Leaves (fun suspension b => Aligned p b ∧ (suspension = none → Alone b)) Alone
              (Aligned p) (execute e p closure i) next := execute_aligned he rfl hi hstart
          have hgoes : Leaves (fun _ => Aligned p) (Aligned p) (Aligned p)
              (Run.attempt (execute e p closure i) >>= afterStep e p closure n) next := by
            refine hexecute.attempt.bind fun outcome b hb => ?_
            rcases outcome with x | _ | suspension
            · exact (unwind_leaves_alone x hb).bind fun _ d hd => ih (Or.inl hd)
            · exact ih (Or.inl (hb.2 rfl))
            · exact Leaves.pure hb.1
          exact hgoes

/-- A frame that goes on with a delegation is not given a value first. -/
theorem pushResumeValue_continues (h : Continues p a) :
    Leaves (fun _ => Continues p) (Aligned p) (Aligned p) (pushResumeValue p) a := by
  by_cases halone : Alone a
  · have hbegin : Maintains Alone (pushResumeValue p) := by
      refine maintains_activation.bind fun b => ?_
      split
      · exact Run.maintains_pure _
      · split
        · exact (maintains_takeSent stable_alone.steady).bind fun v =>
            maintains_push stable_alone.steady v
        · exact Maintains.edit (fun _ hd => hd) fun _ => maintains_push stable_alone.steady _
        · exact Run.maintains_pure _
    exact (Leaves.of_maintains hbegin halone).mono (fun _ _ hb => Or.inl hb) (fun _ hb => hb.aligned)
      fun _ hb => hb.aligned
  · obtain ⟨_, hi⟩ := h.resolve_left halone
    have hdelegating : isDelegating p a = true := by
      simp [isDelegating, hi, Option.isSome_iff_ne_none.2 halone]
    intro w
    have hskipped : pushResumeValue p (a, w) = .ok () (a, w) := by
      unfold pushResumeValue
      simp [Run.bind_apply, activation, hdelegating]
    unfold Meets
    rw [hskipped]
    exact h

/-- A resume leaves the frame aligned, if an exception is raised at the resume point only where there is no
delegate. -/
theorem resume_aligned (he : e.Lenient) (pending : Option Exception) (h : Continues p a)
    (hpending : pending.isSome = true → Alone a) :
    Leaves (fun _ => Aligned p) (Aligned p) (Aligned p) (resume e p closure pending) a := by
  unfold resume
  cases pending with
  | some x => exact (unwind_leaves_alone x (hpending rfl)).bind fun _ b hb => run_aligned he _ (Or.inl hb)
  | none => exact (pushResumeValue_continues h).bind fun _ b hb => run_aligned he _ hb

end Exec

open Run (Leaves) in
/-- A program leaves an aligned frame aligned, if an exception is raised at the resume point only where the
frame has no delegate. -/
theorem Code.Program.resume_aligned {p : Code.Program} {e : Engine} (he : e.Lenient) (closure : Value)
    (pending : Option Exception) {f : Frame} (h : f.Aligned (.program p))
    (hpending : pending.isSome = true → f.delegate = none) (w : World) :
    (Run.stateOf (p.resume e closure pending (f, w))).1.Aligned (.program p) := by
  unfold Code.Program.resume
  simp only
  split
  · exact ((Run.maintains_raise (P := fun s : Frame × World => s.1.Aligned (.program p)) _).ensuring
      (Run.maintains_shared _ _)) (f, w) h
  · next hposition =>
    let a : Activation := ⟨{ f with input := none }, f.position.toNat, f.input.getD .none⟩
    have ha : Exec.Continues p a := by
      by_cases hdelegate : f.delegate = none
      · exact Or.inl hdelegate
      · obtain ⟨n, hn, hi⟩ := h (Option.isSome_iff_ne_none.2 hdelegate)
        have hcounter : f.position.toNat = n := by omega
        exact Or.inr ⟨by show f.position = (f.position.toNat : Int); omega, by
          show p.instructions[f.position.toNat]? = _
          rw [hcounter, hi]⟩
    have hran : Leaves (fun _ => Exec.Aligned p) (Exec.Aligned p) (Exec.Aligned p)
        (Exec.resume e p closure pending) a := Exec.resume_aligned he pending ha hpending
    have hforgets : Exec.Maintains (Exec.Aligned p) (do Exec.release e (← Exec.takeSent)) :=
      Run.Maintains.bind (fun _ hd => hd) fun v => Exec.maintains_release v
    have hended := (hran.ensuring (c := do Exec.release e (← Exec.takeSent))
      (fun _ b hb => Leaves.of_maintains hforgets hb) (fun b hb => Leaves.of_maintains hforgets hb)
      fun b hb => Leaves.of_maintains hforgets hb) w
    unfold Run.Meets at hended
    generalize ((Exec.resume e p closure pending).ensuring
      (do Exec.release e (← Exec.takeSent))) (a, w) = y at hended ⊢
    rcases y with ⟨s, b, u⟩ | ⟨_ | _ | _, b, u⟩ <;> exact hended

end Resumable
