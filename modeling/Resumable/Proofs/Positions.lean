import Resumable.Proofs.Contracts

set_option autoImplicit false

/-!
# Resume points

The frame of a generator that delegates is moved one step on when the delegate runs out, and that has
to lead to a position.  A frame is placed if this is so (`Frame.Placed`), and tame if moreover nothing
is sent to it yet.  A program that is not too long leaves a frame that is ready tame, however the
resume ends, and after a result another position follows in any case (`Code.Program.resume_tame`).
-/

namespace Resumable

namespace Frame

variable {f : Frame}

/-- The resume point is a position that another one follows. -/
structure Movable (f : Frame) : Prop where
  start : finished ≤ f.position
  next : f.hasNext = true

/-- The resume point is a position, and where the frame delegates another position follows. -/
structure Placed (f : Frame) : Prop where
  start : finished ≤ f.position
  position : f.position ≤ greatestPosition
  next : f.delegate.isSome = true → f.hasNext = true

/-- A frame between two resumes: it is placed, and no value waits in it for the next resume. -/
structure Tame (f : Frame) : Prop extends Placed f where
  input : f.input = none

/-- A frame that can be resumed: it is placed, and a value that waits in it is going to be taken. -/
structure Ready (f : Frame) : Prop extends Placed f where
  taken : f.position < 0 → f.input = none

theorem Tame.ready (h : f.Tame) : f.Ready := ⟨h.toPlaced, fun _ => h.input⟩

theorem hasNext_iff : f.hasNext = true ↔ f.position < greatestPosition := by simp [hasNext]

theorem Movable.placed (h : f.Movable) : f.Placed :=
  ⟨h.start, Int.le_of_lt (hasNext_iff.1 h.next), fun _ => h.next⟩

theorem movable_of_nat {n : Nat} (h : f.position = (n : Int) - 1) (hn : (n : Int) ≤ greatestPosition) :
    f.Movable := by
  refine ⟨?_, hasNext_iff.2 (by omega)⟩
  rw [h, finished]
  omega

theorem movable_markFinished (f : Frame) : f.markFinished.Movable := ⟨Int.le_refl _, rfl⟩

theorem tame_new (code : CodeRef) (args : List Value) : (new code args).Tame :=
  ⟨⟨show (-1 : Int) ≤ 0 by decide, show (0 : Int) ≤ greatestPosition by decide, nofun⟩, rfl⟩

theorem Tame.removeDelegate (h : f.Tame) : f.removeDelegate.1.Tame :=
  ⟨⟨h.start, h.position, nofun⟩, h.input⟩

end Frame

/-- A program has fewer instructions than there are positions. -/
def Code.Program.Fits (p : Code.Program) : Prop :=
  (p.instructions.length : Int) < Frame.greatestPosition

namespace Exec

open Run (Leaves Meets)

variable {e : Engine} {p : Code.Program} {closure : Value} {a : Activation}

/-- The counter of a resume is a position, and its frame is placed. -/
structure Placed (a : Activation) : Prop where
  counter : (a.counter : Int) ≤ Frame.greatestPosition
  frame : a.frame.Placed

theorem stable_placed : Stable Placed where
  frame _ _ _ _ h := ⟨h.counter, h.frame.start, h.frame.position, h.frame.next⟩
  sent _ h := ⟨h.counter, h.frame⟩
  counter _ _ hn h := ⟨hn, h.frame⟩

theorem stable_movable : Stable (·.frame.Movable) :=
  ⟨fun _ _ _ _ h => ⟨h.start, h.next⟩, fun _ h => h, fun _ _ _ h => h⟩

/-- What comes after looking at the activation. -/
theorem leaves_activation_bind {α : Type} {Q : α → Activation → Prop} {E A : Activation → Prop}
    {f : Activation → Exec α} (h : Leaves Q E A (f a) a) : Leaves Q E A (activation >>= f) a :=
  fun w => h w

/-- A frame that runs to completion is marked as finished before anything else happens. -/
theorem finish_leaves (v : Value) :
    Leaves (fun _ b => b.frame.Movable) (·.frame.Placed) (·.frame.Placed)
      (finish e v) a := by
  let marked : Activation := { a with frame := { a.frame.markFinished with blocks := [] } }
  have hcleared : Maintains (·.frame.Movable)
      ((clearStack e).onInterruption (release e v) >>= fun _ => pure (.returned v) : Exec Suspension) :=
    Run.Maintains.bind
      ((maintains_clearStack stable_movable.steady).onInterruption
        (maintains_release (P := (·.frame.Movable)) v))
      fun _ => Run.maintains_pure _
  have hleft : Leaves (fun _ b => b.frame.Movable) (·.frame.Movable) (·.frame.Movable) _ marked :=
    Leaves.of_maintains hcleared ⟨Int.le_refl _, rfl⟩
  exact fun w => (hleft w).mono (fun _ _ h => h) (fun _ _ h => h.placed) (fun _ h => h.placed)
    fun _ h => h.placed

/-- The iterator to delegate to is in the frame; the counter does not move. -/
theorem delegate_leaves (h : Placed a) :
    Leaves (fun _ b => b.counter = a.counter) Placed Placed (delegate e) a := by
  unfold delegate
  refine leaves_activation_bind ?_
  split
  · exact (Leaves.shared (Q := fun _ d => d = _) (fun _ => rfl) h h).bind fun _ _ hd =>
      Leaves.pure (congrArg Activation.counter hd)
  · have hpopped : Leaves (fun _ b => Placed b ∧ b.counter = a.counter) Placed Placed pop a := by
      intro w
      unfold Meets pop
      simp only
      cases a.frame.stack with
      | nil => exact h
      | cons v rest => exact ⟨stable_placed.frame a a.frame.locals rest a.frame.blocks h, rfl⟩
    refine hpopped.bind fun iterable b hb => ?_
    have hiter : Leaves (fun _ d => d = b) Placed Placed
        (owning e iterable (Run.shared (World.getIter iterable))) b :=
      (Leaves.shared (Q := fun _ d => d = b) (E := (· = b)) (A := (· = b)) (fun _ => rfl) rfl rfl
        |>.ensuring_shared (fun _ _ hd => ⟨hd, hd⟩) (fun _ hd => hd) (fun _ hd => hd)).mono
        (fun _ _ hd => hd) (fun _ hd => hd ▸ hb.1) fun _ hd => hd ▸ hb.1
    refine hiter.bind fun inner d hd => ?_
    subst hd
    intro w
    exact hb.2

/-- Where the resume point is at an instruction that delegates: another position follows. -/
structure Delegating (a : Activation) : Prop where
  counter : (a.counter : Int) ≤ Frame.greatestPosition
  frame : a.frame.Movable

theorem Delegating.placed (h : Delegating a) : Placed a := ⟨h.counter, h.frame.placed⟩

theorem stable_delegating : Stable Delegating where
  frame _ _ _ _ h := ⟨h.counter, h.frame.start, h.frame.next⟩
  sent _ h := ⟨h.counter, h.frame⟩
  counter _ _ hn h := ⟨hn, h.frame⟩

/-- What a delegation does about what its delegate came to. -/
def settleDelegation (e : Engine) : Except Exception Engine.Delegated → Exec Suspension
  | .ok (.item v) => pure (.yielded v)
  | .ok (.finished result) => pure (.delegateExhausted result)
  | .error exception => do
      replace e Frame.removeDelegate
      Run.raise exception

/-- A delegation once the iterator to delegate to is known. -/
def delegateTo (e : Engine) (inner : Value) : Exec Suspension := do
  let a ← activation
  modifyFrame fun f => { f with position := (a.counter : Int) - 1 }
  let sent ← takeSent
  Run.attempt (Run.shared (e.sendInto inner sent)) >>= settleDelegation e

theorem yieldFrom_eq (e : Engine) :
    yieldFrom e = delegate e >>= fun inner => owning e inner (delegateTo e inner) := by
  unfold yieldFrom delegateTo
  refine bind_congr fun inner => congrArg (owning e inner) (bind_congr fun _ => bind_congr fun _ =>
    bind_congr fun _ => bind_congr fun outcome => ?_)
  rcases outcome with x | v | v <;> rfl

theorem maintains_settleDelegation (outcome : Except Exception Engine.Delegated) :
    Maintains Delegating (settleDelegation e outcome) := by
  rcases outcome with x | v | v
  · exact (maintains_replace fun _ h => ⟨h.counter, h.frame.start, h.frame.next⟩).bind
      fun _ => Run.maintains_raise _
  · exact Run.maintains_pure _
  · exact Run.maintains_pure _

theorem delegateTo_leaves (inner : Value) (h : (a.counter : Int) ≤ Frame.greatestPosition) :
    Leaves (fun _ => Delegating) Delegating Delegating (delegateTo e inner) a := by
  let moved : Activation := { a with frame := { a.frame with position := (a.counter : Int) - 1 } }
  have hmoved : Delegating moved := ⟨h, Frame.movable_of_nat rfl h⟩
  have hrest : Maintains Delegating (takeSent >>= fun sent =>
      Run.attempt (Run.shared (e.sendInto inner sent)) >>= settleDelegation e : Exec Suspension) :=
    (maintains_takeSent stable_delegating.steady).bind fun _ =>
      (maintains_shared _).attempt.bind maintains_settleDelegation
  have hleft : Leaves (fun _ => Delegating) Delegating Delegating _ moved :=
    Leaves.of_maintains hrest hmoved
  exact hleft

/-- A delegation is suspended at its instruction. -/
theorem yieldFrom_leaves (h : Placed a) :
    Leaves (fun _ b => Placed b ∧ b.frame.Movable) Placed Placed (yieldFrom e) a := by
  rw [yieldFrom_eq]
  refine (delegate_leaves h).bind fun inner b hb => ?_
  have hstep : Leaves (fun _ => Delegating) Delegating Delegating (delegateTo e inner) b :=
    delegateTo_leaves inner (hb ▸ h.counter)
  exact (hstep.ensuring_shared (fun _ _ hd => ⟨hd, hd⟩) (fun _ hd => hd) fun _ hd => hd).mono
    (fun _ _ hd => ⟨hd.placed, hd.frame⟩) (fun _ hd => hd.placed) fun _ hd => hd.placed

/-- Raising the exception that a value stands for gives no result. -/
theorem raiseValue_leaves {α : Type} (v : Value) :
    Leaves (fun _ _ => False) (fun _ => True) (fun _ => True) (Run.shared (e.raiseValue v) : Exec α)
      a := by
  intro w
  have hraised : Meets (fun _ _ => False) (fun _ _ => True) (fun _ => True) (fun _ => True)
      (e.raiseValue v : Run World α) w :=
    Meets.ensuring (Q := fun _ _ => False) (Meets.trivial.bind fun x _ _ => Meets.raise trivial)
      (fun _ _ h => h.elim) (fun _ _ _ => Meets.trivial) fun _ _ => Meets.trivial
  exact hraised.shared.mono (fun _ _ h => h.2) (fun _ _ _ => trivial) (fun _ _ => trivial)
    fun _ _ => trivial

/-- An instruction that does not suspend or finish the frame leads to the next one. -/
theorem execute_goesOn {i : Code.Instruction} (hyields : i ≠ .yieldValue)
    (hdelegates : i ≠ .yieldFrom) (hreturns : i ≠ .returnValue) (s : Activation × World) :
    Meets (fun suspension _ => suspension = none) (fun _ _ => True) (fun _ => True) (fun _ => True)
      (execute e p closure i) s := by
  have hthen : ∀ {m : Exec Unit} {s}, Meets (fun suspension _ => suspension = none) (fun _ _ => True)
      (fun _ => True) (fun _ => True) (do m; return none : Exec (Option Suspension)) s :=
    Meets.trivial.bind fun _ _ _ => Meets.pure rfl
  cases i with
  | loadConst index =>
      rw [execute]
      cases p.constants[index]? <;> exact hthen
  | loadClosure => exact Meets.trivial.bind fun _ _ _ => hthen
  | popTop => exact Meets.trivial.bind fun _ _ _ => hthen
  | jumpIfFalse offset =>
      refine Meets.trivial.bind fun v t _ => ?_
      refine Meets.bind (Q := fun u _ => u = t) (by rfl) fun u _ _ => ?_
      refine Meets.trivial.bind fun _ _ _ => ?_
      split
      · exact Meets.pure rfl
      · exact hthen
  | getIter => exact Meets.trivial.bind fun _ _ _ => hthen
  | yieldValue => exact absurd rfl hyields
  | yieldFrom => exact absurd rfl hdelegates
  | setupExcept offset => exact Meets.trivial.bind fun _ _ _ => hthen
  | jumpIfNotExcMatch kind offset =>
      refine Meets.trivial.bind fun v _ _ => ?_
      split
      · exact Meets.pure rfl
      · exact hthen
  | raise =>
      refine Meets.trivial.bind fun v u _ => ?_
      exact (raiseValue_leaves (a := u.1) v u.2).imp fun _ _ h => h.elim
  | returnValue => exact absurd rfl hreturns
  | _ => exact hthen

/-- One instruction.  Where it suspends or finishes the frame, another position follows. -/
theorem execute_leaves (i : Code.Instruction) (h : Placed a)
    (hnext : (a.counter : Int) < Frame.greatestPosition) :
    Leaves (fun suspension b => Placed b ∧ (suspension ≠ none → b.frame.Movable)) Placed Placed
      (execute e p closure i) a := by
  by_cases hyields : i = .yieldValue
  · subst hyields
    -- the counter stays where it is until the resume point is moved there
    let P : Activation → Prop := fun b => b.counter = a.counter ∧ b.frame.Placed
    have hpopped : Leaves (fun _ => P) P P pop a := by
      intro w
      unfold Meets pop
      simp only
      cases a.frame.stack with
      | nil => exact ⟨rfl, h.frame⟩
      | cons v rest => exact ⟨rfl, h.frame.start, h.frame.position, h.frame.next⟩
    have hplaced : ∀ b, P b → Placed b := fun b hb => ⟨hb.1 ▸ h.counter, hb.2⟩
    refine (hpopped.mono (fun _ _ hb => hb) hplaced hplaced).bind fun v b hb w => ?_
    have hcounter : (b.counter : Int) < Frame.greatestPosition := by
      rw [hb.1]
      exact hnext
    have hmoved : ({ b.frame with position := (b.counter : Int) } : Frame).Movable := by
      refine ⟨?_, Frame.hasNext_iff.2 hcounter⟩
      show (-1 : Int) ≤ (b.counter : Int)
      omega
    exact ⟨⟨Int.le_of_lt hcounter, hmoved.placed⟩, fun _ => hmoved⟩
  · by_cases hdelegates : i = .yieldFrom
    · subst hdelegates
      exact (yieldFrom_leaves h).map fun _ _ hb => ⟨hb.1, fun _ => hb.2⟩
    · by_cases hreturns : i = .returnValue
      · subst hreturns
        have hpopped : Leaves (fun _ => Placed) Placed Placed pop a :=
          Leaves.of_maintains (maintains_pop stable_placed.steady) h
        refine hpopped.bind fun v b hb => ?_
        have hkept : Leaves (fun _ => Placed) Placed Placed (finish e v) b :=
          Leaves.of_maintains (maintains_finish stable_placed.steady v fun d hd =>
            ⟨hd.counter, (Frame.movable_markFinished d.frame).placed.start,
              (Frame.movable_markFinished d.frame).placed.position,
              (Frame.movable_markFinished d.frame).placed.next⟩) hb
        have hfinished : Leaves (fun _ d => Placed d ∧ d.frame.Movable) Placed Placed
            (finish e v) b := fun w =>
          ((hkept w).and (finish_leaves v w)).mono (fun _ _ hd => hd) (fun _ _ hd => hd.1)
            (fun _ hd => hd.1) fun _ hd => hd.1
        exact hfinished.map fun _ _ hd => ⟨hd.1, fun _ => hd.2⟩
      · have hkept : Leaves (fun _ => Placed) Placed Placed (execute e p closure i) a :=
          Leaves.of_maintains (maintains_execute stable_placed hyields hdelegates hreturns) h
        intro w
        refine ((hkept w).and (execute_goesOn hyields hdelegates hreturns (a, w))).mono ?_ ?_ ?_ ?_
        · exact fun _ _ hb => ⟨hb.1, fun hsome => absurd hb.2 hsome⟩
        · exact fun _ _ hb => hb.1
        · exact fun _ hb => hb.1
        · exact fun _ hb => hb.1

/-- An exception goes to a handler, or finishes the frame. -/
theorem unwind_leaves (x : Exception) (h : Placed a) :
    Leaves (fun _ b => b.frame.Placed) (·.frame.Placed) (·.frame.Placed) (unwind e x) a := by
  unfold unwind
  refine leaves_activation_bind ?_
  split
  · next block rest _ =>
    have hkept : Maintains Placed (do
        modifyFrame fun f => { f.truncate block.stackDepth with blocks := rest }
        (Run.shared (e.releaseAll (a.frame.above block.stackDepth))).onInterruption
          (release e x.toValue)
        push x.toValue) :=
      Maintains.edit (fun b => stable_placed.frame b b.frame.locals (b.frame.stack.drop _) rest)
        fun _ => ((maintains_shared _).onInterruption (maintains_shared _)).bind fun _ =>
          maintains_push stable_placed.steady _
    have hleft : Leaves (fun _ => Placed) Placed Placed _ a := Leaves.of_maintains hkept h
    have hgoes : ∀ b : Activation, b.frame.Placed →
        Leaves (fun _ b => b.frame.Placed) (·.frame.Placed) (·.frame.Placed) (goTo block.handler) b :=
      fun _ hb _ => hb
    have hgone := (hleft.mono (fun _ b hb => hb.frame) (fun _ hb => hb.frame) fun _ hb => hb.frame).bind
      fun _ b hb => hgoes b hb
    simpa only [bind_assoc] using hgone
  · let moved : Activation := { a with frame := { a.frame with position := (a.counter - 1 : Nat) } }
    have hmoved : moved.frame.Movable := by
      have := h.counter
      have hsome : (0 : Int) < Frame.greatestPosition := by decide
      have hposition : ((a.counter - 1 : Nat) : Int) < Frame.greatestPosition := by omega
      refine ⟨?_, Frame.hasNext_iff.2 hposition⟩
      show (-1 : Int) ≤ ((a.counter - 1 : Nat) : Int)
      omega
    have hkept : Maintains (·.frame.Movable) (do
        let code := (← get).2.code a.frame.code
        let entry := (← activation).frame.traceEntry code.name code.filename
        (clearStack e).onInterruption (release e x.toValue)
        modifyFrame Frame.markFinished
        Run.raise (x.pushEntry entry) : Exec Unit) := by
      refine Run.maintains_get.bind fun s => ?_
      refine Run.Maintains.bind (maintains_activation (P := (·.frame.Movable))) fun b => ?_
      refine Run.Maintains.bind ((maintains_clearStack stable_movable.steady).onInterruption
        (maintains_release (P := (·.frame.Movable)) x.toValue)) fun _ => ?_
      exact Maintains.edit (P := (·.frame.Movable))
        (fun b _ => Frame.movable_markFinished b.frame) fun _ => Run.maintains_raise _
    have hleft : Leaves (fun _ b => b.frame.Movable) (·.frame.Movable) (·.frame.Movable) _ moved :=
      Leaves.of_maintains hkept hmoved
    exact hleft.mono (fun _ _ hb => hb.placed) (fun _ hb => hb.placed) fun _ hb => hb.placed

/-- What a run does about what an instruction came to. -/
def afterStep (e : Engine) (p : Code.Program) (closure : Value) (n : Nat) :
    Except Exception (Option Suspension) → Exec Suspension
  | .ok (some suspension) => pure suspension
  | .ok none => run e p closure n
  | .error x => unwind e x >>= fun _ => run e p closure n

theorem run_instruction {i : Code.Instruction} {n : Nat} {w : World}
    (hi : p.instructions[a.counter]? = some i) :
    run e p closure (n + 1) (a, w) = (Run.attempt (execute e p closure i) >>= afterStep e p closure n)
      ({ a with counter := a.counter + 1 }, w) := by
  have hpast : goTo (a.counter + 1) (a, w) = .ok () ({ a with counter := a.counter + 1 }, w) := rfl
  rw [run, Run.bind_ok (rfl : activation (a, w) = .ok a (a, w)), hi]
  refine (Run.bind_ok hpast).trans (congrFun (bind_congr fun outcome => ?_) _)
  rcases outcome with x | _ | suspension <;> rfl

/-- A run leaves the frame placed, and after a result another position follows. -/
theorem run_leaves (hp : p.Fits) (n : Nat) (h : a.frame.Placed) :
    Leaves (fun _ b => b.frame.Movable) (·.frame.Placed) (·.frame.Placed)
      (run e p closure n) a := by
  induction n generalizing a with
  | zero => exact Leaves.outOfFuel h
  | succ n ih =>
      rw [run]
      refine leaves_activation_bind ?_
      cases hi : p.instructions[a.counter]? with
      | none => exact finish_leaves .none
      | some i =>
          have hcounter : ((a.counter + 1 : Nat) : Int) < Frame.greatestPosition := by
            have hlt := (List.getElem?_eq_some_iff.1 hi).1
            have := hp
            unfold Code.Program.Fits at this
            omega
          let next : Activation := { a with counter := a.counter + 1 }
          have hnext : Placed next := ⟨Int.le_of_lt hcounter, h⟩
          have hstep : Leaves (fun suspension b => Placed b ∧ (suspension ≠ none → b.frame.Movable))
              Placed Placed (execute e p closure i) next := execute_leaves i hnext hcounter
          have hexecuted : Leaves (fun suspension b => Placed b ∧ (suspension ≠ none → b.frame.Movable))
              Placed (·.frame.Placed) (execute e p closure i) next :=
            hstep.mono (fun _ _ hb => hb) (fun _ hb => hb) fun _ hb => hb.frame
          have hgoes : Leaves (fun _ b => b.frame.Movable) (·.frame.Placed) (·.frame.Placed)
              (Run.attempt (execute e p closure i) >>= afterStep e p closure n) next := by
            refine hexecuted.attempt.bind fun outcome b hb => ?_
            rcases outcome with x | _ | suspension
            · exact (unwind_leaves x hb).bind fun _ d hd => ih hd
            · exact ih hb.1.frame
            · exact Leaves.pure (hb.2 (by simp))
          exact hgoes

/-- A resume leaves the frame placed, and after a result another position follows. -/
theorem resume_leaves (hp : p.Fits) (pending : Option Exception) (h : Placed a) :
    Leaves (fun _ b => b.frame.Movable) (·.frame.Placed) (·.frame.Placed)
      (resume e p closure pending) a := by
  unfold resume
  cases pending with
  | some x => exact (unwind_leaves x h).bind fun _ b hb => run_leaves hp _ hb
  | none =>
      have hbegin : Maintains Placed (pushResumeValue p) := by
        refine maintains_activation.bind fun b => ?_
        split
        · exact Run.maintains_pure _
        · split
          · exact (maintains_takeSent stable_placed.steady).bind fun v => maintains_push stable_placed.steady v
          · exact Maintains.edit
              (fun _ hd => ⟨hd.counter, hd.frame.start, hd.frame.position, hd.frame.next⟩)
              fun _ => maintains_push stable_placed.steady _
          · exact Run.maintains_pure _
      have hleft : Leaves (fun _ => Placed) Placed Placed (pushResumeValue p) a :=
        Leaves.of_maintains hbegin h
      exact (hleft.mono (fun _ _ hb => hb) (fun _ hb => hb.frame) fun _ hb => hb.frame).bind
        fun _ b hb => run_leaves hp _ hb.frame

end Exec

open Run (Leaves) in
/-- A program that is not too long leaves a placed frame placed, and after a result another position
follows. -/
theorem Code.Program.resume_placed {p : Code.Program} (hp : p.Fits) (e : Engine) (closure : Value)
    (pending : Option Exception) {f : Frame} (h : f.Placed) :
    Leaves (fun _ b => b.Movable) Frame.Placed Frame.Placed (p.resume e closure pending) f := by
  intro w
  unfold Code.Program.resume
  by_cases hfinished : f.position < 0
  · have hmovable : f.Movable := ⟨h.start, Frame.hasNext_iff.2 (by
      have hsome : (0 : Int) < Frame.greatestPosition := by decide
      omega)⟩
    have hrefused : Leaves (fun _ b => b.Movable) Frame.Placed Frame.Placed
        (Run.ensuring (Run.raise (.systemError "cannot resume a finished frame"))
          (Run.shared (e.releasePending pending)) : Run (Frame × World) Suspension) f :=
      Leaves.ensuring (Leaves.raise h)
        (fun _ _ hb => Leaves.shared (fun _ => hb) hb.placed hb.placed)
        (fun _ hb => Leaves.shared (fun _ => hb) hb hb) fun _ hb => Leaves.shared (fun _ => hb) hb hb
    simpa only [Run.Meets, hfinished, if_true] using hrefused w
  · have hnonneg : ((f.position.toNat : Nat) : Int) = f.position := Int.toNat_of_nonneg (by omega)
    let a : Activation := ⟨{ f with input := none }, f.position.toNat, f.input.getD .none⟩
    have ha : Exec.Placed a := ⟨hnonneg ▸ h.position, h.start, h.position, h.next⟩
    have hran : Leaves (fun _ b => b.frame.Movable) (·.frame.Placed) (·.frame.Placed)
        (Exec.resume e p closure pending) a := Exec.resume_leaves hp pending ha
    have htaken : ∀ (P : Frame → Prop) (b : Activation), P b.frame →
        Leaves (fun _ d => P d.frame) (fun d => P d.frame) (fun d => P d.frame)
          (Exec.takeSent >>= fun v => Exec.release e v) b := by
      intro P b hb
      have hsent : Exec.Maintains (fun d => P d.frame) Exec.takeSent := fun _ hd => hd
      have hkept : Exec.Maintains (fun d => P d.frame) (Exec.takeSent >>= Exec.release e) :=
        Run.Maintains.bind hsent fun v => Exec.maintains_release (P := fun d => P d.frame) v
      exact Leaves.of_maintains hkept hb
    have hall := (hran.ensuring (c := do Exec.release e (← Exec.takeSent))
      (fun _ b hb => (htaken Frame.Movable b hb).mono (fun _ _ hd => hd)
        (fun _ hd => hd.placed) fun _ hd => hd.placed)
      (fun b hb => htaken Frame.Placed b hb) fun b hb => htaken Frame.Placed b hb) w
    unfold Run.Meets at hall ⊢
    simp only [hfinished, if_false]
    generalize ((Exec.resume e p closure pending).ensuring
      (do Exec.release e (← Exec.takeSent))) (a, w) = y at hall ⊢
    rcases y with ⟨s, b, u⟩ | ⟨_ | _ | _, b, u⟩ <;> exact hall

/-- Resuming a frame takes what was sent to it. -/
theorem Code.Program.resume_takes {p : Code.Program} {e : Engine} {closure : Value}
    (pending : Option Exception) {f : Frame} (h : f.position < 0 → f.input = none) (w : World) :
    (Run.stateOf (p.resume e closure pending (f, w))).1.input = none :=
  Code.Program.resume_maintains (P := fun b => b.input = none)
    ⟨⟨fun _ _ _ _ h => h, fun _ h => h, fun _ _ _ h => h⟩, fun _ _ h => h, fun _ _ h => h,
      fun _ _ h => h, fun _ _ h => h⟩ pending h rfl w

open Run (Leaves) in
/-- A program that is not too long leaves a ready frame tame, and after a result another position
follows. -/
theorem Code.Program.resume_tame {p : Code.Program} (hp : p.Fits) (e : Engine) (closure : Value)
    (pending : Option Exception) {f : Frame} (h : f.Ready) :
    Leaves (fun _ b => b.Tame ∧ b.hasNext = true) Frame.Tame Frame.Tame
      (p.resume e closure pending) f := by
  intro w
  have hplaced := Code.Program.resume_placed hp e closure pending h.toPlaced w
  have htaken : (Run.stateOf (p.resume e closure pending (f, w))).1.input = none :=
    Code.Program.resume_takes pending h.taken w
  unfold Run.Meets at hplaced ⊢
  generalize p.resume e closure pending (f, w) = y at hplaced htaken ⊢
  rcases y with ⟨s, b, u⟩ | ⟨_ | _ | _, b, u⟩
  · exact ⟨⟨hplaced.placed, htaken⟩, hplaced.next⟩
  · exact ⟨hplaced, htaken⟩
  · exact ⟨hplaced, htaken⟩
  · exact ⟨hplaced, htaken⟩

/-! ## Changes of a frame -/

open Run (Leaves)

variable {e : Engine} {f : Frame}

theorem replace_leaves {P : Frame → Prop} {c : Frame → Frame × List Value} (h : P (c f).1) :
    Leaves (fun _ => P) P P (e.replace c) f := fun w =>
  Leaves.shared (Q := fun _ => P) (m := e.releaseAll (c f).2) (fun _ => h) h h w

/-- A frame that does not delegate moves on to a position, or stays where it is. -/
theorem stepOn_leaves (h : f.Tame) (hdelegate : f.delegate = none) :
    Leaves (fun _ => Frame.Tame) Frame.Tame Frame.Tame World.stepOn f := by
  intro w
  show Run.Meets _ _ _ _ ((if f.hasNext = true then _ else _ : Run (Frame × World) Unit)) (f, w)
  split
  · next hnext =>
      refine ⟨⟨?_, Frame.position_stepOn_le hnext, fun hsome => ?_⟩, h.input⟩
      · have := h.start
        show Frame.finished ≤ f.position + 1
        omega
      · rw [show f.stepOn.delegate = none from hdelegate] at hsome
        cases hsome
  · exact Leaves.shared (Q := fun _ => Frame.Tame) (m := World.abort) (fun _ => h) h h w

/-- What telling a frame that its delegate ran out does to it. -/
theorem finishDelegation_leaves (v : Value) (h : f.Tame) :
    Leaves (fun _ => Frame.Tame) Frame.Tame Frame.Tame
      (do
        Run.onInterruption
          (do
            e.replace Frame.removeDelegate
            World.stepOn)
          (Run.shared (e.release v))
        e.replace (·.replaceDelegationResult v)) f := by
  let P : Frame → Prop := fun b => b.Tame ∧ b.delegate = none
  have hremoved : Leaves (fun _ => P) P P (e.replace Frame.removeDelegate) f :=
    replace_leaves ⟨h.removeDelegate, rfl⟩
  have hmoved : Leaves (fun _ => Frame.Tame) Frame.Tame Frame.Tame
      (do e.replace Frame.removeDelegate; World.stepOn : Run (Frame × World) Unit) f :=
    (hremoved.mono (fun _ _ hb => hb) (fun _ hb => hb.1) fun _ hb => hb.1).bind
      fun _ b hb => stepOn_leaves hb.1 hb.2
  refine (hmoved.onInterruption (fun _ hb => Leaves.shared (fun _ => hb) hb hb)
    fun _ hb => Leaves.shared (fun _ => hb) hb hb).bind fun _ b hb => ?_
  exact replace_leaves ⟨⟨hb.start, hb.position, hb.next⟩, hb.input⟩

end Resumable
