import Resumable.Disposal

set_option autoImplicit false

/-!
# Invariants of a resume

A computation maintains an invariant if the state that it ends in satisfies it as well, however it ends
(`Run.Maintains`).  There is one rule for each way of composing computations.

Most instructions change the value stack, the handlers, the counter and the value that was sent, and
nothing else.  An invariant that survives such changes is steady (`Exec.Steady`), and these instructions
maintain it (`Exec.Steady.execute`).  Others than these set a local variable, move the resume point or
change the delegate:

* an invariant that does not depend on the local variables either is stable (`Exec.Stable`,
  `Exec.maintains_execute`);
* a steady one that does not depend on the resume point and the delegate is aloof (`Exec.Aloof`), and
  whatever does not set a local variable maintains it;
* one that is both is inert (`Exec.Inert`), and every resume maintains it (`Exec.maintains_resume`).
-/

namespace Resumable

variable {α β σ τ ω : Type}

namespace Run

/-- The state that a computation ends in. -/
def stateOf : EStateM.Result Interruption σ α → σ
  | .ok _ t => t
  | .error _ t => t

/-- An invariant of the state holds in the end if it holds at the beginning. -/
def Maintains (P : σ → Prop) (m : Run σ α) : Prop := ∀ s, P s → P (stateOf (m s))

section Maintains

variable {P : σ → Prop} {m : Run σ α} {f : α → Run σ β} {c : Run σ Unit}

theorem maintains_pure (a : α) : Maintains P (pure a : Run σ α) := fun _ h => h

theorem maintains_throw (reason : Interruption) : Maintains P (throw reason : Run σ α) := fun _ h => h

theorem maintains_raise (x : Exception) : Maintains P (raise x : Run σ α) := fun _ h => h

theorem maintains_get : Maintains P (get : Run σ σ) := fun _ h => h

theorem Maintains.bind (hm : Maintains P m) (hf : ∀ a, Maintains P (f a)) :
    Maintains P (m >>= f) := by
  intro s hs
  have ht := hm s hs
  rw [bind_apply]
  cases h : m s with
  | ok a t =>
      rw [h] at ht
      exact hf a t ht
  | error reason t =>
      rw [h] at ht
      exact ht

theorem Maintains.map (hm : Maintains P m) (g : α → β) : Maintains P (g <$> m) := by
  rw [map_eq_pure_bind]
  exact hm.bind fun a => maintains_pure (g a)

theorem Maintains.attempt (hm : Maintains P m) : Maintains P (Run.attempt m) := by
  intro s hs
  have ht := hm s hs
  unfold Run.attempt
  rcases h : m s with ⟨a, t⟩ | ⟨_ | _ | _, t⟩ <;> rw [h] at ht <;> exact ht

theorem Maintains.onInterruption (hm : Maintains P m) (hc : Maintains P c) :
    Maintains P (m.onInterruption c) := by
  intro s hs
  have ht := hm s hs
  unfold Run.onInterruption
  rcases h : m s with ⟨a, t⟩ | ⟨reason, t⟩ <;> rw [h] at ht
  · exact ht
  · have hu := hc t ht
    cases reason <;> simp only
    case outOfFuel => exact ht
    all_goals
      rcases hd : c t with ⟨_, u⟩ | ⟨_, u⟩ <;> rw [hd] at hu <;> exact hu

theorem Maintains.ensuring (hm : Maintains P m) (hc : Maintains P c) : Maintains P (m.ensuring c) :=
  (hm.onInterruption hc).bind fun a => hc.bind fun _ => maintains_pure a

end Maintains

/-- A computation on the shared half leaves the private half as it is. -/
theorem maintains_shared (P : τ → Prop) (m : Run ω α) :
    Maintains (fun s : τ × ω => P s.1) (Run.shared m) := by
  rintro ⟨b, w⟩ h
  unfold Run.shared
  simp only
  cases m w <;> exact h

end Run

namespace Exec

variable {e : Engine} {p : Code.Program} {closure : Value} {P : Activation → Prop}

/-- An invariant of the resume holds in the end if it holds at the beginning. -/
abbrev Maintains (P : Activation → Prop) (m : Exec α) : Prop := Run.Maintains (fun s => P s.1) m

theorem maintains_shared (m : Run World α) : Maintains P (Run.shared m) := Run.maintains_shared P m

theorem maintains_release (v : Value) : Maintains P (release e v) := maintains_shared _

theorem maintains_activation : Maintains P activation := fun _ h => h

theorem maintains_modifyFrame {edit : Frame → Frame}
    (h : ∀ a, P a → P { a with frame := edit a.frame }) : Maintains P (modifyFrame edit) :=
  fun s => h s.1

/-- A change of the frame, and what comes after it. -/
theorem Maintains.edit {edit : Frame → Frame} {m : Unit → Exec α}
    (h : ∀ a, P a → P { a with frame := edit a.frame }) (hm : ∀ u, Maintains P (m u)) :
    Maintains P (modifyFrame edit >>= m) :=
  Run.Maintains.bind (maintains_modifyFrame h) hm

theorem maintains_peek : Maintains P peek := by
  rintro ⟨a, w⟩ h
  unfold peek
  simp only
  split <;> exact h

theorem Maintains.owning {m : Exec α} (h : Maintains P m) (v : Value) : Maintains P (owning e v m) :=
  h.ensuring (maintains_shared _)

theorem maintains_replace {c : Frame → Frame × List Value}
    (h : ∀ a, P a → P { a with frame := (c a.frame).1 }) : Maintains P (replace e c) := by
  rintro ⟨a, w⟩ ha
  exact maintains_shared (e.releaseAll (c a.frame).2) ({ a with frame := (c a.frame).1 }, w) (h a ha)

theorem maintains_refuse (left right : Value) (message : String → String → String) :
    Maintains P (refuse e left right message : Exec α) := by
  refine Maintains.owning (Maintains.owning ?_ right) left
  exact (maintains_shared _).bind fun l => (maintains_shared _).bind fun r => Run.maintains_raise _

theorem maintains_target (offset : Int) : Maintains P (target offset) := by
  refine maintains_activation.bind fun a => ?_
  dsimp only
  split
  · exact Run.maintains_raise _
  · split
    · exact Run.maintains_pure _
    · exact maintains_shared _

/-! ## Stable invariants -/

/-- An invariant does not depend on the value stack and the handlers.  The counter is moved to
positions only, and the value that was sent is taken. -/
structure Steady (P : Activation → Prop) : Prop where
  frame : ∀ (a : Activation) (stack : List Value) (blocks : List HandlerBlock), P a →
    P { a with frame := { a.frame with stack := stack, blocks := blocks } }
  sent : ∀ a : Activation, P a → P { a with sent := .none }
  counter : ∀ (a : Activation) (n : Nat), (n : Int) ≤ Frame.greatestPosition → P a →
    P { a with counter := n }

/-- An invariant does not depend on what most instructions change: it does not depend on the local
variables either. -/
structure Stable (P : Activation → Prop) : Prop where
  frame : ∀ (a : Activation) (locals stack : List Value) (blocks : List HandlerBlock), P a →
    P { a with frame := { a.frame with locals := locals, stack := stack, blocks := blocks } }
  sent : ∀ a : Activation, P a → P { a with sent := .none }
  counter : ∀ (a : Activation) (n : Nat), (n : Int) ≤ Frame.greatestPosition → P a →
    P { a with counter := n }

theorem Stable.steady (h : Stable P) : Steady P where
  frame a := h.frame a a.frame.locals
  sent := h.sent
  counter := h.counter

section Steady

variable (h : Steady P)

include h

theorem maintains_takeSent : Maintains P takeSent := fun s => h.sent s.1

theorem maintains_jump (offset : Int) : Maintains P (jump offset) := by
  rintro ⟨a, w⟩ ha
  unfold jump target
  simp only [Run.bind_apply, activation]
  split
  · next hjump =>
      split at hjump
      · cases hjump
      · split at hjump
        · next hbefore hnext =>
            cases hjump
            exact h.counter a _ (by omega) ha
        · cases hjump
  · next hjump =>
      split at hjump
      · cases hjump
        exact ha
      · split at hjump
        · cases hjump
        · cases hjump
          exact ha

theorem maintains_push (v : Value) : Maintains P (push v) :=
  fun s => h.frame s.1 (v :: s.1.frame.stack) s.1.frame.blocks

theorem maintains_pop : Maintains P pop := by
  rintro ⟨a, w⟩ ha
  unfold pop
  simp only
  split
  · exact ha
  · exact h.frame a _ _ ha

theorem maintains_clearStack : Maintains P (clearStack e) :=
  maintains_activation.bind fun _ =>
    Maintains.edit (fun a => h.frame a (a.frame.stack.drop _) a.frame.blocks)
      fun _ => maintains_shared _

theorem maintains_binary (op : Value → Value → Except OperandFault Value)
    (message : String → String → String) : Maintains P (binary e op message) := by
  refine (maintains_pop h).bind fun right => ?_
  refine ((maintains_pop h).onInterruption (maintains_shared _)).bind fun left => ?_
  split
  · exact maintains_push h _
  · exact Run.maintains_raise _
  · exact maintains_refuse left right message

theorem maintains_loadFast (index : Nat) : Maintains P (loadFast p index) := by
  refine maintains_activation.bind fun a => ?_
  split
  · exact (maintains_shared _).bind fun _ => maintains_push h _
  · exact Run.maintains_raise _

theorem maintains_forIter (offset : Int) : Maintains P (forIter e offset) := by
  refine maintains_peek.bind fun iterator => (maintains_shared _).bind fun _ => ?_
  refine Maintains.owning ((maintains_shared _).bind fun item => ?_) iterator
  split
  · exact maintains_push h _
  · exact (maintains_pop h).bind fun v => (maintains_shared _).bind fun _ => maintains_jump h offset

theorem maintains_listAppend : Maintains P (listAppend e) := by
  refine (maintains_pop h).bind fun item => ?_
  refine ((maintains_pop h).onInterruption (maintains_shared _)).bind fun target => ?_
  split
  · exact Run.Maintains.bind (fun _ ha => ha) fun _ => maintains_shared _
  · refine Maintains.owning (Maintains.owning ?_ _) item
    exact (maintains_shared _).bind fun name => Run.maintains_raise _

/-- An instruction that does not set a local variable, and neither moves the resume point nor
delegates. -/
theorem Steady.execute {i : Code.Instruction} (hstores : ∀ index, i ≠ .storeFast index)
    (hyields : i ≠ .yieldValue) (hdelegates : i ≠ .yieldFrom) (hreturns : i ≠ .returnValue) :
    Maintains P (execute e p closure i) := by
  have hthen : ∀ {m : Exec Unit}, Maintains P m →
      Maintains P (do m; return none : Exec (Option Suspension)) :=
    fun hm => hm.bind fun _ => Run.maintains_pure _
  cases i with
  | loadConst index =>
      rw [Exec.execute]
      cases p.constants[index]? with
      | some c => exact hthen (maintains_push h _)
      | none => exact hthen (Run.maintains_raise (.systemError "constant index out of range"))
  | loadFast index => exact hthen (maintains_loadFast h index)
  | storeFast index => exact absurd rfl (hstores index)
  | loadClosure => exact (maintains_shared _).bind fun _ => hthen (maintains_push h closure)
  | popTop => exact (maintains_pop h).bind fun v => hthen (maintains_shared _)
  | add => exact hthen (maintains_binary h _ _)
  | sub => exact hthen (maintains_binary h _ _)
  | lessThan => exact hthen (maintains_binary h _ _)
  | jump offset => exact hthen (maintains_jump h offset)
  | jumpIfFalse offset =>
      refine (maintains_pop h).bind fun v => Run.maintains_get.bind fun s =>
        (maintains_shared _).bind fun _ => ?_
      split
      · exact Run.maintains_pure _
      · exact hthen (maintains_jump h offset)
  | getIter =>
      refine (maintains_pop h).bind fun iterable => hthen (Maintains.owning ?_ iterable)
      exact (maintains_shared _).bind fun v => maintains_push h v
  | forIter offset => exact hthen (maintains_forIter h offset)
  | listAppend => exact hthen (maintains_listAppend h)
  | yieldValue => exact absurd rfl hyields
  | yieldFrom => exact absurd rfl hdelegates
  | setupExcept offset =>
      exact (maintains_target offset).bind fun handler =>
        hthen (maintains_modifyFrame fun a => h.frame a a.frame.stack _)
  | popBlock =>
      exact hthen (maintains_modifyFrame fun a => h.frame a a.frame.stack _)
  | jumpIfNotExcMatch kind offset =>
      refine maintains_peek.bind fun v => ?_
      split
      · exact Run.maintains_pure _
      · exact hthen (maintains_jump h offset)
  | raise => exact (maintains_pop h).bind fun v => maintains_shared _
  | returnValue => exact absurd rfl hreturns

theorem maintains_finish (v : Value)
    (hmarked : ∀ a, P a → P { a with frame := { a.frame.markFinished with blocks := [] } }) :
    Maintains P (finish e v) :=
  Maintains.edit hmarked fun _ =>
    ((maintains_clearStack h).onInterruption (maintains_shared _)).bind fun _ => Run.maintains_pure _

end Steady

section Stable

variable (h : Stable P)

include h

theorem maintains_storeFast (index : Nat) : Maintains P (storeFast e index) := by
  refine (maintains_pop h.steady).bind fun v => ?_
  split
  · exact maintains_replace fun a => h.frame a _ a.frame.stack a.frame.blocks
  · exact Maintains.owning (maintains_shared _) v

/-- An instruction that neither moves the resume point nor delegates. -/
theorem maintains_execute {i : Code.Instruction} (hyields : i ≠ .yieldValue)
    (hdelegates : i ≠ .yieldFrom) (hreturns : i ≠ .returnValue) :
    Maintains P (execute e p closure i) := by
  by_cases hstores : ∃ index, i = .storeFast index
  · obtain ⟨index, rfl⟩ := hstores
    exact (maintains_storeFast h index).bind fun _ => Run.maintains_pure _
  · exact h.steady.execute (fun index hi => hstores ⟨index, hi⟩) hyields hdelegates hreturns

end Stable

/-! ## Inert invariants -/

/-- An invariant does not depend on the resume point and the delegate either. -/
structure Aloof (P : Activation → Prop) : Prop extends Steady P where
  position : ∀ (a : Activation) (n : Int), P a → P { a with frame := { a.frame with position := n } }
  delegate : ∀ (a : Activation) (v : Option Value), P a →
    P { a with frame := { a.frame with delegate := v } }
  result : ∀ (a : Activation) (v : Option Value), P a →
    P { a with frame := { a.frame with delegationResult := v } }
  anywhere : ∀ (a : Activation) (n : Nat), P a → P { a with counter := n }

/-- An invariant depends on nothing that a resume changes of the frame, apart from the value that is
sent. -/
structure Inert (P : Activation → Prop) : Prop extends Stable P where
  position : ∀ (a : Activation) (n : Int), P a → P { a with frame := { a.frame with position := n } }
  delegate : ∀ (a : Activation) (v : Option Value), P a →
    P { a with frame := { a.frame with delegate := v } }
  result : ∀ (a : Activation) (v : Option Value), P a →
    P { a with frame := { a.frame with delegationResult := v } }
  anywhere : ∀ (a : Activation) (n : Nat), P a → P { a with counter := n }

theorem Inert.aloof (h : Inert P) : Aloof P where
  toSteady := h.steady
  position := h.position
  delegate := h.delegate
  result := h.result
  anywhere := h.anywhere

section Aloof

variable (h : Aloof P)

include h

theorem Aloof.finish (v : Value) : Maintains P (finish e v) :=
  maintains_finish h.toSteady v fun a ha =>
    h.frame _ a.frame.stack [] (h.position a Frame.finished ha)

theorem Aloof.startDelegation : Maintains P (Exec.delegate e) := by
  refine maintains_activation.bind fun a => ?_
  split
  · exact (maintains_shared _).bind fun _ => Run.maintains_pure _
  · refine (maintains_pop h.toSteady).bind fun iterable => ?_
    refine (Maintains.owning (maintains_shared _) iterable).bind fun inner => ?_
    exact Maintains.edit (fun a => h.delegate a _) fun _ =>
      (maintains_shared _).bind fun _ => Run.maintains_pure _

theorem Aloof.yieldFrom : Maintains P (yieldFrom e) := by
  refine h.startDelegation.bind fun inner => Maintains.owning ?_ inner
  refine maintains_activation.bind fun a => Maintains.edit (fun b => h.position b _) fun _ => ?_
  refine (maintains_takeSent h.toSteady).bind fun sent =>
    (maintains_shared _).attempt.bind fun outcome => ?_
  split
  · exact Run.maintains_pure _
  · exact Run.maintains_pure _
  · exact (maintains_replace fun a => h.delegate a _).bind fun _ => Run.maintains_raise _

/-- An instruction that does not set a local variable. -/
theorem Aloof.execute {i : Code.Instruction} (hstores : ∀ index, i ≠ .storeFast index) :
    Maintains P (execute e p closure i) := by
  by_cases hyields : i = .yieldValue
  · subst hyields
    exact (maintains_pop h.toSteady).bind fun v => maintains_activation.bind fun a =>
      Maintains.edit (fun b => h.position b _) fun _ => Run.maintains_pure _
  · by_cases hdelegates : i = .yieldFrom
    · subst hdelegates
      exact h.yieldFrom.map some
    · by_cases hreturns : i = .returnValue
      · subst hreturns
        exact (maintains_pop h.toSteady).bind fun v => (h.finish v).map some
      · exact h.toSteady.execute hstores hyields hdelegates hreturns

theorem Aloof.unwind (x : Exception) : Maintains P (unwind e x) := by
  refine maintains_activation.bind fun a => ?_
  split
  · refine Maintains.edit (fun b => h.frame b (b.frame.stack.drop _) _) fun _ => ?_
    refine ((maintains_shared _).onInterruption (maintains_shared _)).bind fun _ => ?_
    exact (maintains_push h.toSteady _).bind fun _ s => h.anywhere s.1 _
  · refine Maintains.edit (fun b => h.position b _) fun _ => Run.maintains_get.bind fun s => ?_
    refine maintains_activation.bind fun b => ?_
    refine ((maintains_clearStack h.toSteady).onInterruption (maintains_shared _)).bind fun _ => ?_
    exact Maintains.edit (fun c => h.position c Frame.finished) fun _ => Run.maintains_raise _

theorem Aloof.pushResumeValue (p : Code.Program) : Maintains P (pushResumeValue p) := by
  refine maintains_activation.bind fun a => ?_
  split
  · exact Run.maintains_pure _
  · split
    · exact (maintains_takeSent h.toSteady).bind fun v => maintains_push h.toSteady v
    · exact Maintains.edit (fun b => h.result b _) fun _ => maintains_push h.toSteady _
    · exact Run.maintains_pure _

end Aloof

section Inert

variable (h : Inert P)

include h

theorem Inert.execute (i : Code.Instruction) : Maintains P (execute e p closure i) := by
  by_cases hstores : ∃ index, i = .storeFast index
  · obtain ⟨index, rfl⟩ := hstores
    exact (maintains_storeFast h.toStable index).bind fun _ => Run.maintains_pure _
  · exact h.aloof.execute fun index hi => hstores ⟨index, hi⟩

theorem Inert.run (n : Nat) : Maintains P (run e p closure n) := by
  induction n with
  | zero => exact Run.maintains_throw _
  | succ n ih =>
      refine maintains_activation.bind fun a => ?_
      split
      · exact h.aloof.finish .none
      · next i _ =>
          refine Run.Maintains.bind (fun s => h.anywhere s.1 _) fun _ => ?_
          refine (h.execute i).attempt.bind fun outcome => ?_
          split
          · exact Run.maintains_pure _
          · exact ih
          · exact (h.aloof.unwind _).bind fun _ => ih

/-- A resume maintains what is inert. -/
theorem maintains_resume (pending : Option Exception) : Maintains P (resume e p closure pending) := by
  cases pending with
  | none => exact (h.aloof.pushResumeValue p).bind fun _ => h.run _
  | some x => exact (h.aloof.unwind x).bind fun _ => h.run _

end Inert

end Exec

/-- What a resume maintains of the frame holds in the end. -/
theorem Code.Program.resume_maintains {p : Code.Program} {e : Engine} {closure : Value}
    {P : Frame → Prop} (h : Exec.Inert fun a => P a.frame) (pending : Option Exception) {f : Frame}
    (hf : f.position < 0 → P f) (hstart : P { f with input := none }) (w : World) :
    P (Run.stateOf (p.resume e closure pending (f, w))).1 := by
  unfold Code.Program.resume
  simp only
  split
  · next hfinished =>
      exact ((Run.maintains_raise _).ensuring (Run.maintains_shared P _)) (f, w) (hf hfinished)
  · let a : Activation := ⟨{ f with input := none }, f.position.toNat, f.input.getD .none⟩
    have hresumed : Exec.Maintains (fun a : Activation => P a.frame)
        (Exec.resume e p closure pending) := Exec.maintains_resume h pending
    have hkept := hresumed.ensuring
      (c := do Exec.release e (← Exec.takeSent))
      (Run.Maintains.bind (Exec.maintains_takeSent h.steady)
        fun v => Exec.maintains_release (P := fun b => P b.frame) v) (a, w) hstart
    generalize ((Exec.resume e p closure pending).ensuring
      (do Exec.release e (← Exec.takeSent))) (a, w) = y at hkept ⊢
    rcases y with ⟨s, b, u⟩ | ⟨reason, b, u⟩ <;> exact hkept

end Resumable
