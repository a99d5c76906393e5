import Resumable.Machine

set_option autoImplicit false

/-!
# Where a sent value goes

One resume of a frame carries a sent value until an instruction receives it.  Only the resume point
after a yield and the start of a delegation look at it: every other step of the interpreter does
the same whatever was sent, and leaves it alone (`Exec.IgnoresSent`).

`Exec.sends` lists the values that a run sends into its delegations.  It is empty, or it starts with
the value that was sent to the run and goes on with `none` (`Exec.sends_eq`).  Whether it is empty
does not depend on the value, and as long as it is empty neither does the run.
-/

namespace Resumable

namespace Run

variable {σ α β : Type}

/-- A result with its state changed. -/
def mapState (f : σ → σ) :
    EStateM.Result Interruption σ α → EStateM.Result Interruption σ α
  | .ok a s => .ok a (f s)
  | .error reason s => .error reason (f s)

@[simp] theorem mapState_ok (f : σ → σ) (a : α) (s : σ) :
    mapState f (.ok a s) = .ok a (f s) := rfl

@[simp] theorem mapState_error (f : σ → σ) (reason : Interruption) (s : σ) :
    mapState f (.error reason s : EStateM.Result Interruption σ α) = .error reason (f s) := rfl

end Run

namespace Exec

variable {α β : Type}

/-! ## Steps that ignore what was sent -/

/-- The state of a resume with another value sent. -/
def withSent (v : Value) (s : Activation × World) : Activation × World :=
  ({ s.1 with sent := v }, s.2)

@[simp] theorem withSent_withSent (u v : Value) (s : Activation × World) :
    withSent u (withSent v s) = withSent u s := rfl

@[simp] theorem withSent_sent (s : Activation × World) : withSent s.1.sent s = s := rfl

/-- A step ignores what was sent if it does the same for every value, and leaves the value where
it is. -/
def IgnoresSent (m : Exec α) : Prop :=
  ∀ (v : Value) (s : Activation × World), m (withSent v s) = Run.mapState (withSent v) (m s)

theorem ignoresSent_pure (a : α) : IgnoresSent (pure a) := fun _ _ => rfl

theorem ignoresSent_raise (exception : Exception) : IgnoresSent (Run.raise exception : Exec α) :=
  fun _ _ => rfl

theorem ignoresSent_throw (reason : Interruption) : IgnoresSent (throw reason : Exec α) :=
  fun _ _ => rfl

theorem ignoresSent_modifyFrame (edit : Frame → Frame) : IgnoresSent (modifyFrame edit) :=
  fun _ _ => rfl

theorem ignoresSent_goTo (position : Nat) : IgnoresSent (goTo position) := fun _ _ => rfl

theorem ignoresSent_push (v : Value) : IgnoresSent (push v) := ignoresSent_modifyFrame _

theorem ignoresSent_pop : IgnoresSent pop := by
  intro v s
  simp only [pop, withSent]
  cases s.1.frame.stack <;> rfl

theorem ignoresSent_peek : IgnoresSent peek := by
  intro v s
  simp only [peek, withSent]
  cases s.1.frame.stack <;> rfl

theorem ignoresSent_shared (m : Run World α) : IgnoresSent (Run.shared m : Exec α) := by
  intro v s
  simp only [Run.shared, withSent]
  cases m s.2 <;> rfl

theorem IgnoresSent.bind {m : Exec α} {f : α → Exec β} (hm : IgnoresSent m)
    (hf : ∀ a, IgnoresSent (f a)) : IgnoresSent (m >>= f) := by
  intro v s
  rw [Run.bind_apply, Run.bind_apply, hm]
  cases m s with
  | ok a t => exact hf a v t
  | error reason t => rfl

theorem IgnoresSent.map {m : Exec α} (f : α → β) (hm : IgnoresSent m) : IgnoresSent (f <$> m) := by
  rw [map_eq_pure_bind]
  exact hm.bind fun a => ignoresSent_pure (f a)

theorem attempt_withSent {m : Exec α} {v : Value} {s : Activation × World}
    (h : m (withSent v s) = Run.mapState (withSent v) (m s)) :
    Run.attempt m (withSent v s) = Run.mapState (withSent v) (Run.attempt m s) := by
  simp only [Run.attempt, h]
  cases m s with
  | ok a t => rfl
  | error reason t => cases reason <;> rfl

theorem IgnoresSent.attempt {m : Exec α} (hm : IgnoresSent m) : IgnoresSent (Run.attempt m) :=
  fun v s => attempt_withSent (hm v s)

theorem IgnoresSent.onInterruption {m : Exec α} {cleanup : Exec Unit} (hm : IgnoresSent m)
    (hc : IgnoresSent cleanup) : IgnoresSent (m.onInterruption cleanup) := by
  intro v s
  simp only [Run.onInterruption, hm v s]
  cases m s with
  | ok a t => rfl
  | error reason t =>
      cases reason with
      | outOfFuel => rfl
      | raised e =>
          simp only [Run.mapState_error, hc v t]
          cases cleanup t <;> rfl
      | aborted =>
          simp only [Run.mapState_error, hc v t]
          cases cleanup t <;> rfl

theorem IgnoresSent.ensuring {m : Exec α} {cleanup : Exec Unit} (hm : IgnoresSent m)
    (hc : IgnoresSent cleanup) : IgnoresSent (m.ensuring cleanup) :=
  (hm.onInterruption hc).bind fun a => hc.bind fun _ => ignoresSent_pure a

/-- Looking at a resume in progress is harmless where the sent value is not used. -/
theorem ignoresSent_activation_bind {f : Activation → Exec α}
    (hsent : ∀ v a, f { a with sent := v } = f a) (hf : ∀ a, IgnoresSent (f a)) :
    IgnoresSent (activation >>= f) := by
  intro v s
  show f (withSent v s).1 (withSent v s) = Run.mapState (withSent v) (f s.1 s)
  rw [show f (withSent v s).1 = f s.1 from hsent v s.1]
  exact hf s.1 v s

theorem ignoresSent_get_bind {f : Activation × World → Exec α}
    (hsent : ∀ v s, f (withSent v s) = f s) (hf : ∀ s, IgnoresSent (f s)) :
    IgnoresSent (get >>= f) := by
  intro v s
  show f (withSent v s) (withSent v s) = Run.mapState (withSent v) (f s s)
  rw [hsent v s]
  exact hf s v s

/-- A step that ignores what was sent leaves it where it is. -/
theorem sent_eq_of_withSent {m : Exec α} {a : α} {s t : Activation × World}
    (hsame : m (withSent s.1.sent s) = Run.mapState (withSent s.1.sent) (m s))
    (h : m s = .ok a t) : t.1.sent = s.1.sent := by
  rw [withSent_sent, h, Run.mapState_ok, EStateM.Result.ok.injEq] at hsame
  rw [hsame.2]
  rfl

theorem IgnoresSent.sent_of_ok {m : Exec α} (hm : IgnoresSent m) {a : α}
    {s t : Activation × World} (h : m s = .ok a t) : t.1.sent = s.1.sent :=
  sent_eq_of_withSent (hm _ s) h

/-! ## Instructions that ignore what was sent -/

section Steps

variable (e : Engine)

theorem ignoresSent_release (v : Value) : IgnoresSent (release e v) := ignoresSent_shared _

theorem IgnoresSent.owning {m : Exec α} (v : Value) (hm : IgnoresSent m) :
    IgnoresSent (owning e v m) :=
  hm.ensuring (ignoresSent_release e v)

theorem ignoresSent_target (offset : Int) : IgnoresSent (target offset) := by
  refine ignoresSent_activation_bind (fun _ _ => rfl) fun a => ?_
  dsimp only
  split
  · exact ignoresSent_raise _
  · split
    · exact ignoresSent_pure _
    · exact ignoresSent_shared _

theorem ignoresSent_jump (offset : Int) : IgnoresSent (jump offset) :=
  (ignoresSent_target offset).bind ignoresSent_goTo

theorem ignoresSent_replace (change : Frame → Frame × List Value) :
    IgnoresSent (replace e change) :=
  ignoresSent_activation_bind (fun _ _ => rfl) fun _ =>
    (ignoresSent_modifyFrame _).bind fun _ => ignoresSent_shared _

theorem ignoresSent_clearStack : IgnoresSent (clearStack e) :=
  ignoresSent_activation_bind (fun _ _ => rfl) fun _ =>
    (ignoresSent_modifyFrame _).bind fun _ => ignoresSent_shared _

theorem ignoresSent_refuse (left right : Value) (message : String → String → String) :
    IgnoresSent (refuse e left right message : Exec α) :=
  IgnoresSent.owning e left <| IgnoresSent.owning e right <|
    (ignoresSent_shared _).bind fun _ => (ignoresSent_shared _).bind fun _ => ignoresSent_raise _

theorem ignoresSent_binary (op : Value → Value → Except OperandFault Value)
    (message : String → String → String) : IgnoresSent (binary e op message) := by
  refine ignoresSent_pop.bind fun right => ?_
  refine (ignoresSent_pop.onInterruption (ignoresSent_release e right)).bind fun left => ?_
  cases op left right with
  | ok v => exact ignoresSent_push v
  | error fault =>
      cases fault with
      | overflow => exact ignoresSent_raise _
      | unsupported => exact ignoresSent_refuse e left right message

theorem ignoresSent_loadFast (p : Code.Program) (index : Nat) : IgnoresSent (loadFast p index) := by
  refine ignoresSent_activation_bind (fun _ _ => rfl) fun a => ?_
  cases a.frame.locals[index]? with
  | some v => exact (ignoresSent_shared _).bind fun _ => ignoresSent_push v
  | none => exact ignoresSent_raise _

theorem ignoresSent_storeFast (index : Nat) : IgnoresSent (storeFast e index) := by
  refine ignoresSent_pop.bind fun v => ?_
  split
  · exact ignoresSent_replace e _
  · exact IgnoresSent.owning e v (ignoresSent_shared _)

theorem ignoresSent_forIter (offset : Int) : IgnoresSent (forIter e offset) := by
  refine ignoresSent_peek.bind fun iterator => (ignoresSent_shared _).bind fun _ => ?_
  refine IgnoresSent.owning e iterator ((ignoresSent_shared _).bind fun item => ?_)
  cases item with
  | some item => exact ignoresSent_push item
  | none =>
      exact ignoresSent_pop.bind fun v =>
        (ignoresSent_release e v).bind fun _ => ignoresSent_jump offset

theorem ignoresSent_listAppend : IgnoresSent (listAppend e) := by
  refine ignoresSent_pop.bind fun item => ?_
  refine (ignoresSent_pop.onInterruption (ignoresSent_release e item)).bind fun target => ?_
  cases target with
  | list r =>
      have happend : IgnoresSent
          (modify fun (s : Activation × World) => (s.1, s.2.setItems r (s.2.items r ++ [item]))) :=
        fun _ _ => rfl
      exact happend.bind fun _ => ignoresSent_release e _
  | _ =>
      exact IgnoresSent.owning e item <| IgnoresSent.owning e _ <|
        (ignoresSent_shared _).bind fun _ => ignoresSent_raise _

/-- Finding the iterator to delegate to does not yet look at what was sent. -/
theorem ignoresSent_delegate : IgnoresSent (delegate e) := by
  refine ignoresSent_activation_bind (fun _ _ => rfl) fun a => ?_
  cases a.frame.delegate with
  | some inner => exact (ignoresSent_shared _).bind fun _ => ignoresSent_pure inner
  | none =>
      refine ignoresSent_pop.bind fun iterable => ?_
      refine (IgnoresSent.owning e iterable (ignoresSent_shared _)).bind fun inner => ?_
      exact (ignoresSent_modifyFrame _).bind fun _ =>
        (ignoresSent_shared _).bind fun _ => ignoresSent_pure inner

theorem ignoresSent_finish (v : Value) : IgnoresSent (finish e v) := by
  refine (ignoresSent_modifyFrame _).bind fun _ => ?_
  refine ((ignoresSent_clearStack e).onInterruption (ignoresSent_release e v)).bind fun _ => ?_
  exact ignoresSent_pure _

theorem ignoresSent_unwind (exception : Exception) : IgnoresSent (unwind e exception) := by
  refine ignoresSent_activation_bind (fun _ _ => rfl) fun a => ?_
  cases a.frame.blocks with
  | cons block rest =>
      refine (ignoresSent_modifyFrame _).bind fun _ => ?_
      refine ((ignoresSent_shared _).onInterruption (ignoresSent_release e _)).bind fun _ => ?_
      exact (ignoresSent_push _).bind fun _ => ignoresSent_goTo _
  | nil =>
      refine (ignoresSent_modifyFrame _).bind fun _ => ?_
      refine ignoresSent_get_bind (fun _ _ => rfl) fun s => ?_
      refine ignoresSent_activation_bind (fun _ _ => rfl) fun b => ?_
      refine ((ignoresSent_clearStack e).onInterruption (ignoresSent_release e _)).bind fun _ => ?_
      exact (ignoresSent_modifyFrame _).bind fun _ => ignoresSent_raise _

/-- Every instruction but a delegation ignores what was sent. -/
theorem ignoresSent_execute (p : Code.Program) (closure : Value) {i : Code.Instruction}
    (h : i ≠ .yieldFrom) : IgnoresSent (execute e p closure i) := by
  cases i with
  | yieldFrom => exact absurd rfl h
  | loadConst index =>
      cases hc : p.constants[index]? with
      | some c =>
          simp only [execute, hc]
          exact (ignoresSent_push _).bind fun _ => ignoresSent_pure _
      | none =>
          simp only [execute, hc]
          exact (ignoresSent_raise _).bind fun _ => ignoresSent_pure _
  | loadFast index => exact (ignoresSent_loadFast p index).bind fun _ => ignoresSent_pure _
  | storeFast index => exact (ignoresSent_storeFast e index).bind fun _ => ignoresSent_pure _
  | loadClosure =>
      exact (ignoresSent_shared _).bind fun _ =>
        (ignoresSent_push closure).bind fun _ => ignoresSent_pure _
  | popTop =>
      exact ignoresSent_pop.bind fun v =>
        (ignoresSent_release e v).bind fun _ => ignoresSent_pure _
  | add => exact (ignoresSent_binary e _ _).bind fun _ => ignoresSent_pure _
  | sub => exact (ignoresSent_binary e _ _).bind fun _ => ignoresSent_pure _
  | lessThan => exact (ignoresSent_binary e _ _).bind fun _ => ignoresSent_pure _
  | jump offset => exact (ignoresSent_jump offset).bind fun _ => ignoresSent_pure _
  | jumpIfFalse offset =>
      refine ignoresSent_pop.bind fun v => ignoresSent_get_bind (fun _ _ => rfl) fun s => ?_
      refine (ignoresSent_release e v).bind fun _ => ?_
      split
      · exact ignoresSent_pure _
      · exact (ignoresSent_jump offset).bind fun _ => ignoresSent_pure _
  | getIter =>
      refine ignoresSent_pop.bind fun iterable => ?_
      have hpush := IgnoresSent.owning e iterable
        ((ignoresSent_shared (World.getIter iterable)).bind ignoresSent_push)
      exact hpush.bind fun _ => ignoresSent_pure _
  | forIter offset => exact (ignoresSent_forIter e offset).bind fun _ => ignoresSent_pure _
  | listAppend => exact (ignoresSent_listAppend e).bind fun _ => ignoresSent_pure _
  | yieldValue =>
      exact ignoresSent_pop.bind fun v =>
        ignoresSent_activation_bind (fun _ _ => rfl) fun a =>
          (ignoresSent_modifyFrame _).bind fun _ => ignoresSent_pure _
  | setupExcept offset =>
      exact (ignoresSent_target offset).bind fun _ =>
        (ignoresSent_modifyFrame _).bind fun _ => ignoresSent_pure _
  | popBlock => exact (ignoresSent_modifyFrame _).bind fun _ => ignoresSent_pure _
  | jumpIfNotExcMatch kind offset =>
      refine ignoresSent_peek.bind fun v => ?_
      split
      · exact ignoresSent_pure _
      · exact (ignoresSent_jump offset).bind fun _ => ignoresSent_pure _
  | raise => exact ignoresSent_pop.bind fun v => ignoresSent_shared _
  | returnValue => exact ignoresSent_pop.bind fun v => (ignoresSent_finish e v).map _

end Steps

/-! ## The start of a delegation -/

/-- What a delegation does with the value that it takes. -/
def converse (e : Engine) (inner v : Value) : Exec Suspension := do
  match ← Run.attempt (Run.shared (e.sendInto inner v)) with
  | .ok (.item item) => return .yielded item
  | .ok (.finished result) => return .delegateExhausted result
  | .error exception =>
      replace e Frame.removeDelegate
      Run.raise exception

theorem ignoresSent_converse (e : Engine) (inner v : Value) : IgnoresSent (converse e inner v) := by
  refine (ignoresSent_shared _).attempt.bind fun outcome => ?_
  cases outcome with
  | ok delegated => cases delegated <;> exact ignoresSent_pure _
  | error exception => exact (ignoresSent_replace e _).bind fun _ => ignoresSent_raise _

/-- A delegation whose iterator was found takes what was sent, and leaves nothing of it. -/
theorem yieldFrom_of_delegate {e : Engine} {s t : Activation × World} {inner : Value}
    (h : delegate e s = .ok inner t) :
    ∃ u, yieldFrom e s = owning e inner (converse e inner t.1.sent) (withSent .none u) := by
  refine ⟨({ t.1 with frame := { t.1.frame with position := (t.1.counter : Int) - 1 } }, t.2), ?_⟩
  rw [yieldFrom, Run.bind_ok h]
  exact Run.ensuring_congr rfl

/-- The values that an instruction sends into a delegation: at most one. -/
def delivered (e : Engine) (i : Code.Instruction) (s : Activation × World) : List Value :=
  if i = .yieldFrom then
    match delegate e s with
    | .ok _ t => [t.1.sent]
    | .error _ _ => []
  else []

/-- What an instruction sends is what was sent to the run. -/
theorem delivered_eq (e : Engine) (i : Code.Instruction) (s : Activation × World) :
    delivered e i s = [] ∨ delivered e i s = [s.1.sent] := by
  unfold delivered
  split
  · cases h : delegate e s with
    | ok inner t =>
        right
        simp only [(ignoresSent_delegate e).sent_of_ok h]
    | error reason t => exact Or.inl rfl
  · exact Or.inl rfl

theorem delivered_withSent_eq_nil (e : Engine) (i : Code.Instruction) (v : Value)
    (s : Activation × World) : delivered e i (withSent v s) = [] ↔ delivered e i s = [] := by
  unfold delivered
  rw [ignoresSent_delegate e v s]
  split
  · cases delegate e s <;> simp
  · simp

/-- An instruction that sends nothing ignores what was sent. -/
theorem execute_withSent {e : Engine} {p : Code.Program} {closure : Value} {i : Code.Instruction}
    {s : Activation × World} (h : delivered e i s = []) (v : Value) :
    execute e p closure i (withSent v s)
      = Run.mapState (withSent v) (execute e p closure i s) := by
  by_cases hi : i = .yieldFrom
  · subst hi
    cases hd : delegate e s with
    | ok inner t => simp [delivered, hd] at h
    | error reason t =>
        have hs : yieldFrom e s = .error reason t := Run.bind_error hd
        have hv : yieldFrom e (withSent v s) = .error reason (withSent v t) := by
          refine Run.bind_error ?_
          rw [ignoresSent_delegate e v s, hd, Run.mapState_error]
        show (some <$> yieldFrom e) (withSent v s) = Run.mapState _ ((some <$> yieldFrom e) s)
        rw [map_eq_pure_bind, Run.bind_error hs, Run.bind_error hv, Run.mapState_error]
  · exact ignoresSent_execute e p closure hi v s

/-- An instruction sends something only if it is a delegation that found its iterator. -/
theorem delivered_ne_nil {e : Engine} {i : Code.Instruction} {s : Activation × World}
    (h : delivered e i s ≠ []) : i = .yieldFrom ∧ ∃ inner t, delegate e s = .ok inner t := by
  have hi : i = .yieldFrom := Decidable.byContradiction fun hi => h (if_neg hi)
  refine ⟨hi, ?_⟩
  cases hd : delegate e s with
  | ok inner t => exact ⟨inner, t, rfl⟩
  | error reason t => exact absurd (by simp [delivered, hi, hd]) h

/-- After an instruction, what was sent is still there unless the instruction sent it on. -/
theorem sent_of_attempt_execute {e : Engine} {p : Code.Program} {closure : Value}
    {i : Code.Instruction} {s t : Activation × World}
    {outcome : Except Exception (Option Suspension)}
    (h : Run.attempt (execute e p closure i) s = .ok outcome t) :
    t.1.sent = if delivered e i s = [] then s.1.sent else .none := by
  split
  · next hd => exact sent_eq_of_withSent (attempt_withSent (execute_withSent hd _)) h
  · next hd =>
      obtain ⟨rfl, inner, u, hfound⟩ := delivered_ne_nil hd
      obtain ⟨u', hu⟩ := yieldFrom_of_delegate hfound
      have hstep : Run.attempt (execute e p closure .yieldFrom) s
          = Run.attempt (some <$> owning e inner (converse e inner u.1.sent))
              (withSent .none u') := by
        show Run.attempt (some <$> yieldFrom e) s = _
        simp only [Run.attempt, map_eq_pure_bind, Run.bind_apply, hu]
      rw [hstep] at h
      exact ((IgnoresSent.owning e inner (ignoresSent_converse e inner _)).map
        some).attempt.sent_of_ok h

/-! ## Runs -/

/-- The state past an instruction. -/
def pastInstruction (s : Activation × World) : Activation × World :=
  ({ s.1 with counter := s.1.counter + 1 }, s.2)

/-- The state in which a run goes on after an instruction, unless the instruction ends it. -/
def continuation (e : Engine) (p : Code.Program) (closure : Value) (i : Code.Instruction)
    (s : Activation × World) : Option (Activation × World) :=
  match Run.attempt (execute e p closure i) s with
  | .ok (.ok none) t => some t
  | .ok (.error exception) t =>
      match unwind e exception t with
      | .ok _ u => some u
      | .error _ _ => none
  | _ => none

/-- The values that a run sends into its delegations, in order. -/
def sends (e : Engine) (p : Code.Program) (closure : Value) :
    Nat → Activation × World → List Value
  | 0, _ => []
  | n + 1, s =>
      match p.instructions[s.1.counter]? with
      | none => []
      | some i =>
          delivered e i (pastInstruction s) ++
            match continuation e p closure i (pastInstruction s) with
            | none => []
            | some t => sends e p closure n t

section Runs

variable {e : Engine} {p : Code.Program} {closure : Value}

theorem sent_of_continuation {i : Code.Instruction} {s t : Activation × World}
    (h : continuation e p closure i s = some t) :
    t.1.sent = if delivered e i s = [] then s.1.sent else .none := by
  unfold continuation at h
  split at h
  · next u hu =>
      cases h
      exact sent_of_attempt_execute hu
  · next exception u hu =>
      cases hunwind : unwind e exception u with
      | ok _ u' =>
          rw [hunwind] at h
          cases h
          rw [(ignoresSent_unwind e exception).sent_of_ok hunwind, sent_of_attempt_execute hu]
      | error reason u' => simp [hunwind] at h
  · cases h

theorem continuation_withSent {i : Code.Instruction} {s : Activation × World}
    (h : delivered e i s = []) (v : Value) :
    continuation e p closure i (withSent v s) = (continuation e p closure i s).map (withSent v) := by
  unfold continuation
  rw [attempt_withSent (execute_withSent h v)]
  cases Run.attempt (execute e p closure i) s with
  | error reason t => rfl
  | ok outcome t =>
      cases outcome with
      | ok suspension => cases suspension <;> rfl
      | error exception =>
          simp only [Run.mapState_ok, ignoresSent_unwind e exception v t]
          cases unwind e exception t <;> rfl

/-- A run to which `none` was sent sends `none` only. -/
theorem sends_of_sent_none (n : Nat) {s : Activation × World} (h : s.1.sent = .none) :
    ∀ v ∈ sends e p closure n s, v = .none := by
  induction n generalizing s with
  | zero => simp [sends]
  | succ n ih =>
      intro v hv
      unfold sends at hv
      cases hi : p.instructions[s.1.counter]? with
      | none => simp [hi] at hv
      | some i =>
          rw [hi] at hv
          rcases List.mem_append.1 hv with hv | hv
          · rcases delivered_eq e i (pastInstruction s) with hd | hd
            · simp [hd] at hv
            · rw [hd, List.mem_singleton] at hv
              rw [hv]
              exact h
          · cases ht : continuation e p closure i (pastInstruction s) with
            | none => simp [ht] at hv
            | some t =>
                simp only [ht] at hv
                refine ih ?_ v hv
                rw [sent_of_continuation ht]
                split
                · exact h
                · rfl

/-- The first delegation of a run receives what was sent to the run, and all others `none`. -/
theorem sends_eq (n : Nat) (s : Activation × World) :
    sends e p closure n s = [] ∨
      ∃ rest, sends e p closure n s = s.1.sent :: rest ∧ ∀ v ∈ rest, v = .none := by
  induction n generalizing s with
  | zero => exact Or.inl rfl
  | succ n ih =>
      unfold sends
      cases hi : p.instructions[s.1.counter]? with
      | none => exact Or.inl rfl
      | some i =>
          simp only
          rcases delivered_eq e i (pastInstruction s) with hd | hd
          · rw [hd, List.nil_append]
            cases ht : continuation e p closure i (pastInstruction s) with
            | none => exact Or.inl rfl
            | some t =>
                have hsent : t.1.sent = s.1.sent := by
                  rw [sent_of_continuation ht, if_pos hd]
                  rfl
                rw [← hsent]
                exact ih t
          · right
            rw [hd]
            refine ⟨_, rfl, ?_⟩
            cases ht : continuation e p closure i (pastInstruction s) with
            | none => simp
            | some t =>
                refine sends_of_sent_none n ?_
                rw [sent_of_continuation ht, hd, if_neg (List.cons_ne_nil _ _)]

/-- Whether a run sends anything does not depend on what was sent to it. -/
theorem sends_withSent_eq_nil (n : Nat) (v : Value) (s : Activation × World) :
    sends e p closure n (withSent v s) = [] ↔ sends e p closure n s = [] := by
  induction n generalizing s with
  | zero => exact Iff.rfl
  | succ n ih =>
      unfold sends
      show (match p.instructions[s.1.counter]? with | none => [] | some i => _) = [] ↔ _
      cases hi : p.instructions[s.1.counter]? with
      | none => exact Iff.rfl
      | some i =>
          have hpast : pastInstruction (withSent v s) = withSent v (pastInstruction s) := rfl
          simp only [List.append_eq_nil_iff, hpast, delivered_withSent_eq_nil]
          refine and_congr_right fun hd => ?_
          rw [continuation_withSent hd v]
          cases continuation e p closure i (pastInstruction s) with
          | none => exact Iff.rfl
          | some t => exact ih t

/-- A run, one instruction at a time. -/
theorem run_succ (n : Nat) (s : Activation × World) :
    run e p closure (n + 1) s =
      match p.instructions[s.1.counter]? with
      | none => finish e .none s
      | some i =>
          match Run.attempt (execute e p closure i) (pastInstruction s) with
          | .ok (.ok (some suspension)) t => .ok suspension t
          | .ok (.ok none) t => run e p closure n t
          | .ok (.error exception) t => (unwind e exception >>= fun _ => run e p closure n) t
          | .error reason t => .error reason t := by
  rw [run]
  show (match p.instructions[s.1.counter]? with | none => finish e .none | some i => _) s = _
  cases p.instructions[s.1.counter]? with
  | none => rfl
  | some i =>
      show (Run.attempt (execute e p closure i) >>= _) (pastInstruction s) = _
      simp only [Run.bind_apply]
      cases Run.attempt (execute e p closure i) (pastInstruction s) with
      | error reason t => rfl
      | ok outcome t =>
          cases outcome with
          | error exception => exact Run.bind_apply _ _ t
          | ok suspension => cases suspension <;> rfl

/-- A run that sends nothing does the same whatever was sent to it. -/
theorem run_withSent (n : Nat) (v : Value) {s : Activation × World}
    (h : sends e p closure n s = []) :
    run e p closure n (withSent v s) = Run.mapState (withSent v) (run e p closure n s) := by
  induction n generalizing s with
  | zero => rfl
  | succ n ih =>
      rw [run_succ, run_succ]
      unfold sends at h
      show (match p.instructions[s.1.counter]? with | none => _ | some i => _) = _
      cases hi : p.instructions[s.1.counter]? with
      | none => exact ignoresSent_finish e .none v s
      | some i =>
          simp only [hi, List.append_eq_nil_iff] at h
          obtain ⟨hd, hrest⟩ := h
          have hpast : pastInstruction (withSent v s) = withSent v (pastInstruction s) := rfl
          simp only [hpast, attempt_withSent (execute_withSent hd v)]
          unfold continuation at hrest
          cases hx : Run.attempt (execute e p closure i) (pastInstruction s) with
          | error reason t => rfl
          | ok outcome t =>
              rw [hx] at hrest
              cases outcome with
              | ok suspension =>
                  cases suspension with
                  | none => exact ih hrest
                  | some suspension => rfl
              | error exception =>
                  simp only [Run.mapState_ok, Run.bind_apply, ignoresSent_unwind e exception v t]
                  cases hu : unwind e exception t with
                  | error reason u => rfl
                  | ok _ u =>
                      simp only [hu] at hrest
                      exact ih hrest

end Runs

/-! ## One resume of a frame -/

section Resume

variable (e : Engine) (p : Code.Program) (closure : Value) (pending : Option Exception)

/-- The first step of a resume: the pending exception is raised at the resume point, or the value
of the expression there is produced. -/
def enterFrame : Exec Unit :=
  match pending with
  | some exception => unwind e exception
  | none => pushResumeValue p

/-- Whether the resume point is right after a yield, so that a value sent in is the value of the
yield. -/
def awaitsValue (a : Activation) : Bool :=
  pending.isNone && a.counter != 0 && !isDelegating p a
    && p.instructions[a.counter - 1]? == some .yieldValue

/-- The values that a resume sends into its delegations, in order. -/
def resumeSends (s : Activation × World) : List Value :=
  match enterFrame e p pending s with
  | .ok _ t => sends e p closure e.fuel t
  | .error _ _ => []

theorem resume_eq (s : Activation × World) :
    resume e p closure pending s = (enterFrame e p pending >>= fun _ => run e p closure e.fuel) s := by
  cases pending <;> rfl

variable {e p closure pending}

theorem pushResumeValue_apply {s : Activation × World} (hstarted : s.1.counter ≠ 0)
    (hdelegating : isDelegating p s.1 = false) :
    pushResumeValue p s
      = (match p.instructions[s.1.counter - 1]? with
          | some .yieldValue => takeSent >>= push
          | some .yieldFrom => do
              modifyFrame fun f => { f with delegationResult := none }
              push (s.1.frame.delegationResult.getD .none)
          | _ => pure () : Exec Unit) s := by
  show (if s.1.counter = 0 || isDelegating p s.1 then _ else _ : Exec Unit) s = _
  have hneither : ¬ (s.1.counter = 0 || isDelegating p s.1) = true := by
    simp [hstarted, hdelegating]
  exact congrFun (if_neg hneither) s

/-- A yield takes what was sent, and leaves nothing of it. -/
theorem sent_of_enterFrame_of_awaitsValue {s t : Activation × World}
    (h : awaitsValue p pending s.1 = true) (ht : enterFrame e p pending s = .ok () t) :
    t.1.sent = .none := by
  simp only [awaitsValue, Bool.and_eq_true, Option.isNone_iff_eq_none, bne_iff_ne,
    Bool.not_eq_true', beq_iff_eq] at h
  obtain ⟨⟨⟨rfl, hstarted⟩, hdelegating⟩, hyield⟩ := h
  rw [show enterFrame e p none s = pushResumeValue p s from rfl,
    pushResumeValue_apply hstarted hdelegating, hyield] at ht
  cases ht
  rfl

/-- Where no value is awaited, entering the frame ignores what was sent. -/
theorem enterFrame_withSent {s : Activation × World} (h : awaitsValue p pending s.1 = false)
    (v : Value) :
    enterFrame e p pending (withSent v s)
      = Run.mapState (withSent v) (enterFrame e p pending s) := by
  cases pending with
  | some exception => exact ignoresSent_unwind e exception v s
  | none =>
      show (if s.1.counter = 0 || isDelegating p s.1 then _ else _ : Exec Unit) _
        = Run.mapState _ ((if s.1.counter = 0 || isDelegating p s.1 then _ else _ : Exec Unit) s)
      split
      · rfl
      · next hc =>
          simp only [awaitsValue, Option.isNone_none, Bool.true_and] at h
          show (match p.instructions[s.1.counter - 1]? with
            | some .yieldValue => _ | some .yieldFrom => _ | _ => _ : Exec Unit) _ = _
          cases hprevious : p.instructions[s.1.counter - 1]? with
          | none => rfl
          | some i =>
              cases i with
              | yieldValue => simp_all
              | _ => rfl

/-- The first delegation of a resume that does not start at a yield receives what was sent. -/
theorem resumeSends_eq {s : Activation × World} (h : awaitsValue p pending s.1 = false) :
    resumeSends e p closure pending s = [] ∨
      ∃ rest, resumeSends e p closure pending s = s.1.sent :: rest ∧ ∀ v ∈ rest, v = .none := by
  unfold resumeSends
  cases ht : enterFrame e p pending s with
  | error reason t => exact Or.inl rfl
  | ok u t =>
      rw [← sent_eq_of_withSent (enterFrame_withSent h _) ht]
      exact sends_eq e.fuel t

/-- A resume that starts at a yield, and one to which `none` was sent, sends `none` only. -/
theorem resumeSends_none {s : Activation × World}
    (h : awaitsValue p pending s.1 = true ∨ s.1.sent = .none) :
    ∀ v ∈ resumeSends e p closure pending s, v = .none := by
  unfold resumeSends
  cases ht : enterFrame e p pending s with
  | error reason t => simp
  | ok u t =>
      refine sends_of_sent_none e.fuel ?_
      cases hawaits : awaitsValue p pending s.1 with
      | true => exact sent_of_enterFrame_of_awaitsValue hawaits ht
      | false =>
          rw [sent_eq_of_withSent (enterFrame_withSent hawaits _) ht]
          exact h.resolve_left (by simp [hawaits])

theorem resumeSends_withSent_eq_nil {s : Activation × World}
    (h : awaitsValue p pending s.1 = false) (v : Value) :
    resumeSends e p closure pending (withSent v s) = []
      ↔ resumeSends e p closure pending s = [] := by
  unfold resumeSends
  rw [enterFrame_withSent h v]
  cases enterFrame e p pending s with
  | error reason t => exact Iff.rfl
  | ok u t => exact sends_withSent_eq_nil e.fuel v t

/-- A resume that sends nothing and does not start at a yield does the same whatever was sent. -/
theorem resume_withSent {s : Activation × World} (h : awaitsValue p pending s.1 = false)
    (hsends : resumeSends e p closure pending s = []) (v : Value) :
    resume e p closure pending (withSent v s)
      = Run.mapState (withSent v) (resume e p closure pending s) := by
  rw [resume_eq, resume_eq, Run.bind_apply, Run.bind_apply, enterFrame_withSent h v]
  unfold resumeSends at hsends
  cases ht : enterFrame e p pending s with
  | error reason t => rfl
  | ok u t =>
      rw [ht] at hsends
      exact run_withSent e.fuel v hsends

end Resume

end Exec

namespace Code.Program

variable (p : Program) (e : Engine) (closure : Value) (pending : Option Exception)

/-- A resume of a frame as it begins. -/
def activate (f : Frame) : Activation :=
  ⟨{ f with input := none }, f.position.toNat, f.input.getD .none⟩

/-- The values that a resume of a frame sends into its delegations, in order. -/
def sends (s : Frame × World) : List Value :=
  Exec.resumeSends e p closure pending (activate s.1, s.2)

/-- The end of a resume: what is left of the sent value is forgotten, and the frame stays. -/
def settle {α : Type} :
    EStateM.Result Interruption (Activation × World) α →
      EStateM.Result Interruption (Frame × World) α
  | .ok a (b, w) =>
      match e.release b.sent w with
      | .ok _ w => .ok a (b.frame, w)
      | .error reason w => .error reason (b.frame, w)
  | .error .outOfFuel (b, w) => .error .outOfFuel (b.frame, w)
  | .error reason (b, w) =>
      match e.release b.sent w with
      | .ok _ w => .error reason (b.frame, w)
      | .error reason w => .error reason (b.frame, w)

variable {p e closure pending}

theorem resume_apply {f : Frame} (h : 0 ≤ f.position) (w : World) :
    p.resume e closure pending (f, w)
      = settle e (Exec.resume e p closure pending (activate f, w)) := by
  have hposition : ¬ f.position < 0 := by omega
  unfold activate
  simp only [resume, if_neg hposition, Run.ensuring, Run.bind_apply, Run.onInterruption]
  generalize Exec.resume e p closure pending _ = ending
  rcases ending with ⟨suspension, b, u⟩ | ⟨reason, b, u⟩
  · simp only [settle, Exec.takeSent, Exec.release, Run.shared]
    cases e.release b.sent u <;> rfl
  · cases reason with
    | outOfFuel => rfl
    | _ =>
        simp only [settle, Exec.takeSent, Exec.release, Run.shared]
        cases e.release b.sent u <;> rfl

/-- Forgetting what was sent can be told apart from a resume that left it alone. -/
theorem settle_withSent {α : Type} {m : Run (Frame × World) α} {s : Frame × World} (v : Value)
    {ending : EStateM.Result Interruption (Activation × World) α}
    (hnone : Run.mapState (Exec.withSent .none) ending = ending) (hm : m s = settle e ending) :
    settle e (Run.mapState (Exec.withSent v) ending)
      = Run.ensuring m (Run.shared (e.release v)) s := by
  have hrelease : ∀ w, e.release .none w = .ok () w := e.release_of_objects_nil rfl
  rw [← hnone] at hm
  simp only [Run.ensuring, Run.bind_apply, Run.onInterruption, hm]
  rcases ending with ⟨suspension, b, u⟩ | ⟨reason, b, u⟩
  · simp only [Run.mapState_ok, Exec.withSent, settle, hrelease, Run.shared]
    cases e.release v u <;> rfl
  · cases reason with
    | outOfFuel => rfl
    | _ =>
        simp only [Run.mapState_error, Exec.withSent, settle, hrelease, Run.shared]
        cases e.release v u <;> rfl

/-- Whether a frame is suspended at a yield, which takes the value that is sent in. -/
def awaitsValue (p : Program) (pending : Option Exception) (f : Frame) : Bool :=
  Exec.awaitsValue p pending (activate f)

/-- A resume that does not start at a yield and starts no delegation does what it would have done
without a value, and then forgets the value. -/
theorem resume_receiving {f : Frame} (hposition : 0 ≤ f.position)
    (hawaits : p.awaitsValue pending f = false) (w : World)
    (hsends : p.sends e closure pending ({ f with input := none }, w) = []) (v : Value) :
    p.resume e closure pending ({ f with input := some v }, w)
      = Run.ensuring (p.resume e closure pending) (Run.shared (e.release v))
          ({ f with input := none }, w) := by
  let s : Activation × World := (activate { f with input := none }, w)
  have hs : Exec.awaitsValue p pending s.1 = false := hawaits
  have hsent : Exec.withSent .none s = s := rfl
  have hresume : ∀ v, Exec.resume e p closure pending (Exec.withSent v s)
      = Run.mapState (Exec.withSent v) (Exec.resume e p closure pending s) :=
    Exec.resume_withSent hs hsends
  rw [resume_apply (f := { f with input := some v }) hposition]
  show settle e (Exec.resume e p closure pending (Exec.withSent v s)) = _
  rw [hresume v]
  refine settle_withSent v ?_ (resume_apply (f := { f with input := none }) hposition w)
  rw [← hresume .none, hsent]

/-! ## The receivers of a sent value -/

/-- The frame of a body whose delegate ran out, with a value sent in. -/
def afterDelegation (f : Frame) (result : Value) (input : Option Value) : Frame :=
  { f.finishDelegation result with input := input }

/-- The body of that frame going on: the result is the value of the delegation. -/
def goingOn (f : Frame) (result v : Value) : Activation where
  frame := { f.stepOn with
    stack := result :: f.stack, delegate := none, input := none, delegationResult := none }
  counter := f.position.toNat + 1
  sent := v

section AfterDelegation

variable {f : Frame} (hposition : 0 ≤ f.position)
  (hdelegation : p.instructions[f.position.toNat]? = some .yieldFrom)

include hposition hdelegation

theorem awaitsValue_afterDelegation (result : Value) (input : Option Value) :
    p.awaitsValue none (afterDelegation f result input) = false := by
  have hcounter : (f.position + 1).toNat - 1 = f.position.toNat := by omega
  simp [awaitsValue, Exec.awaitsValue, activate, afterDelegation, Frame.finishDelegation,
    Frame.stepOn, hcounter, hdelegation]

theorem enterFrame_afterDelegation (result : Value) (input : Option Value) (w : World) :
    Exec.enterFrame e p none (activate (afterDelegation f result input), w)
      = .ok () (goingOn f result (input.getD .none), w) := by
  have hcounter : (f.position + 1).toNat = f.position.toNat + 1 := by omega
  have hactivation : activate (afterDelegation f result input)
      = { frame := afterDelegation f result none
          counter := f.position.toNat + 1
          sent := input.getD .none } := by
    simp [activate, afterDelegation, Frame.finishDelegation, Frame.stepOn, hcounter]
  rw [hactivation]
  show Exec.pushResumeValue p _ = _
  rw [Exec.pushResumeValue_apply (Nat.succ_ne_zero _)
    (by simp [Exec.isDelegating, afterDelegation, Frame.finishDelegation])]
  simp only [Nat.add_sub_cancel, hdelegation]
  rfl

/-- A body whose delegate ran out goes on with the result as the value of the delegation, whatever
was sent in. -/
theorem resume_afterDelegation (result : Value) (input : Option Value) (w : World) :
    p.resume e closure none (afterDelegation f result input, w)
      = settle e (Exec.run e p closure e.fuel (goingOn f result (input.getD .none), w)) := by
  have hstepped : 0 ≤ (afterDelegation f result input).position := by
    show 0 ≤ f.position + 1
    omega
  rw [resume_apply hstepped, Exec.resume_eq, Run.bind_apply,
    enterFrame_afterDelegation hposition hdelegation]

/-- After a delegate ran out, delegations send `none` only if nothing was sent or none is
started. -/
theorem sends_afterDelegation (result v : Value) (w : World) :
    (∀ u ∈ p.sends e closure none (afterDelegation f result (some v), w), u = .none) ↔
      v = .none ∨ p.sends e closure none (afterDelegation f result none, w) = [] := by
  have hawaits := awaitsValue_afterDelegation hposition hdelegation result (some v)
  have hnil : p.sends e closure none (afterDelegation f result (some v), w) = []
      ↔ p.sends e closure none (afterDelegation f result none, w) = [] :=
    Exec.resumeSends_withSent_eq_nil (s := (activate (afterDelegation f result none), w))
      (awaitsValue_afterDelegation hposition hdelegation result none) v
  rw [← hnil]
  have hsplit : p.sends e closure none (afterDelegation f result (some v), w) = [] ∨
      ∃ rest, p.sends e closure none (afterDelegation f result (some v), w) = v :: rest ∧
        ∀ u ∈ rest, u = .none :=
    Exec.resumeSends_eq (s := (activate (afterDelegation f result (some v)), w)) hawaits
  rcases hsplit with hsends | ⟨rest, hsends, hrest⟩
  · simp [hsends]
  · rw [hsends]
    constructor
    · intro h
      exact Or.inl (h v List.mem_cons_self)
    · rintro (rfl | h)
      · intro u hu
        rcases List.mem_cons.1 hu with rfl | hu
        · rfl
        · exact hrest u hu
      · exact absurd h (List.cons_ne_nil _ _)

end AfterDelegation

/-- Yields once, and returns what is sent. -/
def echo : Program := ⟨[.loadConst 0, .yieldValue, .returnValue], [], 0, [.int 1]⟩

/-- Delegates to its first argument and then to its second. -/
def delegateTwice : Program :=
  ⟨[.loadFast 0, .yieldFrom, .popTop, .loadFast 1, .yieldFrom, .returnValue], ["a", "b"], 2, []⟩

/-- A generator of `echo`, a list, and a generator of `delegateTwice` over both of them. -/
def delegatingTwice : World :=
  let codes : List CodeObject :=
    [⟨"echo", "<bytecode>", .program echo⟩, ⟨"twice", "<bytecode>", .program delegateTwice⟩]
  let (inner, w) := { World.new 10 .collecting with codes := codes }.newGenerator ⟨0⟩ [] .none
  let (items, w) := w.newList [.int 2]
  (w.newGenerator ⟨1⟩ [.generator inner, .list items] .none).2

/-- The frame of that body suspended in its first delegation. -/
def delegatingFrame : Frame :=
  { Frame.new ⟨1⟩ [.generator ⟨0⟩, .list ⟨0⟩] with
    position := 1, delegate := some (.generator ⟨0⟩) }

/-- What a call that follows a first one gives or raises, without a traceback. -/
def secondOutcome (second : Engine → Run World Value) : Option Value :=
  let e := Machine.engine 30
  match Run.attempt (do let _ ← e.next ⟨1⟩; second e) delegatingTwice with
  | .ok (.ok v) _ => some v
  | .ok (.error x) _ => some (Exception.new x.kind x.args).toValue
  | .error _ _ => none

end Code.Program

end Resumable
