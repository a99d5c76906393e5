import Resumable.Proofs.Interning
import Resumable.Proofs.Locals
import Resumable.Proofs.Orderly
import Resumable.Proofs.Raising

set_option autoImplicit false

/-!
# Operands at run time

The instructions that a run carries out, in order, are a list (`Exec.executions`).  Each of them stands
in the program right before the counter, so what holds of the operands of a program holds of every run,
on whatever frame it goes on and wherever a handler has led it.

A program whose operands were issued by the assembler therefore loads the constants that were asked for,
and its jumps do not lead before the start.  An exception that complains about either comes to such a
program from outside: it is raised at the resume point, or an instruction hands it on.
-/

namespace Resumable

variable {σ α β : Type} {P : Exception → Prop} {e : Engine} {p : Code.Program} {closure : Value}
  {x y : Exception}

/-! ## What a computation raises -/

namespace Run

variable {m : Run σ α} {s : σ}

/-- Whatever a computation raises is of a kind. -/
def Raises (P : Exception → Prop) (m : Run σ α) (s : σ) : Prop :=
  ∀ x t, m s = .error (.raised x) t → P x

theorem Silent.raises (h : Silent m) : Raises P m s := fun x t hx => absurd hx (h s x t)

theorem raises_pure (a : α) : Raises P (pure a : Run σ α) s := fun _ _ h => nomatch h

theorem raises_raise (h : P x) : Raises P (raise x : Run σ α) s := by
  intro y t hy
  cases hy
  exact h

theorem Raises.bind {f : α → Run σ β} (hm : Raises P m s)
    (hf : ∀ a t, m s = .ok a t → Raises P (f a) t) : Raises P (m >>= f) s := by
  intro x t h
  rw [bind_apply] at h
  cases hran : m s with
  | ok a u =>
      rw [hran] at h
      exact hf a u hran x t h
  | error reason u =>
      rw [hran] at h
      cases h
      exact hm x _ hran

theorem Raises.onInterruption {c : Run σ Unit} (hm : Raises P m s) (hc : Silent c) :
    Raises P (m.onInterruption c) s := by
  intro x t h
  unfold Run.onInterruption at h
  split at h
  · cases h
  · cases h
  · next reason u _ hu =>
      split at h
      · cases h
        exact hm _ _ hu
      · next hafter =>
          cases h
          exact absurd hafter (hc _ _ _)

theorem Raises.ensuring {c : Run σ Unit} (hm : Raises P m s) (hc : Silent c) :
    Raises P (m.ensuring c) s :=
  (hm.onInterruption hc).bind fun a _ _ => (hc.bind fun _ => silent_pure a).raises

theorem Raises.shared {τ : Type} {b : τ} (hm : Raises P m s) :
    Raises P (Run.shared m : Run (τ × σ) α) (b, s) := by
  intro x t h
  unfold Run.shared at h
  simp only at h
  split at h
  · cases h
  · next hu =>
      cases h
      exact hm _ _ hu

end Run

/-- The complaints about an operand: an index beyond the pool, and a jump before the start. -/
def Exception.operandComplaints : List Exception :=
  [.systemError "constant index out of range", .systemError "jump before the start of the bytecode"]

/-- The exceptions that complain about an operand, wherever they have come through. -/
def Exception.BlamesOperand (x : Exception) : Prop :=
  ∃ y ∈ operandComplaints, x.kind = y.kind ∧ x.args = y.args

namespace Exception

theorem not_blamesOperand_of_kind (h : x.kind ≠ .systemError) : ¬ x.BlamesOperand := by
  rintro ⟨y, hy, hkind, -⟩
  refine h (hkind.trans ?_)
  simp only [operandComplaints, List.mem_cons, List.not_mem_nil, or_false] at hy
  rcases hy with rfl | rfl <;> rfl

theorem not_blamesOperand_of_message {message : String}
    (h : message ≠ "constant index out of range" ∧
      message ≠ "jump before the start of the bytecode") :
    ¬ (systemError message).BlamesOperand := by
  rintro ⟨y, hy, -, hargs⟩
  simp only [operandComplaints, List.mem_cons, List.not_mem_nil, or_false] at hy
  have hmessage : ∀ other, (systemError message).args = (systemError other).args → message = other :=
    fun other heq => by
      injection heq with heq
      injection heq
  rcases hy with rfl | rfl
  · exact h.1 (hmessage _ hargs)
  · exact h.2 (hmessage _ hargs)

end Exception

/-! ## What an instruction raises -/

namespace Exec

open Run (Raises Silent)

/-- An instruction hands on an exception: it raises a value, or an iterator raised the exception that it
took an item from or sent a value to. -/
inductive HandsOn (e : Engine) : Code.Instruction → Activation × World → Exception → Prop where
  | raised {s : Activation × World} {v : Value} {rest : List Value} {x : Exception} {t : World}
      (hstack : s.1.frame.stack = v :: rest)
      (h : (e.raiseValue v : Run World (Option Suspension)) s.2 = .error (.raised x) t) : HandsOn e .raise s x
  | stepped {s : Activation × World} {v : Value} {rest : List Value} {offset : Int} {x : Exception}
      {t : World} (hstack : s.1.frame.stack = v :: rest)
      (h : e.nextItem v (s.2.retain v) = .error (.raised x) t) : HandsOn e (.forIter offset) s x
  | delegated {s u : Activation × World} {inner : Value} {x : Exception} {t : World}
      (htarget : delegate e s = .ok inner u)
      (h : e.sendInto inner u.1.sent u.2 = .error (.raised x) t) : HandsOn e .yieldFrom s x

variable {s : Activation × World}

/-- Of what is raised, only what is handed on complains about an operand. -/
def Blameless (e : Engine) (i : Code.Instruction) (s : Activation × World) (x : Exception) : Prop :=
  x.BlamesOperand → HandsOn e i s x

variable {i : Code.Instruction}

theorem blameless_of_kind (h : x.kind ≠ .systemError) : Blameless e i s x := fun hblames =>
  absurd hblames (Exception.not_blamesOperand_of_kind h)

theorem raises_pop {t : Activation × World} : Raises (Blameless e i s) pop t := by
  obtain ⟨a, w⟩ := t
  intro x t h
  unfold pop at h
  cases hstack : a.frame.stack with
  | nil =>
      simp only [hstack, EStateM.Result.error.injEq, Interruption.raised.injEq] at h
      obtain ⟨rfl, _⟩ := h
      exact fun hblames => absurd hblames (Exception.not_blamesOperand_of_message (by simp))
  | cons v rest =>
      simp only [hstack] at h
      cases h

theorem raises_peek {t : Activation × World} : Raises (Blameless e i s) peek t := by
  obtain ⟨a, w⟩ := t
  intro x t h
  unfold peek at h
  cases hstack : a.frame.stack with
  | nil =>
      simp only [hstack, EStateM.Result.error.injEq, Interruption.raised.injEq] at h
      obtain ⟨rfl, _⟩ := h
      exact fun hblames => absurd hblames (Exception.not_blamesOperand_of_message (by simp))
  | cons v rest =>
      simp only [hstack] at h
      cases h

theorem pop_eq_ok {v : Value} {t : Activation × World} (h : pop s = .ok v t) :
    ∃ rest, s.1.frame.stack = v :: rest ∧
      t = ({ s.1 with frame := { s.1.frame with stack := rest } }, s.2) := by
  obtain ⟨a, w⟩ := s
  unfold pop at h
  cases hstack : a.frame.stack with
  | nil =>
      simp only [hstack] at h
      cases h
  | cons u rest =>
      simp only [hstack] at h
      cases h
      exact ⟨rest, rfl, rfl⟩

theorem peek_eq_ok {v : Value} {t : Activation × World} (h : peek s = .ok v t) :
    (∃ rest, s.1.frame.stack = v :: rest) ∧ t = s := by
  obtain ⟨a, w⟩ := s
  unfold peek at h
  cases hstack : a.frame.stack with
  | nil =>
      simp only [hstack] at h
      cases h
  | cons u rest =>
      simp only [hstack] at h
      cases h
      exact ⟨⟨rest, rfl⟩, rfl⟩

theorem release_silent (he : e.Lenient) (v : Value) : Silent (release e v) :=
  (Engine.releaseObjects_silent he _).shared

theorem replace_silent (he : e.Lenient) (change : Frame → Frame × List Value) :
    Silent (replace e change) :=
  Silent.bind (fun _ _ _ h => nomatch h) fun _ => Silent.bind (fun _ _ _ h => nomatch h) fun _ =>
    (Engine.releaseObjects_silent he _).shared

theorem abort_silent : Silent (World.abort : Run World α) := fun _ _ _ h => nomatch h

theorem typeName_silent (v : Value) : Silent (World.typeName v) := by
  intro w x t h
  unfold World.typeName at h
  split at h <;> cases h

/-- A distance that does not lead before the start is gone over, or the computation is abandoned. -/
theorem raises_target {offset : Int} (h : 0 ≤ (s.1.counter : Int) + offset) :
    Raises P (target offset) s := by
  intro x t htarget
  change (if (s.1.counter : Int) + offset < 0 then _ else _ : Exec Nat) s = _ at htarget
  rw [if_neg (Int.not_lt.2 h)] at htarget
  split at htarget <;> cases htarget

theorem raises_jump {offset : Int} (h : 0 ≤ (s.1.counter : Int) + offset) :
    Raises P (jump offset) s :=
  (raises_target h).bind fun _ _ _ _ _ hx => nomatch hx

theorem counter_of_release {v : Value} {t : Activation × World} {u : Unit}
    (h : release e v s = .ok u t) : t.1 = s.1 := by
  obtain ⟨_, _, rfl⟩ := Run.shared_eq_ok.1 h
  rfl

section Lenient

variable (he : e.Lenient) {t : Activation × World}

include he

omit he in
theorem raises_typeName (v : Value) {β : Type} {f : String → Exec β}
    (hf : ∀ name u, Raises P (f name) u) : Raises P (Run.shared (World.typeName v) >>= f) t :=
  (typeName_silent v).shared.raises.bind fun name u _ => hf name u

theorem raises_refuse (left right : Value) (message : String → String → String) :
    Raises (Blameless e i s) (refuse e left right message : Exec α) t := by
  refine Raises.ensuring (Raises.ensuring ?_ (release_silent he right)) (release_silent he left)
  refine raises_typeName left fun _ _ => raises_typeName right fun _ _ => ?_
  exact Run.raises_raise (blameless_of_kind nofun)

theorem raises_binary (op : Value → Value → Except OperandFault Value)
    (message : String → String → String) : Raises (Blameless e i s) (binary e op message) t := by
  refine raises_pop.bind fun right _ _ => ?_
  refine (raises_pop.onInterruption (release_silent he right)).bind fun left _ _ => ?_
  cases op left right with
  | ok v => exact fun _ _ h => nomatch h
  | error fault =>
      cases fault with
      | overflow => exact Run.raises_raise (blameless_of_kind nofun)
      | unsupported => exact raises_refuse he left right message

omit he in
theorem raises_loadFast (index : Nat) : Raises (Blameless e i s) (loadFast p index) t := by
  refine Raises.bind (fun _ _ h => nomatch h) fun a u _ => ?_
  cases a.frame.locals[index]? with
  | some v => exact Raises.bind (fun _ _ h => nomatch h) fun _ _ _ _ _ h => nomatch h
  | none => exact Run.raises_raise (blameless_of_kind nofun)

theorem raises_storeFast (index : Nat) : Raises (Blameless e i s) (storeFast e index) t := by
  refine raises_pop.bind fun v _ _ => ?_
  cases Frame.hasRoomFor index with
  | true =>
      rw [if_pos rfl]
      exact (replace_silent he (·.replaceLocal index v)).raises
  | false => exact (abort_silent.shared.raises).ensuring (release_silent he v)

omit he in
theorem raises_getIter (v : Value) (w : World) : Raises (Blameless e i s) (World.getIter v) w := by
  cases v with
  | list r => exact Raises.bind (fun _ _ h => nomatch h) fun _ _ _ _ _ h => nomatch h
  | generator g => exact Raises.bind (fun _ _ h => nomatch h) fun _ _ _ _ _ h => nomatch h
  | iterator r => exact Raises.bind (fun _ _ h => nomatch h) fun _ _ _ _ _ h => nomatch h
  | _ =>
      refine (typeName_silent _).raises.bind fun _ _ _ => ?_
      exact Run.raises_raise (blameless_of_kind nofun)

theorem raises_forIter {offset : Int} (h : 0 ≤ (s.1.counter : Int) + offset) :
    Raises (Blameless e (.forIter offset) s) (forIter e offset) s := by
  refine raises_peek.bind fun v t hpeek => ?_
  obtain ⟨⟨rest, hstack⟩, rfl⟩ := peek_eq_ok hpeek
  refine Raises.bind (fun _ _ h => nomatch h) fun _ u hshared => ?_
  obtain rfl : u = (t.1, t.2.retain v) := by
    cases hshared
    rfl
  refine Raises.ensuring ?_ (release_silent he v)
  refine Raises.bind (Raises.shared fun x w hx _ => .stepped hstack hx) fun item u hitem => ?_
  obtain ⟨w, _, rfl⟩ := Run.shared_eq_ok.1 hitem
  cases item with
  | some item => exact fun _ _ h => nomatch h
  | none =>
      refine raises_pop.bind fun top u' hpop => ?_
      obtain ⟨_, _, rfl⟩ := pop_eq_ok hpop
      refine (release_silent he top).raises.bind fun _ u'' hrelease => ?_
      have hcounter := counter_of_release hrelease
      refine raises_jump ?_
      rw [hcounter]
      exact h

theorem raises_listAppend : Raises (Blameless e i s) (listAppend e) t := by
  refine raises_pop.bind fun item _ _ => ?_
  refine (raises_pop.onInterruption (release_silent he item)).bind fun target _ _ => ?_
  cases target with
  | list r =>
      exact Raises.bind (fun _ _ h => nomatch h) fun _ _ _ => (release_silent he _).raises
  | _ =>
      refine Raises.ensuring (Raises.ensuring ?_ (release_silent he _)) (release_silent he item)
      refine raises_typeName _ fun _ _ => ?_
      exact Run.raises_raise (blameless_of_kind nofun)

theorem raises_delegate : Raises (Blameless e i s) (delegate e) t := by
  refine Raises.bind (fun _ _ h => nomatch h) fun a u _ => ?_
  cases a.frame.delegate with
  | some inner => exact Raises.bind (fun _ _ h => nomatch h) fun _ _ _ _ _ h => nomatch h
  | none =>
      refine raises_pop.bind fun iterable u' _ => ?_
      refine Raises.bind (Raises.ensuring (raises_getIter iterable _).shared
        (release_silent he iterable)) fun inner _ _ => ?_
      refine Raises.bind (fun _ _ h => nomatch h) fun _ _ _ => ?_
      exact Raises.bind (fun _ _ h => nomatch h) fun _ _ _ _ _ h => nomatch h

theorem raises_yieldFrom : Raises (Blameless e .yieldFrom s) (yieldFrom e) s := by
  refine (raises_delegate he).bind fun inner u htarget => ?_
  refine Raises.ensuring ?_ (release_silent he inner)
  refine Raises.bind (fun _ _ h => nomatch h) fun a u₁ hlooked => ?_
  refine Raises.bind (fun _ _ h => nomatch h) fun _ u₂ hplaced => ?_
  refine Raises.bind (fun _ _ h => nomatch h) fun sent u₃ htaken => ?_
  have hsent : sent = u.1.sent ∧ u₃.2 = u.2 := by
    cases hlooked
    cases hplaced
    cases htaken
    exact ⟨rfl, rfl⟩
  refine Raises.bind (fun _ _ h => absurd h Run.attempt_ne_raised) fun outcome u₄ hanswer => ?_
  obtain ⟨_, rfl, _⟩ | ⟨y, rfl, hraised⟩ := Run.attempt_eq_ok.1 hanswer
  · next delegated _ => cases delegated <;> exact Run.raises_pure _
  · refine (replace_silent he _).raises.bind fun _ _ _ => Run.raises_raise fun _ => ?_
    unfold Run.shared at hraised
    simp only at hraised
    split at hraised
    · cases hraised
    · next hanswered =>
        cases hraised
        rw [hsent.1, hsent.2] at hanswered
        exact .delegated htarget hanswered

theorem finish_silent (v : Value) : Silent (finish e v) :=
  Silent.bind (fun _ _ _ h => nomatch h) fun _ =>
    ((clearStack_silent he).onInterruption (release_silent he v)).bind fun _ => Run.silent_pure _

/-- An instruction whose operands hold good does not complain about one of its own accord. -/
theorem raises_execute
    (hconstant : ∀ index, i = .loadConst index → ∃ c, p.constants[index]? = some c)
    (hdistance : ∀ offset, i.offset? = some offset → 0 ≤ (s.1.counter : Int) + offset) :
    Raises (Blameless e i s) (execute e p closure i) s := by
  have hdone {m : Exec Unit} (hm : Raises (Blameless e i s) m s) :
      Raises (Blameless e i s) (do m; return none : Exec (Option Suspension)) s :=
    hm.bind fun _ _ _ => Run.raises_pure _
  cases i with
  | loadConst index =>
      obtain ⟨c, hc⟩ := hconstant index rfl
      unfold execute
      simp only [hc]
      exact hdone fun _ _ h => nomatch h
  | loadFast index => exact hdone (raises_loadFast index)
  | storeFast index => exact hdone (raises_storeFast he index)
  | loadClosure => exact fun _ _ h => nomatch h
  | popTop =>
      exact raises_pop.bind fun v _ _ =>
        (release_silent he v).raises.bind fun _ _ _ => Run.raises_pure _
  | add => exact hdone (raises_binary he _ _)
  | sub => exact hdone (raises_binary he _ _)
  | lessThan => exact hdone (raises_binary he _ _)
  | jump offset => exact hdone (raises_jump (hdistance offset rfl))
  | jumpIfFalse offset =>
      refine raises_pop.bind fun v t hpop => ?_
      obtain ⟨rest, _, rfl⟩ := pop_eq_ok hpop
      refine Raises.bind (fun _ _ h => nomatch h) fun state u hlooked => ?_
      refine (release_silent he v).raises.bind fun _ u' hreleased => ?_
      have hcounter : u'.1.counter = s.1.counter := by
        rw [counter_of_release hreleased]
        cases hlooked
        rfl
      split
      · exact Run.raises_pure _
      · refine (raises_jump ?_).bind fun _ _ _ => Run.raises_pure _
        rw [hcounter]
        exact hdistance offset rfl
  | getIter =>
      refine raises_pop.bind fun v t _ => ?_
      refine Raises.bind (Raises.ensuring ?_ (release_silent he v)) fun _ _ _ => Run.raises_pure _
      exact (raises_getIter v t.2).shared.bind fun _ _ _ _ _ h => nomatch h
  | forIter offset => exact hdone (raises_forIter he (hdistance offset rfl))
  | listAppend => exact hdone (raises_listAppend he)
  | yieldValue => exact raises_pop.bind fun _ _ _ _ _ h => nomatch h
  | yieldFrom => exact (raises_yieldFrom he).bind fun _ _ _ => Run.raises_pure _
  | setupExcept offset =>
      exact (raises_target (hdistance offset rfl)).bind fun _ _ _ _ _ h => nomatch h
  | popBlock => exact fun _ _ h => nomatch h
  | jumpIfNotExcMatch kind offset =>
      refine raises_peek.bind fun v t hpeek => ?_
      obtain ⟨_, rfl⟩ := peek_eq_ok hpeek
      split
      · exact Run.raises_pure _
      · exact (raises_jump (hdistance offset rfl)).bind fun _ _ _ => Run.raises_pure _
  | raise =>
      refine raises_pop.bind fun v t hpop => ?_
      obtain ⟨rest, hstack, rfl⟩ := pop_eq_ok hpop
      exact Raises.shared fun x w h _ => .raised hstack h
  | returnValue =>
      exact raises_pop.bind fun v _ _ => (finish_silent he v).raises.bind fun _ _ _ => Run.raises_pure _

/-- What leaves a frame has met no handler there, and has got the place at which it was raised. -/
theorem escaped_of_unwind {t : Activation × World} (h : unwind e x s = .error (.raised y) t) :
    s.1.frame.blocks = [] ∧ y = x.pushEntry (s.2.placeIn s.1.frame.code (s.1.counter - 1)) := by
  obtain ⟨a, w⟩ := s
  cases hblocks : a.frame.blocks with
  | nil =>
      have hescapes := unwind_escapes (x := x) (w := w) he hblocks
      rw [h] at hescapes
      exact ⟨rfl, hescapes⟩
  | cons block rest =>
      rw [unwind_handled hblocks] at h
      simp only at h
      split at h
      · cases h
      · next hcut =>
          cases h
          exact absurd hcut (cutDown_silent he x a.frame block.stackDepth w y _)

/-- Handing an exception on changes its traceback only. -/
theorem raises_unwind : Raises (fun y => y.kind = x.kind ∧ y.args = x.args) (unwind e x) s := by
  intro y t h
  obtain ⟨-, rfl⟩ := escaped_of_unwind he h
  exact ⟨rfl, rfl⟩

end Lenient

/-! ## The instructions of a run -/

/-- The instructions that a run carries out, in order.  Each of them comes with the state that it finds,
which is past it already. -/
def executions (e : Engine) (p : Code.Program) (closure : Value) :
    Nat → Activation × World → List (Code.Instruction × (Activation × World))
  | 0, _ => []
  | n + 1, s =>
      match p.instructions[s.1.counter]? with
      | none => []
      | some i =>
          (i, pastInstruction s) ::
            match continuation e p closure i (pastInstruction s) with
            | none => []
            | some t => executions e p closure n t

/-- The instructions that a resume carries out, in order. -/
def resumeExecutions (e : Engine) (p : Code.Program) (closure : Value) (pending : Option Exception)
    (s : Activation × World) : List (Code.Instruction × (Activation × World)) :=
  match enterFrame e p pending s with
  | .ok _ t => executions e p closure e.fuel t
  | .error _ _ => []

/-- What is carried out stands in the program right before the counter. -/
theorem stands_of_executions {n : Nat} {u : Activation × World}
    (h : (i, u) ∈ executions e p closure n s) :
    ∃ k, u.1.counter = k + 1 ∧ p.instructions[k]? = some i := by
  induction n generalizing s with
  | zero => cases h
  | succ n ih =>
      unfold executions at h
      cases hi : p.instructions[s.1.counter]? with
      | none =>
          rw [hi] at h
          cases h
      | some j =>
          simp only [hi] at h
          rcases List.mem_cons.1 h with heq | hlater
          · cases heq
            exact ⟨s.1.counter, rfl, hi⟩
          · cases ht : continuation e p closure j (pastInstruction s) with
            | none =>
                rw [ht] at hlater
                cases hlater
            | some t =>
                rw [ht] at hlater
                exact ih hlater

/-- An exception complains about an operand only if an instruction of a run handed it on. -/
def HandedOn (e : Engine) (executed : List (Code.Instruction × (Activation × World)))
    (x : Exception) : Prop :=
  x.BlamesOperand → ∃ i u y, (i, u) ∈ executed ∧ HandsOn e i u y ∧ x.kind = y.kind ∧ x.args = y.args

/-- Between an instruction that raises and the end of its run there is the unwinder alone. -/
theorem raised_of_run (he : e.Lenient) {n : Nat} {t : Activation × World}
    (h : run e p closure n s = .error (.raised x) t) :
    ∃ i u y t', (i, u) ∈ executions e p closure n s ∧
      execute e p closure i u = .error (.raised y) t' ∧ unwind e y t' = .error (.raised x) t := by
  induction n generalizing s with
  | zero => cases h
  | succ n ih =>
      rw [run_succ] at h
      cases hi : p.instructions[s.1.counter]? with
      | none =>
          simp only [hi] at h
          exact absurd h (finish_silent he .none s x t)
      | some i =>
          simp only [hi] at h
          have hlist : executions e p closure (n + 1) s = (i, pastInstruction s) ::
              match continuation e p closure i (pastInstruction s) with
              | none => []
              | some t => executions e p closure n t := by
            rw [executions, hi]
          have hlater {u : Activation × World} (hran : run e p closure n u = .error (.raised x) t)
              (hnext : continuation e p closure i (pastInstruction s) = some u) :
              ∃ i u y t', (i, u) ∈ executions e p closure (n + 1) s ∧
                execute e p closure i u = .error (.raised y) t' ∧
                unwind e y t' = .error (.raised x) t := by
            obtain ⟨j, u', y, t', hmem, hrest⟩ := ih hran
            rw [hlist, hnext]
            exact ⟨j, u', y, t', List.mem_cons_of_mem _ hmem, hrest⟩
          cases hx : Run.attempt (execute e p closure i) (pastInstruction s) with
          | error reason u =>
              simp only [hx] at h
              cases h
              exact absurd hx Run.attempt_ne_raised
          | ok outcome u =>
              simp only [hx] at h
              rcases outcome with y | _ | suspension
              · obtain ⟨_, heq, _⟩ | ⟨_, heq, hraised⟩ := Run.attempt_eq_ok.1 hx
                · cases heq
                cases heq
                rcases Run.bind_eq_raised.1 h with hescaped | ⟨_, u', hunwound, hran⟩
                · exact ⟨i, pastInstruction s, y, u, hlist ▸ List.mem_cons_self, hraised, hescaped⟩
                · refine hlater hran ?_
                  unfold continuation
                  rw [hx]
                  simp only [hunwound]
              · refine hlater h ?_
                unfold continuation
                rw [hx]
              · cases h

theorem pushResumeValue_silent (p : Code.Program) : Silent (pushResumeValue p) := by
  refine Silent.bind (fun _ _ _ h => nomatch h) fun a => ?_
  split
  · exact Run.silent_pure ()
  · split
    · exact Silent.bind (fun _ _ _ h => nomatch h) fun _ _ _ _ h => nomatch h
    · exact Silent.bind (fun _ _ _ h => nomatch h) fun _ _ _ _ h => nomatch h
    · exact Run.silent_pure ()

/-- Between what is raised in a resume and the end of the resume there is the unwinder alone. -/
theorem raised_of_resume (he : e.Lenient) {pending : Option Exception} {t : Activation × World}
    (h : resume e p closure pending s = .error (.raised x) t) :
    (∃ y, pending = some y ∧ unwind e y s = .error (.raised x) t) ∨
      ∃ i u y t', (i, u) ∈ resumeExecutions e p closure pending s ∧
        execute e p closure i u = .error (.raised y) t' ∧ unwind e y t' = .error (.raised x) t := by
  rw [resume_eq] at h
  rcases Run.bind_eq_raised.1 h with hentered | ⟨_, u, hentered, hran⟩
  · cases pending with
    | none => exact absurd hentered (pushResumeValue_silent p s x t)
    | some y => exact Or.inl ⟨y, rfl, hentered⟩
  · right
    unfold resumeExecutions
    rw [hentered]
    exact raised_of_run he hran

theorem stands_of_resumeExecutions {pending : Option Exception} {u : Activation × World}
    (h : (i, u) ∈ resumeExecutions e p closure pending s) :
    ∃ k, u.1.counter = k + 1 ∧ p.instructions[k]? = some i := by
  unfold resumeExecutions at h
  split at h
  · exact stands_of_executions h
  · cases h

/-- What a resume raises was raised at the resume point, or is raised by the run. -/
theorem raises_resume (he : e.Lenient) (hp : p.Addressed) (pending : Option Exception)
    (s : Activation × World) :
    Raises (fun x => (∃ y, pending = some y ∧ x.kind = y.kind ∧ x.args = y.args) ∨
      HandedOn e (resumeExecutions e p closure pending s) x) (resume e p closure pending) s := by
  intro x t h
  rcases raised_of_resume he h with ⟨y, hy, hescaped⟩ | ⟨i, u, y, t', hmem, hraised, hescaped⟩
  · exact Or.inl ⟨y, hy, raises_unwind he x t hescaped⟩
  · obtain ⟨hkind, hargs⟩ := raises_unwind he x t hescaped
    obtain ⟨k, hk, hi⟩ := stands_of_resumeExecutions hmem
    refine Or.inr fun ⟨z, hz, hzkind, hzargs⟩ => ?_
    have hhands : HandsOn e i u y :=
      raises_execute he (fun index hindex => hp.constant k index (hindex ▸ hi))
        (fun offset hoffset => hk ▸ hp.distance k i offset hi hoffset) y t' hraised
        ⟨z, hz, hkind.symm.trans hzkind, hargs.symm.trans hzargs⟩
    exact ⟨i, u, y, hmem, hhands, hkind, hargs⟩

end Exec

namespace Code.Program

open Exec (HandsOn HandedOn)

/-- The instructions that a resume of a frame carries out, in order. -/
def executions (p : Program) (e : Engine) (closure : Value) (pending : Option Exception)
    (s : Frame × World) : List (Instruction × (Activation × World)) :=
  if s.1.position < 0 then []
  else Exec.resumeExecutions e p closure pending (activate s.1, s.2)

/-- Whatever frame it is resumed on, a program finds the constants that its directives ask for, does not
jump before its start, and does not complain about an operand of its own accord. -/
structure ReadsBack (p : Program) (ds : List Directive) : Prop where
  /-- loading a constant pushes the one that was asked for -/
  pushes : ∀ e closure pending s i u, (i, u) ∈ p.executions e closure pending s →
    ∀ before c, before ++ [.loadConst c] <+: ds → u.1.counter = emissions before + 1 →
      Exec.execute e p closure i u =
        .ok none ({ u.1 with frame := { u.1.frame with stack := c.toValue :: u.1.frame.stack } }, u.2)
  jumps : ∀ e closure pending s i u, (i, u) ∈ p.executions e closure pending s →
    ∀ offset, i.offset? = some offset → ∀ x t, Exec.target offset u ≠ .error (.raised x) t
  blameless : ∀ e, e.Lenient → ∀ closure pending s i u, (i, u) ∈ p.executions e closure pending s →
    ∀ x t, Exec.execute e p closure i u = .error (.raised x) t → x.BlamesOperand → HandsOn e i u x
  /-- what leaves a frame was raised at its resume point, or an instruction handed it on -/
  raised : ∀ e, e.Lenient → ∀ closure pending s x t,
    p.resume e closure pending s = .error (.raised x) t → x.BlamesOperand →
      (∃ y, pending = some y ∧ x.kind = y.kind ∧ x.args = y.args) ∨
        ∃ i u y, (i, u) ∈ p.executions e closure pending s ∧ HandsOn e i u y ∧
          x.kind = y.kind ∧ x.args = y.args

variable {pending : Option Exception} {s : Frame × World} {i : Instruction}
  {u : Activation × World}

theorem stands_of_executions (h : (i, u) ∈ p.executions e closure pending s) :
    ∃ k, u.1.counter = k + 1 ∧ p.instructions[k]? = some i := by
  unfold executions at h
  split at h
  · cases h
  · exact Exec.stands_of_resumeExecutions h

/-- To forget what is left of the sent value does not raise. -/
theorem raised_of_settle {α : Type} (he : e.Lenient)
    {ending : EStateM.Result Interruption (Activation × World) α} {t : Frame × World}
    (h : settle e ending = .error (.raised x) t) : ∃ t', ending = .error (.raised x) t' := by
  have hforget : ∀ b w t, e.release b w ≠ .error (.raised x) t := fun b w t =>
    Engine.releaseObjects_silent he b.objects w x t
  rcases ending with ⟨suspension, b, w⟩ | ⟨y | _ | _, b, w⟩
  case error.outOfFuel => cases h
  all_goals
    simp only [settle] at h
    cases hforgotten : e.release b.sent w with
    | error reason t' =>
        rw [hforgotten] at h
        cases h
        exact absurd hforgotten (hforget _ _ _)
    | ok _ t' =>
        rw [hforgotten] at h
        cases h <;> exact ⟨_, rfl⟩

/-- What a resume of a frame raises was raised at the resume point, or the run handed it on. -/
theorem raises_resume (he : e.Lenient) (hp : p.Addressed) (closure : Value)
    (pending : Option Exception) (s : Frame × World) :
    Run.Raises (fun x => x.BlamesOperand →
      (∃ y, pending = some y ∧ x.kind = y.kind ∧ x.args = y.args) ∨
        ∃ i u y, (i, u) ∈ p.executions e closure pending s ∧ HandsOn e i u y ∧
          x.kind = y.kind ∧ x.args = y.args) (p.resume e closure pending) s := by
  obtain ⟨f, w⟩ := s
  intro x t h hblames
  by_cases hposition : f.position < 0
  · unfold resume at h
    simp only [if_pos hposition] at h
    have hrefused : Run.Raises (fun x => ¬ x.BlamesOperand)
        (Run.ensuring (Run.raise (.systemError "cannot resume a finished frame"))
          (Run.shared (e.releasePending pending)) : Run (Frame × World) Suspension) (f, w) := by
      refine Run.Raises.ensuring (Run.raises_raise ?_) ?_
      · exact Exception.not_blamesOperand_of_message (by simp)
      · cases pending with
        | none => exact Run.Silent.shared (Run.silent_pure ())
        | some y => exact Run.Silent.shared (Engine.releaseObjects_silent he _)
    exact absurd hblames (hrefused x t h)
  · rw [resume_apply (Int.not_lt.1 hposition)] at h
    obtain ⟨t', hraised⟩ := raised_of_settle he h
    have hrun := Exec.raises_resume he hp pending (activate f, w) x t' hraised
    have hlist : p.executions e closure pending (f, w) =
        Exec.resumeExecutions e p closure pending (activate f, w) := if_neg hposition
    rw [hlist]
    exact hrun.imp id fun hhanded => hhanded hblames

theorem readsBack (hp : p.Addressed) {ds : List Directive}
    (hloads : ∀ before c, before ++ [.loadConst c] <+: ds → ∃ index,
      p.instructions[emissions before]? = some (.loadConst index) ∧ p.constants[index]? = some c) :
    p.ReadsBack ds where
  pushes e closure pending s i u hmem before c here hcounter := by
    obtain ⟨k, hk, hi⟩ := stands_of_executions hmem
    obtain rfl : k = emissions before := by omega
    obtain ⟨index, hindex, hconstant⟩ := hloads before c here
    obtain rfl : i = .loadConst index := Option.some.inj (hi.symm.trans hindex)
    unfold Exec.execute
    simp only [hconstant]
    rfl
  jumps e closure pending s i u hmem offset hoffset x t := by
    obtain ⟨k, hk, hi⟩ := stands_of_executions hmem
    exact Exec.raises_target (P := fun _ => False) (hk ▸ hp.distance k i offset hi hoffset) x t
  blameless e he closure pending s i u hmem x t hraised := by
    obtain ⟨k, hk, hi⟩ := stands_of_executions hmem
    exact Exec.raises_execute he (fun index hindex => hp.constant k index (hindex ▸ hi))
      (fun offset hoffset => hk ▸ hp.distance k i offset hi hoffset) x t hraised
  raised e he closure pending s x t hraised :=
    raises_resume he hp closure pending s x t hraised

end Code.Program

namespace Code.Assembler

variable {name filename : String} {args : List String} {ds : List Directive}

/-- Where operands are left to the assembler, it has issued them. -/
theorem operandsIssued_of_symbolic (a : Assembler) (h : ∀ d ∈ ds, d.isSymbolic = true) :
    a.OperandsIssued ds := by
  intro before i here
  have hbare : i.isBare = true :=
    h (.emit i) (here.subset (List.mem_append_right _ List.mem_cons_self))
  cases i with
  | loadConst _ | loadFast _ | storeFast _ | jump _ | jumpIfFalse _ | forIter _ | setupExcept _
  | jumpIfNotExcMatch _ _ => cases hbare
  | _ => exact ⟨rfl, nofun⟩

/-- Interning is stable and is read back.

Whatever the directives are, an assembler that succeeds has interned what they refer to: its constants
differ from each other, an index that was issued for one selects it in the end, and the local variables
are the arguments and then the others in the order of their first use, each under one index.  If no
operand was made up, a run of the program pushes the constants that were asked for, and none complains
of its own accord about a constant that is not there or a jump that leads before the start. -/
theorem interning_read_back {p : Program} (hargs : args.Nodup)
    (h : ((new name args filename).applyAll ds).assemble = .ok p) :
    (new name args filename).Interned ds p ∧
      ((new name args filename).OperandsIssued ds → p.ReadsBack ds) := by
  have hinterned := interned_of_ok hargs h
  refine ⟨hinterned, fun hissued => Program.readsBack (addressed_of_ok hissued h) ?_⟩
  intro before c here
  exact ⟨_, hinterned.loadConst before c here, hinterned.constant before _ c here rfl⟩

/-- A program that refers to one constant twice, and to an argument after another variable. -/
def storingTwice : List Directive :=
  [.loadConst (.int 1), .loadConst (.str "x"), .loadConst (.int 1), .storeFast "b", .loadFast "a",
    .loadFast "b", .emit .returnValue]

theorem interning_read_back_storingTwice :
    ∃ p, ((new "g" ["a"] Source.defaultFilename).applyAll storingTwice).assemble = .ok p ∧
      p.constants = [.int 1, .str "x"] ∧ p.localNames = ["a", "b"] ∧
      (new "g" ["a"] Source.defaultFilename).Interned storingTwice p ∧ p.ReadsBack storingTwice := by
  obtain ⟨p, hp⟩ : ∃ p, ((new "g" ["a"] Source.defaultFilename).applyAll storingTwice).assemble = .ok p :=
    ⟨_, rfl⟩
  obtain ⟨hinterned, hread⟩ := interning_read_back (by decide) hp
  refine ⟨p, hp, ?_, ?_, hinterned, hread (operandsIssued_of_symbolic _ (by decide))⟩
  · rw [(pools_of_ok hp).1]
    decide
  · rw [(pools_of_ok hp).2]
    decide

end Code.Assembler

end Resumable
