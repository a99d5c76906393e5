import Resumable.Proofs.Invariants
import Resumable.Proofs.Sending

set_option autoImplicit false

/-!
# Local variables

The local variables of a frame are one list, which grows as far as a store needs.  The uses of them
in a run, in order, are a history (`Exec.localUses`), and replaying the stores of a history gives the
list at its end (`Exec.locals_of_run`).  Only `storeFast` changes the list, so this goes on over the
resumes of a frame, whatever happens to it in between (`Code.Program.Lives`).

A load therefore finds the value stored last, or else the argument.  Without either of them it is
refused, unless something was stored beyond it: the list has then grown over the variable, and the
load finds `none` (`Code.Program.Lives.loads`).
-/

namespace Resumable

/-! ## Histories -/

/-- A use of a local variable. -/
inductive LocalUse where
  /-- a value is stored -/
  | stored (index : Nat) (v : Value)
  /-- a value is found -/
  | loaded (index : Nat) (v : Value)
  /-- no value is found -/
  | refused (index : Nat) (exception : Exception)
  deriving DecidableEq, Repr

namespace LocalUse

/-- Whether a use reads a variable. -/
def Reads (index : Nat) : LocalUse → Prop
  | stored _ _ => False
  | loaded i _ => i = index
  | refused i _ => i = index

/-- Whether a use stores a value in a variable or beyond it. -/
def reaches (index : Nat) : LocalUse → Bool
  | stored i _ => index ≤ i
  | loaded _ _ => false
  | refused _ _ => false

/-- The value that a use stores in a variable. -/
def storedIn (index : Nat) : LocalUse → Option Value
  | stored i v => if i = index then some v else none
  | loaded _ _ => none
  | refused _ _ => none

/-- The value stored last in a variable. -/
def lastStored (index : Nat) : List LocalUse → Option Value
  | [] => none
  | use :: rest => (lastStored index rest).or (use.storedIn index)

/-- The local variables after a use. -/
def apply (locals : List Value) : LocalUse → List Value
  | stored i v => (locals ++ List.replicate (i + 1 - locals.length) Value.none).set i v
  | loaded _ _ => locals
  | refused _ _ => locals

/-- The local variables after a history. -/
def replay (locals : List Value) (history : List LocalUse) : List Value := history.foldl apply locals

/-- A use gives what the local variables give. -/
def Fits (p : Code.Program) (locals : List Value) : LocalUse → Prop
  | stored _ _ => True
  | loaded i v => locals[i]? = some v
  | refused i x => locals[i]? = none ∧ x =
      .nameError ("local variable '" ++ p.variableName i ++ "' referenced before assignment")

/-- Each use of a history gives what the uses before it have left. -/
def Faithful (p : Code.Program) : List Value → List LocalUse → Prop
  | _, [] => True
  | locals, use :: rest => use.Fits p locals ∧ Faithful p (use.apply locals) rest

theorem replay_nil (locals : List Value) : replay locals [] = locals := rfl

theorem replay_cons (locals : List Value) (use : LocalUse) (rest : List LocalUse) :
    replay locals (use :: rest) = replay (use.apply locals) rest := rfl

theorem replay_append (locals : List Value) (before after : List LocalUse) :
    replay locals (before ++ after) = replay (replay locals before) after :=
  List.foldl_append

theorem faithful_append {p : Code.Program} {locals : List Value} {before after : List LocalUse} :
    Faithful p locals (before ++ after) ↔
      Faithful p locals before ∧ Faithful p (replay locals before) after := by
  induction before generalizing locals with
  | nil => exact (and_iff_right trivial).symm
  | cons use rest ih =>
      rw [List.cons_append, Faithful, Faithful, ih, replay_cons, and_assoc]

theorem faithful_singleton {p : Code.Program} {locals : List Value} {use : LocalUse} :
    Faithful p locals [use] ↔ use.Fits p locals :=
  and_iff_left trivial

/-- A variable after a use: what was stored in it, or else what it held, or else `none` if the
variables have grown over it. -/
theorem getElem?_apply (locals : List Value) (use : LocalUse) (index : Nat) :
    (use.apply locals)[index]? = (use.storedIn index).or
      (locals[index]?.or (if use.reaches index then some .none else none)) := by
  cases use with
  | loaded i v => simp [apply, storedIn, reaches]
  | refused i x => simp [apply, storedIn, reaches]
  | stored i v =>
      simp only [apply, storedIn, reaches, List.getElem?_set, List.length_append,
        List.length_replicate]
      by_cases hsame : i = index
      · subst hsame
        have hroom : i < locals.length + (i + 1 - locals.length) := by omega
        simp [hroom]
      · have hgrown : (locals ++ List.replicate (i + 1 - locals.length) Value.none)[index]?
            = locals[index]?.or (if index ≤ i then some Value.none else none) := by
          by_cases hold : index < locals.length
          · rw [List.getElem?_append_left hold, List.getElem?_eq_getElem hold, Option.some_or]
          · have hnone : locals[index]? = none := List.getElem?_eq_none (by omega)
            rw [List.getElem?_append_right (by omega), hnone, Option.none_or, List.getElem?_replicate]
            simp only [show index - locals.length < i + 1 - locals.length ↔ index ≤ i by omega]
        simp [hsame, hgrown]

/-- A variable after a history. -/
theorem getElem?_replay (locals : List Value) (history : List LocalUse) (index : Nat) :
    (replay locals history)[index]? = (lastStored index history).or
      (locals[index]?.or (if history.any (reaches index) then some .none else none)) := by
  induction history generalizing locals with
  | nil => simp [replay_nil, lastStored]
  | cons use rest ih =>
      rw [replay_cons, ih, getElem?_apply, lastStored, List.any_cons]
      simp only [Option.or_assoc]
      congr 3
      cases use.reaches index <;> cases rest.any (reaches index) <;> rfl

/-- What was stored in a variable reaches it. -/
theorem any_reaches_of_lastStored {index : Nat} {history : List LocalUse} {v : Value}
    (h : lastStored index history = some v) : history.any (reaches index) = true := by
  induction history with
  | nil => cases h
  | cons use rest ih =>
      rw [List.any_cons, Bool.or_eq_true]
      rcases Option.or_eq_some_iff.1 h with hrest | ⟨-, huse⟩
      · exact Or.inr (ih hrest)
      · cases use with
        | stored i u =>
            simp only [storedIn, Option.ite_none_right_eq_some] at huse
            exact Or.inl (decide_eq_true (Nat.le_of_eq huse.1.symm))
        | loaded i u => cases huse
        | refused i x => cases huse

end LocalUse

/-! ## Runs -/

namespace Exec

open LocalUse (replay Faithful)

variable {e : Engine} {p : Code.Program} {closure : Value}

/-- The use that an instruction makes of a local variable. -/
def localUse (p : Code.Program) (i : Code.Instruction) (s : Activation × World) : Option LocalUse :=
  match i with
  | .storeFast index =>
      match s.1.frame.stack with
      | [] => none
      | v :: _ => if Frame.hasRoomFor index then some (.stored index v) else none
  | .loadFast index =>
      match loadFast p index s with
      | .ok _ t => t.1.frame.stack.head?.map (.loaded index)
      | .error (.raised exception) _ => some (.refused index exception)
      | .error _ _ => none
  | _ => none

/-- The uses that a run makes of the local variables, in order. -/
def localUses (e : Engine) (p : Code.Program) (closure : Value) :
    Nat → Activation × World → List LocalUse
  | 0, _ => []
  | n + 1, s =>
      match p.instructions[s.1.counter]? with
      | none => []
      | some i =>
          (localUse p i (pastInstruction s)).toList ++
            match continuation e p closure i (pastInstruction s) with
            | none => []
            | some t => localUses e p closure n t

/-- What a load pushes, or raises. -/
theorem localUse_loadFast (index : Nat) (s : Activation × World) :
    localUse p (.loadFast index) s = some (match s.1.frame.locals[index]? with
      | some v => .loaded index v
      | none => .refused index (.nameError
          ("local variable '" ++ p.variableName index ++ "' referenced before assignment"))) := by
  obtain ⟨a, w⟩ := s
  show (match loadFast p index (a, w) with | .ok _ t => _ | .error (.raised x) _ => _ | .error _ _ => _)
    = _
  unfold loadFast
  simp only [Run.bind_apply, activation]
  cases a.frame.locals[index]? with
  | some v => rfl
  | none => rfl

/-- An instruction finds what the local variables are. -/
theorem localUse_fits (i : Code.Instruction) (s : Activation × World) :
    Faithful p s.1.frame.locals (localUse p i s).toList := by
  cases i with
  | loadFast index =>
      rw [localUse_loadFast, Option.toList_some, LocalUse.faithful_singleton]
      cases h : s.1.frame.locals[index]? with
      | some v => exact h
      | none => exact ⟨h, rfl⟩
  | storeFast index =>
      unfold localUse
      cases s.1.frame.stack with
      | nil => trivial
      | cons v rest =>
          dsimp only
          split
          · exact LocalUse.faithful_singleton.2 trivial
          · trivial
  | _ => trivial

/-- The list of the local variables. -/
theorem aloof_locals (locals : List Value) : Aloof fun a => a.frame.locals = locals where
  frame _ _ _ h := h
  sent _ h := h
  counter _ _ _ h := h
  position _ _ h := h
  delegate _ _ h := h
  result _ _ h := h
  anywhere _ _ h := h

/-- A store changes the list as its use says. -/
theorem locals_of_storeFast (index : Nat) (s : Activation × World) :
    (Run.stateOf (execute e p closure (.storeFast index) s)).1.frame.locals
      = replay s.1.frame.locals (localUse p (.storeFast index) s).toList := by
  obtain ⟨a, w⟩ := s
  cases hstack : a.frame.stack with
  | nil => simp [execute, storeFast, pop, localUse, Run.bind_apply, hstack, Run.stateOf, replay]
  | cons v rest =>
      let b : Activation := { a with frame := { a.frame with stack := rest } }
      have hpop : pop (a, w) = .ok v (b, w) := by
        unfold pop
        simp only [hstack]
        rfl
      have hstep : execute e p closure (.storeFast index) (a, w)
          = ((if Frame.hasRoomFor index then replace e (·.replaceLocal index v)
              else owning e v (Run.shared World.abort)) >>= fun _ => pure none) (b, w) := by
        show ((pop >>= fun v => _) >>= fun _ => pure none : Exec (Option Suspension)) (a, w) = _
        simp only [Run.bind_apply, hpop]
      have huse : localUse p (.storeFast index) (a, w)
          = if Frame.hasRoomFor index then some (.stored index v) else none := by
        simp only [localUse, hstack]
      rw [hstep, huse]
      cases Frame.hasRoomFor index with
      | true =>
          let c : Activation := { b with frame := (b.frame.replaceLocal index v).1 }
          exact ((maintains_shared (P := (·.frame.locals = c.frame.locals))
            (e.releaseAll (b.frame.replaceLocal index v).2)).bind fun _ => Run.maintains_pure _)
            (c, w) rfl
      | false =>
          exact (((maintains_shared (P := (·.frame.locals = a.frame.locals)) _).owning v).bind
            fun _ => Run.maintains_pure _) (b, w) rfl

/-- One instruction changes the list as its use says. -/
theorem locals_of_execute (i : Code.Instruction) (s : Activation × World) :
    (Run.stateOf (execute e p closure i s)).1.frame.locals
      = replay s.1.frame.locals (localUse p i s).toList := by
  by_cases hstores : ∃ index, i = .storeFast index
  · obtain ⟨index, rfl⟩ := hstores
    exact locals_of_storeFast index s
  · have hkept : (Run.stateOf (execute e p closure i s)).1.frame.locals = s.1.frame.locals :=
      (aloof_locals s.1.frame.locals).execute (fun index hi => hstores ⟨index, hi⟩) s rfl
    refine hkept.trans ?_
    cases i with
    | loadFast index =>
        rw [localUse_loadFast]
        cases s.1.frame.locals[index]? <;> rfl
    | storeFast index => exact absurd ⟨index, rfl⟩ hstores
    | _ => rfl

theorem locals_of_attempt {i : Code.Instruction} {s t : Activation × World}
    {outcome : Except Exception (Option Suspension)}
    (h : Run.attempt (execute e p closure i) s = .ok outcome t) :
    t.1.frame.locals = replay s.1.frame.locals (localUse p i s).toList := by
  have hexecuted : (Run.stateOf (execute e p closure i s)).1.frame.locals
      = replay s.1.frame.locals (localUse p i s).toList := locals_of_execute i s
  unfold Run.attempt at h
  rcases hstep : execute e p closure i s with ⟨suspension, u⟩ | ⟨_ | _ | _, u⟩ <;>
    rw [hstep] at h hexecuted <;> cases h <;> exact hexecuted

theorem locals_of_continuation {i : Code.Instruction} {s t : Activation × World}
    (h : continuation e p closure i s = some t) :
    t.1.frame.locals = replay s.1.frame.locals (localUse p i s).toList := by
  unfold continuation at h
  split at h
  · next u hstep =>
      cases h
      exact locals_of_attempt hstep
  · next exception u hstep =>
      rw [← locals_of_attempt hstep]
      have hkept := (aloof_locals u.1.frame.locals).unwind (e := e) exception u rfl
      split at h
      · next hunwound =>
          cases h
          rw [hunwound] at hkept
          exact hkept
      · cases h
  · cases h

/-- Every use in a run finds what the uses before it have left. -/
theorem localUses_faithful (n : Nat) (s : Activation × World) :
    Faithful p s.1.frame.locals (localUses e p closure n s) := by
  induction n generalizing s with
  | zero => trivial
  | succ n ih =>
      rw [localUses]
      cases p.instructions[s.1.counter]? with
      | none => trivial
      | some i =>
          refine LocalUse.faithful_append.2 ⟨localUse_fits i (pastInstruction s), ?_⟩
          cases hnext : continuation e p closure i (pastInstruction s) with
          | none => trivial
          | some t => exact locals_of_continuation hnext ▸ ih t

/-- The local variables after a run. -/
theorem locals_of_run (n : Nat) (s : Activation × World) :
    (Run.stateOf (run e p closure n s)).1.frame.locals
      = replay s.1.frame.locals (localUses e p closure n s) := by
  induction n generalizing s with
  | zero => rfl
  | succ n ih =>
      rw [run_succ, localUses]
      cases p.instructions[s.1.counter]? with
      | none => exact (aloof_locals s.1.frame.locals).finish (e := e) .none s rfl
      | some i =>
          have hexecuted : (Run.stateOf (execute e p closure i (pastInstruction s))).1.frame.locals
              = replay s.1.frame.locals (localUse p i (pastInstruction s)).toList :=
            locals_of_execute i (pastInstruction s)
          simp only [LocalUse.replay_append, continuation]
          cases hstep : Run.attempt (execute e p closure i) (pastInstruction s) with
          | error reason t =>
              have hstopped : Run.stateOf (execute e p closure i (pastInstruction s)) = t := by
                unfold Run.attempt at hstep
                rcases h : execute e p closure i (pastInstruction s) with ⟨_, u⟩ | ⟨_ | _ | _, u⟩ <;>
                  rw [h] at hstep <;> cases hstep <;> rfl
              rw [hstopped] at hexecuted
              exact hexecuted
          | ok outcome t =>
              have ht : t.1.frame.locals
                  = replay s.1.frame.locals (localUse p i (pastInstruction s)).toList :=
                locals_of_attempt hstep
              rcases outcome with exception | _ | suspension
              · have hkept := (aloof_locals t.1.frame.locals).unwind (e := e) exception t rfl
                simp only [Run.bind_apply]
                cases hunwound : unwind e exception t with
                | ok _ u =>
                    rw [hunwound] at hkept
                    have hu : u.1.frame.locals = t.1.frame.locals := hkept
                    exact (ih u).trans (by rw [hu, ht])
                | error reason u =>
                    rw [hunwound] at hkept
                    exact hkept.trans ht
              · exact (ih t).trans (by rw [ht])
              · exact ht

/-! ## Resumes -/

variable {pending : Option Exception}

/-- The uses that a resume makes of the local variables, in order. -/
def resumeLocalUses (e : Engine) (p : Code.Program) (closure : Value) (pending : Option Exception)
    (s : Activation × World) : List LocalUse :=
  match enterFrame e p pending s with
  | .ok _ t => localUses e p closure e.fuel t
  | .error _ _ => []

theorem locals_of_enterFrame (s : Activation × World) :
    (Run.stateOf (enterFrame e p pending s)).1.frame.locals = s.1.frame.locals := by
  cases pending with
  | none => exact (aloof_locals s.1.frame.locals).pushResumeValue p s rfl
  | some exception => exact (aloof_locals s.1.frame.locals).unwind exception s rfl

theorem resumeLocalUses_faithful (s : Activation × World) :
    Faithful p s.1.frame.locals (resumeLocalUses e p closure pending s) := by
  have hentered : (Run.stateOf (enterFrame e p pending s)).1.frame.locals = s.1.frame.locals :=
    locals_of_enterFrame s
  unfold resumeLocalUses
  cases h : enterFrame e p pending s with
  | ok _ t =>
      rw [h] at hentered
      rw [← hentered]
      exact localUses_faithful e.fuel t
  | error reason t => trivial

theorem locals_of_resume (s : Activation × World) :
    (Run.stateOf (resume e p closure pending s)).1.frame.locals
      = replay s.1.frame.locals (resumeLocalUses e p closure pending s) := by
  have hentered : (Run.stateOf (enterFrame e p pending s)).1.frame.locals = s.1.frame.locals :=
    locals_of_enterFrame s
  rw [resume_eq, Run.bind_apply]
  unfold resumeLocalUses
  cases h : enterFrame e p pending s with
  | ok _ t =>
      rw [h] at hentered
      rw [← hentered]
      exact locals_of_run e.fuel t
  | error reason t =>
      rw [h] at hentered
      exact hentered

end Exec

namespace Code.Program

open LocalUse (replay Faithful)

variable {p : Program} {args : List Value} {history : List LocalUse} {f : Frame}

/-- The uses that a resume of a frame makes of its local variables, in order. -/
def localUses (p : Program) (e : Engine) (closure : Value) (pending : Option Exception)
    (s : Frame × World) : List LocalUse :=
  if s.1.position < 0 then []
  else Exec.resumeLocalUses e p closure pending (activate s.1, s.2)

theorem frame_of_settle {α : Type} (e : Engine)
    (ending : EStateM.Result Interruption (Activation × World) α) :
    (Run.stateOf (settle e ending)).1 = (Run.stateOf ending).1.frame := by
  rcases ending with ⟨_, b, u⟩ | ⟨reason, b, u⟩
  · simp only [settle]
    cases e.release b.sent u <;> rfl
  · cases reason with
    | outOfFuel => rfl
    | raised x =>
        simp only [settle]
        cases e.release b.sent u <;> rfl
    | aborted =>
        simp only [settle]
        cases e.release b.sent u <;> rfl

theorem localUses_faithful (e : Engine) (closure : Value) (pending : Option Exception)
    (s : Frame × World) : Faithful p s.1.locals (p.localUses e closure pending s) := by
  unfold localUses
  split
  · trivial
  · exact Exec.resumeLocalUses_faithful (activate s.1, s.2)

/-- The local variables after a resume. -/
theorem locals_of_resume (e : Engine) (closure : Value) (pending : Option Exception)
    (s : Frame × World) :
    (Run.stateOf (p.resume e closure pending s)).1.locals
      = replay s.1.locals (p.localUses e closure pending s) := by
  obtain ⟨f, w⟩ := s
  unfold localUses
  by_cases hposition : f.position < 0
  · rw [if_pos hposition]
    unfold resume
    simp only [if_pos hposition]
    exact ((Run.maintains_raise _).ensuring (Run.maintains_shared (·.locals = f.locals) _)) (f, w) rfl
  · rw [if_neg hposition, resume_apply (Int.not_lt.1 hposition), frame_of_settle]
    exact Exec.locals_of_resume (activate f, w)

/-! ## The life of a frame -/

/-- The life of a frame of a program: it is made with the arguments, and resumed, in whatever world
and with whatever exception pending; in between it may change in all but the local variables.  The
history consists of the uses of the local variables in these resumes. -/
inductive Lives (p : Program) (args : List Value) : List LocalUse → Frame → Prop
  | made (code : CodeRef) : Lives p args [] (Frame.new code args)
  | changed {history : List LocalUse} {f g : Frame} (hlives : Lives p args history f)
      (hlocals : g.locals = f.locals) : Lives p args history g
  | resumed {history : List LocalUse} {f : Frame} (e : Engine) (closure : Value)
      (pending : Option Exception) (w : World) (hlives : Lives p args history f) :
      Lives p args (history ++ p.localUses e closure pending (f, w))
        (Run.stateOf (p.resume e closure pending (f, w))).1

/-- The local variables are the arguments with the stores of the history. -/
theorem Lives.locals (h : p.Lives args history f) : f.locals = replay args history := by
  induction h with
  | made code => rfl
  | changed hlives hlocals ih => exact hlocals.trans ih
  | resumed e closure pending w hlives ih =>
      rw [locals_of_resume, LocalUse.replay_append, ih]

/-- Every use finds what the uses before it have left. -/
theorem Lives.faithful (h : p.Lives args history f) : Faithful p args history := by
  induction h with
  | made code => trivial
  | changed hlives hlocals ih => exact ih
  | resumed e closure pending w hlives ih =>
      refine LocalUse.faithful_append.2 ⟨ih, ?_⟩
      rw [← hlives.locals]
      exact localUses_faithful e closure pending (_, w)

/-- A load gives the value stored last, or else the argument.  It is refused, with an error that
names the variable, if neither the argument was passed nor anything was stored in the variable or
beyond it; where something was stored beyond it only, it gives `none`. -/
theorem loads_find_bindings (h : p.Lives args history f) {before after : List LocalUse}
    {use : LocalUse} (hhistory : history = before ++ use :: after) (index : Nat) :
    (∀ v, use = .loaded index v → v = ((LocalUse.lastStored index before).or args[index]?).getD .none) ∧
      (∀ x, use = .refused index x → x = .nameError
        ("local variable '" ++ p.variableName index ++ "' referenced before assignment")) ∧
      (use.Reads index → ((∃ x, use = .refused index x) ↔
        args.length ≤ index ∧ ∀ i v, .stored i v ∈ before → i < index)) := by
  have hfits : use.Fits p (replay args before) := by
    have hfaithful := h.faithful
    rw [hhistory, LocalUse.faithful_append] at hfaithful
    exact hfaithful.2.1
  have hfound := LocalUse.getElem?_replay args before index
  refine ⟨?_, ?_, fun hreads => ?_⟩
  · rintro v rfl
    have hv : (replay args before)[index]? = some v := hfits
    rw [hfound, ← Option.or_assoc] at hv
    cases hbound : (LocalUse.lastStored index before).or args[index]? with
    | some u =>
        rw [hbound, Option.some_or] at hv
        exact (Option.some.inj hv).symm
    | none =>
        rw [hbound, Option.none_or, Option.ite_none_right_eq_some] at hv
        exact (Option.some.inj hv.2).symm
  · rintro x rfl
    exact hfits.2
  · have hnone : (replay args before)[index]? = none ↔
        args.length ≤ index ∧ ∀ i v, LocalUse.stored i v ∈ before → i < index := by
      have hstored : before.any (LocalUse.reaches index) = false ↔
          ∀ i v, LocalUse.stored i v ∈ before → i < index := by
        rw [List.any_eq_false]
        refine ⟨fun hall i v hmem => ?_, fun hall use hmem => ?_⟩
        · have := hall _ hmem
          simpa [LocalUse.reaches] using this
        · cases use with
          | stored i v => simpa [LocalUse.reaches] using hall i v hmem
          | loaded i v => simp [LocalUse.reaches]
          | refused i x => simp [LocalUse.reaches]
      rw [hfound, Option.or_eq_none_iff, Option.or_eq_none_iff, List.getElem?_eq_none_iff, ← hstored]
      refine ⟨fun ⟨_, hlength, hgrown⟩ => ⟨hlength, by simpa using hgrown⟩, fun ⟨hlength, hany⟩ => ?_⟩
      refine ⟨?_, hlength, by simp [hany]⟩
      cases hlast : LocalUse.lastStored index before with
      | none => rfl
      | some v => rw [LocalUse.any_reaches_of_lastStored hlast] at hany; cases hany
    rw [← hnone]
    cases use with
    | stored i v => exact hreads.elim
    | loaded i v =>
        have hv : (replay args before)[i]? = some v := hfits
        have hi : i = index := hreads
        subst hi
        rw [hv]
        exact ⟨fun ⟨_, hx⟩ => (by cases hx), fun hx => (by cases hx)⟩
    | refused i x =>
        have hi : i = index := hreads
        subst hi
        exact ⟨fun _ => hfits.1, fun _ => ⟨x, rfl⟩⟩

/-- Stores a value in its second local variable, and yields what it finds in the first. -/
def storeBeyond : Program :=
  ⟨[.loadConst 0, .storeFast 1, .loadFast 0, .yieldValue, .returnValue], ["a", "b"], 1, [.int 5]⟩

/-- A generator of `storeBeyond` without an argument. -/
def storingBeyond : World :=
  ({ World.new 10 .collecting with
    codes := [⟨"beyond", "<bytecode>", .program storeBeyond⟩] }.newGenerator ⟨0⟩ [] .none).2

theorem localUses_storeBeyond :
    storeBeyond.localUses (Machine.engine 10) .none none (Frame.new ⟨0⟩ [], storingBeyond)
      = [.stored 1 (.int 5), .loaded 0 .none] := by
  decide +kernel

theorem loads_find_bindings_storeBeyond :
    (∃ f, storeBeyond.Lives [] [.stored 1 (.int 5), .loaded 0 .none] f) ∧
      Value.none = ((LocalUse.lastStored 0 [.stored 1 (.int 5)]).or ([] : List Value)[0]?).getD .none ∧
      ¬ ∃ x, LocalUse.loaded 0 Value.none = .refused 0 x := by
  have hlives : storeBeyond.Lives [] _ _ := Lives.resumed (Machine.engine 10) .none none storingBeyond
    (Lives.made ⟨0⟩)
  rw [localUses_storeBeyond] at hlives
  have hsplit : [LocalUse.stored 1 (.int 5), .loaded 0 .none] = [.stored 1 (.int 5)] ++ _ :: [] := rfl
  have hfound := loads_find_bindings hlives hsplit 0
  refine ⟨⟨_, hlives⟩, hfound.1 .none rfl, fun hrefused => ?_⟩
  obtain ⟨-, hbelow⟩ := (hfound.2.2 rfl).1 hrefused
  exact absurd (hbelow 1 (.int 5) (by simp)) (by decide)

/-- The first variable has no argument, and nothing is stored in it, but loading it gives `none`. -/
theorem load_of_unbound_found :
    LocalUse.lastStored 0 [.stored 1 (.int 5)] = none ∧ ([] : List Value)[0]? = none ∧
      storeBeyond.localUses (Machine.engine 10) .none none (Frame.new ⟨0⟩ [], storingBeyond)
        = [.stored 1 (.int 5), .loaded 0 .none] ∧
      (match (Machine.engine 10).next ⟨0⟩ storingBeyond with
        | .ok v _ => some v
        | .error _ _ => none) = some .none := by
  decide +kernel

end Code.Program

end Resumable
