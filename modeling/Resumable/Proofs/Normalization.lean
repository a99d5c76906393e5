import Resumable.Proofs.Operands
import Resumable.Proofs.Rejection

set_option autoImplicit false

/-!
# Exceptions that are raised again

A type and a value stand for an exception, and an exception stands for itself: alone, and with each of
the classes that catch it.  So what is raised again is what was raised.

In a body this goes through the stack.  A handler is given the exception as a value, and a `raise` that
finds it on top raises it as it was given, however the handler has kept it meanwhile.  A frame adds a
place to an exception when the exception leaves it, and not on the way from one handler to the next one
(`Code.Program.HandsOnRaised`).
-/

namespace Resumable

variable {e : Engine} {p : Code.Program} {closure v type : Value} {value : Option Value}
  {x y : Exception} {k : ExceptionKind} {w u : World}

/-! ## What stands for an exception -/

namespace Exception

/-- A type and a value stand for no exception: the type is neither an exception nor a class of
exceptions, or it is an exception and comes with a value of its own. -/
def Unfit (type : Value) (value : Option Value) : Prop :=
  type.exceptionKind = none ∨
    (∃ x : Exception, type = x.toValue) ∧ ∃ v, value = some v ∧ v ≠ .none

theorem unfit_toValue : Unfit x.toValue value ↔ ∃ v, value = some v ∧ v ≠ .none := by
  refine ⟨fun h => ?_, fun h => .inr ⟨⟨x, rfl⟩, h⟩⟩
  rcases h with h | ⟨-, h⟩
  · cases h
  · exact h

theorem filter_eq_none_iff :
    value.filter (!·.isNone) = none ↔ ¬ ∃ v, value = some v ∧ v ≠ .none := by
  cases value with
  | none => simp
  | some v => simp [Option.filter, Value.isNone_iff]

/-- A class takes in whatever value comes with it. -/
theorem normalize_class (k : ExceptionKind) (value : Option Value) :
    ∃ x, normalize (.exceptionType k) value = .ok x ∧ x.isCaughtBy k = true := by
  have hself : k.isSubclassOf k = true := ExceptionKind.isSubclassOf_self k
  unfold normalize
  cases value.filter (!·.isNone) with
  | none => exact ⟨_, rfl, hself⟩
  | some v =>
      cases v with
      | exception kind args tb =>
          simp only
          split
          · next hsub => exact ⟨_, rfl, hsub⟩
          · exact ⟨_, rfl, hself⟩
      | _ => exact ⟨_, rfl, hself⟩

theorem normalize_alone (x : Exception) (h : ¬ ∃ v, value = some v ∧ v ≠ .none) :
    normalize x.toValue value = .ok x := by
  unfold normalize
  rw [filter_eq_none_iff.2 h]
  rfl

/-- Whatever is not unfit stands for an exception, which handlers for the class of the type catch. -/
theorem normalize_of_fit (h : ¬ Unfit type value) :
    ∃ x k, normalize type value = .ok x ∧ type.exceptionKind = some k ∧ x.isCaughtBy k = true := by
  cases type with
  | exceptionType k =>
      obtain ⟨x, hx, hk⟩ := normalize_class k value
      exact ⟨x, k, hx, rfl, hk⟩
  | exception k args tb =>
      let x : Exception := ⟨k, args, tb⟩
      exact ⟨x, k, normalize_alone x fun hvalue => h ((unfit_toValue (x := x)).2 hvalue), rfl,
        ExceptionKind.isSubclassOf_self k⟩
  | _ => exact absurd (.inl rfl) h

theorem normalize_of_unfit (h : Unfit type value) :
    normalize type value = .error .separateValue ∨
      type.exceptionKind = none ∧ normalize type value = .error (.notAnException type) := by
  rcases h with htype | ⟨⟨x, rfl⟩, hvalue⟩
  · right
    cases type with
    | exceptionType k => cases htype
    | exception k args tb => cases htype
    | _ => exact ⟨rfl, rfl⟩
  · left
    unfold normalize
    cases hfiltered : value.filter (!·.isNone) with
    | none => exact absurd hvalue (filter_eq_none_iff.1 hfiltered)
    | some v => rfl

/-- An exception stands for itself with every class that catches it. -/
theorem normalize_instance (h : x.isCaughtBy k = true) :
    normalize (.exceptionType k) (some x.toValue) = .ok x := by
  have hsub : x.kind.isSubclassOf k = true := h
  show (if x.kind.isSubclassOf k then _ else _ : Except Fault Exception) = _
  rw [if_pos hsub]

end Exception

namespace World

/-- A value is an iterator one of whose methods runs. -/
def IsBusy (w : World) (v : Value) : Prop := ∃ r, v = .iterator r ∧ w.iterator? r = none

theorem typeName?_eq_none_iff : w.typeName? v = none ↔ w.IsBusy v := by
  cases v <;> simp [typeName?, IsBusy]

theorem normalize_of_ok (h : Exception.normalize type value = .ok x) :
    normalize type value w = .ok x (w.retainAll x.args) := by
  unfold normalize
  rw [h]
  rfl

theorem exceptionKind_of_isBusy (h : w.IsBusy v) : v.exceptionKind = none := by
  obtain ⟨r, rfl, -⟩ := h
  rfl

/-- What is made of a type and a value, and what is made of that again. -/
structure NormalizesTo (w : World) (type : Value) (value : Option Value) : Prop where
  /-- it fails with a type error exactly if there is nothing to be made -/
  refused : ¬ w.IsBusy type → (Exception.Unfit type value ↔
    ∃ message, normalize type value w = .error (.raised (.typeError message)) w)
  made : ¬ Exception.Unfit type value → ∃ x k, normalize type value w = .ok x (w.retainAll x.args) ∧
    type.exceptionKind = some k ∧ x.isCaughtBy k = true
  /-- the refusal names the type, and an iterator at work does not tell its name -/
  abandoned : w.IsBusy type → normalize type value w = abort w
  again : ∀ x u, normalize type value w = .ok x u → ∀ t : World,
    normalize x.toValue none t = .ok x (t.retainAll x.args) ∧
      ∀ k, x.isCaughtBy k = true →
        normalize (.exceptionType k) (some x.toValue) t = .ok x (t.retainAll x.args)

theorem normalizesTo (w : World) (type : Value) (value : Option Value) :
    w.NormalizesTo type value where
  refused hidle := by
    refine ⟨fun hunfit => ?_, fun ⟨message, hmessage⟩ => ?_⟩
    · rcases Exception.normalize_of_unfit hunfit with hfault | ⟨-, hfault⟩
      · exact ⟨_, normalize_of_fault hfault rfl⟩
      · cases hname : w.typeName? type with
        | none => exact absurd (typeName?_eq_none_iff.1 hname) hidle
        | some name =>
            have hasked : typeName type w = .ok name w := by
              unfold typeName
              rw [hname]
            exact ⟨_, normalize_of_fault hfault (Run.bind_ok hasked)⟩
    · by_contra hfit
      obtain ⟨x, k, hx, -⟩ := Exception.normalize_of_fit hfit
      rw [normalize_of_ok hx] at hmessage
      cases hmessage
  made hfit := by
    obtain ⟨x, k, hx, hk⟩ := Exception.normalize_of_fit hfit
    exact ⟨x, k, normalize_of_ok hx, hk⟩
  abandoned hbusy := by
    have hname : w.typeName? type = none := typeName?_eq_none_iff.2 hbusy
    obtain ⟨r, rfl, -⟩ := hbusy
    have hasked : typeName (.iterator r) w = abort w := by
      unfold typeName
      rw [hname]
    unfold normalize
    show ((typeName (.iterator r) >>= fun _ => pure _) >>= fun _ => _ : Run World Exception) w = _
    simp only [Run.bind_apply, hasked]
    rfl
  again x u _ t :=
    ⟨normalize_of_ok (Exception.normalize_toValue x),
      fun _ hk => normalize_of_ok (Exception.normalize_instance hk)⟩

end World

/-! ## In a body -/

theorem Run.RaisesOnly.shared {σ τ α : Type} {P : Exception → Prop} {m : Run σ α} {s : τ × σ}
    (h : RaisesOnly P (m s.2)) : RaisesOnly P (Run.shared m s) := by
  obtain ⟨a, w⟩ := s
  unfold Run.shared
  simp only
  generalize m w = ending at h
  rcases ending with ⟨b, t⟩ | ⟨_ | _ | _, t⟩ <;> exact h

namespace Exec

variable {s t t' : Activation × World} {i : Code.Instruction} {n : Nat}

/-- An exception has gone to the innermost handler of a frame, as a value. -/
structure Given (x : Exception) (t t' : Activation × World) (block : HandlerBlock)
    (rest : List HandlerBlock) : Prop where
  waiting : t.1.frame.blocks = block :: rest
  counter : t'.1.counter = block.handler
  blocks : t'.1.frame.blocks = rest
  stack : t'.1.frame.stack = x.toValue :: (t.1.frame.truncate block.stackDepth).stack

theorem given_of_unwind (h : unwind e x t = .ok () t') : ∃ block rest, Given x t t' block rest := by
  obtain ⟨a, w⟩ := t
  cases hblocks : a.frame.blocks with
  | nil =>
      rw [unwind_unhandled hblocks] at h
      split at h <;> cases h
  | cons block rest =>
      rw [unwind_handled hblocks] at h
      simp only at h
      split at h
      · cases h
        exact ⟨block, rest, hblocks, rfl, rfl, rfl⟩
      · cases h

/-- A `raise` takes the value on top. -/
theorem execute_raise {a : Activation} {rest : List Value} (hstack : a.frame.stack = v :: rest) :
    execute e p closure .raise (a, w) =
      Run.shared (e.raiseValue v) ({ a with frame := { a.frame with stack := rest } }, w) := by
  have hpop : pop (a, w) = .ok v ({ a with frame := { a.frame with stack := rest } }, w) := by
    unfold pop
    simp only [hstack]
  exact Run.bind_ok hpop

/-- What a `raise` finds on top is raised as it is, if it is an exception. -/
theorem raises_again (he : e.Lenient) {rest : List Value}
    (hstack : s.1.frame.stack = x.toValue :: rest) :
    Run.RaisesOnly (· = x) (execute e p closure .raise s) := by
  rw [execute_raise hstack]
  refine Run.RaisesOnly.shared (Run.RaisesOnly.ensuring ?_ (Engine.releaseObjects_silent he _))
  rw [Run.bind_ok (exceptionOf_toValue x s.2)]
  exact rfl

theorem executes_again {a : Activation} {rest : List Value}
    (hstack : a.frame.stack = x.toValue :: rest) (howned : ∀ o ∈ x.toValue.objects, 1 ≤ w.owners o) :
    execute e p closure .raise (a, w) =
      .error (.raised x) ({ a with frame := { a.frame with stack := rest } }, w) := by
  rw [execute_raise hstack]
  unfold Run.shared
  simp only [raiseValue_toValue howned]

/-- A frame keeps its code. -/
theorem inert_code (c : CodeRef) : Inert fun a => a.frame.code = c where
  frame _ _ _ _ h := h
  sent _ h := h
  counter _ _ _ h := h
  position _ _ h := h
  delegate _ _ h := h
  result _ _ h := h
  anywhere _ _ h := h

section Inert

variable {P : Activation → Prop} (h : Inert P)

include h

theorem Inert.of_execute {reason : Interruption} (hs : P s.1)
    (hended : Exec.execute e p closure i s = .error reason t) : P t.1 := by
  have hmaintained : Maintains P (Exec.execute e p closure i) := h.execute i
  have hkept := hmaintained s hs
  rwa [hended] at hkept

theorem Inert.of_continuation (hs : P s.1) (hnext : continuation e p closure i s = some t) :
    P t.1 := by
  have hmaintained : Maintains P (Exec.execute e p closure i) := h.execute i
  have hattempted := hmaintained.attempt s hs
  unfold continuation at hnext
  split at hnext
  · next hstep =>
      cases hnext
      rwa [hstep] at hattempted
  · next x u hstep =>
      rw [hstep] at hattempted
      split at hnext
      · next hunwound =>
          cases hnext
          have hkept := h.aloof.unwind (e := e) x u hattempted
          rwa [hunwound] at hkept
      · cases hnext
  · cases hnext

theorem Inert.of_executions (hs : P s.1) (hmem : (i, t) ∈ executions e p closure n s) : P t.1 := by
  induction n generalizing s with
  | zero => cases hmem
  | succ n ih =>
      unfold executions at hmem
      cases hi : p.instructions[s.1.counter]? with
      | none =>
          rw [hi] at hmem
          cases hmem
      | some j =>
          simp only [hi] at hmem
          have hpast : P (pastInstruction s).1 := h.anywhere s.1 _ hs
          rcases List.mem_cons.1 hmem with heq | hlater
          · cases heq
            exact hpast
          · cases hnext : continuation e p closure j (pastInstruction s) with
            | none =>
                rw [hnext] at hlater
                cases hlater
            | some u =>
                rw [hnext] at hlater
                exact ih (h.of_continuation hpast hnext) hlater

/-- What is inert holds whenever an instruction of a resume is carried out. -/
theorem Inert.of_resumeExecutions {pending : Option Exception} (hs : P s.1)
    (hmem : (i, t) ∈ resumeExecutions e p closure pending s) : P t.1 := by
  have hentered : Maintains P (enterFrame e p pending) := by
    cases pending with
    | none => exact h.aloof.pushResumeValue p
    | some x => exact h.aloof.unwind x
  have hkept := hentered s hs
  unfold resumeExecutions at hmem
  split at hmem
  · next u hran =>
      rw [hran] at hkept
      exact h.of_executions hkept hmem
  · cases hmem

end Inert

end Exec

namespace Code.Program

/-- How the bodies of a program deal with what is raised in them. -/
structure HandsOnRaised (p : Program) : Prop where
  /-- a handler is given what was raised, at the resume point or by an instruction -/
  given_pending : ∀ e x s t, Exec.enterFrame e p (some x) s = .ok () t →
    ∃ block rest, Exec.Given x s t block rest
  given : ∀ e closure i u x t t', Exec.execute e p closure i u = .error (.raised x) t →
    Exec.continuation e p closure i u = some t' → ∃ block rest, Exec.Given x t t' block rest
  /-- what a `raise` finds on top is raised as it is, and nothing else is done if someone else owns
  what it mentions -/
  again : ∀ e, e.Lenient → ∀ closure u x rest, u.1.frame.stack = x.toValue :: rest →
    Run.RaisesOnly (· = x) (Exec.execute e p closure .raise u) ∧
      ((∀ o ∈ x.toValue.objects, 1 ≤ u.2.owners o) → Exec.execute e p closure .raise u =
        .error (.raised x) ({ u.1 with frame := { u.1.frame with stack := rest } }, u.2))
  /-- what leaves a body was raised there without a handler, and has got this one place in front -/
  escapes : ∀ e, e.Lenient → ∀ closure pending s y t, 0 ≤ s.1.position →
    p.resume e closure pending s = .error (.raised y) t →
      (∃ x, pending = some x ∧ s.1.blocks = [] ∧
        y = x.pushEntry (s.2.placeIn s.1.code (s.1.position.toNat - 1))) ∨
      ∃ i u x t', (i, u) ∈ p.executions e closure pending s ∧
        Exec.execute e p closure i u = .error (.raised x) t' ∧ t'.1.frame.blocks = [] ∧
        y = x.pushEntry (t'.2.placeIn s.1.code (t'.1.counter - 1)) ∧
        ∀ z rest, i = .raise → u.1.frame.stack = z.toValue :: rest → x = z

theorem handsOnRaised (p : Program) : p.HandsOnRaised where
  given_pending e x s t h := Exec.given_of_unwind h
  given e closure i u x t t' hraised hnext := by
    have hattempted : Run.attempt (Exec.execute e p closure i) u = .ok (.error x) t :=
      Run.attempt_eq_ok.2 (.inr ⟨x, rfl, hraised⟩)
    unfold Exec.continuation at hnext
    rw [hattempted] at hnext
    simp only at hnext
    split at hnext
    · next hunwound =>
        cases hnext
        exact Exec.given_of_unwind hunwound
    · cases hnext
  again e he closure u x rest hstack :=
    ⟨Exec.raises_again he hstack, fun howned => Exec.executes_again hstack howned⟩
  escapes e he closure pending s y t hstart h := by
    obtain ⟨f, w⟩ := s
    have hlist : p.executions e closure pending (f, w) =
        Exec.resumeExecutions e p closure pending (activate f, w) := if_neg (Int.not_lt.2 hstart)
    rw [resume_apply hstart] at h
    obtain ⟨t', hraised⟩ := raised_of_settle he h
    rw [hlist]
    rcases Exec.raised_of_resume he hraised with
      ⟨x, hpending, hescaped⟩ | ⟨i, u, x, t'', hmem, hexecuted, hescaped⟩
    · obtain ⟨hblocks, rfl⟩ := Exec.escaped_of_unwind he hescaped
      exact .inl ⟨x, hpending, hblocks, rfl⟩
    · obtain ⟨hblocks, rfl⟩ := Exec.escaped_of_unwind he hescaped
      have hcode : t''.1.frame.code = f.code :=
        (Exec.inert_code f.code).of_execute
          ((Exec.inert_code f.code).of_resumeExecutions rfl hmem) hexecuted
      rw [hcode]
      refine .inr ⟨i, u, x, t'', hmem, hexecuted, hblocks, rfl, fun z rest hi hstack => ?_⟩
      have honly : Run.RaisesOnly (· = z) (Exec.execute e p closure .raise u) :=
        Exec.raises_again he hstack
      rw [← hi, hexecuted] at honly
      exact honly

end Code.Program

/-- What is made of a type and a value is made again of itself; and a body that raises an exception it
was given raises what it was given. -/
theorem raised_as_given (w : World) (type : Value) (value : Option Value) (p : Code.Program) :
    w.NormalizesTo type value ∧ p.HandsOnRaised :=
  ⟨w.normalizesTo type value, p.handsOnRaised⟩

/-- A lookup error that is a key error is raised as the key error. -/
example : Exception.normalize (.exceptionType .lookupError) (some Session.keyErrorGiven.toValue) =
    .ok Session.keyErrorGiven := rfl

namespace Session

/-- A method of an iterator throws the iterator into a generator: the moment of this throw. -/
def throwingItselfWorld : World :=
  brokenOffAt (runUpTo [.assemble "p" yieldingTwice, .makeGenerator "g" "p" [] .none,
    .bind "it" (.scripted "probe" [.give (.call (.mk "g" .throw [.variable "it"]))] none false)]
    (.iteratorNext (.variable "it")) (.asked (.throw ⟨0⟩ ⟨.iterator ⟨0⟩, none, none⟩)))

/-- An iterator is no exception, but at work it does not tell its name, and there is no type error. -/
theorem refusal_abandoned :
    Amid (.asked (.throw ⟨0⟩ ⟨.iterator ⟨0⟩, none, none⟩)) throwingItselfWorld ∧
      Exception.Unfit (.iterator ⟨0⟩) none ∧
      World.normalize (.iterator ⟨0⟩) none throwingItselfWorld = World.abort throwingItselfWorld ∧
      Run.endingOf (Machine.perform 60 (.throw ⟨0⟩ ⟨.iterator ⟨0⟩, none, none⟩) throwingItselfWorld) =
        some .aborted := by
  refine ⟨runUpTo_amid (by decide +kernel) (by decide +kernel) (by decide +kernel), .inl rfl, ?_,
    by decide +kernel⟩
  exact (World.normalizesTo throwingItselfWorld (.iterator ⟨0⟩) none).abandoned
    ⟨⟨0⟩, rfl, by decide +kernel⟩

end Session

end Resumable
