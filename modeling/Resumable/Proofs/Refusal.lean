import Resumable.Proofs.Machine

set_option autoImplicit false

/-!
# Calls that are refused

To forget a value never raises: what finalizing a generator raises is reported, and the caller does
not get to see it (`release_silent`).  It may be abandoned, though.

A call that is refused forgets its arguments and then raises the refusal (`Engine.refuse`).  So it
raises the refusal if the arguments can be forgotten, is abandoned if that is, and does nothing else
(`Refused`).
-/

namespace Resumable

variable {α β σ : Type}

/-! ## Computations that do not raise -/

namespace Run

/-- A computation that does not raise an exception. -/
def Silent (m : Run σ α) : Prop := ∀ s x t, m s ≠ .error (.raised x) t

theorem silent_pure (a : α) : Silent (pure a : Run σ α) := fun _ _ _ h => nomatch h

theorem Silent.bind {m : Run σ α} {f : α → Run σ β} (hm : Silent m) (hf : ∀ a, Silent (f a)) :
    Silent (m >>= f) := by
  intro s x t h
  rw [bind_apply] at h
  split at h
  · exact hf _ _ _ _ h
  · next reason u hu =>
      cases h
      exact hm _ _ _ hu

theorem Silent.onInterruption {m : Run σ α} {c : Run σ Unit} (hm : Silent m) (hc : Silent c) :
    Silent (m.onInterruption c) := by
  intro s x t h
  unfold Run.onInterruption at h
  split at h
  · cases h
  · cases h
  · next reason u _ hu =>
      split at h
      · cases h
        exact hm _ _ _ hu
      · next hafter =>
          cases h
          exact hc _ _ _ hafter

theorem Silent.ensuring {m : Run σ α} {c : Run σ Unit} (hm : Silent m) (hc : Silent c) :
    Silent (m.ensuring c) :=
  (hm.onInterruption hc).bind fun _ => hc.bind fun _ => silent_pure _

theorem Silent.shared {τ : Type} {m : Run σ α} (hm : Silent m) :
    Silent (Run.shared m : Run (τ × σ) α) := by
  rintro ⟨b, w⟩ x t h
  unfold Run.shared at h
  simp only at h
  split at h
  · cases h
  · next hu =>
      cases h
      exact hm _ _ _ hu

theorem silent_contain (m : Run σ α) : Silent (contain m) := by
  intro s x t h
  unfold contain at h
  split at h <;> cases h

/-- Clean-ups one after the other are one clean-up. -/
theorem ensuring_assoc (m : Run σ α) (c d : Run σ Unit) :
    (m.ensuring c).ensuring d = m.ensuring (c.ensuring d) := by
  funext s
  unfold ensuring
  simp only [bind_apply, onInterruption]
  -- how the computation ends, then the first clean-up, then the second
  rcases m s with ⟨a, t⟩ | ⟨_ | _ | _, t⟩
  case error.outOfFuel => rfl
  all_goals
    simp only
    generalize c t = y
    rcases y with ⟨_, u⟩ | ⟨_ | _ | _, u⟩
    case error.outOfFuel => rfl
    all_goals
      simp only [Run.pure_apply]
      generalize d u = z
      rcases z with ⟨_, v⟩ | ⟨_ | _ | _, v⟩ <;> rfl

/-- A clean-up after both parts of a computation. -/
theorem bind_ensuring (m : Run σ α) (f : α → Run σ β) (c : Run σ Unit) :
    (m >>= f).ensuring c = m.onInterruption c >>= fun a => (f a).ensuring c := by
  funext s
  unfold ensuring
  simp only [bind_apply, onInterruption]
  rcases m s with ⟨a, t⟩ | ⟨_ | _ | _, t⟩
  case ok => rfl
  case error.outOfFuel => rfl
  all_goals
    simp only
    generalize c t = y
    rcases y with ⟨_, u⟩ | ⟨reason, u⟩ <;> rfl

/-- A computation that does not raise is not attempted. -/
theorem attempt_bind {m : Run σ α} (hm : Silent m) (f : α → Run σ β) :
    attempt (m >>= f) = m >>= fun a => attempt (f a) := by
  funext s
  rw [bind_apply]
  unfold attempt
  rw [bind_apply]
  rcases hs : m s with ⟨a, t⟩ | ⟨x | _ | _, t⟩
  · rfl
  · exact absurd hs (hm s x t)
  · rfl
  · rfl

/-- A clean-up after an exception that is raised at once. -/
theorem raise_ensuring (x : Exception) (c : Run σ Unit) :
    (raise x : Run σ α).ensuring c = (do c; raise x) := by
  funext s
  unfold ensuring
  simp only [bind_apply, onInterruption, raise_apply]
  generalize c s = y
  rcases y with ⟨_, u⟩ | ⟨reason, u⟩ <;> rfl

end Run

namespace Engine

/-! ## Forgetting -/

/-- The disposal of objects does not raise. -/
def Lenient (e : Engine) : Prop := ∀ o, Run.Silent (e.perform (.reclaim o))

section Lenient

variable {e : Engine} (he : e.Lenient)

include he

theorem releaseObject_silent (o : Object) : Run.Silent (e.releaseObject o) := by
  intro w x t h
  unfold releaseObject at h
  split at h
  · cases h
  · split at h
    · cases h
    · next hu =>
        cases h
        exact he _ _ _ _ hu
  · cases h

theorem releaseObjects_silent (os : List Object) : Run.Silent (e.releaseObjects os) := by
  induction os with
  | nil => exact Run.silent_pure ()
  | cons o os ih => exact (releaseObject_silent he o).ensuring ih

theorem replace_silent (c : Frame → Frame × List Value) : Run.Silent (e.replace c) :=
  Run.Silent.bind (fun _ _ _ h => nomatch h) fun _ =>
    Run.Silent.bind (fun _ _ _ h => nomatch h) fun _ => (releaseObjects_silent he _).shared

theorem describe_silent (x : Exception) (g : GeneratorRef) : Run.Silent (e.describe x g) := by
  intro w y t h
  have habort : Run.Silent (Run.ensuring World.abort (e.releaseException x) : Run World String) :=
    Run.Silent.ensuring (fun _ _ _ h => nomatch h) (releaseObjects_silent he _)
  unfold describe at h
  rw [Run.bind_apply] at h
  simp only [Run.get_apply] at h
  split at h
  · exact habort _ _ _ h
  · cases h

theorem report_silent (x : Exception) (g : GeneratorRef) : Run.Silent (e.report x g) := by
  refine (describe_silent he x g).bind fun line => ?_
  exact Run.Silent.bind (fun _ _ _ h => nomatch h) fun _ => releaseObjects_silent he _

theorem finalize_silent (g : GeneratorRef) : Run.Silent (e.finalize g) := by
  refine Run.Silent.bind (fun _ _ _ h => nomatch h) fun w => ?_
  split
  · exact Run.silent_pure ()
  · next r _ =>
      refine Run.Silent.bind (fun _ _ _ h => nomatch h) fun _ => ?_
      refine Run.Silent.ensuring ?_ (releaseObjects_silent he _)
      refine Run.Silent.bind (fun _ _ _ h => nomatch h) fun t => ?_
      split
      · refine (Run.silent_contain _).bind fun ending => ?_
        cases ending with
        | result v => exact releaseObjects_silent he _
        | raised x => exact report_silent he x g
        | aborted => exact fun _ _ _ h => nomatch h
      · exact Run.silent_pure ()

theorem reclaim_silent (o : Object) : Run.Silent (e.reclaim o) := by
  have hget : Run.Silent (get : Run World World) := fun _ _ _ h => nomatch h
  have hset : ∀ f, Run.Silent (modify f : Run World Unit) := fun _ _ _ _ h => nomatch h
  cases o with
  | list r => exact hget.bind fun w => (hset _).bind fun _ => releaseObjects_silent he _
  | iterator r =>
      refine hget.bind fun w => (hset _).bind fun _ => ?_
      split
      · exact releaseObjects_silent he _
      · exact Run.silent_pure ()
  | frame r => exact hget.bind fun w => (hset _).bind fun _ => releaseObjects_silent he _
  | generator g =>
      refine (finalize_silent he g).ensuring ?_
      exact hget.bind fun w => (hset _).bind fun _ => releaseObjects_silent he _

end Lenient

/-- The disposal of objects by the machine does not raise. -/
theorem machine_lenient (n : Nat) : (Machine.engine n).Lenient := by
  induction n with
  | zero => exact fun _ _ _ _ h => nomatch h
  | succ n ih => exact fun o => (reclaim_silent ih o).bind fun _ => Run.silent_pure _

/-- Forgetting values does not raise. -/
theorem releaseAll_silent (n : Nat) (vs : List Value) :
    Run.Silent ((Machine.engine n).releaseAll vs) :=
  releaseObjects_silent (machine_lenient n) _

/-- Several objects are let go of one after the other. -/
theorem releaseObjects_append (e : Engine) (os us : List Object) :
    e.releaseObjects (os ++ us) = (e.releaseObjects os).ensuring (e.releaseObjects us) := by
  induction os with
  | nil =>
      funext w
      show e.releaseObjects us w = _
      unfold Run.ensuring
      simp only [releaseObjects, Run.bind_apply, Run.onInterruption, Run.pure_apply]
      generalize e.releaseObjects us w = y
      rcases y with ⟨_, t⟩ | ⟨reason, t⟩ <;> rfl
  | cons o os ih =>
      rw [List.cons_append, releaseObjects, ih, ← Run.ensuring_assoc, releaseObjects]

theorem objectsOfAll_append (vs us : List Value) :
    Value.objectsOfAll (vs ++ us) = Value.objectsOfAll vs ++ Value.objectsOfAll us := by
  induction vs with
  | nil => rfl
  | cons v vs ih => simp [Value.objectsOfAll, ih]

theorem releaseAll_append (e : Engine) (vs us : List Value) :
    e.releaseAll (vs ++ us) = (e.releaseAll vs).ensuring (e.releaseAll us) := by
  unfold releaseAll
  rw [← releaseObjects_append, objectsOfAll_append]

/-! ## Refusals -/

/-- Forgets the arguments of a call and refuses it. -/
def refuse (e : Engine) (x : Exception) (args : List Value) : Run World Value := do
  e.releaseAll args
  Run.raise x

theorem releaseAll_singleton (e : Engine) (v : Value) : e.releaseAll [v] = e.release v := by
  simp [releaseAll, release, Value.objectsOfAll]

theorem owning_raise (e : Engine) (x : Exception) (v : Value) :
    (e.owning v (Run.raise x) : Run World Value) = e.refuse x [v] := by
  rw [owning, Run.raise_ensuring, refuse, releaseAll_singleton]

/-- A refusal that is followed by forgetting something more. -/
theorem owning_refuse (e : Engine) (x : Exception) (v : Value) (args : List Value) :
    e.owning v (e.refuse x args) = e.refuse x (args ++ [v]) := by
  rw [owning, refuse, ← Run.raise_ensuring, Run.ensuring_assoc, ← releaseAll_singleton,
    ← releaseAll_append, Run.raise_ensuring, refuse]

end Engine

/-- A call is refused with an exception: it raises it once its arguments are forgotten, it is abandoned
if forgetting them is, and it comes to no other end. -/
structure Refused (e : Engine) (x : Exception) (args : List Value) (m : Run World Value)
    (w : World) : Prop where
  raises : ∀ t, m w = .error (.raised x) t ↔ e.releaseAll args w = .ok () t
  abandons : ∀ t, m w = .error .aborted t ↔ e.releaseAll args w = .error .aborted t
  only : (∀ v t, m w ≠ .ok v t) ∧ ∀ y t, m w = .error (.raised y) t → y = x

theorem refused_of_refuse {n : Nat} {x : Exception} {args : List Value} {m : Run World Value}
    {w : World} (h : m w = (Machine.engine n).refuse x args w) :
    Refused (Machine.engine n) x args m w := by
  have hsilent := Engine.releaseAll_silent n args w
  rw [Engine.refuse, Run.bind_apply] at h
  generalize hforget : (Machine.engine n).releaseAll args w = y at hsilent h
  rcases y with ⟨_, u⟩ | ⟨reason, u⟩
  · -- the arguments are forgotten
    have hm : m w = .error (.raised x) u := h
    refine ⟨fun t => ?_, fun t => ?_, ?_, ?_⟩
    · rw [hm, hforget]
      constructor <;> intro heq <;> cases heq <;> rfl
    · rw [hm, hforget]
      constructor <;> intro heq <;> cases heq
    · intro v t heq
      rw [hm] at heq
      cases heq
    · intro y t heq
      rw [hm] at heq
      cases heq
      rfl
  · -- forgetting them ends the call
    have hm : m w = .error reason u := h
    have hreason : ∀ y, reason ≠ .raised y := fun y heq => hsilent y u (heq ▸ rfl)
    refine ⟨fun t => ?_, fun t => ?_, ?_, ?_⟩
    · rw [hm, hforget]
      constructor <;> intro heq
      · cases heq
        exact absurd rfl (hreason x)
      · cases heq
    · rw [hm, hforget]
      constructor <;> intro heq <;> cases heq <;> rfl
    · intro v t heq
      rw [hm] at heq
      cases heq
    · intro y t heq
      rw [hm] at heq
      cases heq
      exact absurd rfl (hreason y)

namespace World

/-- What a generator refuses calls with: that it is running, or that it has finished. -/
def refusal? (w : World) (g : GeneratorRef) : Option Exception :=
  if (w.generator g).running then some .alreadyExecuting
  else if (w.generator g).frame.isNone then some .stopIteration
  else none

theorem refusal?_running {w : World} {g : GeneratorRef} (h : (w.generator g).running = true) :
    w.refusal? g = some .alreadyExecuting := by
  simp [refusal?, h]

theorem refusal?_frameless {w : World} {g : GeneratorRef} (hidle : (w.generator g).running = false)
    (h : (w.generator g).frame = none) : w.refusal? g = some .stopIteration := by
  simp [refusal?, hidle, h]

end World

namespace Engine

variable {e : Engine} {g : GeneratorRef} {w : World} {x : Exception}

theorem resume_refused (h : w.refusal? g = some x) (input : Value) :
    e.resume g input w = e.refuse x [input] w := by
  unfold World.refusal? at h
  unfold resume
  rw [Run.bind_apply]
  simp only [Run.get_apply]
  split at h
  · next hrunning =>
      obtain rfl := Option.some.inj h
      rw [if_pos hrunning, owning_raise]
  · next hidle =>
      split at h
      · next hframe =>
          obtain rfl := Option.some.inj h
          rw [if_neg hidle, Option.isNone_iff_eq_none.1 hframe]
          exact congrFun (owning_raise e _ input) w
      · cases h

/-- An absent traceback, `none` and a traceback refer to nothing. -/
theorem objectsOfAll_traceback {tb : Option Value} {t : Option Traceback}
    (h : tracebackOf tb = .ok t) : Value.objectsOfAll tb.toList = [] := by
  rcases tb with _ | v
  · rfl
  · cases v <;> first | rfl | cases h

theorem answerThrow_refused (h : w.refusal? g = some x) {thrown : Throw} {tb : Option Traceback}
    (htb : tracebackOf thrown.traceback = .ok tb) :
    e.answerThrow g thrown w = e.refuse x (thrown.value.toList ++ [thrown.type]) w := by
  have hforget : e.releaseAll (thrown.traceback.toList ++ thrown.value.toList) =
      e.releaseAll thrown.value.toList := by
    rw [releaseAll_append]
    unfold releaseAll
    rw [objectsOfAll_traceback htb]
    funext t
    unfold Run.ensuring
    simp only [releaseObjects, Run.bind_apply, Run.onInterruption, Run.pure_apply]
    generalize e.releaseObjects (Value.objectsOfAll thrown.value.toList) t = y
    rcases y with ⟨_, u⟩ | ⟨reason, u⟩ <;> rfl
  rw [← owning_refuse]
  unfold answerThrow
  refine Run.ensuring_congr ?_
  rw [htb]
  simp only [Run.raise_ensuring, hforget]
  rw [Run.bind_apply]
  simp only [Run.get_apply]
  unfold World.refusal? at h
  split at h
  · next hrunning =>
      obtain rfl := Option.some.inj h
      rw [if_pos hrunning]
      rfl
  · next hidle =>
      split at h
      · next hframe =>
          obtain rfl := Option.some.inj h
          rw [if_neg hidle, Option.isNone_iff_eq_none.1 hframe]
          rfl
      · cases h

/-! ## Operations on a generator that refuses -/

section Operations

variable {n : Nat}

/-- A generator that refuses is not resumed. -/
theorem next_refused (h : w.refusal? g = some x) :
    (Machine.engine (n + 1)).next g w = .error (.raised x) w := by
  show (Machine.engine n).resume g .none w = _
  rw [resume_refused h]
  rfl

/-- What a throw does at a generator that refuses. -/
theorem throw_refused (h : w.refusal? g = some x) {thrown : Throw} {tb : Option Traceback}
    (htb : tracebackOf thrown.traceback = .ok tb) :
    (Machine.engine (n + 1)).throw g thrown w =
      (Machine.engine n).refuse x (thrown.value.toList ++ [thrown.type]) w :=
  answerThrow_refused h htb

/-- What a send does at a generator that has no frame. -/
theorem send_frameless (h : (w.generator g).frame = none) (v : Value) :
    e.send g v w = e.refuse .stopIteration [v] w := by
  unfold send
  rw [Run.bind_apply]
  simp only [Run.get_apply]
  rw [h]
  exact congrFun (owning_raise e _ v) w

/-- What a send does at a generator that has a frame and refuses, unless it is turned away before
that: only `none` is sent to a frame that has not been resumed. -/
theorem send_refused {r : FrameRef} (hframe : (w.generator g).frame = some r)
    (h : w.refusal? g = some x) {v : Value}
    (hready : w.isJustStarted r = true → v.isNone = true) :
    (Machine.engine (n + 1)).send g v w = (Machine.engine n).refuse x [v] w := by
  unfold send
  rw [Run.bind_apply]
  simp only [Run.get_apply]
  rw [hframe]
  have hnot : (w.isJustStarted r && !v.isNone) = false := by
    cases hr : w.isJustStarted r with
    | false => rfl
    | true => simp [hready hr]
  simp only [hnot]
  exact resume_refused h v

/-- What a send does that comes too early. -/
theorem send_early {r : FrameRef} (hframe : (w.generator g).frame = some r)
    (hr : w.isJustStarted r = true) {v : Value} (hv : v.isNone = false) :
    e.send g v w =
      e.refuse (.typeError "can't send non-None value to a just-started generator") [v] w := by
  unfold send
  rw [Run.bind_apply]
  simp only [Run.get_apply]
  rw [hframe]
  simp only [hr, hv]
  exact congrFun (owning_raise e _ v) w

/-- A generator that is running is not closed. -/
theorem close_running (h : (w.generator g).running = true) :
    (Machine.engine (n + 1)).close g w = .error (.raised .alreadyExecuting) w := by
  show (Machine.engine n).answerClose g w = _
  unfold answerClose
  rw [Run.bind_apply]
  simp only [Run.get_apply]
  rw [if_pos h]
  rfl

/-- There is nothing to close where there is no frame. -/
theorem close_frameless (hidle : (w.generator g).running = false)
    (h : (w.generator g).frame = none) :
    (Machine.engine (n + 1)).close g w = .ok .none w := by
  show (Machine.engine n).answerClose g w = _
  unfold answerClose
  rw [Run.bind_apply]
  simp only [Run.get_apply]
  rw [if_neg (by simp [hidle]), h]
  rfl

/-- A generator that is running has no next item, and that is not the end of its items. -/
theorem nextOrEnd_running (h : (w.generator g).running = true) :
    (Machine.engine (n + 1)).nextOrEnd g w = .error (.raised .alreadyExecuting) w := by
  have hnext := next_refused (n := n) (World.refusal?_running h)
  unfold nextOrEnd
  rw [Run.bind_apply]
  unfold Run.attempt
  rw [hnext]
  rfl

/-- A generator without a frame has come to the end of its items. -/
theorem nextOrEnd_frameless (hidle : (w.generator g).running = false)
    (h : (w.generator g).frame = none) :
    (Machine.engine (n + 1)).nextOrEnd g w = .ok none w := by
  have hnext := next_refused (n := n) (World.refusal?_frameless hidle h)
  unfold nextOrEnd
  rw [Run.bind_apply]
  unfold Run.attempt
  rw [hnext]
  rfl

end Operations

end Engine

end Resumable
