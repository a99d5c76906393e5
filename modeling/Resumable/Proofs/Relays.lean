import Resumable.Proofs.Contracts
import Resumable.Proofs.Escaping
import Resumable.Proofs.SendingNone
import Resumable.Proofs.Turns

set_option autoImplicit false

/-!
# Passing on what an argument gives

Two bodies that pass on the items of their argument: one loops over it and yields each item, the other
delegates to it.  The first one gets an iterator, keeps it on the stack and asks it by way of the
instruction of the loop; the second one keeps it as its delegate and asks it by sending it `none`.

Both ask the iterator in the same world, and the item that it gives is what they yield.  If it gives none,
or raises, the body ends, or it has to be told that its delegate ran out.
-/

namespace Resumable

variable {e : Engine} {v x it closure : Value} {w s t u : World} {g : GeneratorRef} {r : FrameRef}
  {c : CodeRef} {y z : Exception} {n : Nat}

/-! ## The bodies -/

namespace Code

/-- `for item in x: yield item`. -/
def looping : Source where
  name := "looping"
  args := ["x"]
  filename := Source.defaultFilename
  labels := 2
  directives := [.loadFast "x", .emit .getIter, .bind 0, .forIter 1, .emit .yieldValue, .emit .popTop,
    .jump 0, .bind 1, .loadConst .none, .emit .returnValue]

/-- `yield from x`. -/
def delegating : Source where
  name := "delegating"
  args := ["x"]
  filename := Source.defaultFilename
  labels := 0
  directives := [.loadFast "x", .emit .yieldFrom, .emit .popTop, .loadConst .none, .emit .returnValue]

namespace Program

/-- The body that loops over its argument. -/
def looping : Program where
  instructions := [.loadFast 0, .getIter, .forIter 3, .yieldValue, .popTop, .jump (-4), .loadConst 0,
    .returnValue]
  localNames := ["x"]
  argCount := 1
  constants := [.none]

/-- The body that delegates to its argument. -/
def delegating : Program where
  instructions := [.loadFast 0, .yieldFrom, .popTop, .loadConst 0, .returnValue]
  localNames := ["x"]
  argCount := 1
  constants := [.none]

theorem assemble_looping : Code.looping.assembler.assemble = .ok looping := by decide

theorem assemble_delegating : Code.delegating.assembler.assemble = .ok delegating := by decide

end Program

end Code

/-! ## Asking an iterator -/

namespace Exception

/-- The exception without the places that it escaped from. -/
def untraced (x : Exception) : Exception := { x with traceback := none }

@[simp] theorem untraced_pushEntry (x : Exception) (entry : TraceEntry) :
    (x.pushEntry entry).untraced = x.untraced := rfl

end Exception

namespace Engine

/-- Asks for the next item of an iterator.  A generator that has come to its end raises. -/
def pull (e : Engine) : Value → Run World (Option Value)
  | .generator j => some <$> e.next j
  | .iterator i => World.withIterator i (Iterator.next e)
  | other => World.notAnIterator other

/-- There was no next item. -/
def Exhausted {σ : Type} : EStateM.Result Interruption σ (Option Value) → Prop
  | .ok none _ => True
  | .error (.raised y) _ => y.kind = .stopIteration
  | _ => False

/-- To ask for the next item raised this exception, wherever it escaped from, and it was not the end. -/
def FailedWith {σ : Type} (z : Exception) : EStateM.Result Interruption σ (Option Value) → Prop
  | .error (.raised y) _ => y.kind ≠ .stopIteration ∧ z.untraced = y.untraced
  | _ => False

/-- What a body raises that passes on the items of an iterator, where there is no next item. -/
def Echoes {σ : Type} (out : EStateM.Result Interruption σ (Option Value)) (z : Exception) : Prop :=
  Exhausted out ∧ z = .stopIteration ∨ FailedWith z out

end Engine

open Engine (Exhausted FailedWith Echoes)

/-- A generator, or an iterator over a list. -/
def World.Pullable (w : World) : Value → Prop
  | .generator _ => w.RunsOnFrames
  | .iterator i => ∃ l n, w.iterator? i = some (.list l n)
  | _ => False

theorem Run.attempt_apply {σ α : Type} (m : Run σ α) (s : σ) :
    Run.attempt m s = match m s with
      | .ok a t => .ok (.ok a) t
      | .error (.raised e) t => .ok (.error e) t
      | .error reason t => .error reason t := rfl

namespace Engine

theorem pull_generator (j : GeneratorRef) (s : World) :
    e.pull (.generator j) s = match e.next j s with
      | .ok v t => .ok (some v) t
      | .error reason t => .error reason t := by
  show (some <$> e.next j) s = _
  rw [← bind_pure_comp, Run.bind_apply]
  cases e.next j s <;> rfl

theorem pull_list {i : IteratorRef} {l : ListRef} {k : Nat} (h : s.iterator? i = some (.list l k)) :
    e.pull (.iterator i) s = .ok (s.items l)[k]? (s.stepped i l k) := next_of_list h

/-- Asked by a loop. -/
theorem nextItem_of_item (h : e.pull it s = .ok (some v) t) : e.nextItem it s = .ok (some v) t := by
  cases it with
  | generator j =>
      rw [pull_generator] at h
      cases hnext : e.next j s with
      | ok a t' =>
          rw [hnext] at h
          cases h
          show e.nextOrEnd j s = _
          unfold nextOrEnd
          rw [Run.bind_apply, Run.attempt_apply, hnext]
          rfl
      | error reason t' =>
          rw [hnext] at h
          cases h
  | _ => exact h

theorem nextItem_meets (he : e.Lenient) (hit : s.Pullable it)
    (hnot : ∀ v t, e.pull it s ≠ .ok (some v) t) :
    Run.Meets (fun given _ => given = none ∧ Exhausted (e.pull it s))
      (fun z _ => FailedWith z (e.pull it s)) (fun _ => True) (fun _ => True) (e.nextItem it) s := by
  cases it with
  | generator j =>
      show Run.Meets _ _ _ _ (e.nextOrEnd j) s
      rw [pull_generator] at hnot ⊢
      unfold Run.Meets nextOrEnd
      rw [Run.bind_apply, Run.attempt_apply]
      rcases hnext : e.next j s with ⟨a, t⟩ | ⟨y | _ | _, t⟩
      · exact absurd (by rw [hnext]) (hnot a t)
      · simp only
        by_cases hstop : y.kind = .stopIteration
        · -- the end of the iteration is forgotten
          have hsilent := releaseObjects_silent he (Value.objectsOfAll y.args) t
          rw [if_pos hstop, Run.bind_apply]
          unfold releaseException releaseAll
          rcases hrelease : e.releaseObjects (Value.objectsOfAll y.args) t with ⟨_, u⟩ | ⟨x | _ | _, u⟩
          · exact ⟨rfl, hstop⟩
          · exact absurd hrelease (hsilent x u)
          · exact True.intro
          · exact True.intro
        · rw [if_neg hstop]
          exact ⟨hstop, rfl⟩
      · exact True.intro
      · exact True.intro
  | iterator i =>
      obtain ⟨l, k, hlist⟩ := hit
      rw [pull_list hlist] at hnot ⊢
      show Run.Meets _ _ _ _ (World.withIterator i (Iterator.next e)) s
      unfold Run.Meets
      rw [next_of_list hlist]
      cases hgiven : (s.items l)[k]? with
      | none => exact ⟨rfl, True.intro⟩
      | some a =>
          rw [hgiven] at hnot
          exact absurd rfl (hnot a _)
  | _ => exact hit.elim

end Engine

namespace Machine

/-- To send `none` to a generator is to ask it for the next item. -/
theorem send_eq_pull (hs : s.RunsOnFrames) (j : GeneratorRef) :
    (some <$> (engine (n + 1)).send j .none : Run World (Option Value)) s =
      (engine (n + 1)).pull (.generator j) s := by
  rw [← bind_pure_comp, Run.bind_apply, Engine.send_none_eq_next hs j n, Engine.pull_generator]
  cases (engine (n + 1)).next j s <;> rfl

/-- Asked by a delegation. -/
theorem sendInto_of_item (hit : s.Pullable it) (h : (engine (n + 1)).pull it s = .ok (some v) t) :
    (engine (n + 1)).sendInto it .none s = .ok (.item v) t := by
  cases it with
  | generator j =>
      unfold Engine.sendInto
      rw [Run.bind_apply, Run.attempt_apply]
      simp only [send_eq_pull hit, h]
      rfl
  | iterator i =>
      obtain ⟨l, k, hlist⟩ := hit
      rw [Engine.pull_list hlist] at h
      cases hgiven : (s.items l)[k]? with
      | none =>
          rw [hgiven] at h
          cases h
      | some a =>
          rw [hgiven] at h
          cases h
          rw [Engine.sendInto_of_list hlist, hgiven]
          rfl
  | _ => exact hit.elim

theorem sendInto_meets (hit : s.Pullable it)
    (hnot : ∀ v t, (engine (n + 1)).pull it s ≠ .ok (some v) t) :
    Run.Meets (fun given _ => (∃ result, given = .finished result) ∧
        Exhausted ((engine (n + 1)).pull it s))
      (fun z _ => FailedWith z ((engine (n + 1)).pull it s)) (fun _ => True) (fun _ => True)
      ((engine (n + 1)).sendInto it .none) s := by
  cases it with
  | generator j =>
      unfold Run.Meets Engine.sendInto
      rw [Run.bind_apply, Run.attempt_apply]
      simp only [send_eq_pull hit]
      rcases hpull : (engine (n + 1)).pull (.generator j) s with ⟨_ | a, t⟩ | ⟨y | _ | _, t⟩
      · exact ⟨⟨_, rfl⟩, True.intro⟩
      · exact absurd hpull (hnot a t)
      · simp only
        by_cases hstop : y.kind = .stopIteration
        · have hsilent := Engine.releaseAll_silent (n + 1) y.args (t.retain y.stopValue)
          rw [if_pos hstop]
          unfold Engine.takeStopValue World.share
          simp only [Run.bind_apply, Run.modify_apply, Engine.releaseException]
          rcases hrelease : (engine (n + 1)).releaseAll y.args (t.retain y.stopValue) with
            ⟨_, u⟩ | ⟨x | _ | _, u⟩
          · exact ⟨⟨_, rfl⟩, hstop⟩
          · exact absurd hrelease (hsilent x u)
          · exact True.intro
          · exact True.intro
        · rw [if_neg hstop]
          exact ⟨hstop, rfl⟩
      · exact True.intro
      · exact True.intro
  | iterator i =>
      obtain ⟨l, k, hlist⟩ := hit
      rw [Engine.pull_list hlist] at hnot ⊢
      unfold Run.Meets
      rw [Engine.sendInto_of_list hlist]
      cases hgiven : (s.items l)[k]? with
      | none => exact ⟨⟨_, rfl⟩, True.intro⟩
      | some a =>
          rw [hgiven] at hnot
          exact absurd rfl (hnot a _)
  | _ => exact hit.elim

end Machine

/-! ## Getting an iterator -/

/-- To get an iterator from a value that has one more owner meanwhile. -/
theorem getIter_retain (h : World.getIter x w = .ok it s) :
    World.getIter x (w.retain x) = .ok it (s.retain x) := by
  cases x with
  | list l => cases h; rfl
  | iterator i => cases h; rfl
  | generator j => cases h; rfl
  | _ => cases h

/-- The value that an iterator was got from is still there. -/
theorem owned_getIter (h : World.getIter x w = .ok it s) : ∀ o ∈ x.objects, 1 ≤ s.owners o := by
  intro o ho
  have hone : 1 ≤ (w.retain x).owners o := by
    have := Bag.one_le_of_mem ho
    rw [World.owners_retain]
    omega
  cases x with
  | list l =>
      cases h
      obtain rfl : o = .list l := by simpa [Value.objects] using ho
      exact hone
  | iterator i => cases h; exact hone
  | generator j => cases h; exact hone
  | _ => cases h

/-! ## Asking through a body -/

namespace World

/-- The iterator that a body asks: its own over its argument to begin with, and then the one that it has. -/
def iteratorOf (x : Value) : Option Value → Run World Value
  | none => getIter x
  | some it => pure it

end World

namespace Engine

/-- A body gets its iterator and asks it, sharing it meanwhile. -/
def ask (e : Engine) (x : Value) (given : Option Value) : Run World (Option Value) := do
  let it ← World.iteratorOf x given
  World.share it
  e.pull it

theorem ask_of_iterator {given : Option Value} (h : World.iteratorOf x given w = .ok it s) :
    e.ask x given w = e.pull it (s.retain it) := Run.bind_ok h

end Engine

/-- There is no iterator over a value, which this exception says. -/
structure Value.NotIterable (x : Value) (y : Exception) : Prop where
  kind : y.kind = .typeError
  bare : Value.objectsOfAll y.args = []
  raises : ∀ w, World.getIter x w = .error (.raised y) w

/-- A generator, a list, or a value that there is no iterator over. -/
theorem Value.iterable_cases (hx : ∀ i, x ≠ .iterator i) :
    (∃ j, x = .generator j) ∨ (∃ l, x = .list l) ∨ ∃ y, x.NotIterable y := by
  cases x with
  | generator j => exact .inl ⟨j, rfl⟩
  | list l => exact .inr (.inl ⟨l, rfl⟩)
  | iterator i => exact absurd rfl (hx i)
  | _ => exact .inr (.inr ⟨_, rfl, rfl, fun _ => rfl⟩)

theorem Engine.ask_of_notIterable {y : Exception} (hx : x.NotIterable y) :
    e.ask x none w = .error (.raised y) w := Run.bind_error (hx.raises w)

theorem Engine.failed_of_notIterable {y : Exception} (hx : x.NotIterable y) (place : TraceEntry) :
    FailedWith (y.pushEntry place) (e.ask x none w) := by
  rw [Engine.ask_of_notIterable hx]
  refine ⟨?_, rfl⟩
  show y.kind ≠ _
  rw [hx.kind]
  decide

namespace Exec

/-- A run, of which the first instruction comes to one of these ends. -/
theorem run_meets {p : Code.Program} {i : Code.Instruction} {a : Activation × World}
    {Q : Suspension → Frame → Prop} {E : Exception → Prop}
    {Q₀ : Option Suspension → Activation × World → Prop} {E₀ : Exception → Activation × World → Prop}
    (he : e.Lenient) (hi : p.instructions[a.1.counter]? = some i)
    (h : Run.Meets Q₀ E₀ (fun _ => True) (fun _ => True) (execute e p closure i) (pastInstruction a))
    (hlast : ∀ b s, Q₀ (some b) s → Q b s.1.frame)
    (hnext : ∀ s, Q₀ none s → Run.Meets (fun b s => Q b s.1.frame) (fun y _ => E y) (fun _ => True)
      (fun _ => True) (run e p closure n) s)
    (hraised : ∀ y s, E₀ y s → s.1.frame.blocks = [] ∧ ∀ entry, E (y.pushEntry entry)) :
    Run.Meets (fun b s => Q b s.1.frame) (fun y _ => E y) (fun _ => True) (fun _ => True)
      (run e p closure (n + 1)) a := by
  unfold Run.Meets at h ⊢
  rw [run_succ]
  simp only [hi, Run.attempt_apply]
  rcases hx : execute e p closure i (pastInstruction a) with ⟨_ | b, s⟩ | ⟨y | _ | _, s⟩
  · rw [hx] at h
    exact hnext s h
  · rw [hx] at h
    exact hlast b s h
  · rw [hx] at h
    obtain ⟨hblocks, hE⟩ := hraised y s h
    obtain ⟨b, u⟩ := s
    have hescapes := (unwind_escapes (x := y) (w := u) he hblocks).bind (f := fun _ => run e p closure n)
    simp only
    rcases hu : (unwind e y >>= fun _ => run e p closure n) (b, u) with ⟨_, s'⟩ | ⟨x | _ | _, s'⟩ <;>
      rw [hu] at hescapes
    · exact hescapes.elim
    · obtain rfl : x = _ := hescapes
      exact hE _
    · exact True.intro
    · exact True.intro
  · exact True.intro
  · exact True.intro

theorem shared_error {α : Type} {m : Run World α} {reason : Interruption} (h : m w = .error reason t)
    (a : Activation) : (Run.shared m : Exec α) (a, w) = .error reason (a, t) := by
  unfold Run.shared
  simp only [h]

/-- A step on the shared half that raises nothing leaves the private half as it is. -/
theorem shared_meets {m : Run World Unit} {a : Activation} (hm : Run.Silent m) :
    Run.Meets (fun _ s => s.1 = a) (fun _ _ => False) (fun _ => True) (fun _ => True)
      (Run.shared m : Exec Unit) (a, w) := by
  unfold Run.Meets Run.shared
  simp only
  rcases hx : m w with ⟨b, t⟩ | ⟨x | _ | _, t⟩
  · rfl
  · exact hm w x t hx
  · exact True.intro
  · exact True.intro

/-- A step that owns a value meanwhile. -/
theorem owning_meets {α : Type} {Q : α → Activation → Prop} {E : Exception → Activation → Prop}
    {m : Exec α} {a : Activation × World} (he : e.Lenient)
    (hm : Run.Meets (fun b s => Q b s.1) (fun y s => E y s.1) (fun _ => True) (fun _ => True) m a) :
    Run.Meets (fun b s => Q b s.1) (fun y s => E y s.1) (fun _ => True) (fun _ => True)
      (owning e v m) a := by
  have hforgotten : ∀ {P : Activation → Prop} (s : Activation × World), P s.1 →
      Run.Meets (fun _ t => P t.1) (fun y s => E y s.1) (fun _ => True) (fun _ => True) (release e v)
        s := fun {P} s hs =>
    (shared_meets (a := s.1) (Engine.releaseObjects_silent he v.objects)).mono
      (fun _ _ ht => ht ▸ hs) (fun _ _ h => h.elim) (fun _ h => h) fun _ h => h
  exact hm.ensuring (fun b s hs => hforgotten s hs) (fun y s hs => hforgotten s hs) fun s _ =>
    hforgotten (P := fun _ => True) s True.intro

end Exec

/-- What a run comes to is what the resume of the frame comes to. -/
theorem Code.Program.resume_meets {p : Code.Program} {f : Frame} {Q : Suspension → Frame → Prop}
    {E : Exception → Prop} (he : e.Lenient) (hstart : 0 ≤ f.position)
    (h : Run.Meets (fun b s => Q b s.1.frame) (fun y _ => E y) (fun _ => True) (fun _ => True)
      (Exec.resume e p closure none) (activate f, w)) :
    Run.Meets (fun b s => Q b s.1) (fun y _ => E y) (fun _ => True) (fun _ => True)
      (p.resume e closure none) (f, w) := by
  unfold Run.Meets at h ⊢
  rw [resume_apply hstart]
  rcases hx : Exec.resume e p closure none (activate f, w) with ⟨b, a, t⟩ | ⟨y | _ | _, a, t⟩ <;>
    rw [hx] at h <;> simp only [settle]
  case ok =>
    rcases hr : e.release a.sent t with ⟨_, u⟩ | ⟨z | _ | _, u⟩
    · exact h
    · exact (Engine.releaseObjects_silent he a.sent.objects t z u hr).elim
    · exact True.intro
    · exact True.intro
  case error.raised =>
    rcases hr : e.release a.sent t with ⟨_, u⟩ | ⟨z | _ | _, u⟩
    · exact h
    · exact (Engine.releaseObjects_silent he a.sent.objects t z u hr).elim
    · exact True.intro
    · exact True.intro
  case error.aborted =>
    rcases hr : e.release a.sent t with ⟨_, u⟩ | ⟨z | _ | _, u⟩
    · exact True.intro
    · exact (Engine.releaseObjects_silent he a.sent.objects t z u hr).elim
    · exact True.intro
    · exact True.intro

/-! ## The loop -/

/-- The frame of a body that loops: after an item of an iterator, this one is on the stack. -/
def Frame.looping (c : CodeRef) (x : Value) : Option Value → Frame
  | none => .new c [x]
  | some it => { Frame.new c [x] with position := 4, stack := [it] }

theorem Frame.looping_started (c : CodeRef) (x : Value) (given : Option Value) :
    0 ≤ (Frame.looping c x given).position := by
  cases given with
  | none => exact le_rfl
  | some it => exact show (0 : Int) ≤ 4 by decide

namespace Exec

open Code.Program

section Loop

/-- The loop, about to ask the iterator on top. -/
def looping (c : CodeRef) (x it : Value) (position : Int) : Activation :=
  ⟨{ Frame.new c [x] with position := position, stack := [it] }, 2, .none⟩

variable {position : Int} {given : Option Value}

/-- The loop gets an iterator to begin with, and goes back to the one that it has from then on. -/
theorem resume_looping (closure : Value) (hiter : World.iteratorOf x given w = .ok it s) (hfuel : e.fuel = n + 2) :
    ∃ position, resume e .looping closure none (activate (.looping c x given), w) =
      run e .looping closure n (looping c x it position, s) := by
  cases given with
  | none =>
      have hgot : owning e x (do push (← Run.shared (World.getIter x)) : Exec Unit)
          (⟨.new c [x], 2, .none⟩, w.retain x) = .ok () (looping c x it 0, s) := by
        refine Run.ensuring_ok (t := (looping c x it 0, s.retain x)) ?_
          (shared_ok (Engine.release_retain (owned_getIter hiter)) _)
        exact Run.bind_ok (shared_ok (getIter_retain hiter) _)
      refine ⟨0, ?_⟩
      calc
        _ = run e .looping closure (n + 2) (⟨.new c [x], 0, .none⟩, w) := by
            rw [← hfuel]
            rfl
        _ = run e .looping closure (n + 1)
              (⟨{ Frame.new c [x] with stack := [x] }, 1, .none⟩, w.retain x) := run_next rfl rfl
        _ = _ := run_next (i := .getIter) rfl (Run.bind_ok (a := ()) hgot)
  | some inner =>
      cases hiter
      have hlands : Lands ⟨{ Frame.new c [x] with position := 4, stack := [it] }, 6, .none⟩ (-4) :=
        ⟨show (0 : Int) ≤ 6 + -4 by decide, show (6 + -4 : Int) ≤ Frame.greatestPosition by decide⟩
      have hback := jump_of_lands hlands w
      refine ⟨4, ?_⟩
      calc
        _ = run e .looping closure (n + 2)
              (⟨{ Frame.new c [x] with position := 4, stack := [.none, it] }, 4, .none⟩, w) := by
            rw [← hfuel, resume_eq]
            exact Run.bind_ok (enterFrame_sent (k := 3) rfl rfl w)
        _ = run e .looping closure (n + 1)
              (⟨{ Frame.new c [x] with position := 4, stack := [it] }, 5, .none⟩, w) :=
            run_next rfl rfl
        _ = _ := run_next (i := .jump (-4)) rfl (Run.bind_ok (a := ()) hback)

/-- The item that the iterator gives is yielded. -/
theorem run_looping_item {o : Object} (hobjects : it.objects = [o])
    (hitem : e.nextItem it (w.retain it) = .ok (some v) t) (htwo : 2 ≤ t.owners o) :
    run e .looping closure (n + 2) (looping c x it position, w) =
      .ok (.yielded v) (⟨.looping c x it, 4, .none⟩, t.setOwners (t.owners o - 1) o) := by
  have hasked : execute e .looping closure (.forIter 3)
      (pastInstruction (looping c x it position, w)) =
        .ok none (⟨{ Frame.new c [x] with position := position, stack := [v, it] }, 3, .none⟩,
          t.setOwners (t.owners o - 1) o) := by
    refine Run.bind_ok (a := ()) (Run.ensuring_ok (t := (_, t))
      (Run.bind_ok (shared_ok hitem _)) (shared_ok (Engine.release_of_shared hobjects htwo) _))
  calc
    _ = run e .looping closure (n + 1)
          (⟨{ Frame.new c [x] with position := position, stack := [v, it] }, 3, .none⟩,
            t.setOwners (t.owners o - 1) o) := run_next (i := .forIter 3) rfl hasked
    _ = _ := run_last rfl rfl

/-- Without an item the loop is left, with nothing on the stack. -/
theorem forIter_meets (he : e.Lenient) (hit : (w.retain it).Pullable it)
    (hnot : ∀ v t, e.pull it (w.retain it) ≠ .ok (some v) t) :
    Run.Meets
      (fun b s => b = none ∧ s.1 = (⟨{ Frame.new c [x] with position := position }, 6, .none⟩ : Activation) ∧
        Exhausted (e.pull it (w.retain it)))
      (fun z s => s.1.frame.blocks = [] ∧ FailedWith z (e.pull it (w.retain it))) (fun _ => True)
      (fun _ => True) (execute e .looping closure (.forIter 3))
      (pastInstruction (looping c x it position, w)) := by
  let asking : Activation := ⟨{ Frame.new c [x] with position := position, stack := [it] }, 3, .none⟩
  let left : Activation := ⟨{ Frame.new c [x] with position := position }, 3, .none⟩
  let ended : Activation := { left with counter := 6 }
  let Q : Activation → Prop := fun a => a = ended ∧ Exhausted (e.pull it (w.retain it))
  let E : Exception → Activation → Prop := fun z a =>
    a.frame.blocks = [] ∧ FailedWith z (e.pull it (w.retain it))
  have hleft : ∀ u, Exhausted (e.pull it (w.retain it)) → Run.Meets (fun _ s => Q s.1)
      (fun z s => E z s.1) (fun _ => True) (fun _ => True) (do
        release e it
        jump 3) (left, u) := fun u hended => by
    refine ((shared_meets (Engine.releaseObjects_silent he it.objects)).mono (fun _ _ h => h)
      (fun _ _ h => h.elim) (fun _ h => h) fun _ h => h).bind fun _ s h => ?_
    obtain ⟨a, u⟩ := s
    obtain rfl : a = left := h
    have hlands : Lands left 3 :=
      ⟨show (0 : Int) ≤ 3 + 3 by decide, show (3 + 3 : Int) ≤ Frame.greatestPosition by decide⟩
    have hjumped := jump_of_lands hlands u
    unfold Run.Meets
    rw [hjumped]
    exact ⟨rfl, hended⟩
  have hlooped : Run.Meets (fun (_ : Unit) s => Q s.1) (fun z s => E z s.1) (fun _ => True)
      (fun _ => True) (Run.shared (e.nextItem it) >>= loopOn e 3) (asking, w.retain it) := by
    refine ((Engine.nextItem_meets he hit hnot).shared.mono (fun _ _ h => h)
      (fun z s h => ⟨by rw [h.1]; rfl, h.2⟩) (fun _ _ => True.intro) fun _ _ => True.intro).bind
        fun asked s h => ?_
    obtain ⟨a, u⟩ := s
    obtain ⟨rfl, rfl, hended⟩ := h
    exact hleft u hended
  show Run.Meets _ _ _ _ (forIter e 3 >>= fun _ => pure none) _
  rw [forIter_eq]
  exact (owning_meets (Q := fun _ => Q) he hlooped).bind fun _ s h => Run.Meets.pure ⟨rfl, h⟩

/-- The loop ends the body if there is no item. -/
theorem run_looping_meets (closure : Value) (position : Int) (he : e.Lenient) (hit : (w.retain it).Pullable it)
    (hnot : ∀ v t, e.pull it (w.retain it) ≠ .ok (some v) t) :
    Run.Meets (fun b _ => b = .returned .none ∧ Exhausted (e.pull it (w.retain it)))
      (fun z _ => FailedWith z (e.pull it (w.retain it))) (fun _ => True) (fun _ => True)
      (run e .looping closure (n + 3)) (looping c x it position, w) := by
  refine run_meets (Q := fun b _ => b = .returned .none ∧ _) he (i := .forIter 3) rfl
    (forIter_meets he hit hnot) (fun b s h => nomatch h.1) (fun s h => ?_) fun y s h => ?_
  · obtain ⟨a, u⟩ := s
    obtain ⟨-, rfl, hended⟩ := h
    have hreturned : run e .looping closure (n + 2)
        (⟨{ Frame.new c [x] with position := position }, 6, .none⟩, u) =
          .ok (.returned .none) (⟨{ (Frame.new c [x]).markFinished with blocks := [] }, 8, .none⟩, u) :=
      (run_next (i := .loadConst 0) rfl rfl).trans (run_last (i := .returnValue) rfl rfl)
    unfold Run.Meets
    rw [hreturned]
    exact ⟨rfl, hended⟩
  · exact ⟨h.1, fun entry => h.2⟩

/-- There is nothing to loop over. -/
theorem resume_looping_meets (he : e.Lenient) (hx : x.NotIterable y) (hfuel : e.fuel = n + 2) :
    Run.Meets (fun _ _ => False) (fun z _ => FailedWith z (e.ask x none w)) (fun _ => True)
      (fun _ => True) (resume e .looping closure none) (activate (.looping c x none), w) := by
  have hrefused : Run.Meets (fun (_ : Unit) _ => False) (fun z s => z = y ∧ s.1.frame.blocks = [])
      (fun _ => True) (fun _ => True) (do push (← Run.shared (World.getIter x)))
      ((⟨.new c [x], 2, .none⟩, w.retain x) : Activation × World) := by
    unfold Run.Meets
    rw [Run.bind_error (shared_error (hx.raises _) _)]
    exact ⟨rfl, rfl⟩
  have hrun : Run.Meets (fun _ _ => False) (fun z _ => FailedWith z (e.ask x none w)) (fun _ => True)
      (fun _ => True) (run e .looping closure (n + 1))
      (⟨{ Frame.new c [x] with stack := [x] }, 1, .none⟩, w.retain x) := by
    refine run_meets (Q := fun _ _ => False) he (i := .getIter) rfl
      ((owning_meets (Q := fun _ _ => False) (E := fun z a => z = y ∧ a.frame.blocks = []) he
        hrefused).bind (R := fun _ _ => False) fun _ _ h => h.elim)
      (fun _ _ h => h.elim) (fun _ h => h.elim) fun z s h => ?_
    obtain ⟨rfl, hblocks⟩ := h
    exact ⟨hblocks, fun entry => Engine.failed_of_notIterable hx entry⟩
  have hsame : resume e .looping closure none (activate (.looping c x none), w) =
      run e .looping closure (n + 1) (⟨{ Frame.new c [x] with stack := [x] }, 1, .none⟩, w.retain x) := by
    calc
      _ = run e .looping closure (n + 2) (⟨.new c [x], 0, .none⟩, w) := by
          rw [← hfuel]
          rfl
      _ = _ := run_next rfl rfl
  unfold Run.Meets at hrun ⊢
  rwa [hsame]

end Loop

end Exec

/-- A body can ask for an item: it gets an iterator that can be asked, unless there is none over its argument to
begin with. -/
def World.Askable (w : World) (x : Value) (given : Option Value) : Prop :=
  (∃ it s, World.iteratorOf x given w = .ok it s ∧ (s.retain it).Pullable it) ∨
    given = none ∧ ∃ y, x.NotIterable y

namespace Code.Program

variable {given : Option Value}

/-- The body that loops yields the item. -/
theorem looping_item {o : Object} (hiter : World.iteratorOf x given w = .ok it s)
    (hitem : e.ask x given w = .ok (some v) t) (hfuel : 4 ≤ e.fuel) (hobjects : it.objects = [o])
    (htwo : 2 ≤ t.owners o) :
    looping.resume e closure none (.looping c x given, w) =
      .ok (.yielded v) (.looping c x (some it), t.setOwners (t.owners o - 1) o) := by
  obtain ⟨n, hn⟩ : ∃ n, e.fuel = n + 4 := ⟨_, (Nat.sub_add_cancel hfuel).symm⟩
  obtain ⟨position, hstarted⟩ := Exec.resume_looping (c := c) closure hiter hn
  rw [Engine.ask_of_iterator hiter] at hitem
  have hran := hstarted.trans
    (Exec.run_looping_item hobjects (Engine.nextItem_of_item hitem) htwo)
  rw [resume_apply (Frame.looping_started c x given), hran]
  rfl

/-- Without an item, the body that loops returns, or it passes the exception on. -/
theorem looping_meets (he : e.Lenient) (hw : w.Askable x given) (hfuel : 5 ≤ e.fuel)
    (hnot : ∀ v t, e.ask x given w ≠ .ok (some v) t) :
    Run.Meets (fun b _ => b = .returned .none ∧ Exhausted (e.ask x given w))
      (fun z _ => FailedWith z (e.ask x given w)) (fun _ => True) (fun _ => True)
      (looping.resume e closure none) (.looping c x given, w) := by
  obtain ⟨n, hn⟩ : ∃ n, e.fuel = n + 5 := ⟨_, (Nat.sub_add_cancel hfuel).symm⟩
  refine resume_meets (Q := fun b _ => b = .returned .none ∧ Exhausted (e.ask x given w)) he
    (Frame.looping_started c x given) ?_
  rcases hw with ⟨it, s, hiter, hit⟩ | ⟨rfl, y, hx⟩
  · obtain ⟨position, hstarted⟩ := Exec.resume_looping (c := c) closure hiter hn
    rw [Engine.ask_of_iterator hiter] at hnot ⊢
    have hran := Exec.run_looping_meets (c := c) (x := x) (n := n) closure position he hit hnot
    unfold Run.Meets at hran ⊢
    rwa [hstarted]
  · exact (Exec.resume_looping_meets he hx hn).imp fun _ _ h => h.elim

end Code.Program

/-! ## The delegation -/

/-- The frame of a body that delegates: after an item of an iterator, this one is the delegate. -/
def Frame.delegating (c : CodeRef) (x : Value) : Option Value → Frame
  | none => .new c [x]
  | some it => { Frame.new c [x] with position := 1, delegate := some it }

theorem Frame.delegating_started (c : CodeRef) (x : Value) (given : Option Value) :
    0 ≤ (Frame.delegating c x given).position := by
  cases given with
  | none => exact le_rfl
  | some it => exact show (0 : Int) ≤ 1 by decide

namespace Exec

open Code.Program

section Delegation

variable {given : Option Value} {b : Activation}

/-- The delegation, while its iterator is asked. -/
def relaying (c : CodeRef) (x it : Value) : Activation := ⟨.delegating c x (some it), 2, .none⟩

/-- Without a delegate, there is to be one over the value on top. -/
theorem delegate_of_none {a : Activation} (h : a.frame.delegate = none) :
    delegate e (a, w) = (do
      let iterable ← pop
      let inner ← owning e iterable (Run.shared (World.getIter iterable))
      modifyFrame fun f => { f with delegate := some inner }
      Run.shared (World.share inner)
      return inner : Exec Value) (a, w) := by
  unfold delegate
  rw [Run.bind_apply]
  simp only [activation, h]

/-- A delegation that has found its iterator asks it. -/
theorem execute_of_delegate {a : Activation} (hposition : a.counter = 2) (hsent : a.sent = .none)
    (hframe : { a.frame with position := 1 } = Frame.delegating c x (some it))
    (h : delegate e (b, w) = .ok it (a, t)) :
    execute e .delegating closure .yieldFrom (b, w) =
      (some <$> owning e it (converse e it .none) : Exec _) (relaying c x it, t) := by
  have hyielded : yieldFrom e (b, w) = owning e it (converse e it .none) (relaying c x it, t) := by
    rw [yieldFrom, Run.bind_ok h]
    refine Run.ensuring_congr ?_
    obtain ⟨f, counter, sent⟩ := a
    obtain rfl : counter = 2 := hposition
    obtain rfl : sent = .none := hsent
    unfold relaying
    rw [← hframe]
    rfl
  show (some <$> yieldFrom e) (b, w) = _
  rw [← bind_pure_comp, ← bind_pure_comp, Run.bind_apply, Run.bind_apply, hyielded]

/-- The iterator becomes the delegate to begin with, and stays it from then on. -/
theorem resume_delegating (closure : Value) (hiter : World.iteratorOf x given w = .ok it s) (hfuel : e.fuel = n + 2) :
    ∃ k a u, resume e .delegating closure none (activate (.delegating c x given), w) =
        run e .delegating closure (k + 1) (a, u) ∧ a.counter = 1 ∧
      execute e .delegating closure .yieldFrom (pastInstruction (a, u)) =
        (some <$> owning e it (converse e it .none) : Exec _) (relaying c x it, s.retain it) := by
  cases given with
  | none =>
      have hgot : owning e x (Run.shared (World.getIter x) : Exec Value)
          (⟨.new c [x], 2, .none⟩, w.retain x) = .ok it (⟨.new c [x], 2, .none⟩, s) :=
        Run.ensuring_ok (shared_ok (getIter_retain hiter) _)
          (shared_ok (Engine.release_retain (owned_getIter hiter)) _)
      have hfound : delegate e (⟨{ Frame.new c [x] with stack := [x] }, 2, .none⟩, w.retain x) =
          .ok it (⟨{ Frame.new c [x] with delegate := some it }, 2, .none⟩, s.retain it) := by
        have hpopped : pop (⟨{ Frame.new c [x] with stack := [x] }, 2, .none⟩, w.retain x) =
            .ok x (⟨.new c [x], 2, .none⟩, w.retain x) := rfl
        rw [delegate_of_none rfl, Run.bind_ok hpopped, Run.bind_ok hgot]
        rfl
      refine ⟨n, ⟨{ Frame.new c [x] with stack := [x] }, 1, .none⟩, w.retain x, ?_, rfl, ?_⟩
      · calc
          _ = run e .delegating closure (n + 2) (⟨.new c [x], 0, .none⟩, w) := by
              rw [← hfuel]
              rfl
          _ = _ := run_next rfl rfl
      · exact execute_of_delegate rfl rfl rfl hfound
  | some inner =>
      cases hiter
      refine ⟨n + 1, ⟨.delegating c x (some it), 1, .none⟩, w, ?_, rfl, ?_⟩
      · rw [← hfuel]
        rfl
      · exact execute_of_delegate (a := relaying c x it) rfl rfl rfl rfl

/-- The item that the iterator gives is yielded. -/
theorem relaying_item {o : Object} (hobjects : it.objects = [o])
    (hitem : e.sendInto it .none w = .ok (.item v) t) (htwo : 2 ≤ t.owners o) :
    (some <$> owning e it (converse e it .none) : Exec _) (relaying c x it, w) =
      .ok (some (.yielded v)) (relaying c x it, t.setOwners (t.owners o - 1) o) := by
  have hasked : converse e it .none (relaying c x it, w) = .ok (.yielded v) (relaying c x it, t) := by
    unfold converse
    rw [Run.bind_apply]
    simp only [Run.attempt, shared_ok hitem]
    rfl
  rw [← bind_pure_comp]
  exact Run.bind_ok (Run.ensuring_ok hasked (shared_ok (Engine.release_of_shared hobjects htwo) _))

/-- Without an item the delegate has run out, or the exception goes on. -/
theorem relaying_meets {E : Prop} {P : Exception → Prop} (he : e.Lenient)
    (hasked : Run.Meets (fun given _ => (∃ result, given = .finished result) ∧ E) (fun z _ => P z)
      (fun _ => True) (fun _ => True) (e.sendInto it .none) w) :
    Run.Meets
      (fun b s => ∃ result, b = some (.delegateExhausted result) ∧ s.1 = relaying c x it ∧ E)
      (fun z s => s.1.frame.blocks = [] ∧ P z) (fun _ => True) (fun _ => True)
      (some <$> owning e it (converse e it .none)) (relaying c x it, w) := by
  have hdropped : ∀ z u, P z → Run.Meets
      (fun b s => ∃ result, b = Suspension.delegateExhausted result ∧ s.1 = relaying c x it ∧ E)
      (fun z s => s.1.frame.blocks = [] ∧ P z) (fun _ => True) (fun _ => True) (do
        replace e Frame.removeDelegate
        Run.raise z) (relaying c x it, u) := fun z u hz => by
    refine ((shared_meets (a := { relaying c x it with frame := (relaying c x it).frame.removeDelegate.1 })
      (Engine.releaseObjects_silent he (Value.objectsOfAll [it]))).mono (fun _ _ h => h)
      (fun _ _ h => h.elim) (fun _ h => h) fun _ h => h).bind fun _ s h => ?_
    exact Run.Meets.raise ⟨by rw [h]; rfl, hz⟩
  have hconversed : Run.Meets
      (fun b s => ∃ result, b = Suspension.delegateExhausted result ∧ s.1 = relaying c x it ∧ E)
      (fun z s => s.1.frame.blocks = [] ∧ P z) (fun _ => True) (fun _ => True)
      (converse e it .none) (relaying c x it, w) := by
    refine (hasked.shared.attempt.mono (fun _ _ h => h) (fun _ _ h => h.elim) (fun _ _ => True.intro)
      fun _ _ => True.intro).bind fun asked s h => ?_
    obtain ⟨a, u⟩ := s
    rcases asked with z | asked
    · obtain ⟨rfl, hz⟩ := h
      exact hdropped z u hz
    · obtain ⟨rfl, ⟨result, rfl⟩, hE⟩ := h
      exact ⟨result, rfl, rfl, hE⟩
  exact (owning_meets (Q := fun b a => ∃ result, b = .delegateExhausted result ∧ a = _ ∧ E)
    (E := fun z a => a.frame.blocks = [] ∧ P z) he hconversed).map fun b s ⟨result, hb, hs⟩ =>
      ⟨result, congrArg some hb, hs⟩

/-- There is nothing to delegate to. -/
theorem resume_delegating_meets (he : e.Lenient) (hx : x.NotIterable y) (hfuel : e.fuel = n + 2) :
    Run.Meets (fun _ _ => False) (fun z _ => FailedWith z (e.ask x none w)) (fun _ => True)
      (fun _ => True) (resume e .delegating closure none) (activate (.delegating c x none), w) := by
  have hrefused : Run.Meets (fun (_ : Value) _ => False) (fun z s => z = y ∧ s.1.frame.blocks = [])
      (fun _ => True) (fun _ => True) (Run.shared (World.getIter x))
      ((⟨.new c [x], 2, .none⟩, w.retain x) : Activation × World) := by
    unfold Run.Meets
    rw [shared_error (hx.raises _) _]
    exact ⟨rfl, rfl⟩
  have hyielded : Run.Meets (fun (_ : Option Suspension) _ => False)
      (fun z s => z = y ∧ s.1.frame.blocks = []) (fun _ => True) (fun _ => True)
      (execute e .delegating closure .yieldFrom)
      (⟨{ Frame.new c [x] with stack := [x] }, 2, .none⟩, w.retain x) := by
    have hfound : Run.Meets (fun (_ : Value) _ => False) (fun z s => z = y ∧ s.1.frame.blocks = [])
        (fun _ => True) (fun _ => True) (delegate e)
        (⟨{ Frame.new c [x] with stack := [x] }, 2, .none⟩, w.retain x) := by
      unfold Run.Meets
      rw [delegate_of_none rfl]
      exact (owning_meets (v := x) (Q := fun _ _ => False)
        (E := fun z a => z = y ∧ a.frame.blocks = []) he hrefused).bind fun _ _ h => h.elim
    exact (hfound.bind (R := fun (_ : Suspension) _ => False) fun _ _ h => h.elim).map fun _ _ h => h
  have hrun : Run.Meets (fun _ _ => False) (fun z _ => FailedWith z (e.ask x none w)) (fun _ => True)
      (fun _ => True) (run e .delegating closure (n + 1))
      (⟨{ Frame.new c [x] with stack := [x] }, 1, .none⟩, w.retain x) := by
    refine run_meets (Q := fun _ _ => False) he (i := .yieldFrom) rfl hyielded
      (fun _ _ h => h.elim) (fun _ h => h.elim) fun z s h => ?_
    obtain ⟨rfl, hblocks⟩ := h
    exact ⟨hblocks, fun entry => Engine.failed_of_notIterable hx entry⟩
  have hsame : resume e .delegating closure none (activate (.delegating c x none), w) =
      run e .delegating closure (n + 1)
        (⟨{ Frame.new c [x] with stack := [x] }, 1, .none⟩, w.retain x) := by
    calc
      _ = run e .delegating closure (n + 2) (⟨.new c [x], 0, .none⟩, w) := by
          rw [← hfuel]
          rfl
      _ = _ := run_next rfl rfl
  unfold Run.Meets at hrun ⊢
  rwa [hsame]

end Delegation

end Exec

/-- The frame of a body that delegates, when its delegate has run out with this result. -/
def Frame.undelegated (c : CodeRef) (x result : Value) : Frame :=
  { Frame.new c [x] with position := 2, delegationResult := some result }

namespace Code.Program

variable {given : Option Value}

/-- The body that delegates yields the item. -/
theorem delegating_item {o : Object} (hiter : World.iteratorOf x given w = .ok it s)
    (hit : (s.retain it).Pullable it) (hitem : (Machine.engine (n + 3)).ask x given w = .ok (some v) t)
    (hobjects : it.objects = [o]) (htwo : 2 ≤ t.owners o) :
    delegating.resume (Machine.engine (n + 3)) closure none (.delegating c x given, w) =
      .ok (.yielded v) (.delegating c x (some it), t.setOwners (t.owners o - 1) o) := by
  obtain ⟨k, a, u, hstarted, hcounter, hyields⟩ := Exec.resume_delegating (e := Machine.engine (n + 3))
    (c := c) (n := n + 1) closure hiter rfl
  rw [Engine.ask_of_iterator hiter] at hitem
  have hi : delegating.instructions[a.counter]? = some .yieldFrom := by rw [hcounter]; rfl
  have hran := hstarted.trans (Exec.run_last hi (hyields.trans
    (Exec.relaying_item hobjects (Machine.sendInto_of_item hit hitem) htwo)))
  rw [resume_apply (Frame.delegating_started c x given), hran]
  rfl

/-- Without an item, the body that delegates has to be told that its delegate ran out, or it passes the
exception on. -/
theorem delegating_meets (closure : Value) (hw : w.Askable x given)
    (hnot : ∀ v t, (Machine.engine (n + 3)).ask x given w ≠ .ok (some v) t) :
    Run.Meets
      (fun b s => ((∃ result, b = .delegateExhausted result) ∧ ∃ it, s.1 = .delegating c x (some it)) ∧
        Exhausted ((Machine.engine (n + 3)).ask x given w))
      (fun z _ => FailedWith z ((Machine.engine (n + 3)).ask x given w)) (fun _ => True)
      (fun _ => True) (delegating.resume (Machine.engine (n + 3)) closure none)
      (.delegating c x given, w) := by
  have he := Engine.machine_lenient (n + 3)
  refine resume_meets (Q := fun b f => ((∃ result, b = .delegateExhausted result) ∧
    ∃ it, f = .delegating c x (some it)) ∧ _) he (Frame.delegating_started c x given) ?_
  rcases hw with ⟨it, s, hiter, hit⟩ | ⟨rfl, y, hx⟩
  · obtain ⟨k, a, u, hstarted, hcounter, hyields⟩ := Exec.resume_delegating
      (e := Machine.engine (n + 3)) (c := c) (n := n + 1) closure hiter rfl
    rw [Engine.ask_of_iterator hiter] at hnot ⊢
    have hi : delegating.instructions[a.counter]? = some .yieldFrom := by rw [hcounter]; rfl
    have hasked := Exec.relaying_meets (c := c) (x := x) he (Machine.sendInto_meets hit hnot)
    let Q : Suspension → Frame → Prop := fun b f => ((∃ result, b = .delegateExhausted result) ∧
      ∃ it, f = .delegating c x (some it)) ∧ Exhausted ((Machine.engine (n + 3)).pull it (s.retain it))
    have hran : Run.Meets (fun b t => Q b t.1.frame)
        (fun z _ => FailedWith z ((Machine.engine (n + 3)).pull it (s.retain it))) (fun _ => True)
        (fun _ => True) (Exec.run (Machine.engine (n + 3)) delegating closure (k + 1)) (a, u) := by
      unfold Run.Meets at hasked
      rw [← hyields] at hasked
      refine Exec.run_meets he hi hasked (fun b t h => ?_) (fun t h => ?_) fun z t h => ⟨h.1, fun _ => h.2⟩
      · obtain ⟨result, hb, ht, hended⟩ := h
        exact ⟨⟨⟨result, Option.some.inj hb⟩, it, by rw [ht]; rfl⟩, hended⟩
      · obtain ⟨result, hb, -⟩ := h
        cases hb
    unfold Run.Meets at hran ⊢
    rwa [hstarted]
  · exact (Exec.resume_delegating_meets he hx rfl).imp fun _ _ h => h.elim

/-- The body that delegates returns once it was told that its delegate ran out. -/
theorem undelegated_meets (he : e.Lenient) (hfuel : 3 ≤ e.fuel) (result : Value) :
    Run.Meets (fun b _ => b = .returned .none) (fun _ _ => False) (fun _ => True) (fun _ => True)
      (delegating.resume e closure none) (.undelegated c x result, w) := by
  obtain ⟨n, hn⟩ : ∃ n, e.fuel = n + 3 := ⟨_, (Nat.sub_add_cancel hfuel).symm⟩
  refine resume_meets (Q := fun b _ => b = .returned .none) (E := fun _ => False) he
    (show (0 : Int) ≤ 2 by decide) ?_
  let told : Activation := ⟨{ Frame.new c [x] with position := 2, stack := [result] }, 2, .none⟩
  let popped : Activation := ⟨{ Frame.new c [x] with position := 2 }, 3, .none⟩
  have hpopped : Run.Meets (fun b s => b = none ∧ s.1 = popped) (fun _ _ => False) (fun _ => True)
      (fun _ => True) (Exec.execute e delegating closure .popTop) (Exec.pastInstruction (told, w)) := by
    have hreleased := (Exec.shared_meets (w := w) (a := popped)
      (Engine.releaseObjects_silent he result.objects)).bind (R := fun b s => b = none ∧ s.1 = popped)
      (f := fun _ => (pure none : Exec (Option Suspension)))
      fun _ _ h => Run.Meets.pure ⟨rfl, h⟩
    exact hreleased
  have hran : Run.Meets (fun b _ => b = .returned .none) (fun _ _ => False) (fun _ => True)
      (fun _ => True) (Exec.run e delegating closure (n + 3)) (told, w) := by
    refine Exec.run_meets (Q := fun b _ => b = .returned .none) (E := fun _ => False) he
      (i := .popTop) rfl hpopped (fun _ _ h => nomatch h.1) (fun s h => ?_) fun _ _ h => h.elim
    obtain ⟨a, u⟩ := s
    obtain ⟨-, rfl⟩ := h
    have hreturned : Exec.run e delegating closure (n + 2) (popped, u) = .ok (.returned .none)
        (⟨{ (Frame.new c [x]).markFinished with blocks := [] }, 5, .none⟩, u) :=
      (Exec.run_next (i := .loadConst 0) rfl rfl).trans (Exec.run_last (i := .returnValue) rfl rfl)
    unfold Run.Meets
    rw [hreturned]
  have hsame : Exec.resume e delegating closure none (activate (.undelegated c x result), w) =
      Exec.run e delegating closure (n + 3) (told, w) := by
    rw [← hn]
    rfl
  unfold Run.Meets at hran ⊢
  rwa [hsame]

end Code.Program

end Resumable
