import Resumable.Proofs.Halting

set_option autoImplicit false

/-!
# Programs that only go forward

In a program whose jumps, loops and handlers all lead forward, an instruction leads further on or
installs a handler further on, and an exception uses a handler up.  So a number that counts the
instructions ahead, those behind the counter and those behind each handler, decreases with every step
(`weight`), and a run that touches only lists and iterators over them halts (`run_halts`).
-/

namespace Resumable

variable {P : Object → Prop} {p : Code.Program} {g : GeneratorRef} {r : FrameRef} {α : Type}
  {w : World} {v : Value}

/-! ## Steps on a confined world -/

/-- A computation halts in a confined world, and its result is of the sort. -/
abbrev Orderly [Holder α] (P : Object → Prop) (p : Code.Program) (g : GeneratorRef) (r : FrameRef)
    (m : Nat → Run World α) (w : World) : Prop :=
  Halts P (fun a t => Within P a ∧ t.Confined P p g r) (fun t => t.Confined P p g r) m w

theorem owning_orderly [Holder α] (hP : Listlike P) (hv : Within P v) {m : Nat → Run World α}
    (hm : Orderly P p g r m w) : Orderly P p g r (fun k => (Machine.engine k).owning v (m k)) w :=
  hm.ensuring (fun _ _ ht => (release_halts hP ht.2 hv).imp fun _ _ hu => ⟨ht.1, hu⟩)
    fun _ ht => release_halts hP ht hv

/-- Taking an iterator out of its cell for the time of a computation. -/
theorem withIterator_halts {Q : α → Iterator × World → Prop} {J : Iterator × World → Prop}
    {Q' : α → World → Prop} {J' : World → Prop} {m : Nat → Run (Iterator × World) α}
    {i : IteratorRef} {x : Iterator} (hx : w.iterator? i = some x)
    (hm : Halts P Q J m (x, w.setIterator i none))
    (hQ : ∀ a y t, Q a (y, t) → Q' a (t.setIterator i (some y)))
    (hJ : ∀ y t, J (y, t) → J' (t.setIterator i (some y))) :
    Halts P Q' J' (fun k => World.withIterator i (m k)) w := by
  refine (Halts.withPrivate (fun y t => t.setIterator i (some y)) hm hQ hJ).congr fun k => ?_
  unfold World.withIterator
  rw [hx]

section Worlds

variable (hw : w.Confined P p g r)

include hw

theorem abort_orderly [Holder α] : Orderly P p g r (fun _ => (World.abort : Run World α)) w :=
  Halts.of_eq (fun _ => rfl) (.aborted (hw.setUnwinding true))

theorem share_orderly (v : Value) : Orderly P p g r (fun _ => World.share v) w :=
  Halts.of_ok (fun _ => rfl) ⟨within_of_holds_zero rfl, hw.retain v⟩

theorem typeName_halts (v : Value) :
    Halts P (fun _ t => t.Confined P p g r) (fun t => t.Confined P p g r)
      (fun _ => World.typeName v) w := by
  cases htype : w.typeName? v with
  | none =>
      exact Halts.of_eq (fun _ => by simp only [World.typeName, htype]; rfl)
        (.aborted (hw.setUnwinding true))
  | some name => exact Halts.of_ok (a := name) (fun _ => by simp only [World.typeName, htype]) hw

/-- A refusal that names the type of a value. -/
theorem refusal_orderly [Holder α] (v : Value) (x : String → Exception) (hx : ∀ name, holds (x name) = 0) :
    Orderly P p g r (fun _ => (World.typeName v >>= fun name => Run.raise (x name) : Run World α)) w :=
  (typeName_halts hw v).bind fun name _ ht => Halts.raise (within_of_holds_zero (hx name)) ht

theorem normalize_orderly {type : Value} {value : Option Value} (htype : Within P type)
    (hvalue : Within P value) : Orderly P p g r (fun _ => World.normalize type value) w := by
  unfold World.normalize
  cases hx : Exception.normalize type value with
  | ok x =>
      have hwithin : Within P x := fun o ho => by
        have hle := Bag.apply_le (holds_normalize_le hx) o
        rw [Pi.add_apply, htype o ho, hvalue o ho] at hle
        omega
      exact Halts.of_ok (fun _ => rfl) ⟨hwithin, hw.addOwners _⟩
  | error fault =>
      cases fault with
      | separateValue => exact Halts.raise (within_of_holds_zero rfl) hw
      | notAnException v =>
          refine Halts.bind (Q := fun _ t => t.Confined P p g r)
            ((typeName_halts hw v).bind fun name _ ht => .pure ht)
            fun message _ ht => Halts.raise (within_of_holds_zero rfl) ht

/-- The exception that a value stands for. -/
theorem exceptionOf_halts (hv : Within P v) :
    Halts P (fun x t => Within P x ∧ t.Confined P p g r) (fun t => t.Confined P p g r)
      (fun _ => World.exceptionOf v) w := by
  refine (normalize_orderly hw hv (within_of_holds_zero rfl)).attempt.bind fun outcome t ht => ?_
  cases outcome with
  | ok x => exact .pure ht
  | error x => exact .pure ht

variable (hP : Listlike P)

include hP

theorem raiseValue_halts (hv : Within P v) :
    Halts P (fun _ _ => False) (fun t => t.Confined P p g r)
      (fun k => ((Machine.engine k).raiseValue v : Run World α)) w :=
  ((exceptionOf_halts hw hv).bind fun _ _ ht => Halts.raise (Q := fun _ _ => False) ht.1 ht.2).ensuring
    (fun _ _ h => h.elim) fun _ ht => release_halts hP ht hv

theorem getIter_orderly (hv : Within P v) : Orderly P p g r (fun _ => World.getIter v) w := by
  unfold World.getIter
  cases v with
  | list l =>
      refine (share_orderly hw (.list l)).bind fun _ t ht => ?_
      obtain ⟨hmade, hwithin⟩ := ht.2.newIterator (x := .list l 0) trivial hv
      exact Halts.of_ok (fun _ => rfl) ⟨hwithin, hmade⟩
  | generator i => exact absurd (within_value_iff.1 hv (.generator i) List.mem_cons_self) (hP.generator i)
  | iterator i => exact (share_orderly hw (.iterator i)).bind fun _ t ht => .pure ⟨hv, ht.2⟩
  | _ => exact refusal_orderly hw _ _ fun _ => rfl

/-! ## Iterators over lists -/

omit hP in
/-- Stepping an iterator over a list leaves its world confined. -/
theorem stepped_confined {i : IteratorRef} {l : ListRef} {n : Nat} (hl : P (.list l)) :
    Within P (w.items l)[n]? ∧ (w.stepped i l n).Confined P p g r := by
  unfold World.stepped
  cases hv : (w.items l)[n]? with
  | none => exact ⟨within_of_holds_zero rfl, (hw.vacate i).setListIterator i hl n⟩
  | some v =>
      exact ⟨within_values_iff.1 (hw.items l hl) v (List.mem_of_getElem? hv),
        ((hw.vacate i).retain v).setListIterator i hl (n + 1)⟩

omit hP in
/-- An iterator of the sort is in use, or steps through a list of the sort. -/
theorem iterator_cases {i : IteratorRef} (hi : Within P (Value.iterator i)) :
    w.iterator? i = none ∨ ∃ l n, w.iterator? i = some (.list l n) ∧ P (.list l) := by
  cases hx : w.iterator? i with
  | none => exact Or.inl rfl
  | some x =>
      obtain ⟨htame, hwithin⟩ :=
        hw.iterators i (within_value_iff.1 hi (.iterator i) List.mem_cons_self) x hx
      cases x with
      | scripted s => exact htame.elim
      | list l n =>
          exact Or.inr ⟨l, n, rfl, within_value_iff.1 (show Within P (Value.list l) from hwithin) _
            List.mem_cons_self⟩

theorem nextItem_orderly (hv : Within P v) :
    Orderly P p g r (fun k => (Machine.engine k).nextItem v) w := by
  unfold Engine.nextItem
  cases v with
  | generator i => exact absurd (within_value_iff.1 hv (.generator i) List.mem_cons_self) (hP.generator i)
  | iterator i =>
      rcases iterator_cases hw hv with hnone | ⟨l, n, hx, hl⟩
      · refine (abort_orderly hw).congr fun k => ?_
        simp only [World.withIterator, hnone]
      · exact Halts.of_ok (fun k => next_of_list hx) (stepped_confined hw hl)
  | _ => exact refusal_orderly hw _ _ fun _ => rfl

theorem sendToIterator_orderly {i : IteratorRef} (hi : Within P (Value.iterator i)) (hv : Within P v) :
    Orderly P p g r (fun k => (Machine.engine k).sendToIterator i v) w := by
  unfold Engine.sendToIterator
  rcases iterator_cases hw hi with hnone | ⟨l, n, hx, hl⟩
  · have hread : Halts P (fun _ _ => False) (fun t => t.Confined P p g r)
        (fun _ => World.readIterator i) w :=
      Halts.of_eq (fun _ => by simp only [World.readIterator, hnone]; rfl) (.aborted (hw.setUnwinding true))
    exact (hread.onInterruption fun t ht => release_halts hP ht hv).bind fun _ _ h => h.elim
  · have hread : Halts P (fun _ t => t = w) (fun _ => False) (fun k =>
        (World.readIterator i).onInterruption ((Machine.engine k).release v)) w :=
      Halts.of_ok (a := .list l n) (fun k => Run.onInterruption_ok (by simp only [World.readIterator, hx])) rfl
    refine (hread.mono (fun _ _ h => h) fun _ h => h.elim).bind fun _ t ht => ?_
    subst ht
    cases hnone : v.isNone with
    | true =>
        refine Halts.of_ok (fun k => ?_) (stepped_confined (i := i) (n := n) hw hl)
        rw [← next_of_list (e := Machine.engine k) hx]
        simp only [World.withIterator, hx, Run.withPrivate, Iterator.send, Run.bind_apply, Run.get_apply,
          hnone, if_true, if_false, Bool.false_eq_true]
    | false =>
        -- a value that a list iterator does not accept is forgotten, while the iterator is in use
        have hused := hw.vacate i
        have hraised : Halts P (fun (_ : Option Value) _ => False)
            (fun s : Iterator × World => s.1 = .list l n ∧ s.2.Confined P p g r)
            (fun k => Run.ensuring (Run.raise (.attributeError (Iterator.list l n).typeName "send"))
              (Run.shared ((Machine.engine k).release v))) (.list l n, t.setIterator i none) := by
          refine (Halts.raise (Q := fun _ _ => False)
            (J := fun s : Iterator × World => s.1 = .list l n ∧ s.2.Confined P p g r)
            (within_of_holds_zero rfl) ⟨rfl, hused⟩).ensuring (fun _ _ h => h.elim) fun s hs => ?_
          obtain ⟨y, u⟩ := s
          obtain ⟨rfl, hu⟩ := hs
          exact (release_halts hP hu hv).shared.mono (fun _ _ h => h) fun _ h => h.2
        have hrefused : Halts P (fun _ _ => False)
            (fun s : Iterator × World => s.1 = .list l n ∧ s.2.Confined P p g r)
            (fun k => Iterator.send (Machine.engine k) v) (.list l n, t.setIterator i none) :=
          hraised.congr fun k => by
            simp only [Iterator.send, Run.bind_apply, Run.get_apply, hnone, if_false, Bool.false_eq_true]
        refine withIterator_halts hx hrefused (fun _ _ _ h => h.elim) fun y u hu => ?_
        obtain ⟨rfl, hu⟩ := hu
        exact hu.setListIterator i hl n

/-- The value that the end of an iteration carries. -/
theorem takeStopValue_orderly {x : Exception} (hx : Within P x) :
    Orderly P p g r (fun k => (Machine.engine k).takeStopValue x) w := by
  refine (share_orderly hw x.stopValue).bind fun _ t ht => ?_
  refine ((releaseException_halts hP ht.2 hx).mono (fun _ _ h => h) fun _ h => h.elim).bind
    fun _ u hu => .pure ⟨hx.le (holds_stopValue_le x), hu⟩

omit hw in
/-- What the target of a delegation gave is an item, or the end of its iteration. -/
theorem delegated_orderly {step : Nat → Run World (Option Value)} (hstep : Orderly P p g r step w) :
    Orderly P p g r (fun k => do
      match ← Run.attempt (step k) with
      | .ok (some item) => return Engine.Delegated.item item
      | .ok none => return .finished .none
      | .error exception =>
          if exception.kind = .stopIteration then
            return .finished (← (Machine.engine k).takeStopValue exception)
          else Run.raise exception) w := by
  refine hstep.attempt.bind fun outcome t ht => ?_
  rcases outcome with x | _ | item
  · by_cases hstop : x.kind = .stopIteration
    · simp only [hstop, if_true]
      exact (takeStopValue_orderly ht.2 hP ht.1).bind fun _ _ hu => .pure hu
    · simp only [hstop, if_false]
      exact Halts.raise ht.1 ht.2
  · exact .pure ⟨within_of_holds_zero rfl, ht.2⟩
  · exact .pure ht

theorem sendInto_orderly {target : Value} (htarget : Within P target) (hv : Within P v) :
    Orderly P p g r (fun k => (Machine.engine k).sendInto target v) w := by
  cases target with
  | generator i =>
      exact absurd (within_value_iff.1 htarget (.generator i) List.mem_cons_self) (hP.generator i)
  | iterator i => exact delegated_orderly hP (sendToIterator_orderly hw hP htarget hv)
  | _ =>
      exact delegated_orderly hP (owning_orderly hP hv (refusal_orderly hw _ _ fun _ => rfl))

end Worlds

/-! ## Steps of a resume -/

namespace Exec

variable {c : Nat} {B : List HandlerBlock} {s : Activation × World}

/-- The frame and the world of a resume are confined, and these handlers are installed. -/
structure Tidy (P : Object → Prop) (p : Code.Program) (g : GeneratorRef) (r : FrameRef)
    (B : List HandlerBlock) (s : Activation × World) : Prop where
  activation : Within P s.1
  world : s.2.Confined P p g r
  blocks : s.1.frame.blocks = B

/-- A resume that is tidy and goes on at this position. -/
abbrev TidyAt (P : Object → Prop) (p : Code.Program) (g : GeneratorRef) (r : FrameRef) (c : Nat)
    (B : List HandlerBlock) (s : Activation × World) : Prop :=
  Tidy P p g r B s ∧ s.1.counter = c

/-- A step halts, and leaves the handlers and the counter alone. -/
abbrev Steps [Holder α] (P : Object → Prop) (p : Code.Program) (g : GeneratorRef) (r : FrameRef)
    (c : Nat) (B : List HandlerBlock) (m : Nat → Exec α) (s : Activation × World) : Prop :=
  Halts P (fun a t => Within P a ∧ TidyAt P p g r c B t) (Tidy P p g r B) m s

/-- A clean-up halts, is not interrupted, and leaves the handlers and the counter alone. -/
abbrev Cleans (P : Object → Prop) (p : Code.Program) (g : GeneratorRef) (r : FrameRef)
    (c : Nat) (B : List HandlerBlock) (m : Nat → Exec Unit) (s : Activation × World) : Prop :=
  Halts P (fun _ t => TidyAt P p g r c B t) (fun _ => False) m s

theorem Tidy.frame (h : Tidy P p g r B s) : Within P s.1.frame := (within_activation_iff.1 h.activation).1

theorem Tidy.sent (h : Tidy P p g r B s) : Within P s.1.sent := (within_activation_iff.1 h.activation).2

/-- The frame of a tidy resume is changed. -/
theorem Tidy.change (h : Tidy P p g r B s) {D : List HandlerBlock} {f : Frame} (hf : Within P f)
    (hblocks : f.blocks = D) : Tidy P p g r D ({ s.1 with frame := f }, s.2) :=
  ⟨within_activation_iff.2 ⟨hf, h.sent⟩, h.world, hblocks⟩

theorem Cleans.steps {m : Nat → Exec Unit} (h : Cleans P p g r c B m s) : Steps P p g r c B m s :=
  h.mono (fun _ _ ht => ⟨within_of_holds_zero rfl, ht⟩) fun _ h => h.elim

theorem raise_steps [Holder α] {x : Exception} (hx : holds x = 0) (h : TidyAt P p g r c B s) :
    Steps P p g r c B (fun _ => (Run.raise x : Exec α)) s := Halts.raise (within_of_holds_zero hx) h.1

theorem modifyFrame_halts {D : List HandlerBlock} (edit : Frame → Frame) (h : TidyAt P p g r c B s)
    (hwithin : Within P (edit s.1.frame)) (hblocks : (edit s.1.frame).blocks = D) :
    Halts P (fun _ t => TidyAt P p g r c D t) (Tidy P p g r B) (fun _ => modifyFrame edit) s :=
  Halts.of_ok (fun _ => rfl) ⟨h.1.change hwithin hblocks, h.2⟩

theorem modifyFrame_steps (edit : Frame → Frame) (h : TidyAt P p g r c B s)
    (hwithin : Within P (edit s.1.frame)) (hblocks : (edit s.1.frame).blocks = B) :
    Steps P p g r c B (fun _ => modifyFrame edit) s :=
  (modifyFrame_halts edit h hwithin hblocks).imp fun _ _ ht => ⟨within_of_holds_zero rfl, ht⟩

/-- A computation on the world is a step. -/
theorem shared_steps [Holder α] {m : Nat → Run World α} (hm : Orderly P p g r m s.2)
    (h : TidyAt P p g r c B s) : Steps P p g r c B (fun k => Run.shared (m k)) s := by
  obtain ⟨a, w⟩ := s
  refine hm.shared.mono (fun v t ht => ?_) fun t ht => ?_
  · obtain ⟨b, u⟩ := t
    obtain ⟨rfl, hv, hu⟩ := ht
    exact ⟨hv, ⟨h.1.activation, hu, h.1.blocks⟩, h.2⟩
  · obtain ⟨b, u⟩ := t
    obtain ⟨rfl, hu⟩ := ht
    exact ⟨h.1.activation, hu, h.1.blocks⟩

theorem push_steps (hv : Within P v) (h : TidyAt P p g r c B s) :
    Steps P p g r c B (fun _ => push v) s := by
  obtain ⟨hlocals, hstack, hrest⟩ := within_frame_iff.1 h.1.frame
  exact modifyFrame_steps _ h
    (within_frame_iff.2 ⟨hlocals, within_cons_iff.2 ⟨hv, hstack⟩, hrest⟩) h.1.blocks

theorem pop_steps (h : TidyAt P p g r c B s) : Steps P p g r c B (fun _ => pop) s := by
  obtain ⟨a, w⟩ := s
  obtain ⟨hlocals, hstack, hrest⟩ := within_frame_iff.1 h.1.frame
  cases hs : a.frame.stack with
  | nil =>
      exact Halts.of_eq (fun _ => by simp only [pop, hs]; rfl) (.raised (within_of_holds_zero rfl) h.1)
  | cons v below =>
      rw [hs] at hstack
      obtain ⟨hv, hbelow⟩ := within_cons_iff.1 hstack
      exact Halts.of_ok (a := v) (t := ({ a with frame := { a.frame with stack := below } }, w))
        (fun _ => by simp only [pop, hs])
        ⟨hv, h.1.change (within_frame_iff.2 ⟨hlocals, hbelow, hrest⟩) h.1.blocks, h.2⟩

theorem peek_steps (h : TidyAt P p g r c B s) : Steps P p g r c B (fun _ => peek) s := by
  obtain ⟨a, w⟩ := s
  have hstack := (within_frame_iff.1 h.1.frame).2.1
  cases hs : a.frame.stack with
  | nil => exact Halts.of_eq (fun _ => peek_nil hs) (.raised (within_of_holds_zero rfl) h.1)
  | cons v below =>
      rw [hs] at hstack
      exact Halts.of_ok (fun _ => peek_cons hs) ⟨(within_cons_iff.1 hstack).1, h⟩

theorem takeSent_steps (h : TidyAt P p g r c B s) : Steps P p g r c B (fun _ => takeSent) s :=
  Halts.of_ok (fun _ => rfl) ⟨h.1.sent,
    ⟨within_activation_iff.2 ⟨h.1.frame, within_of_holds_zero rfl⟩, h.1.world, h.1.blocks⟩, h.2⟩

theorem target_halts (offset : Int) (h : TidyAt P p g r c B s) :
    Halts P (fun n t => TidyAt P p g r c B t ∧ (0 ≤ offset → c ≤ n)) (Tidy P p g r B)
      (fun _ => target offset) s := by
  obtain ⟨a, w⟩ := s
  have hcounter : a.counter = c := h.2
  by_cases hbefore : (a.counter : Int) + offset < 0
  · exact Halts.of_eq (fun _ => by
      simp only [target, activation, Run.bind_apply, hbefore, if_true]; rfl)
      (.raised (within_of_holds_zero rfl) h.1)
  · by_cases hnext : (a.counter : Int) + offset ≤ Frame.greatestPosition
    · exact Halts.of_ok (fun _ => by
        simp only [target, activation, Run.bind_apply, hbefore, hnext, if_true, if_false]; rfl)
        ⟨h, fun hoffset => by omega⟩
    · exact Halts.of_eq (x := .error .aborted (a, { w with unwinding := true })) (fun _ => by
        simp only [target, activation, Run.bind_apply, hbefore, hnext, if_false]; rfl)
        (.aborted ⟨h.1.activation, h.1.world.setUnwinding true, h.1.blocks⟩)

/-- A jump forward. -/
theorem jump_halts {offset : Int} (hoffset : 0 ≤ offset) (h : TidyAt P p g r c B s) :
    Halts P (fun _ t => Tidy P p g r B t ∧ c ≤ t.1.counter) (Tidy P p g r B)
      (fun _ => jump offset) s :=
  (target_halts offset h).bind fun _ _ ht =>
    Halts.of_ok (fun _ => rfl) ⟨⟨ht.1.1.activation, ht.1.1.world, ht.1.1.blocks⟩, ht.2 hoffset⟩

section Releasing

variable (hP : Listlike P)

include hP

theorem releaseAll_cleans {vs : List Value} (hvs : Within P vs) (h : TidyAt P p g r c B s) :
    Cleans P p g r c B (fun k => Run.shared ((Machine.engine k).releaseAll vs)) s := by
  obtain ⟨a, w⟩ := s
  refine (releaseAll_halts hP h.1.world hvs).shared.mono (fun _ t ht => ?_) fun _ ht => ht.2
  obtain ⟨b, u⟩ := t
  obtain ⟨rfl, hu⟩ := ht
  exact ⟨⟨h.1.activation, hu, h.1.blocks⟩, h.2⟩

theorem release_cleans (hv : Within P v) (h : TidyAt P p g r c B s) :
    Cleans P p g r c B (fun k => release (Machine.engine k) v) s := by
  obtain ⟨a, w⟩ := s
  refine (release_halts hP h.1.world hv).shared.mono (fun _ t ht => ?_) fun _ ht => ht.2
  obtain ⟨b, u⟩ := t
  obtain ⟨rfl, hu⟩ := ht
  exact ⟨⟨h.1.activation, hu, h.1.blocks⟩, h.2⟩

/-- To forget a value after a step, whichever way it ended. -/
theorem owning_halts {Q : α → Activation × World → Prop} {m : Nat → Exec α} (hv : Within P v)
    (hm : Halts P Q (Tidy P p g r B) m s)
    (hQ : ∀ a t, Q a t → Halts P (fun _ => Q a) (fun _ => False)
      (fun k => release (Machine.engine k) v) t) :
    Halts P Q (Tidy P p g r B) (fun k => owning (Machine.engine k) v (m k)) s :=
  hm.ensuring hQ fun _ ht => (release_cleans hP hv ⟨ht, rfl⟩).imp fun _ _ hu => hu.1

theorem owning_steps [Holder α] {m : Nat → Exec α} (hv : Within P v) (hm : Steps P p g r c B m s) :
    Steps P p g r c B (fun k => owning (Machine.engine k) v (m k)) s :=
  owning_halts hP hv hm fun _ _ ht => (release_cleans hP hv ht.2).imp fun _ _ hu => ⟨ht.1, hu⟩

theorem onInterruption_steps [Holder α] {m : Nat → Exec α} (hv : Within P v)
    (hm : Steps P p g r c B m s) :
    Steps P p g r c B (fun k => (m k).onInterruption (release (Machine.engine k) v)) s :=
  hm.onInterruption fun _ ht => (release_cleans hP hv ⟨ht, rfl⟩).imp fun _ _ hu => hu.1

theorem replace_steps {change : Frame → Frame × List Value} (hchange : KeepsWithin P change)
    (hblocks : ∀ f, (change f).1.blocks = f.blocks) (h : TidyAt P p g r c B s) :
    Steps P p g r c B (fun k => replace (Machine.engine k) change) s := by
  obtain ⟨hframe, hremoved⟩ := hchange s.1.frame h.1.frame
  have hchanged : TidyAt P p g r c B ({ s.1 with frame := (change s.1.frame).1 }, s.2) :=
    ⟨h.1.change hframe ((hblocks _).trans h.1.blocks), h.2⟩
  exact (releaseAll_cleans hP hremoved hchanged).steps.congr fun k => rfl

theorem clearStack_cleans (h : TidyAt P p g r c B s) :
    Cleans P p g r c B (fun k => clearStack (Machine.engine k)) s := by
  have hcleared : TidyAt P p g r c B ({ s.1 with frame := s.1.frame.truncate 0 }, s.2) :=
    ⟨h.1.change (within_truncate h.1.frame 0) h.1.blocks, h.2⟩
  exact (releaseAll_cleans hP (within_above h.1.frame 0) hcleared).congr fun k => rfl

/-! ## Instructions -/

omit hP in
theorem typeName_steps (v : Value) (h : TidyAt P p g r c B s) :
    Halts P (fun _ t => TidyAt P p g r c B t) (Tidy P p g r B)
      (fun _ => (Run.shared (World.typeName v) : Exec String)) s := by
  obtain ⟨a, w⟩ := s
  refine (typeName_halts h.1.world v).shared.mono (fun _ u hu => ?_) fun u hu => ?_
  · obtain ⟨b, u⟩ := u
    obtain ⟨rfl, hu⟩ := hu
    exact ⟨⟨h.1.activation, hu, h.1.blocks⟩, h.2⟩
  · obtain ⟨b, u⟩ := u
    obtain ⟨rfl, hu⟩ := hu
    exact ⟨h.1.activation, hu, h.1.blocks⟩

theorem refuse_steps [Holder α] {left right : Value} {message : String → String → String}
    (hleft : Within P left) (hright : Within P right) (h : TidyAt P p g r c B s) :
    Steps P p g r c B (fun k => (refuse (Machine.engine k) left right message : Exec α)) s := by
  refine owning_steps hP hleft (owning_steps hP hright ?_)
  exact (typeName_steps left h).bind fun l _ ht =>
    (typeName_steps right ht).bind fun r _ hu => raise_steps rfl hu

theorem binary_steps {op : Value → Value → Except OperandFault Value}
    {message : String → String → String} (hop : ∀ l r v, op l r = .ok v → holds v = 0)
    (h : TidyAt P p g r c B s) :
    Steps P p g r c B (fun k => binary (Machine.engine k) op message) s := by
  refine (pop_steps h).bind fun right t ht => ?_
  refine (onInterruption_steps hP ht.1 (pop_steps ht.2)).bind fun left u hu => ?_
  cases hv : op left right with
  | ok v => exact push_steps (within_of_holds_zero (hop left right v hv)) hu.2
  | error fault =>
      cases fault with
      | overflow => exact raise_steps rfl hu.2
      | unsupported => exact refuse_steps hP hu.1 ht.1 hu.2

theorem storeFast_steps (index : Nat) (h : TidyAt P p g r c B s) :
    Steps P p g r c B (fun k => storeFast (Machine.engine k) index) s := by
  refine (pop_steps h).bind fun v t ht => ?_
  cases hroom : Frame.hasRoomFor index with
  | true =>
      simp only [if_true]
      exact replace_steps hP (keepsWithin_replaceLocal index ht.1) (fun _ => rfl) ht.2
  | false =>
      simp only [Bool.false_eq_true, if_false]
      exact owning_steps hP ht.1 (shared_steps (abort_orderly ht.2.1.world) ht.2)

theorem listAppend_steps (h : TidyAt P p g r c B s) :
    Steps P p g r c B (fun k => listAppend (Machine.engine k)) s := by
  refine (pop_steps h).bind fun item t ht => ?_
  refine (onInterruption_steps hP ht.1 (pop_steps ht.2)).bind fun target u hu => ?_
  cases target with
  | list l =>
      have hl : P (.list l) := within_value_iff.1 hu.1 (.list l) List.mem_cons_self
      have hitems : Within P (u.2.items l ++ [item]) :=
        within_append_iff.2 ⟨hu.2.1.world.items l hl, within_singleton_iff.2 ht.1⟩
      have happended : TidyAt P p g r c B (u.1, u.2.setItems l (u.2.items l ++ [item])) :=
        ⟨⟨hu.2.1.activation, hu.2.1.world.setItems hitems, hu.2.1.blocks⟩, hu.2.2⟩
      exact (release_cleans hP hu.1 happended).steps.congr fun k => rfl
  | _ =>
      refine owning_steps hP ht.1 (owning_steps hP hu.1 ?_)
      exact (typeName_steps _ hu.2).bind fun _ _ hx => raise_steps rfl hx

end Releasing

theorem loadFast_steps (q : Code.Program) (index : Nat) (h : TidyAt P p g r c B s) :
    Steps P p g r c B (fun _ => loadFast q index) s := by
  have hlocals := (within_frame_iff.1 h.1.frame).1
  cases hv : s.1.frame.locals[index]? with
  | none =>
      refine (raise_steps (α := Unit) (x := .nameError ("local variable '" ++ q.variableName index
        ++ "' referenced before assignment")) rfl h).congr fun _ => ?_
      simp only [loadFast, activation, Run.bind_apply, hv]
  | some v =>
      have hwithin := within_values_iff.1 hlocals v (List.mem_of_getElem? hv)
      refine ((shared_steps (share_orderly h.1.world v) h).bind fun _ _ ht =>
        push_steps hwithin ht.2).congr fun _ => ?_
      simp only [loadFast, activation, Run.bind_apply, hv]

section Delegations

variable (hP : Listlike P)

include hP

/-- A loop that gets no item leads forward. -/
theorem forIter_halts {offset : Int} (hoffset : 0 ≤ offset) (h : TidyAt P p g r c B s) :
    Halts P (fun _ t => Tidy P p g r B t ∧ c ≤ t.1.counter) (Tidy P p g r B)
      (fun k => forIter (Machine.engine k) offset) s := by
  refine (peek_steps h).bind fun iterator t ht => ?_
  refine (shared_steps (share_orderly ht.2.1.world iterator) ht.2).bind fun _ u hu => ?_
  refine owning_halts hP ht.1 ?_ fun _ x hx =>
    (release_cleans hP ht.1 ⟨hx.1, rfl⟩).imp fun _ _ hy => ⟨hy.1, hx.2.trans hy.2.ge⟩
  refine (shared_steps (nextItem_orderly hu.2.1.world hP ht.1) hu.2).bind fun item x hx => ?_
  cases item with
  | some v => exact (push_steps hx.1 hx.2).imp fun _ _ hy => ⟨hy.2.1, hy.2.2.ge⟩
  | none =>
      refine (pop_steps hx.2).bind fun v y hy => ?_
      exact ((release_cleans hP hy.1 hy.2).mono (fun _ _ hz => hz) fun _ h => h.elim).bind
        fun _ z hz => jump_halts hoffset hz

theorem delegate_steps (h : TidyAt P p g r c B s) :
    Steps P p g r c B (fun k => delegate (Machine.engine k)) s := by
  obtain ⟨hlocals, hstack, hdelegate, hrest⟩ := within_frame_iff.1 h.1.frame
  cases hinner : s.1.frame.delegate with
  | some inner =>
      rw [hinner] at hdelegate
      refine Halts.congr (t := s) ((shared_steps (share_orderly h.1.world inner) h).bind
        fun _ t ht => Halts.pure (a := inner) ⟨hdelegate, ht.2⟩) fun k => ?_
      simp only [delegate, activation, Run.bind_apply, hinner]
  | none =>
      refine Halts.congr (t := s) ((pop_steps h).bind fun iterable t ht =>
        (owning_steps hP ht.1 (shared_steps (getIter_orderly ht.2.1.world hP ht.1) ht.2)).bind
          fun inner u hu => (modifyFrame_steps (fun f => { f with delegate := some inner }) hu.2
            ?_ hu.2.1.blocks).bind fun _ x hx =>
              (shared_steps (share_orderly hx.2.1.world inner) hx.2).bind
                fun _ y hy => Halts.pure (a := inner) ⟨hu.1, hy.2⟩) fun k => ?_
      · obtain ⟨hlocals, hstack, _, hrest⟩ := within_frame_iff.1 hu.2.1.frame
        exact within_frame_iff.2 ⟨hlocals, hstack, hu.1, hrest⟩
      · simp only [delegate, activation, Run.bind_apply, hinner]

/-- A delegation that runs out leaves the resume point at the delegating instruction. -/
def Paused (P : Object → Prop) (p : Code.Program) (g : GeneratorRef) (r : FrameRef) (c : Nat)
    (B : List HandlerBlock) (suspension : Suspension) (t : Activation × World) : Prop :=
  Within P suspension ∧ Tidy P p g r B t ∧
    ∀ v, suspension = .delegateExhausted v → t.1.frame.position = (c : Int) - 1

theorem yieldFrom_halts (h : TidyAt P p g r c B s) :
    Halts P (Paused P p g r c B) (Tidy P p g r B) (fun k => yieldFrom (Machine.engine k)) s := by
  refine (delegate_steps hP h).bind fun inner t ht => ?_
  have hkept : ∀ suspension u, Paused P p g r c B suspension u →
      Halts P (fun _ => Paused P p g r c B suspension) (fun _ => False)
        (fun k => release (Machine.engine k) inner) u := by
    rintro suspension ⟨a, w⟩ ⟨hsuspension, htidy, hposition⟩
    refine (release_halts hP htidy.world ht.1).shared.mono (fun _ x hx => ?_) fun _ hx => hx.2
    obtain ⟨b, x⟩ := x
    obtain ⟨rfl, hx⟩ := hx
    exact ⟨hsuspension, ⟨htidy.activation, hx, htidy.blocks⟩, hposition⟩
  refine owning_halts hP ht.1 ?_ hkept
  -- the frame is told where it stands before the iterator is asked
  let placed : Activation := { t.1 with frame.position := (t.1.counter : Int) - 1, sent := .none }
  have hplaced : ∀ {x : World}, x.Confined P p g r → Tidy P p g r B (placed, x) := fun hx =>
    ⟨within_activation_iff.2 ⟨ht.2.1.frame, within_of_holds_zero rfl⟩, hx, ht.2.1.blocks⟩
  have hasked := (sendInto_orderly ht.2.1.world hP ht.1 ht.2.1.sent).shared (b := placed) |>.attempt
  refine Halts.congr (t := (placed, t.2)) ((hasked.mono (fun _ _ h => h) fun u hu => ?_).bind
    fun outcome u hu => ?_) fun k => rfl
  · obtain ⟨b, u⟩ := u
    obtain ⟨rfl, hu⟩ := hu
    exact hplaced hu
  · obtain ⟨b, u⟩ := u
    rcases outcome with x | item | result
    · obtain ⟨hx, rfl, hu⟩ := hu
      exact (replace_steps hP keepsWithin_removeDelegate (fun _ => rfl) ⟨hplaced hu, rfl⟩).bind
        fun _ y hy => Halts.raise hx hy.2.1
    · obtain ⟨rfl, hitem, hu⟩ := hu
      exact Halts.pure ⟨hitem, hplaced hu, fun _ h => by cases h⟩
    · obtain ⟨rfl, hresult, hu⟩ := hu
      exact Halts.pure ⟨hresult, hplaced hu, fun _ _ => by rw [← ht.2.2]⟩

theorem finish_halts (v : Value) (h : TidyAt P p g r c B s) :
    Halts P (fun suspension t => suspension = .returned v ∧ Tidy P p g r [] t) (Tidy P p g r B)
      (fun k => finish (Machine.engine k) v) s := by
  have hmarked : TidyAt P p g r c [] ({ s.1 with frame := { s.1.frame.markFinished with blocks := [] } }, s.2) :=
    ⟨h.1.change h.1.frame rfl, h.2⟩
  have hcleared : Cleans P p g r c [] (fun k =>
      (clearStack (Machine.engine k)).onInterruption (release (Machine.engine k) v)) _ :=
    (clearStack_cleans hP hmarked).onInterruption fun _ h => h.elim
  refine Halts.congr (t := ({ s.1 with frame := { s.1.frame.markFinished with blocks := [] } }, s.2))
    ((hcleared.mono (fun _ _ ht => ht) fun _ h => h.elim).bind
      fun _ t ht => Halts.pure (a := Suspension.returned v) ⟨rfl, ht.1⟩) fun k => rfl

end Delegations

end Exec

/-! ## What is ahead -/

/-- A program in which no jump, loop or handler leads back. -/
def Code.Program.Forward (p : Code.Program) : Prop :=
  ∀ i ∈ p.instructions, ∀ offset, i.offset? = some offset → 0 ≤ offset

/-- A number that decreases with each step of a program that only goes forward: an instruction has the
weight of three of those behind it, since it can leave one of them to go on at and another as a
handler. -/
def Code.Program.weight (p : Code.Program) (counter : Nat) (blocks : List HandlerBlock) : Nat :=
  3 ^ (p.instructions.length - counter)
    + (blocks.map fun b => 3 ^ (p.instructions.length - b.handler)).sum

section Weight

variable {n m : Nat} {B : List HandlerBlock} {block : HandlerBlock}

theorem weight_pos (p : Code.Program) (n : Nat) (B : List HandlerBlock) : 0 < p.weight n B :=
  Nat.add_pos_left (Nat.pow_pos (by decide)) _

theorem weight_lt (hn : n < p.instructions.length) (hm : n + 1 ≤ m) : p.weight m B < p.weight n B := by
  have hpow : 3 ^ (p.instructions.length - m) < 3 ^ (p.instructions.length - n) :=
    Nat.pow_lt_pow_right (by decide) (by omega)
  unfold Code.Program.weight
  omega

/-- Installing a handler further on. -/
theorem weight_install (hn : n < p.instructions.length) (hm : n + 1 ≤ m)
    (hblock : n + 1 ≤ block.handler) : p.weight m (block :: B) < p.weight n B := by
  obtain ⟨d, hd⟩ : ∃ d, p.instructions.length - n = d + 1 := ⟨_, (Nat.sub_add_cancel (by omega)).symm⟩
  have hcounter : 3 ^ (p.instructions.length - m) ≤ 3 ^ d := Nat.pow_le_pow_right (by decide) (by omega)
  have hhandler : 3 ^ (p.instructions.length - block.handler) ≤ 3 ^ d :=
    Nat.pow_le_pow_right (by decide) (by omega)
  have hpos : 0 < 3 ^ d := Nat.pow_pos (by decide)
  have hthree : 3 ^ (d + 1) = 3 ^ d * 3 := pow_succ 3 d
  unfold Code.Program.weight
  rw [List.map_cons, List.sum_cons, hd]
  omega

theorem weight_tail : p.weight n B.tail ≤ p.weight n B := by
  unfold Code.Program.weight
  cases B with
  | nil => exact le_rfl
  | cons block rest =>
      rw [List.tail_cons, List.map_cons, List.sum_cons]
      exact Nat.add_le_add_left (Nat.le_add_left _ _) _

/-- Handing an exception to the innermost handler. -/
theorem weight_unwind : p.weight block.handler B < p.weight n (block :: B) := by
  have hpos : 0 < 3 ^ (p.instructions.length - n) := Nat.pow_pos (by decide)
  unfold Code.Program.weight
  rw [List.map_cons, List.sum_cons]
  omega

end Weight

namespace Exec

variable {c n : Nat} {B : List HandlerBlock} {s : Activation × World} {closure : Value}

/-- The frame and the world of a resume are confined. -/
def Sane (P : Object → Prop) (p : Code.Program) (g : GeneratorRef) (r : FrameRef)
    (s : Activation × World) : Prop := ∃ B, Tidy P p g r B s

/-- A resume suspends; where its delegate ran out, less than so much is ahead of what is behind the
delegating instruction. -/
def Rests (P : Object → Prop) (p : Code.Program) (g : GeneratorRef) (r : FrameRef) (n : Nat)
    (suspension : Suspension) (t : Activation × World) : Prop :=
  Within P suspension ∧ Sane P p g r t ∧ ∀ v, suspension = .delegateExhausted v →
    p.weight t.1.frame.stepOn.position.toNat t.1.frame.blocks < n

/-- What an instruction leads to: another one with less ahead, or a suspension. -/
def Advances (P : Object → Prop) (p : Code.Program) (g : GeneratorRef) (r : FrameRef) (n : Nat) :
    Option Suspension → Activation × World → Prop
  | none, t => ∃ B, Tidy P p g r B t ∧ p.weight t.1.counter B < n
  | some suspension, t => Rests P p g r n suspension t

theorem execute_halts (hP : Listlike P) (hforward : p.Forward) (hclosure : Within P closure)
    {i : Code.Instruction} (hi : p.instructions[c]? = some i) (h : TidyAt P p g r (c + 1) B s) :
    Halts P (Advances P p g r (p.weight c B)) (Tidy P p g r B)
      (fun k => execute (Machine.engine k) p closure i) s := by
  have hc : c < p.instructions.length := (List.getElem?_eq_some_iff.1 hi).1
  have hleads : ∀ offset, i.offset? = some offset → 0 ≤ offset :=
    hforward i (List.mem_of_getElem? hi)
  -- an instruction that goes on with the next one, and one that goes on further ahead
  have hgoes : ∀ {m : Nat → Exec Unit} {t : Activation × World}, Steps P p g r (c + 1) B m t →
      Halts P (Advances P p g r (p.weight c B)) (Tidy P p g r B)
        (fun k => do m k; return none) t := fun hm =>
    hm.bind fun _ t ht => .pure ⟨B, ht.2.1, weight_lt hc ht.2.2.ge⟩
  have hjumps : ∀ {m : Nat → Exec Unit} {t : Activation × World},
      Halts P (fun _ t => Tidy P p g r B t ∧ c + 1 ≤ t.1.counter) (Tidy P p g r B) m t →
      Halts P (Advances P p g r (p.weight c B)) (Tidy P p g r B)
        (fun k => do m k; return none) t := fun hm =>
    hm.bind fun _ t ht => .pure ⟨B, ht.1, weight_lt hc ht.2⟩
  cases i with
  | loadConst index =>
      cases hconst : p.constants[index]? with
      | none =>
          exact (hgoes (raise_steps (x := .systemError "constant index out of range") rfl h)).congr
            fun k => by simp only [execute, hconst]
      | some x =>
          exact (hgoes (push_steps (within_of_holds_zero (holds_constant x)) h)).congr
            fun k => by simp only [execute, hconst]
  | loadFast index => exact hgoes (loadFast_steps p index h)
  | storeFast index => exact hgoes (storeFast_steps hP index h)
  | loadClosure =>
      refine (shared_steps (share_orderly h.1.world closure) h).bind fun _ t ht => ?_
      exact hgoes (push_steps hclosure ht.2)
  | popTop =>
      refine (pop_steps h).bind fun v t ht => ?_
      exact hgoes (release_cleans hP ht.1 ht.2).steps
  | add => exact hgoes (binary_steps hP (fun _ _ _ => holds_add) h)
  | sub => exact hgoes (binary_steps hP (fun _ _ _ => holds_sub) h)
  | lessThan => exact hgoes (binary_steps hP (fun _ _ _ => holds_lessThan) h)
  | jump offset => exact hjumps (jump_halts (hleads offset rfl) h)
  | jumpIfFalse offset =>
      refine (pop_steps h).bind fun v t ht => ?_
      refine Halts.congr (t := t) (f := fun k => do
        release (Machine.engine k) v
        if t.2.isTruthy v then return none
        jump offset
        return none) ?_ fun k => rfl
      refine (release_cleans hP ht.1 ht.2).steps.bind fun _ u hu => ?_
      cases htruthy : t.2.isTruthy v with
      | true => exact .pure ⟨B, hu.2.1, weight_lt hc hu.2.2.ge⟩
      | false => exact hjumps (jump_halts (hleads offset rfl) hu.2)
  | getIter =>
      refine (pop_steps h).bind fun v t ht => ?_
      refine hgoes (owning_steps hP ht.1 ?_)
      exact (shared_steps (getIter_orderly ht.2.1.world hP ht.1) ht.2).bind fun _ u hu =>
        push_steps hu.1 hu.2
  | forIter offset => exact hjumps (forIter_halts hP (hleads offset rfl) h)
  | listAppend => exact hgoes (listAppend_steps hP h)
  | yieldValue =>
      refine (pop_steps h).bind fun v t ht => ?_
      refine Halts.of_ok (fun _ => rfl) (⟨ht.1, ⟨B, ?_⟩, fun _ h => by cases h⟩ :
        Rests P p g r _ (.yielded v) _)
      exact ht.2.1.change ht.2.1.frame ht.2.1.blocks
  | yieldFrom =>
      refine (yieldFrom_halts hP h).map fun suspension t ht => ?_
      refine ⟨ht.1, ⟨B, ht.2.1⟩, fun v hv => ?_⟩
      have hposition := ht.2.2 v hv
      have hstep : t.1.frame.stepOn.position.toNat = c + 1 := by
        show (t.1.frame.position + 1).toNat = c + 1
        omega
      rw [hstep, ht.2.1.blocks]
      exact weight_lt hc le_rfl
  | setupExcept offset =>
      refine (target_halts offset h).bind fun handler t ht => ?_
      refine (modifyFrame_halts (D := ⟨handler, t.1.frame.depth⟩ :: B) _ ht.1 ht.1.1.frame ?_).bind
        fun _ u hu => .pure ⟨_, hu.1, weight_install hc hu.2.ge (ht.2 (hleads offset rfl))⟩
      rw [← ht.1.1.blocks]
  | popBlock =>
      refine (modifyFrame_halts (D := B.tail) _ h h.1.frame ?_).bind fun _ u hu =>
        .pure ⟨_, hu.1, lt_of_le_of_lt weight_tail (weight_lt hc hu.2.ge)⟩
      rw [← h.1.blocks]
  | jumpIfNotExcMatch kind offset =>
      refine (peek_steps h).bind fun v t ht => ?_
      cases hcaught : (v.asException.map (·.isCaughtBy kind)).getD false with
      | true => exact .pure ⟨B, ht.2.1, weight_lt hc ht.2.2.ge⟩
      | false => exact hjumps (jump_halts (hleads offset rfl) ht.2)
  | raise =>
      refine (pop_steps h).bind fun v t ht => ?_
      obtain ⟨a, w⟩ := t
      refine (raiseValue_halts ht.2.1.world hP ht.1).shared.mono (fun _ _ hu => hu.2.elim) fun u hu => ?_
      obtain ⟨b, u⟩ := u
      obtain ⟨rfl, hu⟩ := hu
      exact ⟨ht.2.1.activation, hu, ht.2.1.blocks⟩
  | returnValue =>
      refine (pop_steps h).bind fun v t ht => ?_
      refine (finish_halts hP v ht.2).map fun suspension u hu => ?_
      obtain ⟨rfl, hu⟩ := hu
      exact ⟨ht.1, ⟨[], hu⟩, fun _ h => by cases h⟩

/-! ## Runs -/

theorem Rests.mono {m : Nat} {suspension : Suspension} (h : Rests P p g r n suspension s) (hle : n ≤ m) :
    Rests P p g r m suspension s :=
  ⟨h.1, h.2.1, fun v hv => (h.2.2 v hv).trans_le hle⟩

/-- Letting go of what an exception takes from the stack. -/
theorem cutDown_ends (hP : Listlike P) (hw : w.Confined P p g r) {f : Frame} (hf : Within P f)
    (x : Exception) (depth : Nat) :
    ∃ t n, t.Confined P p g r ∧ ∀ k, n ≤ k → cutDown (Machine.engine k) x f depth w = .ok () t :=
  Halts.result ((releaseAll_halts hP hw (within_above hf depth)).onInterruption fun _ h => h.elim)

/-- The innermost handler is used up; without one, the run ends. -/
theorem unwind_halts (hP : Listlike P) (n : Nat) {x : Exception} (hx : Within P x)
    (h : Tidy P p g r B s) :
    Halts P (fun _ t => ∃ D, Tidy P p g r D t ∧ p.weight t.1.counter D < p.weight n B) (Sane P p g r)
      (fun k => unwind (Machine.engine k) x) s := by
  obtain ⟨a, w⟩ := s
  have hframe : Within P a.frame := h.frame
  have hw : w.Confined P p g r := h.world
  cases hblocks : a.frame.blocks with
  | cons block rest =>
      obtain rfl : block :: rest = B := hblocks.symm.trans h.blocks
      obtain ⟨t, m, ht, hm⟩ := cutDown_ends hP hw hframe x block.stackDepth
      have hcut := within_frame_iff.1 (within_truncate hframe block.stackDepth)
      have hwithin : Within P ({ a.frame.truncate block.stackDepth with
          blocks := rest, stack := x.toValue :: (a.frame.truncate block.stackDepth).stack } : Frame) :=
        within_frame_iff.2 ⟨hcut.1, within_cons_iff.2 ⟨hx.le (holds_toValue x).le, hcut.2.1⟩, hcut.2.2⟩
      refine ⟨.ok () (⟨_, block.handler, a.sent⟩, t), m, fun k hk => ?_,
        .ok ⟨rest, ⟨within_activation_iff.2 ⟨hwithin, h.sent⟩, ht, rfl⟩, weight_unwind⟩⟩
      exact (unwind_handled hblocks).trans (by simp only [hm k hk])
  | nil =>
      obtain ⟨t, m, ht, hm⟩ := cutDown_ends hP hw hframe x 0
      have hwithin : Within P (a.frame.truncate 0).markFinished := within_truncate hframe 0
      refine ⟨.error (.raised (x.pushEntry (w.placeIn a.frame.code (a.counter - 1))))
          ({ a with frame := (a.frame.truncate 0).markFinished }, t), m, fun k hk => ?_,
        .raised hx ⟨[], within_activation_iff.2 ⟨hwithin, h.sent⟩, ht, hblocks⟩⟩
      exact (unwind_unhandled hblocks).trans (by simp only [hm k hk])

theorem finish_rests (hP : Listlike P) (h : Tidy P p g r B s) :
    Halts P (Rests P p g r n) (Sane P p g r) (fun k => finish (Machine.engine k) .none) s :=
  (finish_halts hP .none ⟨h, rfl⟩).mono
    (fun suspension t ht => by
      obtain ⟨rfl, ht⟩ := ht
      exact ⟨within_of_holds_zero rfl, ⟨[], ht⟩, fun _ h => by cases h⟩)
    fun _ ht => ⟨B, ht⟩

/-- A run halts, because what is ahead decreases with each instruction. -/
theorem run_halts (hP : Listlike P) (hforward : p.Forward) (hclosure : Within P closure) (m : Nat)
    (h : Tidy P p g r B s) (hm : p.weight s.1.counter B ≤ m) :
    Halts P (Rests P p g r (p.weight s.1.counter B)) (Sane P p g r)
      (fun k => run (Machine.engine k) p closure m) s := by
  induction m generalizing B s with
  | zero => exact absurd (weight_pos p s.1.counter B) (by omega)
  | succ m ih =>
      cases hi : p.instructions[s.1.counter]? with
      | none => exact (finish_rests hP h).congr fun k => by rw [run_succ, hi]
      | some i =>
          have hpast : TidyAt P p g r (s.1.counter + 1) B (pastInstruction s) :=
            ⟨⟨h.activation, h.world, h.blocks⟩, rfl⟩
          -- what is left to do after the instruction, or after a handler was entered
          have hrest : ∀ {D : List HandlerBlock} {t : Activation × World}, Tidy P p g r D t →
              p.weight t.1.counter D < p.weight s.1.counter B →
              Halts P (Rests P p g r (p.weight s.1.counter B)) (Sane P p g r)
                (fun k => run (Machine.engine k) p closure m) t := fun ht hless =>
            (ih ht (by omega)).imp fun _ _ hy => hy.mono hless.le
          refine Halts.congr (t := pastInstruction s)
            (((execute_halts hP hforward hclosure hi hpast).attempt.mono (fun _ _ ht => ht)
              fun _ ht => ⟨B, ht⟩).bind (f := fun outcome k =>
                afterStep (Machine.engine k) p closure m outcome) fun outcome t ht => ?_) fun k => ?_
          · rcases outcome with x | _ | suspension
            · exact (unwind_halts hP s.1.counter ht.1 ht.2).bind fun _ u hu =>
                hrest hu.choose_spec.1 hu.choose_spec.2
            · obtain ⟨D, ht, hless⟩ := ht
              exact hrest ht hless
            · exact .pure ht
          · exact run_instruction hi

theorem run_of_le {e : Engine} {m k : Nat} {x : EStateM.Result Interruption (Activation × World) Suspension}
    (hx : run e p closure m s = x) (hends : ∀ t, x ≠ .error .outOfFuel t) (hk : m ≤ k) :
    run e p closure k s = x := by
  induction k, hk using Nat.le_induction with
  | base => exact hx
  | succ k hk ih =>
      rw [run_more fun t ht => hends t (ih ▸ ht)]
      exact ih

/-- With all the fuel of its engine a run does the same as with enough. -/
theorem run_fuel_halts (hP : Listlike P) (hforward : p.Forward) (hclosure : Within P closure)
    (h : Tidy P p g r B s) :
    Halts P (Rests P p g r (p.weight s.1.counter B)) (Sane P p g r)
      (fun k => run (Machine.engine k) p closure k) s := by
  obtain ⟨x, n, hn, hx⟩ := run_halts hP hforward hclosure _ h le_rfl
  exact ⟨x, max n (p.weight s.1.counter B), fun k hk =>
    run_of_le (hn k (by omega)) (fun _ => hx.ne_outOfFuel) (by omega), hx⟩

/-! ## Resumes -/

theorem pushResumeValue_steps (h : TidyAt P p g r c B s) :
    Steps P p g r c B (fun _ => pushResumeValue p) s := by
  by_cases hnothing : s.1.counter = 0 ∨ isDelegating p s.1 = true
  · refine Halts.of_ok (a := ()) (t := s) (fun _ => ?_) ⟨within_of_holds_zero rfl, h⟩
    show (if s.1.counter = 0 || isDelegating p s.1 then _ else _ : Exec Unit) s = _
    rw [if_pos (by simpa using hnothing)]
    rfl
  · obtain ⟨hstarted, hdelegating⟩ := not_or.1 hnothing
    have happly := fun _ : Nat =>
      pushResumeValue_apply (p := p) hstarted (Bool.eq_false_iff.2 hdelegating)
    cases hi : p.instructions[s.1.counter - 1]? with
    | none =>
        exact Halts.of_ok (a := ()) (t := s) (fun k => (happly k).trans (by rw [hi]; rfl))
          ⟨within_of_holds_zero rfl, h⟩
    | some i =>
        cases i with
        | yieldValue =>
            exact ((takeSent_steps h).bind fun _ t ht => push_steps ht.1 ht.2).congr
              fun k => (happly k).trans (by rw [hi])
        | yieldFrom =>
            obtain ⟨hlocals, hstack, hdelegate, hpending, hinput, hresult⟩ := within_frame_iff.1 h.1.frame
            refine ((modifyFrame_steps (fun f => { f with delegationResult := none }) h ?_
              h.1.blocks).bind fun _ t ht => push_steps (within_getD hresult) ht.2).congr
                fun k => (happly k).trans (by rw [hi])
            exact within_frame_iff.2
              ⟨hlocals, hstack, hdelegate, hpending, hinput, within_of_holds_zero rfl⟩
        | _ =>
            exact Halts.of_ok (a := ()) (t := s) (fun k => (happly k).trans (by rw [hi]; rfl))
              ⟨within_of_holds_zero rfl, h⟩

theorem enterFrame_halts (hP : Listlike P) {pending : Option Exception} (hpending : Within P pending)
    (h : Tidy P p g r B s) :
    Halts P (fun _ t => ∃ D, Tidy P p g r D t ∧ p.weight t.1.counter D ≤ p.weight s.1.counter B)
      (Sane P p g r) (fun k => enterFrame (Machine.engine k) p pending) s := by
  cases pending with
  | some x =>
      exact (unwind_halts hP s.1.counter hpending h).imp fun _ _ ht =>
        ⟨_, ht.choose_spec.1, ht.choose_spec.2.le⟩
  | none =>
      refine (pushResumeValue_steps ⟨h, rfl⟩).mono (fun _ t ht => ⟨B, ht.2.1, ?_⟩) fun _ ht => ⟨B, ht⟩
      rw [ht.2.2]

theorem resume_halts (hP : Listlike P) (hforward : p.Forward) (hclosure : Within P closure)
    {pending : Option Exception} (hpending : Within P pending) (h : Tidy P p g r B s) :
    Halts P (Rests P p g r (p.weight s.1.counter B)) (Sane P p g r)
      (fun k => resume (Machine.engine k) p closure pending) s :=
  Halts.congr ((enterFrame_halts hP hpending h).bind fun _ _ ht =>
    (run_fuel_halts hP hforward hclosure ht.choose_spec.1).imp fun _ _ hu =>
      hu.mono ht.choose_spec.2) fun _ => resume_eq _ _ _ _ s

end Exec

namespace Code.Program

variable {closure : Value} {f : Frame}

/-- What a resume of a frame left: where the delegate of the frame ran out, there is less behind the
delegating instruction than there was ahead of the frame. -/
structure Left (P : Object → Prop) (p : Code.Program) (g : GeneratorRef) (r : FrameRef) (f : Frame)
    (suspension : Suspension) (s : Frame × World) : Prop where
  given : Within P suspension
  frame : Within P s.1
  world : s.2.Confined P p g r
  less : ∀ v, suspension = .delegateExhausted v →
    p.weight s.1.stepOn.position.toNat s.1.blocks < p.weight f.position.toNat f.blocks

theorem resume_halts (hP : Listlike P) (hforward : p.Forward) (hclosure : Within P closure)
    {pending : Option Exception} (hpending : Within P pending) (hf : Within P f)
    (hw : w.Confined P p g r) :
    Halts P (Left P p g r f) (fun s => Within P s.1 ∧ s.2.Confined P p g r)
      (fun k => p.resume (Machine.engine k) closure pending) (f, w) := by
  by_cases hposition : f.position < 0
  · have hraised : Halts P (Left P p g r f) (fun s => s.1 = f ∧ s.2.Confined P p g r)
        (fun k => Run.ensuring (Run.raise (.systemError "cannot resume a finished frame"))
          (Run.shared ((Machine.engine k).releasePending pending))) (f, w) := by
      refine (Halts.raise (Q := fun _ _ => False) (J := fun s => s.1 = f ∧ s.2.Confined P p g r)
        (within_of_holds_zero rfl) ⟨rfl, hw⟩).ensuring (fun _ _ h => h.elim) fun s hs => ?_
      obtain ⟨b, u⟩ := s
      obtain ⟨rfl, hu⟩ := hs
      exact (releasePending_halts hP hu hpending).shared.mono (fun _ _ h => h) fun _ h => h.2
    refine (hraised.mono (fun _ _ h => h) fun s hs => ⟨hs.1 ▸ hf, hs.2⟩).congr fun k => ?_
    simp only [resume, if_pos hposition]
  · obtain ⟨hlocals, hstack, hdelegate, hpend, hinput, hresult⟩ := within_frame_iff.1 hf
    have htidy : Exec.Tidy P p g r f.blocks (activate f, w) :=
      ⟨within_activation_iff.2 ⟨within_frame_iff.2
        ⟨hlocals, hstack, hdelegate, hpend, within_of_holds_zero rfl, hresult⟩, within_getD hinput⟩,
        hw, rfl⟩
    obtain ⟨x, n, hn, hx⟩ := Exec.resume_halts hP hforward hclosure hpending htidy
    have happly : ∀ k, n ≤ k → p.resume (Machine.engine k) closure pending (f, w)
        = settle (Machine.engine k) x := fun k hk =>
      (resume_apply (by omega) w).trans (congrArg (settle (Machine.engine k)) (hn k hk))
    -- what is left of the sent value is forgotten
    have hforgets : ∀ {b : Activation} {u : World}, Exec.Sane P p g r (b, u) →
        ∃ t m, t.Confined P p g r ∧ ∀ k, m ≤ k → (Machine.engine k).release b.sent u = .ok () t := by
      intro b u hsane
      obtain ⟨_, h⟩ := hsane
      exact (release_halts hP h.world h.sent).result
    cases hx with
    | @ok suspension s hs =>
        obtain ⟨b, u⟩ := s
        obtain ⟨hsuspension, hsane, hless⟩ := hs
        obtain ⟨t, m, ht, hm⟩ := hforgets hsane
        refine ⟨.ok suspension (b.frame, t), max n m, fun k hk => ?_,
          .ok ⟨hsuspension, hsane.choose_spec.frame, ht, hless⟩⟩
        exact (happly k (by omega)).trans (by simp only [settle, hm k (by omega)])
    | @raised y s hy hs =>
        obtain ⟨b, u⟩ := s
        obtain ⟨t, m, ht, hm⟩ := hforgets hs
        refine ⟨.error (.raised y) (b.frame, t), max n m, fun k hk => ?_,
          .raised hy ⟨hs.choose_spec.frame, ht⟩⟩
        exact (happly k (by omega)).trans (by simp only [settle, hm k (by omega)])
    | @aborted s hs =>
        obtain ⟨b, u⟩ := s
        obtain ⟨t, m, ht, hm⟩ := hforgets hs
        refine ⟨.error .aborted (b.frame, t), max n m, fun k hk => ?_,
          .aborted ⟨hs.choose_spec.frame, ht⟩⟩
        exact (happly k (by omega)).trans (by simp only [settle, hm k (by omega)])

end Code.Program

end Resumable
