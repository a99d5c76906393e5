import Resumable.Proofs.Iteration

set_option autoImplicit false

/-!
# The interpreter in linked worlds

One resume of a frame by an assembled program comes to the same end in linked worlds.  There is one
lemma for each step of the interpreter, one for an instruction, and one for a run, by induction on
the number of instructions: the run with less fuel may stop short, and nothing is said then.

On tame worlds no step of a sound program is abandoned on account of what the program does.  What was
sent is then also held by those who wait for the resume (`Exec.Spare`), so an iterator that refuses it
does not dispose of it.
-/

namespace Resumable

variable {C : Zone → Prop} {Z : Zone} {F G : Bag} {e e' : Engine} {w w' : World} {a : Activation}

namespace Exec

/-! ## Operands -/

theorem isTruthy_eq (hZ : Z.Valid) {v : Value} (hv : ∀ o, Z.sealed o → holds v o = 0)
    (h : Z.Linked F w w') : w'.isTruthy v = w.isTruthy v := by
  cases v with
  | list r =>
      have hr : ¬ Z.hidden (.list r) := fun hh => by
        have := hv _ (hZ.sealed_of_hidden _ hh)
        rw [holds_list, Bag.of_singleton_self] at this
        cases this
      simp only [World.isTruthy, h.alike.items r hr]
  | _ => rfl

theorem holds_ofInt {n : Int} {v : Value} (h : Value.ofInt? n = .ok v) : holds v = 0 := by
  unfold Value.ofInt? at h
  split at h <;> cases h
  rfl

/-- A sum holds nothing, since only integers and texts have one. -/
theorem holds_add {l r v : Value} (h : Value.add l r = .ok v) : holds v = 0 := by
  unfold Value.add at h
  split at h
  · exact holds_ofInt h
  · cases h
    rfl
  · cases h

theorem holds_sub {l r v : Value} (h : Value.sub l r = .ok v) : holds v = 0 := by
  unfold Value.sub at h
  split at h
  · exact holds_ofInt h
  · cases h

theorem holds_lessThan {l r v : Value} (h : Value.lessThan l r = .ok v) : holds v = 0 := by
  unfold Value.lessThan at h
  split at h <;> cases h <;> rfl

theorem holds_constant (c : Code.Constant) : holds c.toValue = 0 := by
  cases c <;> rfl

/-! ## Steps on the frame -/

/-- Reading the state of the resume. -/
theorem activation_ends {α : Type} {q : α → Bag} {f f' : Activation → Exec α}
    (h : Ends (Z.bondWith Activation) F q (f a (a, w)) (f' a (a, w'))) :
    Ends (Z.bondWith Activation) F q ((activation >>= f) (a, w)) ((activation >>= f') (a, w')) := h

/-- Going on with the frame changed. -/
theorem changed_ends {α : Type} {q : α → Bag} {d : Frame → Frame} {f f' : Unit → Exec α}
    (h : Ends (Z.bondWith Activation) F q (f () ({ a with frame := d a.frame }, w))
      (f' () ({ a with frame := d a.frame }, w'))) :
    Ends (Z.bondWith Activation) F q ((modifyFrame d >>= f) (a, w))
      ((modifyFrame d >>= f') (a, w')) := h

theorem modifyFrame_ends {d : Frame → Frame}
    (hle : holds (d a.frame) + F ≤ holds a.frame + G) (h : Z.Linked (holds a + G) w w') :
    Ends (Z.bondWith Activation) F holds (modifyFrame d (a, w)) (modifyFrame d (a, w')) := by
  refine .ok ⟨rfl, h.le fun o => ?_⟩
  have := Bag.apply_le hle o
  simp only [holds_activation, holds_unit, Pi.add_apply, Pi.zero_apply] at this ⊢
  omega

/-- On tame worlds others hold what was sent. -/
def Spare (Z : Zone) (a : Activation) : Prop := Z.law.tame → holds a.sent ≤ Z.left

theorem inert_spare : Inert (Spare Z) :=
  ⟨⟨fun _ _ _ _ h => h, fun _ _ _ => zero_le, fun _ _ _ h => h⟩, fun _ _ h => h, fun _ _ h => h,
    fun _ _ h => h, fun _ _ h => h⟩

/-- A change that does not touch what the frame holds. -/
theorem edit_ends {d : Frame → Frame} (hsame : holds (d a.frame) = holds a.frame)
    (h : Z.Linked (holds a + F) w w') :
    Ends (Z.bondWith Activation) F holds (modifyFrame d (a, w)) (modifyFrame d (a, w')) :=
  modifyFrame_ends (hsame ▸ le_rfl) h

theorem goTo_ends (position : Nat) (h : Z.Linked (holds a + F) w w') :
    Ends (Z.bondWith Activation) F holds (goTo position (a, w)) (goTo position (a, w')) :=
  .ok ⟨rfl, h.le (by rw [holds_unit, zero_add]; rfl)⟩

theorem push_ends {v : Value} (h : Z.Linked (holds a + (holds v + F)) w w') :
    Ends (Z.bondWith Activation) F holds (push v (a, w)) (push v (a, w')) := by
  refine modifyFrame_ends (fun o => ?_) h
  simp only [holds_frame, holds_values_cons, Pi.add_apply]
  omega

theorem pop_ends (h : Z.Linked (holds a + F) w w') :
    Ends (Z.bondWith Activation) F holds (pop (a, w)) (pop (a, w')) := by
  unfold pop
  simp only
  cases hstack : a.frame.stack with
  | nil => exact .raised ⟨rfl, h.le (by rw [Exception.systemError, holds_withMessage, zero_add])⟩
  | cons v rest =>
      refine .ok ⟨rfl, h.le fun o => ?_⟩
      simp only [holds_activation, holds_frame, hstack, holds_values_cons, Pi.add_apply]
      omega

/-- Popping the top value, and the rest of the computation. -/
theorem popped_ends {α : Type} {q : α → Bag} {f f' : Value → Exec α}
    (h : Z.Linked (holds a + F) w w')
    (hf : ∀ v rest, a.frame.stack = v :: rest →
      Z.Linked (holds ({ a with frame := { a.frame with stack := rest } } : Activation) + (holds v + F))
        w w' →
      Ends (Z.bondWith Activation) F q (f v ({ a with frame := { a.frame with stack := rest } }, w))
        (f' v ({ a with frame := { a.frame with stack := rest } }, w'))) :
    Ends (Z.bondWith Activation) F q ((pop >>= f) (a, w)) ((pop >>= f') (a, w')) := by
  rw [Run.bind_apply, Run.bind_apply]
  unfold pop
  simp only
  cases hstack : a.frame.stack with
  | nil => exact .raised ⟨rfl, h.le (by rw [Exception.systemError, holds_withMessage, zero_add])⟩
  | cons v rest =>
      refine hf v rest hstack (h.le fun o => ?_)
      simp only [holds_activation, holds_frame, hstack, holds_values_cons, Pi.add_apply]
      omega

theorem peek_nil (h : a.frame.stack = []) :
    peek (a, w) = .error (.raised (.systemError "empty value stack")) (a, w) := by
  unfold peek
  simp only [h]

theorem peek_cons {v : Value} {rest : List Value} (h : a.frame.stack = v :: rest) :
    peek (a, w) = .ok v (a, w) := by
  unfold peek
  simp only [h]

/-- Looking at the top value, which the frame holds. -/
theorem peek_ends {α : Type} {q : α → Bag} {f f' : Value → Exec α}
    (h : Z.Linked (holds a + F) w w')
    (hf : ∀ v, holds v ≤ holds a →
      Ends (Z.bondWith Activation) F q (f v (a, w)) (f' v (a, w'))) :
    Ends (Z.bondWith Activation) F q ((peek >>= f) (a, w)) ((peek >>= f') (a, w')) := by
  cases hstack : a.frame.stack with
  | nil =>
      rw [Run.bind_error (peek_nil hstack), Run.bind_error (peek_nil hstack)]
      exact .raised ⟨rfl, h.le (by rw [Exception.systemError, holds_withMessage, zero_add])⟩
  | cons v rest =>
      rw [Run.bind_ok (peek_cons hstack), Run.bind_ok (peek_cons hstack)]
      refine hf v fun o => ?_
      simp only [holds_activation, holds_frame, hstack, holds_values_cons, Pi.add_apply]
      omega

theorem takeSent_ends (h : Z.Linked (holds a + F) w w') :
    Ends (Z.bondWith Activation) F holds (takeSent (a, w)) (takeSent (a, w')) := by
  refine .ok ⟨rfl, h.le fun o => ?_⟩
  simp only [holds_activation, holds_value_none, Pi.add_apply, Pi.zero_apply]
  omega

/-- A distance leads to the same place, or to none, in both worlds. -/
theorem target_ends {offset : Int}
    (hland : Z.law.tame → (a.counter : Int) + offset ≤ Frame.greatestPosition)
    (h : Z.Linked (holds a + F) w w') :
    Ends (Z.bondWith Activation) F (fun _ => 0) (target offset (a, w)) (target offset (a, w')) := by
  unfold target
  refine activation_ends ?_
  by_cases hbefore : (a.counter : Int) + offset < 0
  · simp only [hbefore, if_true]
    exact .raised ⟨rfl, h.le (by rw [Exception.systemError, holds_withMessage, zero_add])⟩
  · by_cases hnext : (a.counter : Int) + offset ≤ Frame.greatestPosition
    · simp only [hbefore, hnext, if_true, if_false]
      exact .ok ⟨rfl, h.le (by rw [zero_add])⟩
    · simp only [hbefore, hnext, if_false]
      exact Ends.shared (abort_ends (Zone.breaks_of_not_tame fun hlaw => hnext (hland hlaw)) h)

theorem jump_ends {offset : Int}
    (hland : Z.law.tame → (a.counter : Int) + offset ≤ Frame.greatestPosition)
    (h : Z.Linked (holds a + F) w w') :
    Ends (Z.bondWith Activation) F holds (jump offset (a, w)) (jump offset (a, w')) :=
  (target_ends hland h).bindWith le_rfl fun position b t t' ht =>
    goTo_ends position (ht.le (by rw [zero_add]))

/-- Cutting the stack down leaves the values above for the caller. -/
theorem holds_truncate (f : Frame) (depth : Nat) :
    holds (f.truncate depth) + holds (f.above depth) = holds f := by
  have hstack : holds (f.above depth) + holds (f.truncate depth).stack = holds f.stack := by
    rw [← holds_values_reverse (f.above depth), ← holds_values_append, Frame.above_truncate]
  funext o
  have := congrFun hstack o
  simp only [Frame.truncate, holds_frame, Pi.add_apply] at this ⊢
  omega

/-- Raising an exception that holds nothing. -/
theorem raise_ends {α : Type} {q : α → Bag} {x : Exception} (hx : holds x = 0)
    (h : Z.Linked (holds a + F) w w') :
    Ends (Z.bondWith Activation) F q (Run.raise x (a, w)) (Run.raise x (a, w')) :=
  .raised ⟨rfl, h.le (by rw [hx, zero_add])⟩

/-- A step that leads to the next instruction. -/
theorem goesOn {m m' : Exec Unit} {s s' : Activation × World}
    (hm : Ends (Z.bondWith Activation) F holds (m s) (m' s')) :
    Ends (Z.bondWith Activation) F holds ((do m; return (none : Option Suspension)) s)
      ((do m'; return (none : Option Suspension)) s') :=
  hm.seqWith le_rfl fun b t t' ht => .ok ⟨rfl, ht.le (by rw [holds_none, zero_add])⟩

section Steps

variable (hs : Serves C e e') (hZ : Z.Fit C)

include hs hZ

theorem release_ends {v : Value} (h : Z.Linked (holds a + (holds v + F)) w w') :
    Ends (Z.bondWith Activation) F holds (release e v (a, w)) (release e' v (a, w')) :=
  Ends.shared (Resumable.release_ends hs hZ (h.le (add_left_comm _ _ _).le))

theorem releaseAll_ends {vs : List Value} (h : Z.Linked (holds a + (holds vs + F)) w w') :
    Ends (Z.bondWith Activation) F holds (Run.shared (e.releaseAll vs) (a, w))
      (Run.shared (e'.releaseAll vs) (a, w')) :=
  Ends.shared (Resumable.releaseAll_ends hs hZ (h.le (add_left_comm _ _ _).le))

theorem owning_ends {α : Type} {q : α → Bag} {v : Value} {m m' : Exec α} {s s' : Activation × World}
    (hm : Ends (Z.bondWith Activation) (holds v + F) q (m s) (m' s')) :
    Ends (Z.bondWith Activation) F q (owning e v m s) (owning e' v m' s') :=
  hm.ensuring fun G s s' _ hss => by
    obtain ⟨b, t⟩ := s
    obtain ⟨b', t'⟩ := s'
    obtain ⟨rfl, ht⟩ := hss
    exact release_ends hs hZ ht

/-- A clean-up that forgets a value after an interruption. -/
theorem onInterruption_ends {α : Type} {q : α → Bag} {v : Value} {m m' : Exec α}
    {s s' : Activation × World}
    (hm : Ends (Z.bondWith Activation) (holds v + F) q (m s) (m' s')) :
    Ends (Z.bondWith Activation) F (fun x => q x + holds v) (m.onInterruption (release e v) s)
      (m'.onInterruption (release e' v) s') :=
  hm.onInterruption fun G s s' _ hss => by
    obtain ⟨b, t⟩ := s
    obtain ⟨b', t'⟩ := s'
    obtain ⟨rfl, ht⟩ := hss
    exact release_ends hs hZ ht

theorem replace_ends {d : Frame → Frame × List Value}
    (hd : holds (d a.frame).1 + holds (d a.frame).2 ≤ G + holds a.frame)
    (h : Z.Linked (holds a + (G + F)) w w') :
    Ends (Z.bondWith Activation) F holds (replace e d (a, w)) (replace e' d (a, w')) := by
  unfold replace
  refine activation_ends ?_
  refine (modifyFrame_ends (F := holds (d a.frame).2 + F) (fun o => ?_) h).seqWith
    le_add_self fun b t t' ht => releaseAll_ends hs hZ ht
  have := Bag.apply_le hd o
  simp only [Pi.add_apply] at this ⊢
  omega

theorem clearStack_ends (h : Z.Linked (holds a + F) w w') :
    Ends (Z.bondWith Activation) F holds (clearStack e (a, w)) (clearStack e' (a, w')) := by
  unfold clearStack
  refine activation_ends ?_
  refine (modifyFrame_ends (F := holds (a.frame.above 0) + F) (fun o => ?_) h).seqWith
    le_add_self fun b t t' ht => releaseAll_ends hs hZ ht
  have := congrFun (holds_truncate a.frame 0) o
  simp only [Pi.add_apply] at this ⊢
  omega

/-! ## Instructions -/

/-- Two values that an operation is not defined on are refused, and forgotten. -/
theorem refuse_ends {α : Type} {q : α → Bag} {left right : Value}
    {message : String → String → String}
    (h : Z.Linked (holds a + (holds right + (holds left + F))) w w') :
    Ends (Z.bondWith Activation) F q (refuse e left right message (a, w))
      (refuse e' left right message (a, w')) := by
  have hle : ∀ v, v = left ∨ v = right → holds v ≤ holds a + (holds right + (holds left + F)) := by
    rintro v (rfl | rfl) o <;> simp only [Pi.add_apply] <;> omega
  refine owning_ends hs hZ (owning_ends hs hZ ?_)
  refine (typeName_ends hZ.valid (h.covered (hle left (Or.inl rfl))) h).bindShared le_rfl
    fun l t t' ht => ?_
  rw [zero_add] at ht
  refine (typeName_ends hZ.valid (ht.covered (hle right (Or.inr rfl))) ht).bindShared le_rfl
    fun r u u' hu => ?_
  exact .raised ⟨rfl, hu.le (by rw [Exception.typeError, holds_withMessage])⟩

/-- An operation on two values whose result holds nothing. -/
theorem binary_ends {op : Value → Value → Except OperandFault Value}
    {message : String → String → String} (hop : ∀ l r v, op l r = .ok v → holds v = 0)
    (h : Z.Linked (holds a + F) w w') :
    Ends (Z.bondWith Activation) F holds (binary e op message (a, w))
      (binary e' op message (a, w')) := by
  unfold binary
  refine (pop_ends h).bindWith le_rfl fun right b t t' ht => ?_
  refine (onInterruption_ends hs hZ (pop_ends ht)).bindWith le_rfl fun left c u u' hu => ?_
  cases hv : op left right with
  | ok v =>
      refine push_ends (hu.le ?_)
      rw [hop left right v hv, zero_add]
      exact add_le_add_right le_add_self _
  | error fault =>
      cases fault with
      | overflow =>
          refine .raised ⟨rfl, hu.le ?_⟩
          rw [holds_withMessage, zero_add]
          exact add_le_add_right le_add_self _
      | unsupported =>
          refine refuse_ends hs hZ (hu.le fun o => ?_)
          simp only [Pi.add_apply]
          omega

omit hs in
theorem loadFast_ends (p : Code.Program) (index : Nat) (h : Z.Linked (holds a + F) w w') :
    Ends (Z.bondWith Activation) F holds (loadFast p index (a, w)) (loadFast p index (a, w')) := by
  unfold loadFast
  refine activation_ends ?_
  cases hv : a.frame.locals[index]? with
  | none => exact .raised ⟨rfl, h.le (by rw [Exception.nameError, holds_withMessage, zero_add])⟩
  | some v =>
      have hle : holds v ≤ holds a + F := by
        intro o
        have := Bag.apply_le (holds_le_of_getElem? hv) o
        simp only [holds_activation, holds_frame, Pi.add_apply]
        omega
      exact (Ends.shared (share_ends hZ.valid (h.covered hle) h)).bindWith le_rfl
        fun _ b t t' ht => push_ends ht

theorem storeFast_ends {index : Nat} (hroom : Z.law.tame → Frame.hasRoomFor index = true)
    (h : Z.Linked (holds a + F) w w') :
    Ends (Z.bondWith Activation) F holds (storeFast e index (a, w))
      (storeFast e' index (a, w')) := by
  unfold storeFast
  refine (pop_ends h).bindWith le_rfl fun v b t t' ht => ?_
  split
  · exact replace_ends hs hZ (holds_replaceLocal_le b.frame index v) ht
  · next hnone =>
      exact owning_ends hs hZ
        (Ends.shared (abort_ends (Zone.breaks_of_not_tame fun hlaw => hnone (hroom hlaw)) ht))

theorem forIter_ends {offset : Int}
    (hland : Z.law.tame → (a.counter : Int) + offset ≤ Frame.greatestPosition)
    (h : Z.Linked (holds a + F) w w') :
    Ends (Z.bondWith Activation) F holds (forIter e offset (a, w))
      (forIter e' offset (a, w')) := by
  unfold forIter
  refine peek_ends h fun iterator hiterator => ?_
  refine (share_ends (A := Z.Breaks) hZ.valid (h.covered (le_trans hiterator le_self_add)) h).bindShared
    le_rfl fun _ t t' ht => owning_ends hs hZ ?_
  refine (nextItem_ends hs hZ (le_trans le_self_add le_add_self) ht).bindShared
    (G := holds iterator + F) le_rfl fun item u u' hu => ?_
  cases item with
  | some item => exact push_ends hu
  | none =>
      refine popped_ends (hu.le (add_le_add_right le_add_self _)) fun v rest hstack hv => ?_
      refine (Resumable.release_ends hs hZ (hv.le (add_left_comm _ _ _).le)).bindShared le_rfl
        fun _ v v' hv => jump_ends hland (hv.le ?_)
      rw [holds_unit, zero_add]

theorem listAppend_ends (h : Z.Linked (holds a + F) w w') :
    Ends (Z.bondWith Activation) F holds (listAppend e (a, w)) (listAppend e' (a, w')) := by
  unfold listAppend
  refine (pop_ends h).bindWith le_rfl fun item b t t' ht => ?_
  refine (onInterruption_ends hs hZ (pop_ends ht)).bindWith le_rfl fun target c u u' hu => ?_
  have hu : Z.Linked (holds c + (holds target + (holds item + F))) u u' := hu.le fun o => by
    simp only [Pi.add_apply]
    omega
  have hother : Ends (Z.bondWith Activation) F (holds : Unit → Bag)
      (owning e item (owning e target do
        let name ← Run.shared (World.typeName target)
        Run.raise (.attributeError name "append")) (c, u))
      (owning e' item (owning e' target do
        let name ← Run.shared (World.typeName target)
        Run.raise (.attributeError name "append")) (c, u')) := by
    refine owning_ends hs hZ (owning_ends hs hZ ?_)
    have htarget : holds target ≤ holds c + (holds target + (holds item + F)) :=
      le_trans le_self_add le_add_self
    refine (Ends.shared (typeName_ends hZ.valid (hu.covered htarget) hu)).bindWith le_rfl
      fun name d v v' hv => ?_
    exact .raised ⟨rfl, hv.le (by rw [Exception.attributeError, holds_withMessage])⟩
  cases target with
  | list r =>
      have hr : ¬ Z.hidden (.list r) := fun hh => by
        refine hu.not_sealed (o := .list r) ?_ (hZ.valid.sealed_of_hidden _ hh)
        simp only [holds_list, Pi.add_apply, Bag.of_singleton_self]
        omega
      have hset := hu.setItems hr (v := u.items r ++ [item])
        (G := holds c + (holds (Value.list r) + F)) fun o => by
          simp only [holds_values_append, holds_values_cons, holds_values_nil, Pi.add_apply,
            Pi.zero_apply]
          omega
      show Ends (Z.bondWith Activation) F holds
        (release e (.list r) (c, u.setItems r (u.items r ++ [item])))
        (release e' (.list r) (c, u'.setItems r (u'.items r ++ [item])))
      rw [hu.alike.items r hr]
      exact release_ends hs hZ hset
  | _ => exact hother

/-- The frame and the caller each own the iterator to delegate to. -/
theorem delegate_ends (h : Z.Linked (holds a + F) w w') :
    Ends (Z.bondWith Activation) F holds (delegate e (a, w)) (delegate e' (a, w')) := by
  unfold delegate
  refine activation_ends ?_
  cases hd : a.frame.delegate with
  | some inner =>
      have hle : holds inner ≤ holds a + F := by
        intro o
        simp only [holds_activation, holds_frame, hd, holds_some, Pi.add_apply]
        omega
      exact (Ends.shared (share_ends hZ.valid (h.covered hle) h)).bindWith le_rfl
        fun _ b t t' ht => .ok ⟨rfl, ht⟩
  | none =>
      refine (pop_ends h).bindWith le_rfl fun iterable b t t' ht => ?_
      have hmade := Ends.shared (a := b) (getIter_ends hZ.valid
        (ht.covered (le_trans le_self_add le_add_self)) ht)
      refine (owning_ends hs hZ hmade).bindWith le_rfl fun inner c u u' hu => ?_
      refine changed_ends ?_
      have hset : Z.Linked
          (holds { c with frame := { c.frame with delegate := some inner } } + F) u u' :=
        hu.le fun o => by
          simp only [holds_activation, holds_frame, holds_some, Pi.add_apply]
          omega
      have hinner := hu.covered (le_trans le_self_add le_add_self : holds inner ≤ _)
      exact (Ends.shared (share_ends hZ.valid hinner hset)).bindWith le_rfl
        fun _ b t t' ht => .ok ⟨rfl, ht⟩

/-- One step of a delegation. -/
theorem yieldFrom_ends (hspare : Spare Z a) (h : Z.Linked (holds a + F) w w') :
    Ends (Z.bondWith Activation) F holds (yieldFrom e (a, w)) (yieldFrom e' (a, w')) := by
  unfold yieldFrom
  refine (delegate_ends hs hZ h).bindKeeping inert_spare.aloof.startDelegation hspare le_rfl
    fun inner b t t' hb ht => owning_ends hs hZ (activation_ends (changed_ends ?_))
  -- what was sent goes to the iterator
  let d : Activation :=
    { b with frame := { b.frame with position := (b.counter : Int) - 1 }, sent := .none }
  have hd : Z.Linked (holds b.sent + (holds d + (holds inner + F))) t t' := ht.le fun o => by
    simp only [d, holds_activation, holds_frame, holds_value_none, Pi.add_apply, Pi.zero_apply]
    omega
  have hsent := (Ends.shared (a := d) (F := holds inner + F)
    (sendInto_ends hs hZ (v := b.sent) (le_trans (le_self_add : holds inner ≤ _) le_add_self)
      (fun hlaw => le_trans (hb hlaw) le_add_self) hd)).attempt
  refine hsent.bindWith le_rfl fun outcome b t t' ht => ?_
  rcases outcome with x | item | result
  · have hremoved := replace_ends hs hZ (G := 0) (d := Frame.removeDelegate) (a := b)
      (F := holds x + (holds inner + F)) (by rw [holds_removeDelegate, zero_add])
      (by rw [zero_add]; exact ht)
    exact hremoved.seqWith le_add_self fun c u u' hu => .raised ⟨rfl, hu⟩
  · exact .ok ⟨rfl, ht⟩
  · exact .ok ⟨rfl, ht⟩

/-- Ending the frame with a value. -/
theorem finish_ends {v : Value} (h : Z.Linked (holds a + (holds v + F)) w w') :
    Ends (Z.bondWith Activation) F holds (finish e v (a, w)) (finish e' v (a, w')) := by
  unfold finish
  refine (edit_ends rfl h).seqWith le_add_self fun b t t' ht => ?_
  refine (onInterruption_ends hs hZ (clearStack_ends hs hZ ht)).bindWith le_rfl
    fun _ c u u' hu => .ok ⟨rfl, hu.le ?_⟩
  simp

/-- One instruction; the counter is past it. -/
theorem execute_ends {p : Code.Program} {closure : Value} (hclosure : Z.Secures (holds closure))
    (hsound : Z.law.tame → p.Sound) {k : Nat} {i : Code.Instruction}
    (hi : p.instructions[k]? = some i) (hcounter : a.counter = k + 1) (hspare : Spare Z a)
    (h : Z.Linked (holds a + F) w w') :
    Ends (Z.bondWith Activation) F holds (execute e p closure i (a, w))
      (execute e' p closure i (a, w')) := by
  have hland : ∀ offset, i.offset? = some offset → Z.law.tame →
      (a.counter : Int) + offset ≤ Frame.greatestPosition := fun offset hoffset hlaw => by
    rw [hcounter]
    exact (hsound hlaw).lands k i offset hi hoffset
  cases i with
  | loadConst index =>
      rw [execute, execute]
      cases p.constants[index]? with
      | none => exact goesOn (raise_ends (x := .systemError "constant index out of range") rfl h)
      | some c =>
          exact goesOn (push_ends (v := c.toValue) (h.le (by rw [holds_constant, zero_add])))
  | loadFast index => exact goesOn (loadFast_ends hZ p index h)
  | storeFast index => 
      exact goesOn (storeFast_ends hs hZ
        (fun hlaw => (hsound hlaw).rooms index (List.mem_of_getElem? hi)) h)
  | loadClosure =>
      exact (Ends.shared (share_ends hZ.valid (hclosure h) h)).bindWith le_rfl
        fun _ b t t' ht => goesOn (push_ends ht)
  | popTop =>
      exact (pop_ends h).bindWith le_rfl fun v b t t' ht => goesOn (release_ends hs hZ ht)
  | add => exact goesOn (binary_ends hs hZ (fun _ _ _ => holds_add) h)
  | sub => exact goesOn (binary_ends hs hZ (fun _ _ _ => holds_sub) h)
  | lessThan => exact goesOn (binary_ends hs hZ (fun _ _ _ => holds_lessThan) h)
  | jump offset => exact goesOn (jump_ends (hland offset rfl) h)
  | jumpIfFalse offset =>
      refine popped_ends h fun v rest _ ht => ?_
      let b : Activation := { a with frame := { a.frame with stack := rest } }
      show Ends (Z.bondWith Activation) F holds
        ((Run.shared (e.release v) >>= fun _ => if w.isTruthy v = true then _ else _) (b, w))
        ((Run.shared (e'.release v) >>= fun _ => if w'.isTruthy v = true then _ else _) (b, w'))
      rw [isTruthy_eq hZ.valid (ht.unsealed (le_trans le_self_add le_add_self)) ht]
      refine (Resumable.release_ends hs hZ (ht.le (add_left_comm _ _ _).le)).bindShared le_rfl
        fun _ u u' hu => ?_
      rw [holds_unit, zero_add] at hu
      split
      · exact .ok ⟨rfl, hu.le (by rw [holds_none, zero_add])⟩
      · exact goesOn (jump_ends (a := b) (hland offset rfl) hu)
  | getIter =>
      refine (pop_ends h).bindWith le_rfl fun iterable b t t' ht => goesOn (owning_ends hs hZ ?_)
      have hmade := Ends.shared (a := b) (F := holds iterable + F) (getIter_ends hZ.valid
        (ht.covered (le_trans le_self_add le_add_self)) ht)
      exact hmade.bindWith le_rfl fun v c u u' hu => push_ends hu
  | forIter offset => exact goesOn (forIter_ends hs hZ (hland offset rfl) h)
  | listAppend => exact goesOn (listAppend_ends hs hZ h)
  | yieldValue =>
      refine (pop_ends h).bindWith le_rfl fun v b t t' ht => activation_ends ?_
      exact (edit_ends rfl ht).seqWith le_add_self fun c u u' hu => .ok ⟨rfl, hu⟩
  | yieldFrom => exact (yieldFrom_ends hs hZ hspare h).map some (fun _ => rfl)
  | setupExcept offset =>
      refine (target_ends (hland offset rfl) h).bindWith le_rfl fun handler b t t' ht => ?_
      exact goesOn (edit_ends rfl (ht.le (by rw [zero_add])))
  | popBlock => exact goesOn (edit_ends rfl h)
  | jumpIfNotExcMatch kind offset =>
      refine peek_ends h fun v _ => ?_
      split
      · exact .ok ⟨rfl, h.le (by rw [holds_none, zero_add])⟩
      · exact goesOn (jump_ends (hland offset rfl) h)
  | raise =>
      exact (pop_ends h).bindWith le_rfl fun v b t t' ht =>
        Ends.shared (raiseValue_ends hs hZ (ht.le (add_left_comm _ _ _).le))
  | returnValue =>
      exact (pop_ends h).bindWith le_rfl fun v b t t' ht =>
        (finish_ends hs hZ ht).map some fun _ => rfl

/-! ## Runs -/

/-- An exception goes to the innermost handler, or finishes the frame. -/
theorem unwind_ends {x : Exception} (h : Z.Linked (holds a + (holds x + F)) w w') :
    Ends (Z.bondWith Activation) F holds (unwind e x (a, w)) (unwind e' x (a, w')) := by
  unfold unwind
  refine activation_ends ?_
  cases hblocks : a.frame.blocks with
  | cons block rest =>
      let cut : Frame → Frame := fun f => { f.truncate block.stackDepth with blocks := rest }
      have hcut : holds (cut a.frame) + (holds (a.frame.above block.stackDepth) +
          (holds x.toValue + F)) ≤ holds a.frame + (holds x + F) := by
        have hsame : holds (cut a.frame) = holds (a.frame.truncate block.stackDepth) := rfl
        rw [hsame, ← holds_truncate a.frame block.stackDepth, holds_toValue, add_assoc]
      refine (modifyFrame_ends hcut h).seqWith (le_trans le_add_self le_add_self)
        fun b t t' ht => ?_
      have hreleased := onInterruption_ends hs hZ (v := x.toValue) (F := F)
        (releaseAll_ends hs hZ ht)
      refine hreleased.bindWith le_rfl fun _ c u u' hu => ?_
      have hpushed := push_ends (F := F) (a := c) (v := x.toValue) (hu.le (by simp))
      exact hpushed.seqWith le_rfl fun d v v' hv => goTo_ends _ hv
  | nil =>
      refine (edit_ends rfl h).seqWith le_add_self fun b t t' ht => ?_
      show Ends (Z.bondWith Activation) F holds
        ((activation >>= fun c => (clearStack e).onInterruption (release e x.toValue) >>= fun _ =>
          modifyFrame Frame.markFinished >>= fun _ => Run.raise (x.pushEntry
            (c.frame.traceEntry (t.code a.frame.code).name (t.code a.frame.code).filename))) (b, t))
        ((activation >>= fun c => (clearStack e').onInterruption (release e' x.toValue) >>= fun _ =>
          modifyFrame Frame.markFinished >>= fun _ => Run.raise (x.pushEntry
            (c.frame.traceEntry (t'.code a.frame.code).name (t'.code a.frame.code).filename)))
          (b, t'))
      rw [code_eq ht]
      refine activation_ends ?_
      have hcleared := onInterruption_ends hs hZ (v := x.toValue) (F := F)
        (clearStack_ends hs hZ ht)
      refine hcleared.bindWith le_rfl fun _ c u u' hu => ?_
      have hmarked := edit_ends (a := c) (d := Frame.markFinished) (F := holds x + F) rfl
        (hu.le (by simp))
      exact hmarked.seqWith le_add_self fun d v v' hv => .raised ⟨rfl, hv⟩

/-- A run with no less fuel goes as far. -/
theorem run_ends {p : Code.Program} {closure : Value} (hclosure : Z.Secures (holds closure))
    (hsound : Z.law.tame → p.Sound) {n n' : Nat} (hn : n ≤ n') (hspare : Spare Z a)
    (h : Z.Linked (holds a + F) w w') :
    Ends (Z.bondWith Activation) F holds (run e p closure n (a, w))
      (run e' p closure n' (a, w')) := by
  induction n generalizing n' a w w' with
  | zero => exact .outOfFuel h.calm
  | succ n ih =>
      obtain ⟨k, rfl⟩ : ∃ k, n' = k + 1 := ⟨n' - 1, by omega⟩
      rw [run, run]
      refine activation_ends ?_
      cases hi : p.instructions[a.counter]? with
      | none => exact finish_ends hs hZ (h.le (by rw [holds_value_none, zero_add]))
      | some i =>
          have hexecuted := (execute_ends hs hZ (a := { a with counter := a.counter + 1 }) hclosure
            hsound hi rfl hspare h).attempt
          refine hexecuted.bindKeeping (inert_spare.execute i).attempt hspare le_rfl
            fun outcome b t t' hb ht => ?_
          rcases outcome with x | _ | suspension
          · exact (unwind_ends hs hZ ht).bindKeeping (inert_spare.aloof.unwind x) hb le_rfl
              fun _ c u u' hc hu => ih (Nat.le_of_succ_le_succ hn) hc (hu.le (by simp))
          · exact ih (Nat.le_of_succ_le_succ hn) hb (ht.le (by simp))
          · exact .ok ⟨rfl, ht⟩

omit hs hZ in
/-- The value of the expression that the frame was suspended in. -/
theorem pushResumeValue_ends (p : Code.Program) (h : Z.Linked (holds a + F) w w') :
    Ends (Z.bondWith Activation) F holds (pushResumeValue p (a, w))
      (pushResumeValue p (a, w')) := by
  unfold pushResumeValue
  refine activation_ends ?_
  have hdone : Ends (Z.bondWith Activation) F holds (.ok () (a, w)) (.ok () (a, w')) :=
    .ok ⟨rfl, h.le (by rw [holds_unit, zero_add])⟩
  by_cases hidle : (a.counter = 0 || isDelegating p a) = true
  · simp only [hidle, if_true]
    exact hdone
  · simp only [hidle, Bool.false_eq_true, if_false]
    cases p.instructions[a.counter - 1]? with
    | none => exact hdone
    | some i =>
        cases i with
        | yieldValue =>
            exact (takeSent_ends h).bindWith le_rfl fun v b t t' ht => push_ends ht
        | yieldFrom =>
            have htaken := modifyFrame_ends (a := a) (G := F)
              (F := holds (a.frame.delegationResult.getD .none) + F)
              (d := fun f => { f with delegationResult := none }) (fun o => by
                cases hr : a.frame.delegationResult <;>
                  simp only [holds_frame, hr, holds_none, holds_some, Option.getD_none,
                    Option.getD_some, holds_value_none, Pi.add_apply, Pi.zero_apply] <;> omega) h
            exact htaken.seqWith le_add_self fun b t t' ht => push_ends ht
        | _ => exact hdone

theorem resume_ends {p : Code.Program} {closure : Value} (hclosure : Z.Secures (holds closure))
    (hsound : Z.law.tame → p.Sound) (hspare : Spare Z a) {pending : Option Exception}
    (h : Z.Linked (holds a + (holds pending + F)) w w') :
    Ends (Z.bondWith Activation) F holds (resume e p closure pending (a, w))
      (resume e' p closure pending (a, w')) := by
  unfold resume
  cases pending with
  | some x =>
      exact (unwind_ends hs hZ h).bindKeeping (inert_spare.aloof.unwind x) hspare le_rfl
        fun _ b t t' hb ht => run_ends hs hZ hclosure hsound hs.fuel hb (ht.le (by simp))
  | none =>
      exact (pushResumeValue_ends p (h.le (by rw [holds_none, zero_add]))).bindKeeping
        (inert_spare.aloof.pushResumeValue p) hspare le_rfl
        fun _ b t t' hb ht => run_ends hs hZ hclosure hsound hs.fuel hb (ht.le (by simp))

end Steps

end Exec

/-- What is left of a resume is its frame. -/
theorem frameOfActivation_ends
    {x x' : EStateM.Result Interruption (Activation × World) Suspension} :
    Ends (Z.bondWith Activation) F holds x x' → Ends (Z.bondWith Frame) F holds
      (match x with
        | .ok suspension (a, w) => .ok suspension (a.frame, w)
        | .error reason (a, w) => .error reason (a.frame, w))
      (match x' with
        | .ok suspension (a, w) => .ok suspension (a.frame, w)
        | .error reason (a, w) => .error reason (a.frame, w)) := by
  intro h
  have hle : ∀ b : Activation, holds b.frame ≤ holds b := fun _ => le_self_add
  cases h with
  | ok h => exact .ok (Ends.bondWith_project hle h)
  | raised h => exact .raised (Ends.bondWith_project hle h)
  | aborted h ha => exact .aborted (Ends.bondWith_project hle h) ha
  | outOfFuel h => exact .outOfFuel h

/-- One resume of a frame by an assembled program. -/
theorem programResume_ends (hs : Serves C e e') (hZ : Z.Fit C) {p : Code.Program}
    {closure : Value} (hclosure : Z.Secures (holds closure)) (hsound : Z.law.tame → p.Sound)
    {pending : Option Exception} {f : Frame} (hinput : Z.law.tame → holds f.input ≤ Z.left) (h : Z.Linked (holds f + (holds pending + F)) w w') :
    Ends (Z.bondWith Frame) F holds (p.resume e closure pending (f, w))
      (p.resume e' closure pending (f, w')) := by
  unfold Code.Program.resume
  by_cases hfinished : f.position < 0
  · simp only [hfinished, if_true]
    refine Ends.ensuring (C := holds pending) (.raised ⟨rfl, h.le ?_⟩) fun G s s' _ hss => ?_
    · rw [Exception.systemError, holds_withMessage, zero_add]
    · obtain ⟨b, t⟩ := s
      obtain ⟨b', t'⟩ := s'
      obtain ⟨rfl, ht⟩ := hss
      exact Ends.shared (releasePending_ends hs hZ (ht.le (add_left_comm _ _ _).le))
  · simp only [hfinished, if_false]
    have hstart : holds (⟨{ f with input := none }, f.position.toNat, f.input.getD .none⟩ :
        Activation) ≤ holds f := by
      intro o
      cases hi : f.input <;>
        simp only [holds_activation, holds_frame, hi, holds_none, holds_some, Option.getD_none,
          Option.getD_some, holds_value_none, Pi.add_apply, Pi.zero_apply] <;> omega
    have hspare : Exec.Spare Z ⟨{ f with input := none }, f.position.toNat, f.input.getD .none⟩ :=
      fun hlaw => le_trans (by cases f.input <;> simp) (hinput hlaw)
    have hrun := Exec.resume_ends hs hZ hclosure hsound hspare (F := 0 + F)
      (h.le (by rw [zero_add]; exact add_le_add_left hstart _))
    have hend := hrun.ensuring (c := do Exec.release e (← Exec.takeSent))
      (d := do Exec.release e' (← Exec.takeSent)) fun G s s' _ hss => by
        obtain ⟨b, t⟩ := s
        obtain ⟨b', t'⟩ := s'
        obtain ⟨rfl, ht⟩ := hss
        exact (Exec.takeSent_ends ht).bindWith le_add_self
          fun v c u u' hu => Exec.release_ends hs hZ (hu.le (by rw [zero_add]))
    exact frameOfActivation_ends hend

end Resumable
