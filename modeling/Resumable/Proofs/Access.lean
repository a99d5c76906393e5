import Mathlib.Tactic.Abel
import Resumable.Proofs.Serves

set_option autoImplicit false

/-!
# Access in linked worlds

The functions that read objects, make exceptions and change frames come to the same end in linked
worlds.
-/

namespace Resumable

variable {C : Zone → Prop} {Z : Zone} {F G : Bag} {e e' : Engine} {w w' : World} {α : Type}

/-! ## What a change of a frame holds -/

theorem holds_replaceLocals (f : Frame) (vs : List Value) :
    holds (f.replaceLocals vs).1 + holds (f.replaceLocals vs).2 = holds vs + holds f := by
  simp only [Frame.replaceLocals, holds_frame]
  abel

theorem holds_replaceStack (f : Frame) (vs : List Value) :
    holds (f.replaceStack vs).1 + holds (f.replaceStack vs).2 = holds vs + holds f := by
  simp only [Frame.replaceStack, holds_frame, holds_values_reverse]
  abel

theorem holds_replaceDelegate (f : Frame) (v : Value) :
    holds (f.replaceDelegate v).1 + holds (f.replaceDelegate v).2 = holds v + holds f := by
  simp only [Frame.replaceDelegate, holds_frame, holds_some, holds_toList]
  abel

theorem holds_removeDelegate (f : Frame) :
    holds f.removeDelegate.1 + holds f.removeDelegate.2 = holds f := by
  simp only [Frame.removeDelegate, holds_frame, holds_none, holds_toList]
  abel

theorem holds_pendingArgs (x : Option Exception) :
    holds ((x.map (·.args)).getD []) = holds x := by
  cases x <;> rfl

theorem holds_replacePending (f : Frame) (x : Exception) :
    holds (f.replacePending x).1 + holds (f.replacePending x).2 = holds x + holds f := by
  simp only [Frame.replacePending, holds_frame, holds_some, holds_pendingArgs]
  abel

theorem holds_replaceInput (f : Frame) (v : Value) :
    holds (f.replaceInput v).1 + holds (f.replaceInput v).2 = holds v + holds f := by
  simp only [Frame.replaceInput, holds_frame, holds_some, holds_toList]
  abel

theorem holds_replaceDelegationResult (f : Frame) (v : Value) :
    holds (f.replaceDelegationResult v).1 + holds (f.replaceDelegationResult v).2
      = holds v + holds f := by
  simp only [Frame.replaceDelegationResult, holds_frame, holds_some, holds_toList]
  abel

/-- Putting a value into a list of values gives up the value that was there. -/
theorem holds_set_le (vs : List Value) (i : Nat) (v : Value) :
    holds (vs.set i v) + holds vs[i]? ≤ holds v + holds vs := by
  induction vs generalizing i with
  | nil =>
      simp only [List.set_nil, List.getElem?_nil, holds_none, holds_values_nil, add_zero]
      exact le_add_self
  | cons u us ih =>
      cases i with
      | zero =>
          simp only [List.set_cons_zero, holds_values_cons, List.getElem?_cons_zero, holds_some]
          rw [show holds v + holds us + holds u = holds v + (holds u + holds us) by abel]
      | succ i =>
          have := ih i
          intro o
          have := Bag.apply_le this o
          simp only [List.set_cons_succ, holds_values_cons, List.getElem?_cons_succ,
            Pi.add_apply] at this ⊢
          omega

theorem holds_replicate_none (n : Nat) : holds (List.replicate n Value.none) = 0 := by
  induction n with
  | zero => rfl
  | succ n ih => simp [List.replicate_succ, ih]

theorem holds_replaceLocal_le (f : Frame) (i : Nat) (v : Value) :
    holds (f.replaceLocal i v).1 + holds (f.replaceLocal i v).2 ≤ holds v + holds f := by
  let grown := f.locals ++ List.replicate (i + 1 - f.locals.length) Value.none
  have hgrown : holds grown = holds f.locals := by
    simp [grown, holds_replicate_none]
  have hold : holds f.locals[i]? ≤ holds grown[i]? := by
    by_cases hi : i < f.locals.length
    · rw [List.getElem?_append_left hi]
    · rw [List.getElem?_eq_none (Nat.le_of_not_lt hi)]
      exact zero_le
  intro o
  have hset := Bag.apply_le (holds_set_le grown i v) o
  have hold := Bag.apply_le hold o
  rw [hgrown] at hset
  simp only [Frame.replaceLocal, holds_frame, holds_toList, Pi.add_apply] at hset ⊢
  show holds (grown.set i v) o + _ + _ + _ + _ + _ + _ ≤ _
  omega

/-! ## Reading -/

/-- Reading a frame is abandoned in both worlds, or gives the same frame. -/
theorem readFrame_cases (hZ : Z.Valid) {r : FrameRef} (hr : ¬ Z.sealed (.frame r))
    (h : Z.Linked F w w') :
    (w.frame? r = none ∧ World.readFrame r w = World.abort w ∧
        World.readFrame r w' = World.abort w') ∨
      ∃ f, w.frame? r = some f ∧ World.readFrame r w = .ok f w ∧
        World.readFrame r w' = .ok f w' := by
  have hsame : w'.frame? r = w.frame? r :=
    h.alike.frame r fun hh => hr (hZ.sealed_of_hidden _ hh)
  unfold World.readFrame
  rw [hsame]
  cases hf : w.frame? r with
  | none => exact Or.inl ⟨rfl, rfl, rfl⟩
  | some f => exact Or.inr ⟨f, rfl, rfl, rfl⟩

theorem readFrame_ends (hZ : Z.Valid) {r : FrameRef} (hr : Z.Open F r) (h : Z.Linked F w w') :
    Ends Z.bond F (fun _ => 0) (World.readFrame r w) (World.readFrame r w') := by
  rcases readFrame_cases hZ hr.unsealed h with ⟨hvacant, hw, hw'⟩ | ⟨f, _, hw, hw'⟩
  · rw [hw, hw']
    exact abort_ends (hr.breaks hZ h le_rfl hvacant) h
  · rw [hw, hw']
    exact .ok (h.le (zero_add F).le)

/-- An iterator that has an owner and is not in its cell is in use. -/
theorem busy_of_vacant (hZ : Z.Valid) (h : Z.Linked F w w') {r : IteratorRef}
    (hr : Z.Covered w (holds (Value.iterator r)))
    (hvacant : w.iterator? r = none) : Z.Busy := by
  obtain ⟨hsealed, hlive⟩ := hr (.iterator r) (by rw [holds_iterator, Bag.of_singleton_self])
  exact ⟨r, h.accounted.seated _ (fun hh => hsealed (hZ.sealed_of_hidden _ hh)) hlive hvacant⟩

/-- An iterator that is covered is not sealed. -/
theorem Zone.Covered.iterator_not_sealed {r : IteratorRef}
    (h : Z.Covered w (holds (Value.iterator r))) : ¬ Z.sealed (.iterator r) :=
  (h (.iterator r) (by rw [holds_iterator, Bag.of_singleton_self])).1

theorem readIterator_ends (hZ : Z.Valid) {r : IteratorRef}
    (hr : Z.Covered w (holds (Value.iterator r))) (h : Z.Linked F w w') :
    Ends Z.bond F (fun _ => 0) (World.readIterator r w) (World.readIterator r w') := by
  have hsame : w'.iterator? r = w.iterator? r :=
    h.alike.iterator r fun hh => hr.iterator_not_sealed (hZ.sealed_of_hidden _ hh)
  unfold World.readIterator
  rw [hsame]
  cases hi : w.iterator? r with
  | none => exact abort_ends (busy_of_vacant hZ h hr hi).breaks h
  | some i => exact .ok (h.le (zero_add F).le)

/-- A value of which nothing is sealed has the same type in both worlds. -/
theorem typeName?_eq (hZ : Z.Valid) {v : Value} (hv : ∀ o, Z.sealed o → holds v o = 0)
    (h : Z.Linked F w w') : w'.typeName? v = w.typeName? v := by
  cases v with
  | iterator r =>
      have hr : ¬ Z.hidden (.iterator r) := fun hh => by
        have := hv _ (hZ.sealed_of_hidden _ hh)
        rw [holds_iterator, Bag.of_singleton_self] at this
        cases this
      simp only [World.typeName?, h.alike.iterator r hr]
  | _ => rfl

/-- A value without a type is an iterator in use. -/
theorem busy_of_typeless (hZ : Z.Valid) (h : Z.Linked F w w') {v : Value}
    (hv : Z.Covered w (holds v)) (htype : w.typeName? v = none) : Z.Busy := by
  cases v with
  | iterator r =>
      refine busy_of_vacant hZ h hv ?_
      cases hi : w.iterator? r with
      | none => rfl
      | some i => simp [World.typeName?, hi] at htype
  | _ => simp [World.typeName?] at htype

theorem typeName_ends (hZ : Z.Valid) {v : Value} (hv : Z.Covered w (holds v))
    (h : Z.Linked F w w') :
    Ends Z.bond F (fun _ => 0) (World.typeName v w) (World.typeName v w') := by
  unfold World.typeName
  rw [typeName?_eq hZ hv.unsealed h]
  cases htype : w.typeName? v with
  | none => exact abort_ends (busy_of_typeless hZ h hv htype).breaks h
  | some name => exact .ok (h.le (zero_add F).le)

/-! ## Exceptions -/

/-- An exception holds no more than what it was made from. -/
theorem holds_normalize_le {type : Value} {value : Option Value} {x : Exception}
    (h : Exception.normalize type value = .ok x) : holds x ≤ holds type + holds value := by
  have hfilter : holds (value.filter fun v => !v.isNone) ≤ holds value := by
    cases value with
    | none => exact le_rfl
    | some v =>
        by_cases hv : v.isNone = true
        · simp [Option.filter, hv]
        · simp [Option.filter, hv]
  unfold Exception.normalize at h
  split at h
  · cases h
    exact zero_le
  · next hvalue =>
      rw [hvalue] at hfilter
      split at h <;> cases h
      · exact le_trans hfilter le_add_self
      · refine le_trans ?_ (le_trans hfilter le_add_self)
        simp [holds_exception, Exception.new]
  · next hvalue =>
      rw [hvalue] at hfilter
      cases h
      refine le_trans ?_ (le_trans hfilter le_add_self)
      simp [holds_exception, Exception.new]
  · cases h
  · cases h
    exact le_self_add
  · cases h

/-- Nothing but the type is found at fault. -/
theorem fault_of_normalize {type v : Value} {value : Option Value}
    (h : Exception.normalize type value = .error (.notAnException v)) : v = type := by
  unfold Exception.normalize at h
  split at h
  · cases h
  · split at h <;> cases h
  · cases h
  · cases h
  · cases h
  · cases h
    rfl

theorem faultMessage_ends (hZ : Z.Valid) {fault : Exception.Fault}
    (hv : ∀ v, fault = .notAnException v → Z.Covered w (holds v))
    (h : Z.Linked F w w') :
    Ends Z.bond F (fun _ => 0) (World.faultMessage fault w) (World.faultMessage fault w') := by
  cases fault with
  | separateValue => exact .ok (h.le (zero_add F).le)
  | notAnException v =>
      exact (typeName_ends hZ (hv v rfl) h).bind le_rfl fun name t t' ht => .ok ht

/-- Making an exception from a type and a value that stay with the caller. -/
theorem normalize_ends (hZ : Z.Valid) {type : Value} {value : Option Value}
    (htype : holds type ≤ F) (hvalue : holds value ≤ F) (h : Z.Linked F w w') :
    Ends Z.bond F holds (World.normalize type value w) (World.normalize type value w') := by
  unfold World.normalize
  cases hx : Exception.normalize type value with
  | ok x =>
      refine (shareAll_ends hZ (v := x.args) (fun o ho => ?_) h).bind le_rfl
        fun _ t t' ht => .ok ht
      have hmade := Bag.apply_le (holds_normalize_le hx) o
      rw [holds_exception] at hmade
      by_cases hone : 1 ≤ holds type o
      · exact h.covered htype o hone
      · refine h.covered hvalue o ?_
        simp only [Pi.add_apply] at hmade
        omega
  | error fault =>
      refine (faultMessage_ends hZ (fun v hv => ?_) h).bind le_rfl fun name t t' ht => ?_
      · rw [hv] at hx
        rw [fault_of_normalize hx]
        exact h.covered htype
      · exact .raised ht

theorem exceptionOf_ends (hZ : Z.Valid) {v : Value} (hv : holds v ≤ F) (h : Z.Linked F w w') :
    Ends Z.bond F holds (World.exceptionOf v w) (World.exceptionOf v w') := by
  have hnone : holds (none : Option Value) ≤ F := zero_le
  have hattempt := (normalize_ends hZ hv hnone h).attempt
  refine hattempt.bind le_rfl fun outcome t t' ht => ?_
  cases outcome with
  | ok x => exact .ok ht
  | error x => exact .ok ht

/-! ## Changing frames -/

/-- Moving on changes nothing that a frame holds. -/
@[simp] theorem holds_stepOn (f : Frame) : holds f.stepOn = holds f := rfl

@[simp] theorem holds_markFinished (f : Frame) : holds f.markFinished = holds f := rfl

theorem stepOn_ends {A : Prop} {f : Frame} (hA : f.hasNext = false → A)
    (h : Z.Linked (holds f + F) w w') :
    Ends (Z.bondWithIf Frame A) F holds (World.stepOn (f, w)) (World.stepOn (f, w')) := by
  show Ends (Z.bondWithIf Frame A) F holds
    ((if f.hasNext = true then _ else _ : Run (Frame × World) Unit) (f, w))
    ((if f.hasNext = true then _ else _ : Run (Frame × World) Unit) (f, w'))
  split
  · exact .ok ⟨rfl, by simpa using h⟩
  · next hnext => exact Ends.shared (abort_ends (hA (by simpa using hnext)) h)

section Changes

variable (hs : Serves C e e') (hZ : Z.Fit C)

include hs hZ

theorem replace_quiet {c : Frame → Frame × List Value} {f : Frame}
    (hc : holds (c f).1 + holds (c f).2 ≤ G + holds f)
    (h : Z.Linked (holds f + (G + F)) w w') :
    Ends (Z.quietWith Frame) F holds (e.replace c (f, w)) (e'.replace c (f, w')) := by
  show Ends (Z.quietWith Frame) F holds
    (Run.shared (e.releaseAll (c f).2) ((c f).1, w))
    (Run.shared (e'.releaseAll (c f).2) ((c f).1, w'))
  refine Ends.shared (releaseAll_quiet hs hZ (h.le ?_))
  intro o
  have := Bag.apply_le hc o
  simp only [Pi.add_apply] at this ⊢
  omega

/-- Working on a frame with values that are forgotten if the frame is in use. -/
theorem withFrameFor_ends {A : Prop} {r : FrameRef} {vs : List Value} {q : α → Bag}
    {m m' : Run (Frame × World) α} (hr : Z.Open F r) (haborts : A → Z.Breaks)
    (htame : Z.law.tame → ∀ f : Frame, f.Tame →
      Run.Leaves (fun _ => Frame.Tame) Frame.Tame Frame.Tame m f)
    (h : Z.Linked (holds vs + F) w w')
    (hm : ∀ f t t', w.frame? r = some f → (Z.pin r none).Fit C →
      (Z.pin r none).Linked (holds f + (holds vs + F)) t t' →
        Ends ((Z.pin r none).bondWithIf Frame A) F q (m (f, t)) (m' (f, t'))) :
    Ends Z.bond F q (e.withFrameFor vs r m w) (e'.withFrameFor vs r m' w') := by
  have hbreaks := hr.breaks hZ.valid h le_add_self
  rcases readFrame_cases hZ.valid hr.unsealed h with
    ⟨hvacant, hread, hread'⟩ | ⟨f, hf, hread, hread'⟩
  · exact Ends.handle_aborted hread hread'
      (releaseAll_ends hs hZ (h.setUnwinding true)) (hbreaks hvacant)
  · unfold Engine.withFrameFor
    rw [Run.bind_ok (Run.onInterruption_ok hread), Run.bind_ok (Run.onInterruption_ok hread')]
    exact withFrame_ends (hr.visible hZ.valid) hr.loose hbreaks haborts
      (fun hlaw f _ => htame hlaw f) h
      le_add_self fun f hfree hf ht => hm f _ _ hf (hZ.pin_none hfree) ht

theorem put_ends {r : FrameRef} {v : Value} {change : Frame → Value → Frame × List Value}
    (hr : Z.Open F r)
    (hchange : ∀ f, holds (change f v).1 + holds (change f v).2 ≤ holds v + holds f)
    (htame : Z.law.tame → ∀ f : Frame, f.Tame → (change f v).1.Tame)
    (h : Z.Linked (holds v + F) w w') :
    Ends Z.bond F holds (e.put r v change w) (e'.put r v change w') := by
  refine withFrameFor_ends hs hZ hr Zone.Busy.breaks (fun hlaw f hf => replace_leaves (htame hlaw f hf))
    (h.le (by simp)) fun f t t' _ hpin ht => ?_
  exact replace_quiet hs hpin (hchange f) (ht.le (by simp))

theorem dropDelegate_ends {r : FrameRef} (hr : Z.Open F r) (h : Z.Linked F w w') :
    Ends Z.bond F holds (e.dropDelegate r w) (e'.dropDelegate r w') := by
  refine withFrame_ends (hr.visible hZ.valid) hr.loose (hr.breaks hZ.valid h le_rfl)
    Zone.Busy.breaks (fun _ f _ hf => replace_leaves hf.removeDelegate) h le_rfl
    fun f hfree _ hf => ?_
  refine replace_quiet hs (hZ.pin_none hfree) (G := 0) ?_ (by rwa [zero_add])
  rw [holds_removeDelegate, zero_add]

theorem leavePending_ends {r : FrameRef} {x : Exception} (hr : Z.Open F r)
    (h : Z.Linked (holds x + F) w w') :
    Ends Z.bond F holds (e.leavePending r x w) (e'.leavePending r x w') := by
  refine withFrameFor_ends hs hZ hr Zone.Busy.breaks
    (fun _ f hf => replace_leaves ⟨⟨hf.start, hf.position, hf.next⟩, hf.input⟩) h fun f t t' _ hpin ht => ?_
  exact replace_quiet hs hpin (holds_replacePending f x).le ht

/-- The delegate goes, the resume point moves on, and the result is put in place. -/
theorem finishDelegation_ends {r : FrameRef} {v : Value} (hr : Z.Open F r)
    (hnext : Z.law.tame → ∀ f, w.frame? r = some f → f.hasNext = true)
    (h : Z.Linked (holds v + F) w w') :
    Ends Z.bond F holds (e.finishDelegation r v w) (e'.finishDelegation r v w') := by
  have hbusy : (Z.pin r none).Busy → Z.Breaks := Zone.Busy.breaks (Z := Z)
  refine withFrameFor_ends (A := Z.Breaks) hs hZ hr id (fun _ f hf => finishDelegation_leaves v hf)
    (h.le (by simp)) fun f t t' hf hpin ht => ?_
  have hremoved : Ends ((Z.pin r none).bondIf Z.Breaks)
      (holds f.removeDelegate.1 + (holds v + F)) holds
      (e.releaseAll f.removeDelegate.2 t) (e'.releaseAll f.removeDelegate.2 t') := by
    refine (releaseAll_quiet hs hpin (ht.le ?_)).loosen hbusy
    intro o
    have := congrFun (holds_removeDelegate f) o
    simp only [holds_values_cons, holds_values_nil, Pi.add_apply, Pi.zero_apply] at this ⊢
    omega
  have hmoved : Ends ((Z.pin r none).bondWithIf Frame Z.Breaks) (holds v + F) holds
      ((do e.replace Frame.removeDelegate; World.stepOn : Run (Frame × World) Unit) (f, t))
      ((do e'.replace Frame.removeDelegate; World.stepOn : Run (Frame × World) Unit) (f, t')) := by
    refine Ends.bindShared (f := fun _ => World.stepOn) (p := holds) hremoved le_rfl fun _ u u' hu => ?_
    refine stepOn_ends (f := f.removeDelegate.1) (A := Z.Breaks) (fun hlast htame => ?_)
      (hu.le (by rw [holds_unit, zero_add]; rfl))
    rw [show f.removeDelegate.1.hasNext = f.hasNext from rfl, hnext htame f hf] at hlast
    cases hlast
  have hguarded := hmoved.onInterruption (c := Run.shared (e.release v))
    (d := Run.shared (e'.release v)) fun G s s' _ hss => by
      obtain ⟨b, u⟩ := s
      obtain ⟨b', u'⟩ := s'
      obtain ⟨rfl, hu⟩ := hss
      exact Ends.shared
        ((release_quiet hs hpin (hu.le (add_left_comm _ _ _).le)).loosen hbusy)
  refine hguarded.bindWith le_rfl fun _ b u u' hu => ?_
  have hput := replace_quiet hs hpin (c := (·.replaceDelegationResult v)) (F := F)
    (holds_replaceDelegationResult b v).le (hu.le (by rw [holds_unit, zero_add]))
  exact hput.loosenWith hbusy

end Changes

end Resumable
