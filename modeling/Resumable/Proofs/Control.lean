import Resumable.Proofs.Resumption

set_option autoImplicit false

/-!
# Throwing and closing in linked worlds

A delegate that is thrown into or closed does its work while the delegating generator is marked as
running and its frame is at rest: neither can change meanwhile (`whileDelegating_ends`).
-/

namespace Resumable

namespace Engine

/-- What closing a generator makes of how the body took the request to finish: to yield is an error, and
an end of the iteration is none. -/
def conclude (e : Engine) : Except Exception Value → Run World Value
  | .ok v => e.owning v (Run.raise (.runtimeError "generator ignored GeneratorExit"))
  | .error x =>
      if x.isCaughtBy .stopIteration || x.isCaughtBy .generatorExit then
        (do e.releaseException x; return .none)
      else Run.raise x

theorem closeWith_eq (e : Engine) (g : GeneratorRef) (r : FrameRef) :
    e.closeWith g r = (do
      e.closeDelegate g r
      e.leavePending r .generatorExit
      e.conclude (← Run.attempt (e.perform (.resume g .none)))) := by
  unfold closeWith
  refine bind_congr fun _ => bind_congr fun _ => bind_congr fun outcome => ?_
  cases outcome <;> rfl

end Engine

variable {C : Zone → Prop} {Z : Zone} {F G : Bag} {e e' : Engine} {w w' : World}
  {g : GeneratorRef} {r : FrameRef} {v : Value}

/-! ## While a delegate does its work -/

@[simp] theorem frame_setRunning (w : World) (b : Bool) (s : FrameRef) :
    (w.setRunning g b).frame? s = w.frame? s := rfl

/-- A generator whose delegate may be asked to do something: it is idle, and its frame is at
rest. -/
structure Resting (Z : Zone) (F : Bag) (w : World) (g : GeneratorRef) (r : FrameRef) (f : Frame) :
    Prop where
  held : Z.Held F g
  free : Z.fixed g = none
  cell : Z.cells r = none
  slot : (w.generator g).frame = some r
  frame : w.frame? r = some f

theorem Resting.le {f : Frame} (h : Resting Z F w g r f) (hle : F ≤ G) : Resting Z G w g r f :=
  { h with held := h.held.le hle }

/-- The frame of a delegating generator can move on. -/
theorem Resting.next {f : Frame} {inner : Value} (h : Resting Z G w g r f) (hw : Z.Linked F w w')
    (hd : f.delegate = some inner) (hlaw : Z.law.tame) : f.hasNext = true :=
  ((hw.tame hlaw).frames r f h.frame).next (by rw [hd]; rfl)

theorem Resting.addOwners {f : Frame} (h : Resting Z F w g r f) (os : List Object) :
    Resting Z F (w.addOwners os) g r f :=
  { h with
    slot := by rw [generator_addOwners, h.slot]
    frame := by rw [frame_addOwners, h.frame] }

/-- Being linked in a zone, where a generator and a frame are known. -/
def Zone.bondOn (Z : Zone) (g : GeneratorRef) (x : Generator) (r : FrameRef) (f : Frame) :
    Bond World where
  rel F t t' := Z.Linked F t t' ∧ t.frame? r = some f ∧ t.generator g = x
  calm := Z.Calm
  aborts := Z.Breaks
  le hle h := ⟨h.1.le hle, h.2⟩

/-- Carrying out a computation of a delegate leaves the generator and its frame as they are. -/
theorem whileDelegating_keeps {α : Type} {f : Frame} {A : Bag} {q : α → Bag}
    {m m' : Run World α} (hZ : Z.Fit C) (hrest : Resting Z F w g r f)
    (hdelegates : f.delegate.isSome = true) (h : Z.Linked (A + F) w w')
    (hm : ∀ (B H : Bag) (x : Generator), B + H = F →
      (((Z.lend B).fix g x).pin r (some f)).Fit C →
        (((Z.lend B).fix g x).pin r (some f)).Linked (A + H) (w.setRunning g true)
          (w'.setRunning g true) →
          Ends (((Z.lend B).fix g x).pin r (some f)).bond H q (m (w.setRunning g true))
            (m' (w'.setRunning g true))) :
    Ends (Z.bondOn g (w.generator g) r f) F q (World.whileRunning g m w) (World.whileRunning g m' w') := by
  obtain ⟨B, H, hsplit, hfit, hstarted⟩ := h.startRunning hZ hrest.held hrest.free hrest.cell hrest.slot
  have hpinned := hstarted.pin (r := r) (c := some f) (by rw [frame_setRunning, hrest.frame])
  have hbody := hm B H _ hsplit (hfit (some f) fun b hb => Option.some.inj hb ▸ hdelegates) hpinned
  have hB : ∀ o, Z.sealed o → B o = 0 :=
    h.unsealed (by rw [← hsplit]; exact le_add_left le_self_add)
  show Ends (Z.bondOn g (w.generator g) r f) F q
    (m.ensuring (modify (·.setRunning g false)) (w.setRunning g true))
    (m'.ensuring (modify (·.setRunning g false)) (w'.setRunning g true))
  refine Ends.bracket hbody (fun _ h => h)
    (fun hbreaks => Zone.Breaks.unfix (Zone.Breaks.unpin_some hbreaks) hrest.free)
    fun G t t' ht => ⟨?_, ?_, ?_⟩
  · rw [← hsplit]
    have hback := Zone.Linked.unpin ht (Zone.allows_of_free hrest.cell _) nofun
    exact hback.stopRunning hrest.held.1 hrest.free hB
  · exact ht.pinned.cells r (some f) (by simp [Zone.pin])
  · exact generator_setRunning_false (h.idle hrest.free)
      (ht.pinned.fixed g _ (by simp [Zone.fix, Zone.pin]))

/-- Carrying out a computation of a delegate. -/
theorem whileDelegating_ends {α : Type} {f : Frame} {A : Bag} {q : α → Bag}
    {m m' : Run World α} (hZ : Z.Fit C) (hrest : Resting Z F w g r f)
    (hdelegates : f.delegate.isSome = true) (h : Z.Linked (A + F) w w')
    (hm : ∀ (B H : Bag) (x : Generator), B + H = F →
      (((Z.lend B).fix g x).pin r (some f)).Fit C →
        (((Z.lend B).fix g x).pin r (some f)).Linked (A + H) (w.setRunning g true)
          (w'.setRunning g true) →
          Ends (((Z.lend B).fix g x).pin r (some f)).bond H q (m (w.setRunning g true))
            (m' (w'.setRunning g true))) :
    Ends Z.bond F q (World.whileRunning g m w) (World.whileRunning g m' w') :=
  (whileDelegating_keeps hZ hrest hdelegates h hm).imp (fun _ h => h) id fun _ _ _ h => h.1

/-- A delegate is covered. -/
theorem Zone.Linked.covered_delegate (h : Z.Linked F w w') (hr : ¬ Z.hidden (.frame r)) {f : Frame}
    {inner : Value} (hf : w.frame? r = some f) (hd : f.delegate = some inner) :
    Z.Covered w (holds inner) := by
  refine h.covered_of_references (le_trans (fun o => ?_) (World.holds_frame_le hr))
  rw [hf, holds_some, holds_frame]
  simp only [hd, holds_some, Pi.add_apply]
  omega

/-- A delegate that the caller holds is held by someone outside, or still by the caller. -/
theorem held_lend (hZ : Z.Valid) (h : Z.Linked F w w') {A B H : Bag} (hle : A + (B + H) ≤ F)
    {d : GeneratorRef} (hd : holds (Value.generator d) ≤ B + H) (x : Generator) (c : Option Frame) :
    (((Z.lend B).fix g x).pin r c).Held H d := by
  have hone : 1 ≤ (B + H) (.generator d) := by
    have := Bag.apply_le hd (.generator d)
    rwa [holds_generator, Bag.of_singleton_self] at this
  have hF := Bag.apply_le (le_trans le_add_self hle) (.generator d)
  refine ⟨(h.held hZ (le_trans hone hF)).1, Or.inr ?_⟩
  show 1 ≤ H (.generator d) + (Z.left + B) (.generator d)
  simp only [Pi.add_apply] at hone ⊢
  omega

section Control

variable (hs : Serves C e e')

include hs

/-- Throwing into a delegate leaves the generator and its frame as they are. -/
theorem throwOutside_keeps (hZ : Z.Fit C) {f : Frame}
    {d : GeneratorRef} {y : Throw} (hrest : Resting Z F w g r f)
    (hdelegates : f.delegate.isSome = true) (hd : holds (Value.generator d) ≤ F) (h : Z.Linked (holds y + F) w w') :
    Ends (Z.bondOn g (w.generator g) r f) F holds (World.whileRunning g (e.throw d y) w)
      (World.whileRunning g (e'.throw d y) w') := by
  refine whileDelegating_keeps hZ hrest hdelegates h fun B H x hsplit hfit ht => ?_
  exact throw_ends hs hfit (held_lend hZ.valid h (by rw [hsplit]) (by rw [hsplit]; exact hd) x _) ht

/-- Closing a delegate leaves the generator and its frame as they are. -/
theorem closeOutside_keeps (hZ : Z.Fit C) {f : Frame} {inner : Value}
    (hrest : Resting Z F w g r f) (hdelegates : f.delegate.isSome = true) (hinner : holds inner ≤ F)
    (h : Z.Linked F w w') :
    Ends (Z.bondOn g (w.generator g) r f) F holds (World.whileRunning g (e.closeIter inner) w)
      (World.whileRunning g (e'.closeIter inner) w') := by
  refine whileDelegating_keeps hZ hrest hdelegates (A := 0) (by rwa [zero_add]) fun B H x hsplit hfit ht => ?_
  refine closeIter_ends hs hfit ?_ (by rwa [zero_add] at ht)
  cases inner with
  | generator d =>
      exact held_lend hZ.valid h (A := 0) (by rw [hsplit, zero_add]) (by rw [hsplit]; exact hinner) x _
  | iterator i =>
      have hone := Bag.apply_le hinner (.iterator i)
      rw [holds_iterator, Bag.of_singleton_self] at hone
      refine ⟨h.not_sealed hone, ?_⟩
      rw [← hsplit, Pi.add_apply] at hone
      show 1 ≤ H (.iterator i) + (Z.left + B) (.iterator i)
      rw [Pi.add_apply]
      omega
  | _ => trivial

/-- Closing an iterator that is no generator. -/
theorem closeForThrow_ends (hZ : Z.Fit C) {f : Frame} {i : IteratorRef}
    (hrest : Resting Z F w g r f) (hdelegates : f.delegate.isSome = true)
    (hi : holds (Value.iterator i) ≤ F) (h : Z.Linked F w w') :
    Ends Z.bond F holds (e.closeForThrow g i w) (e'.closeForThrow g i w') := by
  have hclosed : Ends Z.bond F holds
      (World.whileRunning g (World.withIterator i (Iterator.close? e)) w)
      (World.whileRunning g (World.withIterator i (Iterator.close? e')) w') := by
    refine whileDelegating_ends hZ hrest hdelegates (A := 0) (by rwa [zero_add])
      fun B H x hsplit hfit ht => ?_
    rw [zero_add] at ht
    have hcovered : (((Z.lend B).fix g x).pin r (some f)).Covered (w.setRunning g true)
        (holds (Value.iterator i)) := by
      refine ht.covered_iterator (h.covered hi).iterator_not_sealed ?_
      have hone := Bag.apply_le hi (.iterator i)
      rw [holds_iterator, Bag.of_singleton_self, ← hsplit, Pi.add_apply] at hone
      show 1 ≤ H (.iterator i) + (Z.left + B) (.iterator i)
      rw [Pi.add_apply]
      omega
    exact withIterator_ends hfit.valid hcovered.iterator_not_sealed
      (fun hvacant => (busy_of_vacant hfit.valid ht hcovered hvacant).breaks) Zone.breaks_of_not_tame
      (fun _ _ hj => iteratorClose_leaves hj) ht le_rfl
      fun j hj hu => iteratorClose_ends hs (hfit.use i) (fun hlaw => (ht.tame hlaw).iterators i j hj) hu
  refine hclosed.bind le_rfl fun closed t t' ht => ?_
  rcases closed with _ | x | v
  · exact .ok (ht.le (by simp))
  · by_cases hx : x.isCaughtBy .attributeError = true
    · simp only [hx, if_true]
      exact .ok ht
    · simp only [hx]
      exact .ok ht
  · exact .ok (ht.le (by simp))

/-- Giving up a delegate that failed to close. -/
theorem abandonDelegate_ends {α : Type} {q : α → Bag} (hZ : Z.Fit C) {x : Exception}
    (hopen : Z.Open F r)
    (hnext : Z.law.tame → ∀ f, w.frame? r = some f → f.hasNext = true)
    (h : Z.Linked (holds x + F) w w') :
    Ends Z.bond F q (e.abandonDelegate r x w) (e'.abandonDelegate r x w') := by
  have hfinished := finishDelegation_ends hs hZ (v := .none) (hopen.le le_add_self) hnext
    (h.le (by rw [holds_value_none, zero_add]))
  refine (hfinished.onInterruption (c := e.releaseException x) (d := e'.releaseException x)
    fun K t t' _ ht => releaseException_ends hs hZ ht).bind le_rfl fun _ t t' ht => ?_
  exact .raised (ht.le (by rw [holds_unit, zero_add]))

/-- Making an exception and raising it in the body. -/
theorem raiseIntoFrame_ends (hZ : Z.Fit C) {type : Value} {value : Option Value}
    {traceback : Option Traceback} (hheld : Z.Held F g) (hopen : Z.Open F r) (htype : holds type ≤ F)
    (h : Z.Linked (holds value + F) w w') :
    Ends Z.bond F holds (e.raiseIntoFrame g r type value traceback w)
      (e'.raiseIntoFrame g r type value traceback w') := by
  refine Ends.ensuring (C := holds value) ?_ fun K t t' _ ht =>
    releaseAll_ends hs hZ (ht.le (by rw [holds_toList]))
  refine (normalize_ends hZ.valid (le_trans htype le_add_self) le_self_add h).bind le_rfl
    fun x t t' ht => ?_
  refine inject_ends hs hZ (hheld.le le_add_self) (hopen.le le_add_self) (ht.le (le_of_eq ?_))
  cases traceback <;> rfl

/-- Throwing into a generator that delegates to another one. -/
theorem throwIntoDelegate_ends (hZ : Z.Fit C) {f : Frame} {d : GeneratorRef}
    {type : Value} {value : Option Value} {traceback : Option Traceback}
    (hrest : Resting Z F w g r f) (hopen : Z.Open F r)
    (hdelegate : f.delegate = some (.generator d)) (hd : holds (Value.generator d) ≤ F)
    (htype : holds type ≤ F) (hvalue : holds value ≤ F) (h : Z.Linked F w w') :
    Ends Z.bond F holds
      (e.throwIntoDelegate g r d ⟨type, value, traceback.map .traceback⟩ w)
      (e'.throwIntoDelegate g r d ⟨type, value, traceback.map .traceback⟩ w') := by
  have hgiven : Z.Linked (holds (type :: value.toList) + F)
      (w.retainAll (type :: value.toList)) (w'.retainAll (type :: value.toList)) := by
    refine h.retainAll hZ.valid fun o ho => ?_
    by_cases hone : 1 ≤ holds type o
    · exact h.covered htype o hone
    · refine h.covered hvalue o ?_
      simp only [holds_values_cons, holds_toList, Pi.add_apply] at ho
      omega
  have hthrown : holds (⟨type, value, traceback.map .traceback⟩ : Throw)
      = holds (type :: value.toList) := by
    rw [holds_throw, holds_values_cons, holds_toList]
    cases traceback <;> simp
  have hasked := throwOutside_keeps hs hZ (hrest.addOwners _) (by rw [hdelegate]; rfl) hd
    (y := ⟨type, value, traceback.map .traceback⟩) (hgiven.le (by rw [hthrown]))
  show Ends Z.bond F holds
    ((Run.attempt (World.whileRunning g (e.throw d ⟨type, value, traceback.map .traceback⟩)) >>= _)
      (w.retainAll (type :: value.toList)))
    ((Run.attempt (World.whileRunning g (e'.throw d ⟨type, value, traceback.map .traceback⟩)) >>= _)
      (w'.retainAll (type :: value.toList)))
  refine hasked.attempt.followed (fun _ h => h) id (fun _ _ _ h => h.1) fun outcome t t' ht => ?_
  obtain ⟨ht, hf, _⟩ := ht
  cases outcome with
  | ok v => exact .ok ht
  | error x =>
      by_cases hx : x.kind = .stopIteration
      · simp only [hx, if_true]
        refine Ends.ensuring (C := holds x) ?_ fun K t t' _ ht => releaseException_ends hs hZ ht
        have hcovered := ht.covered (le_trans (holds_stopValue_le x) le_self_add)
        have hstop := ht.retain hZ.valid hcovered
        have hnext : Z.law.tame → ∀ b, (t.retain x.stopValue).frame? r = some b →
            b.hasNext = true := fun hlaw b hb => by
          rw [World.retain, frame_addOwners, hf] at hb
          cases hb
          exact hrest.next h hdelegate hlaw
        have hended := finishDelegation_ends hs hZ (hopen.le le_add_self) hnext hstop
        refine hended.seq le_rfl fun t t' ht => ?_
        exact resume_ends hs hZ (hrest.held.le le_add_self) (ht.le (zero_add _).le)
      · simp only [hx, if_false]
        exact inject_ends hs hZ hrest.held hopen ht

/-- Throwing into a generator that is idle, where the caller holds its frame. -/
theorem throwInto_ends (hZ : Z.Fit C) {type : Value} {value : Option Value}
    {traceback : Option Traceback} (hheld : Z.Held F g) (hadmits : Z.Admits g)
    (hidle : (w.generator g).running = false) (hslot : (w.generator g).frame = some r)
    (htype : holds type ≤ F) (h : Z.Linked (holds (Value.frame r) + (holds value + F)) w w') :
    Ends Z.bond F holds (e.throwInto g r type value traceback w)
      (e'.throwInto g r type value traceback w') := by
  have hopen := h.opened (G := holds (Value.frame r) + (holds value + F)) hZ.valid hheld.1 hadmits hidle
    hslot (by rw [Pi.add_apply, holds_frameRef, Bag.of_singleton_self]; omega)
  -- raising the exception in the body, where the caller holds more
  have hraise : ∀ (vs : List Value) {t t' : World},
      Z.Linked (holds vs + (holds (Value.frame r) + (holds value + F))) t t' →
      Ends Z.bond F holds
        (Run.ensuring (e.raiseIntoFrame g r type value traceback)
          (e.releaseAll (vs ++ [.frame r])) t)
        (Run.ensuring (e'.raiseIntoFrame g r type value traceback)
          (e'.releaseAll (vs ++ [.frame r])) t') := by
    intro vs t t' ht
    refine Ends.ensuring (C := holds (vs ++ [Value.frame r])) ?_ fun K s s' _ hss =>
      releaseAll_ends hs hZ hss
    have hopen : Z.Open (holds (vs ++ [Value.frame r]) + F) r := by
      refine { hopen with held := ?_ }
      rw [holds_values_append, holds_values_cons, holds_frameRef]
      simp only [Pi.add_apply, Bag.of_singleton_self]
      omega
    refine raiseIntoFrame_ends hs hZ (hheld.le le_add_self) hopen (le_trans htype le_add_self)
      (ht.le fun o => ?_)
    simp only [holds_values_append, holds_values_cons, holds_values_nil, Pi.add_apply,
      Pi.zero_apply]
    omega
  unfold Engine.throwInto
  rcases readFrame_cases hZ.valid hopen.unsealed h with
    ⟨hvacant, hread, hread'⟩ | ⟨f, hf, hread, hread'⟩
  · refine Ends.handle_aborted hread hread' (releaseAll_ends hs hZ ((h.setUnwinding true).le ?_))
      (hopen.breaks hZ.valid h le_rfl hvacant)
    rw [holds_values_cons, holds_toList, add_assoc]
  · rw [Run.bind_ok (Run.onInterruption_ok hread), Run.bind_ok (Run.onInterruption_ok hread')]
    have hrest : Resting Z F w g r f :=
      { held := hheld
        free := h.free hZ.valid hheld.1 hadmits hidle hslot hf
        cell := h.loose hopen.loose hf
        slot := hslot
        frame := hf }
    cases hd : f.delegate with
    | none => exact hraise [] (h.le (by rw [holds_values_nil, zero_add]))
    | some inner =>
        have hdelegates : f.delegate.isSome = true := by rw [hd]; rfl
        have hinner := h.covered_delegate (hopen.visible hZ.valid) hf hd
        let B : Bag := holds (inner :: .frame r :: value.toList)
        have hB : B = holds inner + (holds (Value.frame r) + holds value) := by
          simp only [B, holds_values_cons, holds_toList]
        have hshared : Z.Linked (B + F) (w.retain inner) (w'.retain inner) := by
          refine (h.retain hZ.valid hinner).le ?_
          rw [hB, add_assoc, add_assoc]
        have hle : holds inner ≤ B + F := by
          rw [hB, add_assoc]
          exact le_self_add
        have hopen : Z.Open (B + F) r := hopen.le (by rw [hB, add_assoc, add_assoc]; exact le_add_self)
        have hrest : Resting Z (B + F) (w.retain inner) g r f :=
          (hrest.addOwners inner.objects).le le_add_self
        have hforget : ∀ {K : Bag} {t t' : World}, Z.Linked (B + K) t t' →
            Ends Z.bond K holds (e.releaseAll (inner :: .frame r :: value.toList) t)
              (e'.releaseAll (inner :: .frame r :: value.toList) t') := fun ht =>
          releaseAll_ends hs hZ ht
        have hhere : ∀ (vs : List Value) {t t' : World}, Z.Linked (holds vs + (B + F)) t t' →
            Ends Z.bond F holds
              (Run.ensuring (e.raiseIntoFrame g r type value traceback)
                (e.releaseAll ((vs ++ [inner]) ++ [.frame r])) t)
              (Run.ensuring (e'.raiseIntoFrame g r type value traceback)
                (e'.releaseAll ((vs ++ [inner]) ++ [.frame r])) t') := by
          intro vs t t' ht
          refine hraise (vs ++ [inner]) (ht.le (le_of_eq ?_))
          rw [hB, holds_values_append, holds_values_cons, holds_values_nil]
          abel
        show Ends Z.bond F holds
          ((if type.exceptionKind = some .generatorExit then _ else _ : Run World Value)
            (w.retain inner))
          ((if type.exceptionKind = some .generatorExit then _ else _ : Run World Value)
            (w'.retain inner))
        by_cases hexit : type.exceptionKind = some .generatorExit
        · simp only [hexit, if_true]
          have hclosed := (closeOutside_keeps hs hZ hrest hdelegates hle hshared).attempt
          refine hclosed.handle (fun _ h => h) id (fun K t t' _ ht => hforget ht.1)
            fun outcome t t' ht => ?_
          obtain ⟨ht, hf, _⟩ := ht
          cases outcome with
          | ok v => exact hhere [v] (ht.le (by simp))
          | error x =>
              refine Ends.ensuring (C := B) (abandonDelegate_ends hs hZ hopen (fun hlaw b hb => ?_) ht)
                fun K s s' _ hss => hforget hss
              rw [hf] at hb
              cases hb
              exact hrest.next hshared hd hlaw
        · simp only [hexit, if_false]
          cases inner with
          | generator d =>
              refine Ends.ensuring (C := B) ?_ fun K s s' _ hss => hforget hss
              refine throwIntoDelegate_ends hs hZ hrest hopen hd hle (le_trans htype le_add_self) ?_
                hshared
              rw [hB]
              exact le_trans (le_trans le_add_self le_add_self) le_self_add
          | iterator i =>
              refine (closeForThrow_ends hs hZ hrest hdelegates hle hshared).handle (fun _ h => h) id
                (fun K t t' _ ht => hforget ht) fun outcome t t' ht => ?_
              cases outcome with
              | ok closed => exact hhere closed ht
              | error x =>
                  refine Ends.ensuring (C := B) ?_ fun K s s' _ hss => hforget hss
                  exact inject_ends hs hZ (hheld.le le_add_self) hopen ht
          | _ => exact hhere [] (hshared.le (by simp))

end Control

section Answers

variable (hs : Serves C e e')

include hs

/-- Answering the request to throw into a generator. -/
theorem answerThrow_ends (hZ : Z.Fit C) {thrown : Throw} (hheld : Z.Held F g)
    (hadmits : Z.Admits g)
    (h : Z.Linked (holds thrown + F) w w') :
    Ends Z.bond F holds (e.answerThrow g thrown w) (e'.answerThrow g thrown w') := by
  obtain ⟨type, value, traceback⟩ := thrown
  have h : Z.Linked (holds value + holds traceback + (holds type + F)) w w' :=
    h.le fun o => by simp only [holds_throw, Pi.add_apply]; omega
  unfold Engine.answerThrow
  refine owning_ends hs hZ ?_
  have hrefuse : ∀ x : Exception, holds x = 0 → Ends Z.bond (holds type + F) (holds : Value → Bag)
      (Run.ensuring (Run.raise x) (e.releaseAll (traceback.toList ++ value.toList)) w)
      (Run.ensuring (Run.raise x) (e'.releaseAll (traceback.toList ++ value.toList)) w') := by
    intro x hx
    refine Ends.ensuring (C := holds (traceback.toList ++ value.toList)) (.raised (h.le ?_))
      fun K t t' _ ht => releaseAll_ends hs hZ ht
    rw [hx, zero_add, holds_values_append, holds_toList, holds_toList, add_comm (holds traceback)]
  cases htraceback : Engine.tracebackOf traceback with
  | error x =>
      have hx : holds x = 0 := by
        unfold Engine.tracebackOf at htraceback
        split at htraceback <;> cases htraceback
        rfl
      exact hrefuse x hx
  | ok tb =>
      simp only [Run.bind_apply, Run.get_apply, h.alike.generator g hheld.1]
      by_cases hrunning : (w.generator g).running = true
      · simp only [hrunning, if_true]
        exact hrefuse .alreadyExecuting rfl
      · simp only [hrunning]
        cases hslot : (w.generator g).frame with
        | none => exact hrefuse .stopIteration rfl
        | some r =>
            have hshared := shareFrame_linked hZ.valid hheld.1 hslot h
            have hidle : ((w.retain (.frame r)).generator g).running = false := by
              rw [World.retain, generator_addOwners]
              simpa using hrunning
            have hslot' : ((w.retain (.frame r)).generator g).frame = some r := by
              rw [World.retain, generator_addOwners, hslot]
            refine throwInto_ends hs hZ (hheld.le le_add_self) hadmits hidle hslot' le_self_add
              (hshared.le fun o => ?_)
            simp only [Pi.add_apply]
            omega

/-- Closing the delegate of an idle generator, if it has one.  The caller holds its frame. -/
theorem closeDelegate_ends (hZ : Z.Fit C) (hheld : Z.Held F g)
    (hadmits : Z.Admits g) (hidle : (w.generator g).running = false)
    (hslot : (w.generator g).frame = some r) (hopen : Z.Open F r) (h : Z.Linked F w w') :
    Ends Z.bond F holds (e.closeDelegate g r w) (e'.closeDelegate g r w') := by
  unfold Engine.closeDelegate
  rcases readFrame_cases hZ.valid hopen.unsealed h with
    ⟨hvacant, hread, hread'⟩ | ⟨f, hf, hread, hread'⟩
  · rw [Run.bind_error hread, Run.bind_error hread']
    exact .aborted (h.setUnwinding true) (hopen.breaks hZ.valid h le_rfl hvacant)
  · rw [Run.bind_ok hread, Run.bind_ok hread']
    cases hd : f.delegate with
    | none => exact .ok (h.le (by rw [holds_unit, zero_add]))
    | some inner =>
        have hdelegates : f.delegate.isSome = true := by rw [hd]; rfl
        have hinner := h.covered_delegate (hopen.visible hZ.valid) hf hd
        have hrest : Resting Z (holds inner + F) (w.retain inner) g r f :=
          { held := hheld.le le_add_self
            free := h.free hZ.valid hheld.1 hadmits hidle hslot hf
            cell := h.loose hopen.loose hf
            slot := by rw [World.retain, generator_addOwners, hslot]
            frame := by rw [World.retain, frame_addOwners, hf] }
        have hshared := h.retain hZ.valid hinner
        show Ends Z.bond F holds (e.owning inner _ (w.retain inner))
          (e'.owning inner _ (w'.retain inner))
        refine owning_ends hs hZ ?_
        have hopen := hopen.le (G := holds inner + F) le_add_self
        have hclosed := (closeOutside_keeps hs hZ hrest hdelegates le_self_add hshared).attempt
        refine hclosed.followed (fun _ h => h) id (fun _ _ _ h => h.1) fun outcome t t' ht => ?_
        obtain ⟨ht, hf, _⟩ := ht
        cases outcome with
        | ok v => exact owning_ends hs hZ (dropDelegate_ends hs hZ (hopen.le le_add_self) ht)
        | error x =>
            by_cases hx : (x.isCaughtBy .stopIteration || x.isCaughtBy .generatorExit) = true
            · simp only [hx, if_true]
              exact Ends.ensuring (C := holds x) (dropDelegate_ends hs hZ (hopen.le le_add_self) ht)
                fun K s s' _ hss => releaseException_ends hs hZ hss
            · simp only [hx]
              refine abandonDelegate_ends hs hZ hopen (fun hlaw b hb => ?_) ht
              rw [hf] at hb
              cases hb
              exact hrest.next hshared hd hlaw

/-- Concluding from how the body took the request to finish. -/
theorem conclude_ends (hZ : Z.Fit C) {outcome : Except Exception Value}
    (h : Z.Linked (holds outcome + F) w w') :
    Ends Z.bond F holds (e.conclude outcome w) (e'.conclude outcome w') := by
  cases outcome with
  | ok v => exact raise_owning_ends hs hZ rfl h
  | error x =>
      unfold Engine.conclude
      by_cases hx : (x.isCaughtBy .stopIteration || x.isCaughtBy .generatorExit) = true
      · simp only [hx, if_true]
        exact (releaseException_ends hs hZ h).seq le_rfl
          fun s s' hss => .ok (hss.le (by rw [holds_value_none, zero_add]))
      · simp only [hx]
        exact .raised h

/-- Raising the request to finish in an idle generator.  The caller holds its frame. -/
theorem closeWith_ends (hZ : Z.Fit C) (hheld : Z.Held F g)
    (hadmits : Z.Admits g) (hidle : (w.generator g).running = false)
    (hslot : (w.generator g).frame = some r) (hframe : 1 ≤ F (.frame r) + Z.left (.frame r))
    (h : Z.Linked F w w') :
    Ends Z.bond F holds (e.closeWith g r w) (e'.closeWith g r w') := by
  have hopen := h.opened hZ.valid hheld.1 hadmits hidle hslot hframe
  rw [Engine.closeWith_eq, Engine.closeWith_eq]
  refine (closeDelegate_ends hs hZ hheld hadmits hidle hslot hopen h).seq le_rfl fun t t' ht => ?_
  have hpending := leavePending_ends hs hZ (x := .generatorExit) hopen
    (ht.le (by rw [holds_generatorExit, zero_add]))
  refine hpending.seq le_rfl fun t t' ht => ?_
  have hresumed := (resume_ends hs hZ (v := .none) hheld
    (ht.le (by rw [holds_value_none, zero_add]))).attempt
  exact hresumed.bind le_rfl fun outcome t t' ht => conclude_ends hs hZ ht

/-- Answering the request to close a generator. -/
theorem answerClose_ends (hZ : Z.Fit C) (hheld : Z.Held F g) (hadmits : Z.Admits g)
    (h : Z.Linked F w w') :
    Ends Z.bond F holds (e.answerClose g w) (e'.answerClose g w') := by
  simp only [Engine.answerClose, Run.bind_apply, Run.get_apply, h.alike.generator g hheld.1]
  by_cases hrunning : (w.generator g).running = true
  · simp only [hrunning, if_true]
    exact .raised (h.le (zero_add F).le)
  · simp only [hrunning]
    cases hslot : (w.generator g).frame with
    | none => exact .ok (h.le (by rw [holds_value_none, zero_add]))
    | some r =>
        have hidle : ((w.retain (.frame r)).generator g).running = false := by
          rw [World.retain, generator_addOwners]
          simpa using hrunning
        have hslot' : ((w.retain (.frame r)).generator g).frame = some r := by
          rw [World.retain, generator_addOwners, hslot]
        refine owning_ends hs hZ (closeWith_ends hs hZ (hheld.le le_add_self) hadmits hidle hslot' ?_
          (shareFrame_linked hZ.valid hheld.1 hslot h))
        rw [Pi.add_apply, holds_frameRef, Bag.of_singleton_self]
        omega

end Answers

end Resumable
