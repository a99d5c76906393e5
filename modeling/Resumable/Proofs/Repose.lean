import Resumable.Proofs.Settling

set_option autoImplicit false

/-!
# Operations on generators leave frames at rest

The operations on a generator are gone through one by one, given that the requests they make bring the
frame of a generator to rest (`Engine.Guards`).  Then so does the answer to any request
(`answer_after`), unless it is to resume the generator while it is crossed.

An operation says what it leads to after a result and after an exception (`World.Handles`).  One that is
abandoned leaves less behind, but only an operation on the generator itself does.
-/

namespace Resumable

open Run (Keeps Leaves Marked Meets Sustains)
open World (After Broken Follows Unwinding)

variable {α β : Type} {g i : GeneratorRef} {r : FrameRef} {w t u : World} {e : Engine}
  {ρ ρ' σ : Prop}

/-! ## Contracts of operations -/

namespace World

/-- What an operation on a generator does to the frame of another one, or of the same.  It may be asked that
a frame that is at rest is at rest again after a result, and that it is after an exception. -/
abbrev Handles (g : GeneratorRef) (σ ρ ρ' : Prop) (w t : World) (m : Run World α) : Prop :=
  Meets (fun _ => After g ρ σ w) (fun _ => After g ρ' σ w) (Marked (After g σ σ w) Unwinding true)
    (Broken g w) m t

/-- The same of an operation of which nothing is asked if it is abandoned. -/
abbrev Responds (g : GeneratorRef) (σ : Prop) (w t : World) (m : Run World α) : Prop :=
  Meets (fun _ => After g True σ w) (fun _ => After g True σ w) Unwinding (Broken g w) m t

/-- A frame is not that of a generator, if it is another one that is operated on. -/
def Aside (g : GeneratorRef) (σ : Prop) (r : FrameRef) (w : World) : Prop :=
  σ → (w.generator g).frame ≠ some r

/-- If a frame is that of a generator and in its cell, it is at an instruction that delegates. -/
def AtDelegation (g : GeneratorRef) (r : FrameRef) (w : World) : Prop :=
  ∀ p, w.bodyOf g = .program p → (w.generator g).frame = some r → ∀ f, w.frame? r = some f →
    f.RestsAt p .delegating

theorem Follows.aside (h : Follows g w t) (hr : w.Aside g σ r) : t.Aside g σ r :=
  fun hne hslot => hr hne (h.slot r hslot)

theorem Sits.aside (h : w.Sits g) (hslot : (w.generator i).frame = some r) : w.Aside g (i ≠ g) r :=
  fun hne hr => hne (h.alone i r hr hslot)

theorem Quiet.atDelegation (h : w.Quiet t) (hw : w.AtDelegation g r) : t.AtDelegation g r := by
  intro p hp hslot f hf
  rw [bodyOf_congr h.codes (congrArg Generator.code (h.generator g))] at hp
  rw [h.generator] at hslot
  rw [h.frame] at hf
  exact hw p hp hslot f hf

/-- A frame that is in its cell and has a delegate is at an instruction that delegates. -/
theorem Sits.atDelegation (ht : t.Sits g) {f : Frame} (hf : t.frame? r = some f) {v : Value}
    (hdelegate : f.delegate = some v) : t.AtDelegation g r := by
  intro p hp hslot b hb
  obtain rfl : f = b := Option.some.inj (hf.symm.trans hb)
  exact (ht.frame p hp r f hslot hf).prepared.delegate (by simp [hdelegate])

/-- What an operation does from a world that comes after another one. -/
theorem Handles.lift {m : Run World α} (h : t.Handles g σ ρ ρ' t m) (ht : After g True σ w t) :
    w.Handles g σ ρ ρ' t m :=
  h.mono (fun _ _ hu => (ht.mono (fun _ => True.intro) id).trans hu)
    (fun _ _ hu => (ht.mono (fun _ => True.intro) id).trans hu)
    (fun _ hu => ⟨(ht.mono (fun _ => True.intro) id).trans hu.1, hu.2⟩)
    fun _ hu => hu.imp_left ht.toFollows.trans

theorem Handles.responds {m : Run World α} (h : w.Handles g σ True True t m) : w.Responds g σ t m :=
  h.mono (fun _ _ hu => hu) (fun _ _ hu => hu) (fun _ hu => hu.2 rfl) fun _ hu => hu

theorem Responds.lift {m : Run World α} (h : t.Responds g σ t m) (ht : After g True σ w t) :
    w.Responds g σ t m :=
  h.mono (fun _ _ hu => ht.trans hu) (fun _ _ hu => ht.trans hu) (fun _ hu => hu)
    fun _ hu => hu.imp_left ht.toFollows.trans

/-- Of a generator that is not running, nothing is asked that is asked of running ones. -/
theorem Responds.of_idle {m : Run World α} (h : t.Responds g (i ≠ g) t m)
    (hidle : (t.generator i).running = false) : t.Responds g True t m := by
  have hweaker : ∀ u, After g True (i ≠ g) t u → After g True True t u := fun u hu =>
    { hu with
      still := fun _ hrunning => by
        refine hu.still (fun hi => ?_) hrunning
        rw [← hi, hidle] at hrunning
        cases hrunning }
  exact h.mono (fun _ => hweaker) (fun _ => hweaker) (fun _ hu => hu) fun _ hu => hu

end World

/-- What is kept by itself. -/
theorem World.After.handles {m : Run World α} (hm : Keeps (After g True σ w) Unwinding (Broken g w) m)
    (ht : After g True σ w t) : w.Handles g σ True True t m :=
  (hm false t (.unmarked ht)).mono (fun _ _ hu => hu.1) (fun _ _ hu => hu.1)
    (fun _ hu => ⟨hu.1.mono (fun _ => True.intro) id, hu.2⟩) fun _ hu => hu

namespace Engine.Guards

variable (he : e.Guards g)

include he

/-- Letting go of objects comes to an end, and is not abandoned. -/
theorem forgets (os : List Object) (ht : After g ρ σ w t) :
    Meets (fun _ => After g ρ σ w) (fun _ _ => False) (fun _ => False) (Broken g w)
      (e.releaseObjects os) t := by
  induction os generalizing t with
  | nil => exact ht
  | cons o os ih =>
      have hfirst : Meets (fun _ => After g ρ σ w) (fun _ _ => False) (fun _ => False) (Broken g w)
          (e.releaseObject o) t := by
        have hquiet := ht.next (ht.sits.quiet (t.quiet_setOwners 0 o))
        have hdone : Meets (fun _ => After g True True (t.setOwners 0 o)) (fun _ _ => False) (fun _ => False)
            (Broken g (t.setOwners 0 o)) (e.perform (.reclaim o)) (t.setOwners 0 o) :=
          (he.requests hquiet.sits (.reclaim o)).of_silent (he.lenient o)
        unfold Meets at hdone ⊢
        unfold releaseObject
        dsimp only
        rcases t.owners o with _ | _ | n
        · exact ht
        · dsimp only
          rcases hx : e.perform (.reclaim o) (t.setOwners 0 o) with ⟨v, u⟩ | ⟨_ | _ | _, u⟩ <;>
            rw [hx] at hdone
          · exact hquiet.next hdone
          · exact hdone
          · exact hdone
          · exact hdone.imp_left hquiet.toFollows.trans
        · exact ht.next (ht.sits.quiet (t.quiet_setOwners _ o))
      exact hfirst.ensuring (fun _ u hu => ih hu) (fun _ _ h => h.elim) fun _ h => h.elim

/-- Letting go of objects while a computation is being abandoned. -/
theorem forgetsAbandoned {E : Exception → World → Prop} (os : List Object)
    (ht : Marked (After g σ σ w) Unwinding true t) :
    Meets (fun _ => Marked (After g σ σ w) Unwinding true) E (Marked (After g σ σ w) Unwinding true)
      (Broken g w) (e.releaseObjects os) t :=
  ((he.after w σ σ).releaseObjects os true t ht).of_silent (releaseObjects_silent he.lenient os)

/-- Letting go of objects after an operation. -/
theorem forget {m : Run World α} (hm : w.Handles g σ ρ ρ' t m) (os : List Object) :
    w.Handles g σ ρ ρ' t (m.ensuring (e.releaseObjects os)) :=
  hm.ensuring
    (fun _ _ hu => (he.forgets os hu).mono (fun _ _ h => h) (fun _ _ h => h.elim) (fun _ h => h.elim)
      fun _ h => h)
    (fun _ _ hu => (he.forgets os hu).mono (fun _ _ h => h) (fun _ _ h => h.elim) (fun _ h => h.elim)
      fun _ h => h)
    fun _ hu => he.forgetsAbandoned os hu

/-- Letting go of objects if an operation is interrupted. -/
theorem forgetInterrupted {Q : α → World → Prop} {m : Run World α}
    (hm : Meets Q (fun _ => After g ρ σ w) (Marked (After g σ σ w) Unwinding true)
      (Broken g w) m t) (os : List Object) :
    Meets Q (fun _ => After g ρ σ w) (Marked (After g σ σ w) Unwinding true)
      (Broken g w) (m.onInterruption (e.releaseObjects os)) t :=
  hm.onInterruption
    (fun _ _ hu => (he.forgets os hu).mono (fun _ _ h => h) (fun _ _ h => h.elim) (fun _ h => h.elim)
      fun _ h => h)
    fun _ hu => he.forgetsAbandoned os hu

theorem forgetAnswer {m : Run World α} (hm : w.Responds g σ t m) (os : List Object) :
    w.Responds g σ t (m.ensuring (e.releaseObjects os)) :=
  hm.ensuring
    (fun _ _ hu => (he.forgets os hu).mono (fun _ _ h => h) (fun _ _ h => h.elim) (fun _ h => h.elim)
      fun _ h => h)
    (fun _ _ hu => (he.forgets os hu).mono (fun _ _ h => h) (fun _ _ h => h.elim) (fun _ h => h.elim)
      fun _ h => h)
    fun u hu => (((he.abandoning w).releaseObjects os true u ⟨hu, fun _ => hu⟩).of_silent
      (releaseObjects_silent he.lenient os)).mono (fun _ _ h => h.1) (fun _ _ h => h) (fun _ h => h.1)
        fun _ h => h

end Engine.Guards

/-! ## Marks and frames -/

/-- While a generator is marked as running, its frame stays as it is. -/
theorem whileRunning_after {m : Run World α} (ht : t.Sits g)
    (hm : Keeps (After g True True (t.setRunning i true)) Unwinding (Broken g (t.setRunning i true)) m) :
    Meets (fun _ u => After g True (i ≠ g) t u ∧ ∀ r, t.Aside g (i ≠ g) r → t.AtDelegation g r → u.AtDelegation g r)
      (fun _ u => After g True (i ≠ g) t u ∧ ∀ r, t.Aside g (i ≠ g) r → t.AtDelegation g r → u.AtDelegation g r)
      (Marked (After g (i ≠ g) (i ≠ g) t) Unwinding true) (Broken g t) (World.whileRunning i m) t := by
  let s := t.setRunning i true
  have hs : Follows g t s := ht.setRunning i true
  have hback : ∀ u, After g True True s u → After g True (i ≠ g) t (u.setRunning i false) ∧
      ∀ r, t.Aside g (i ≠ g) r → t.AtDelegation g r → (u.setRunning i false).AtDelegation g r := by
    intro u hu
    have hfollows : Follows g t (u.setRunning i false) := (hs.trans hu.toFollows).trans
      (hu.sits.setRunning i false)
    have hother : ∀ (v : World) (b : Bool), i ≠ g → (v.setRunning i b).generator g = v.generator g :=
      fun v b hne => by
        unfold World.setRunning
        rw [World.generator_setGenerator, if_neg hne]
    refine ⟨⟨hfollows, fun hidle => ?_, fun _ hcalm => ?_, fun hne hrunning r hr => ?_⟩,
      fun r haside hat p hp hr f hf => ?_⟩
    · by_cases hi : i = g
      · subst hi
        simp [World.setRunning]
      · rw [hother u false hi]
        exact hu.idle ((congrArg Generator.running (hother t true hi)).trans hidle)
    · exact (hu.calm True.intro (hcalm.setRunning i true)).setRunning i false
    · rw [hother u false hne] at hr ⊢
      obtain ⟨hrun, hsame⟩ := hu.still True.intro
        ((congrArg Generator.running (hother t true hne)).trans hrunning) r hr
      exact ⟨hrun, hsame⟩
    · have hslot := hfollows.slot r hr
      have hi : i = g := by
        by_contra hne
        exact haside hne hslot
      subst hi
      have hrunning : (s.generator i).running = true := by simp [s, World.setRunning]
      obtain ⟨_, hsame⟩ := hu.still True.intro hrunning r ((u.frame_of_setRunning i i false).symm.trans hr)
      exact hat p (hfollows.body.symm.trans hp) hslot f (hsame f hf)
  have hinside := (hm false s (.unmarked hs.sits.after_self)).mono (fun _ _ h => h) (fun _ _ h => h)
    (fun _ h => h) fun _ hu => (hu.imp_left hs.trans : Broken g t _)
  exact hinside.ensuring (fun _ u hu => hback u hu.1) (fun _ u hu => hback u hu.1)
    fun u hu => ⟨(hback u hu.1).1.mono (fun _ => True.intro) id, hu.2⟩

/-! ## Throwing and closing -/

section Control

variable (he : e.Guards g)

include he

/-- A request comes to an end. -/
theorem request_after (ht : After g True (i ≠ g) w t) (request : Request) :
    w.Handles g (i ≠ g) True True t (e.perform request) :=
  ht.handles ((he.after w True (i ≠ g)).requests request)

theorem inject_after (ht : t.Sits g) (hr : t.Aside g (i ≠ g) r) (x : Exception) :
    t.Handles g (i ≠ g) True True t (e.inject i r x) := by
  have h := he.after (t.setFrame r none) True True
  have hprivate : ∀ f : Frame, Leaves (fun _ b => b = (f.removeDelegate.1.replacePending x).1)
      (fun _ => False)
      (fun b => b = f.removeDelegate.1 ∨ b = (f.removeDelegate.1.replacePending x).1) (do
        (e.replace Frame.removeDelegate).onInterruption (Run.shared (e.releaseException x))
        e.replace (·.replacePending x) : Run (Frame × World) Unit) f := by
    intro f
    let A : Frame → Prop := fun b => b = f.removeDelegate.1 ∨ b = (f.removeDelegate.1.replacePending x).1
    have hremoved : Leaves (fun _ b => b = f.removeDelegate.1) (fun _ => False) A
        (e.replace Frame.removeDelegate) f :=
      (replace_private he Frame.removeDelegate f).mono (fun _ _ hb => hb) (fun _ hb => hb)
        fun _ hb => Or.inl hb
    refine (hremoved.onInterruption (fun _ hb => hb.elim) fun _ hb => release_private he _ hb).bind ?_
    rintro _ _ rfl
    exact (replace_private he (·.replacePending x) _).mono (fun _ _ hb => hb) (fun _ hb => hb)
      fun _ hb => Or.inr hb
  have hleft := withFrameFor_after he (ρ := True) (σ := i ≠ g) ht
    (((h.replace _).onInterruption (h.releaseException x).beside).bind fun _ => h.replace _) hprivate
    ?_ ?_ hr x.args
  · exact (hleft.mono (fun _ _ hu => hu.1) (fun _ _ hu => hu.elim) (fun _ hu => hu) fun _ hu => hu).bind
      fun _ u hu => request_after he hu _
  · rintro p f _ _ hp hslot hf hsits rfl
    exact ⟨hsits.removeDelegate.setPending _, hsits.prepared.unbegun_removeDelegate,
      fun _ => Frame.rests_replacePending _ x⟩
  · rintro p f b hp hslot hf hsits (rfl | rfl)
    · exact ⟨hsits.removeDelegate, hsits.prepared.unbegun_removeDelegate⟩
    · exact ⟨hsits.removeDelegate.setPending _, hsits.prepared.unbegun_removeDelegate⟩

theorem raiseIntoFrame_after (ht : t.Sits g) (hr : t.Aside g (i ≠ g) r) (type : Value) (value : Option Value)
    (traceback : Option Traceback) :
    t.Handles g (i ≠ g) True True t (e.raiseIntoFrame i r type value traceback) := by
  refine he.forget (Meets.bind ((ht.after_self.mono id fun _ => True.intro).handles
    ((he.after t True (i ≠ g)).normalize type value)) fun x u hu => ?_) _
  exact (inject_after he hu.sits (hu.toFollows.aside hr) _).lift hu

/-- A delegation that is given up is over, and its error is raised. -/
theorem abandonDelegate_after (ht : t.Sits g) (hr : t.Aside g (i ≠ g) r) (hat : t.AtDelegation g r)
    (x : Exception) :
    Meets (fun _ _ => False) (fun _ => After g True (i ≠ g) t)
      (Marked (After g (i ≠ g) (i ≠ g) t) Unwinding true) (Broken g t)
      (e.abandonDelegate r x : Run World α) t := by
  have hover := finishDelegation_after he ht hr .none hat
  refine Meets.bind (Q := fun _ => After g True (i ≠ g) t) ?_ fun _ _ hu => Meets.raise hu
  exact hover.onInterruption (fun _ _ hu => hu.elim) fun u hu => he.forgetsAbandoned _ hu

theorem throwIntoDelegate_after (ht : t.Sits g) (hr : t.Aside g (i ≠ g) r) (hat : t.AtDelegation g r)
    (delegate : GeneratorRef) (thrown : Throw) :
    t.Handles g (i ≠ g) True True t (e.throwIntoDelegate i r delegate thrown) := by
  let s := t.retainAll (thrown.type :: thrown.value.toList)
  have hquiet : t.Quiet s := t.quiet_addOwners _
  have hs : After g True (i ≠ g) t s := (ht.quiet hquiet).mono id fun _ => True.intro
  have hthrown := (whileRunning_after (i := i) hs.sits
    ((he.after (s.setRunning i true) True True).throw delegate thrown)).attempt
  refine Meets.bind (Q := fun _ u => u = s) rfl ?_
  rintro _ _ rfl
  refine World.Handles.lift (Meets.bind (hthrown.mono (fun _ _ h => h) (fun _ _ h => h.elim)
    (fun _ h => h) fun _ h => h) fun outcome u hu => ?_) hs
  rcases outcome with x | v
  · obtain ⟨hu, hdelegating⟩ := hu
    dsimp only
    split
    · refine he.forget ?_ _
      let v := u.retain x.stopValue
      have hshared : u.Quiet v := u.quiet_addOwners _
      have hv : After g True (i ≠ g) u v := (hu.sits.quiet hshared).mono id fun _ => True.intro
      have haside := hu.toFollows.aside (hs.toFollows.aside hr)
      have hdelegating := hshared.atDelegation (hdelegating r (hs.toFollows.aside hr) (hquiet.atDelegation hat))
      refine Meets.bind (Q := fun _ u => u = v) rfl ?_
      rintro _ _ rfl
      refine World.Handles.lift ?_ (hu.trans hv)
      refine Meets.bind ((finishDelegation_after he hv.sits (hv.toFollows.aside haside) x.stopValue
        hdelegating).mono (fun _ _ h => h) (fun _ _ h => h.elim) (fun _ h => h) fun _ h => h)
        fun _ _ hend => request_after he hend _
    · exact (inject_after he hu.sits (hu.toFollows.aside (hs.toFollows.aside hr)) x).lift hu
  · exact Meets.pure hu.1

theorem closeForThrow_after (ht : t.Sits g) (delegate : IteratorRef) :
    t.Handles g (i ≠ g) True True t (e.closeForThrow i delegate) := by
  have h := he.after (t.setRunning i true) True True
  refine Meets.bind ((whileRunning_after ht (h.withIterator delegate h.iteratorClose)).mono
    (fun _ _ h => h.1) (fun _ _ h => h.1) (fun _ h => h) fun _ h => h) fun outcome u hu => ?_
  rcases outcome with _ | x | v
  · exact Meets.pure hu
  · dsimp only
    split
    · exact Meets.pure hu
    · exact Meets.pure hu
  · exact Meets.pure hu

omit he in
theorem World.Sits.readFrame (ht : t.Sits g) (r : FrameRef) :
    Meets (fun f u => u = t ∧ t.frame? r = some f) (fun _ => After g ρ' (i ≠ g) t)
      (Marked (After g (i ≠ g) (i ≠ g) t) Unwinding true) (Broken g t) (World.readFrame r) t := by
  cases hf : t.frame? r with
  | none =>
      have hvacant : World.readFrame r t = World.abort t := by
        unfold World.readFrame
        rw [hf]
      exact ht.abort.congr hvacant
  | some f =>
      have hread : World.readFrame r t = .ok f t := by
        unfold World.readFrame
        rw [hf]
      unfold Meets
      rw [hread]
      exact ⟨rfl, rfl⟩

omit he in
/-- An operation before which a value is given an owner. -/
theorem share_after (ht : t.Sits g) (v : Value) {m : Unit → Run World α}
    (hm : t.Quiet (t.retain v) → (t.retain v).Sits g →
      (t.retain v).Handles g (i ≠ g) ρ ρ' (t.retain v) (m ())) :
    t.Handles g (i ≠ g) ρ ρ' t (World.share v >>= m) := by
  have hquiet : t.Quiet (t.retain v) := t.quiet_addOwners _
  refine Meets.bind (Q := fun _ u => u = t.retain v) rfl ?_
  rintro ⟨⟩ _ rfl
  have hshared := ht.quiet hquiet
  exact World.Handles.lift (hm hquiet hshared.sits) (hshared.mono id fun _ => True.intro)

theorem throwInto_after (ht : t.Sits g) (hr : t.Aside g (i ≠ g) r) (type : Value) (value : Option Value)
    (traceback : Option Traceback) :
    t.Handles g (i ≠ g) True True t (e.throwInto i r type value traceback) := by
  have hraise : ∀ {s u}, s.Aside g (i ≠ g) r → After g True (i ≠ g) s u → ∀ held : List Value,
      s.Handles g (i ≠ g) True True u
        (Run.ensuring (e.raiseIntoFrame i r type value traceback) (e.releaseAll (held ++ [.frame r]))) :=
    fun hr hu held => he.forget ((raiseIntoFrame_after he hu.sits (hu.toFollows.aside hr) type value
      traceback).lift hu) _
  have hself : ∀ {s : World}, s.Sits g → After g True (i ≠ g) s s := fun hs =>
    hs.after_self.mono id fun _ => True.intro
  refine Meets.bind (he.forgetInterrupted (ht.readFrame r) _) ?_
  rintro f _ ⟨rfl, hf⟩
  cases hdelegate : f.delegate with
  | none => exact hraise hr (hself ht) []
  | some inner =>
      refine share_after ht inner fun hquiet hs => ?_
      have haside := (ht.quiet hquiet).toFollows.aside hr
      have hat := hquiet.atDelegation (ht.atDelegation hf hdelegate)
      dsimp only
      split
      · have hclosed := he.forgetInterrupted ((whileRunning_after (i := i) hs
          ((he.after _ True True).closeIter inner)).attempt.mono (fun _ _ h => h) (fun _ _ h => h.elim)
            (fun _ h => h) fun _ h => h) (ρ := True) (Value.objectsOfAll (inner :: .frame r :: value.toList))
        refine Meets.bind hclosed fun outcome u hu => ?_
        rcases outcome with x | v
        · obtain ⟨hu, hdelegating⟩ := hu
          have hgiven := abandonDelegate_after (α := Value) he hu.sits (hu.toFollows.aside haside)
            (hdelegating r haside hat) x
          exact he.forget (World.Handles.lift (hgiven.mono (fun _ _ h => h.elim) (fun _ _ h => h)
            (fun _ h => h) fun _ h => h) hu) _
        · exact hraise haside hu.1 [v, inner]
      · split
        · exact he.forget (throwIntoDelegate_after he hs haside hat _ _) _
        · refine Meets.bind (he.forgetInterrupted (closeForThrow_after he hs _) _) fun outcome u hu => ?_
          rcases outcome with x | closed
          · exact he.forget ((inject_after he hu.sits (hu.toFollows.aside haside) x).lift hu) _
          · exact hraise haside hu _
        · exact hraise haside (hself hs) _

/-- The answer to the request to throw into a generator. -/
theorem answerThrow_after (ht : t.Sits g) (thrown : Throw) :
    t.Responds g True t (e.answerThrow i thrown) := by
  have hrefuse : ∀ x : Exception, t.Responds g True t
      (Run.ensuring (Run.raise x) (e.releaseAll (thrown.traceback.toList ++ thrown.value.toList)) :
        Run World Value) := fun x => he.forgetAnswer (Meets.raise ht.after_self) _
  refine he.forgetAnswer ?_ _
  split
  · exact hrefuse _
  · refine Meets.get_bind ?_
    dsimp only
    split
    · exact hrefuse _
    · next hidle =>
      split
      · exact hrefuse _
      · next r hslot =>
        refine World.Responds.of_idle (World.Handles.responds (share_after ht _ fun hquiet hs => ?_))
          (i := i) (by simpa using hidle)
        exact throwInto_after he hs ((ht.quiet hquiet).toFollows.aside (ht.aside hslot)) _ _ _

theorem closeDelegate_after (ht : t.Sits g) (hr : t.Aside g (i ≠ g) r) :
    t.Handles g (i ≠ g) (i ≠ g) True t (e.closeDelegate i r) := by
  have hdropped : ∀ {s u : World}, s.Aside g (i ≠ g) r → After g True (i ≠ g) s u →
      s.Handles g (i ≠ g) (i ≠ g) True u (e.dropDelegate r) := fun hr hu =>
    World.Handles.lift ((dropDelegate_after he hu.sits (hu.toFollows.aside hr)).mono
      (fun _ _ h => h) (fun _ _ h => h.elim) (fun _ h => h) fun _ h => h) hu
  refine Meets.bind (ht.readFrame r) ?_
  rintro f _ ⟨rfl, hf⟩
  cases hdelegate : f.delegate with
  | none => exact Meets.pure (ht.after_self.mono (fun _ => True.intro) fun _ => True.intro)
  | some inner =>
      refine share_after ht inner fun hquiet hs => he.forget ?_ _
      have haside := (ht.quiet hquiet).toFollows.aside hr
      have hat := hquiet.atDelegation (ht.atDelegation hf hdelegate)
      have hclosed := (whileRunning_after (i := i) hs ((he.after _ True True).closeIter inner)).attempt
      refine Meets.bind (hclosed.mono (fun _ _ h => h) (fun _ _ h => h.elim) (fun _ h => h) fun _ h => h)
        fun outcome u hu => ?_
      rcases outcome with x | v
      · obtain ⟨hu, hdelegating⟩ := hu
        dsimp only
        split
        · exact he.forget (hdropped haside hu) _
        · have hgiven := abandonDelegate_after (α := Unit) he hu.sits (hu.toFollows.aside haside)
            (hdelegating r haside hat) x
          exact World.Handles.lift (hgiven.mono (fun _ _ h => h.elim) (fun _ _ h => h)
            (fun _ h => h) fun _ h => h) hu
      · exact he.forget (hdropped haside hu.1) _

/-- What is done to close a generator, with its own frame. -/
theorem closeWith_after (ht : t.Sits g) (hslot : (t.generator i).frame = some r) :
    t.Handles g (i ≠ g) True True t (e.closeWith i r) := by
  have hr := ht.aside hslot
  refine Meets.bind (closeDelegate_after he ht hr) fun _ u hu => ?_
  have hleft := leavePending_after he hu.sits (hu.toFollows.aside hr) .generatorExit
  have hlifted : Meets (fun _ => After g True (i ≠ g) t) (fun _ => After g True (i ≠ g) t)
      (Marked (After g (i ≠ g) (i ≠ g) t) Unwinding true) (Broken g t)
      (e.leavePending r .generatorExit) u := by
    refine hleft.mono (fun _ v hv => ?_) (fun _ _ h => h.elim) (fun _ hv => ⟨hu.trans hv.1, hv.2⟩)
      fun _ hv => hv.imp_left hu.toFollows.trans
    have hboth := hu.trans (hv.1.mono (fun _ => True.intro) id)
    refine { hboth with calm := fun _ hcalm => ?_ }
    by_cases hi : i = g
    · intro p hp k f hk hf
      have hu' := hv.1.slot k hk
      obtain rfl : r = k := Option.some.inj (hslot.symm.trans (hi ▸ hu.slot k hu'))
      exact hv.2 hu' p hp r f hk hf
    · exact hboth.calm hi hcalm
  refine Meets.bind hlifted fun _ v hv => ?_
  refine Meets.bind ((request_after he hv (.resume i .none)).attempt.mono (fun _ _ h => h)
    (fun _ _ h => h.elim) (fun _ h => h) fun _ h => h) fun outcome s hs => ?_
  rcases outcome with x | v
  · dsimp only
    split
    · exact Meets.bind ((he.forgets _ hs).mono (fun _ _ h => h) (fun _ _ h => h.elim) (fun _ h => h.elim)
        fun _ h => h) fun _ _ hend => Meets.pure hend
    · exact Meets.raise hs
  · exact he.forget (Meets.raise hs) _

/-- The answer to the request to close a generator. -/
theorem answerClose_after (ht : t.Sits g) : t.Responds g True t (e.answerClose i) := by
  refine Meets.get_bind ?_
  dsimp only
  split
  · exact Meets.raise ht.after_self
  · next hidle =>
    split
    · exact Meets.pure ht.after_self
    · next r hslot =>
      refine World.Responds.of_idle (World.Handles.responds (share_after ht _ fun hquiet hs => ?_))
        (i := i) (by simpa using hidle)
      exact he.forget (closeWith_after he hs
        ((congrArg Generator.frame (hquiet.generator i)).trans hslot)) _

/-! ## Disposal -/

/-- The frame of a generator that is finalized may be left forsaken. -/
theorem finalize_after (ht : t.Sits g) :
    t.Handles g (i ≠ g) (i ≠ g) (i ≠ g) t (e.finalize i) := by
  refine Meets.get_bind ?_
  split
  · exact Meets.pure (ht.after_self.mono (fun _ => True.intro) fun _ => True.intro)
  · next r hslot =>
    refine share_after ht _ fun hquiet hs => he.forget ?_ _
    have hslot := (congrArg Generator.frame (hquiet.generator i)).trans hslot
    refine Meets.get_bind ?_
    split
    · refine Meets.bind ((closeWith_after he hs hslot).contain.mono (fun _ _ h => h) (fun _ _ h => h.elim)
        (fun _ h => h.elim) fun _ h => h) fun ending u hu => ?_
      cases ending with
      | result v =>
          exact (he.forgets _ (hu.mono (fun _ => True.intro) id)).mono (fun _ _ h => h)
            (fun _ _ h => h.elim) (fun _ h => h.elim) fun _ h => h
      | raised x =>
          exact ((he.after _ (i ≠ g) (i ≠ g)).report x i false u
            (.unmarked (hu.mono (fun _ => True.intro) id))).mono (fun _ _ h => h.1) (fun _ _ h => h.1)
              (fun _ h => h) fun _ h => h
      | aborted =>
          have hcalmed : After g True True u { u with unwinding := false } :=
            hu.1.sits.after rfl le_rfl le_rfl (fun _ _ hr => hr) (fun _ _ _ hf => hf) (fun _ _ => rfl) id
          exact hu.1.next hcalmed
    · exact Meets.pure (hs.after_self.mono (fun _ => True.intro) fun _ => True.intro)

/-- The disposal of an object.  A generator that is disposed of lets go of its frame. -/
theorem reclaim_after (ht : t.Sits g) (o : Object) : t.Responds g True t (e.reclaim o) := by
  have h := he.after t True True
  have hkept : ∀ {m : Run World Unit}, Keeps (After g True True t) Unwinding (Broken g t) m →
      t.Responds g True t m := fun hm =>
    (hm false t (.unmarked ht.after_self)).mono (fun _ _ h => h.1) (fun _ _ h => h.1) (fun _ h => h.2 rfl)
      fun _ h => h
  cases o with
  | list r =>
      exact hkept (Run.keeps_get.bind fun _ => (h.edits fun u => u.quiet_setItems r []).bind fun _ =>
        h.releaseAll _)
  | iterator r =>
      refine hkept (Run.keeps_get.bind fun _ => (h.edits fun u => u.quiet_setIterator r none).bind
        fun _ => ?_)
      split
      · exact h.release _
      · exact Run.keeps_pure _
  | frame r =>
      refine hkept (Run.keeps_get.bind fun _ => Keeps.bind (fun _ u hu => ?_) fun _ => h.releaseAll _)
      exact ⟨hu.1.next (hu.1.sits.takeFrame r), hu.2⟩
  | generator i =>
      have hfreed : ∀ u, After g (i ≠ g) (i ≠ g) t u → After g True True t
          (u.setGenerator i { u.generator i with frame := none, closure := .none }) := by
        intro u hu
        have hfreed : After g True True u
            (u.setGenerator i { u.generator i with frame := none, closure := .none }) :=
          hu.sits.frameless rfl rfl rfl
        by_cases hi : i = g
        · have hnone : ((u.setGenerator i { u.generator i with frame := none, closure := .none }).generator
              g).frame = none := by
            rw [World.generator_setGenerator, if_pos hi]
          refine { hu.next hfreed with
            calm := fun _ _ p hp k f hk => ?_
            still := fun _ _ k hk => ?_ }
          · rw [hnone] at hk
            cases hk
          · rw [hnone] at hk
            cases hk
        · exact (hu.mono (fun _ => hi) fun _ => hi).next hfreed
      refine Meets.ensuring (finalize_after he ht) (fun _ u hu => ?_) (fun _ u hu => ?_) fun u hu => ?_
      · exact (he.forgets _ (hfreed u hu)).mono (fun _ _ h => h) (fun _ _ h => h.elim)
          (fun _ h => h.elim) fun _ h => h
      · exact (he.forgets _ (hfreed u hu)).mono (fun _ _ h => h) (fun _ _ h => h.elim)
          (fun _ h => h.elim) fun _ h => h
      · exact (he.forgetsAbandoned _ ⟨hfreed u hu.1, hu.2⟩).mono (fun _ _ h => h.2 rfl)
          (fun _ _ h => h) (fun _ h => h.2 rfl) fun _ h => h

end Control

end Resumable
