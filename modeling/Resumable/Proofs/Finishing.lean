import Resumable.Proofs.Closing
import Resumable.Proofs.Fading
import Resumable.Proofs.Limit

set_option autoImplicit false

/-!
# Closing, and throwing the request to finish

Closing a generator and throwing the request to finish into it are carried out in different ways.  When
a generator is closed that delegates, the delegate goes away once it is closed, and the request is
raised in the body then.  When the request is thrown, the delegate is held until the body has been
resumed, and so is what closing it has given.  And the frame of the generator is let go of before the
one who throws can turn to the outcome.

None of this makes a difference if the delegate goes away without running code, does not take anything
along that is needed meanwhile, and the frame is held for as long (`Session.close_agrees`).
-/

namespace Resumable

variable {C : Zone → Prop} {Z : Zone} {F G : Bag} {e e' : Engine} {g : GeneratorRef} {r : FrameRef}
  {f : Frame} {v inner : Value} {x : Exception} {w w' t u : World} {n : Nat}

/-- The request to finish, as it is thrown. -/
def Throw.generatorExit : Throw := ⟨.exceptionType .generatorExit, none, none⟩

namespace Run

variable {σ α β : Type}

/-- Clean-ups after an interruption, one after the other. -/
theorem onInterruption_assoc (m : Run σ α) (c d : Run σ Unit) :
    (m.onInterruption c).onInterruption d = m.onInterruption (c.ensuring d) := by
  funext s
  unfold ensuring
  simp only [bind_apply, onInterruption]
  rcases m s with ⟨a, t⟩ | ⟨_ | _ | _, t⟩
  case ok => rfl
  case error.outOfFuel => rfl
  all_goals
    simp only
    generalize c t = y
    rcases y with ⟨_, u⟩ | ⟨_ | _ | _, u⟩
    case error.outOfFuel => rfl
    all_goals
      simp only [pure_apply]
      generalize d u = z
      rcases z with ⟨_, v⟩ | ⟨_ | _ | _, v⟩ <;> rfl

theorem eq_ok_stateOf {x : EStateM.Result Interruption σ α} {a : α}
    (h : endingOf x = some (.result a)) : x = .ok a (stateOf x) := by
  obtain ⟨s, rfl⟩ := eq_ok_of_endingOf h
  rfl

theorem attempt_congr {m m' : Run σ α} {s s' : σ} (h : m s = m' s') : attempt m s = attempt m' s' := by
  simp only [attempt, h]

end Run

namespace Engine

/-! ## What is thrown -/

/-- Makes of the outcome of a computation what closing makes of it. -/
def concluding (e : Engine) (m : Run World Value) : Run World Value := do
  e.conclude (← Run.attempt m)

/-- Carries out a computation while the frame of a generator is held. -/
def holdingFrame (e : Engine) (g : GeneratorRef) (m : Run World Value) : Run World Value := do
  match ((← get).generator g).frame with
  | none => m
  | some r =>
      World.share (.frame r)
      e.owning (.frame r) m

/-- Leaves the request to finish in a frame, and resumes the body. -/
def raiseExit (e : Engine) (g : GeneratorRef) (r : FrameRef) : Run World Value := do
  e.leavePending r .generatorExit
  e.perform (.resume g .none)

/-- What throwing the request to finish leads to, until the frame is let go of. -/
def throwExit (e : Engine) (g : GeneratorRef) (r : FrameRef) : Run World Value := do
  let frame ← World.readFrame r
  match frame.delegate with
  | none => e.inject g r .generatorExit
  | some inner =>
      World.share inner
      match ← (Run.attempt (World.whileRunning g (e.closeIter inner))).onInterruption
          (e.releaseAll [inner]) with
      | .ok v => (e.inject g r .generatorExit).ensuring (e.releaseAll [v, inner])
      | .error exception => (e.abandonDelegate r exception).ensuring (e.releaseAll [inner])

theorem ensuring_releaseAll_nil (m : Run World Value) : m.ensuring (e.releaseAll []) = m :=
  Machine.ensuring_pure m

/-- Making the request to finish does nothing else. -/
theorem raiseIntoFrame_exit (e : Engine) (g : GeneratorRef) (r : FrameRef) :
    e.raiseIntoFrame g r (.exceptionType .generatorExit) none none = e.inject g r .generatorExit := by
  unfold raiseIntoFrame
  rw [show (none : Option Value).toList = [] from rfl, ensuring_releaseAll_nil]
  funext w
  rfl

theorem answerThrow_exit (e : Engine) (hidle : (w.generator g).running = false)
    (hslot : (w.generator g).frame = some r) :
    e.answerThrow g .generatorExit w =
      (e.throwExit g r).ensuring (e.releaseAll [.frame r]) (w.retain (.frame r)) := by
  have hthrow : e.throwInto g r (.exceptionType .generatorExit) none none =
      (e.throwExit g r).ensuring (e.releaseAll [.frame r]) := by
    unfold throwExit throwInto
    rw [Run.bind_ensuring]
    refine bind_congr fun frame => ?_
    cases frame.delegate with
    | none => simp only [raiseIntoFrame_exit]; rfl
    | some inner =>
        have hkind : (Value.exceptionType .generatorExit).exceptionKind = some .generatorExit := rfl
        have hforget : ∀ vs : List Value, e.releaseAll (vs ++ [.frame r]) =
            (e.releaseAll vs).ensuring (e.releaseAll [.frame r]) := fun vs => releaseAll_append e vs _
        simp only [raiseIntoFrame_exit, hkind, if_true, Run.bind_ensuring]
        refine congrArg (World.share inner >>= ·) (funext fun _ => ?_)
        rw [Run.onInterruption_assoc, ← hforget]
        refine bind_congr fun outcome => ?_
        cases outcome with
        | ok v => exact (congrArg _ (hforget [v, inner])).trans (Run.ensuring_assoc _ _ _).symm
        | error x => exact (congrArg _ (hforget [inner])).trans (Run.ensuring_assoc _ _ _).symm
  have hforgotten : ∀ m : Run World Value, e.owning (.exceptionType .generatorExit) m = m :=
    Machine.ensuring_pure
  unfold answerThrow
  rw [show Throw.generatorExit.type = .exceptionType .generatorExit from rfl, hforgotten]
  simp only [Throw.generatorExit, tracebackOf, Run.bind_apply, Run.get_apply]
  rw [if_neg (by simp [hidle]), hslot]
  exact congrFun hthrow _

/-- What is made of an outcome follows on how the computation ends. -/
theorem concluding_congr {m m' : Run World Value} (h : m w = m' t) :
    e.concluding m w = e.concluding m' t := by
  simp only [concluding, Run.bind_apply, Run.attempt_congr h]

/-- Closing closes the delegate, raises the request to finish and draws the conclusion. -/
theorem closeWith_raiseExit (he : e.Lenient) (g : GeneratorRef) (r : FrameRef) :
    e.closeWith g r = (do
      e.closeDelegate g r
      e.concluding (e.raiseExit g r)) := by
  unfold concluding raiseExit
  rw [closeWith_eq, Run.attempt_bind (leavePending_silent he r _)]
  simp only [bind_assoc]

/-- The request is raised in the same way where the delegate has been dropped before. -/
theorem inject_eq_raiseExit {b : Frame} (hf : w.frame? r = some f) (ht : t.frame? r = some b)
    (hremoved : e.replace Frame.removeDelegate (f, w.setFrame r none) =
      .ok () (b, t.setFrame r none)) :
    e.inject g r .generatorExit w = e.raiseExit g r t := by
  have hread : World.readFrame r w = .ok f w := World.readFrame_eq_ok.2 ⟨hf, rfl⟩
  have hread' : World.readFrame r t = .ok b t := World.readFrame_eq_ok.2 ⟨ht, rfl⟩
  have hframe : e.withFrameFor Exception.generatorExit.args r (do
        (e.replace Frame.removeDelegate).onInterruption
          (Run.shared (e.releaseException .generatorExit))
        e.replace (·.replacePending .generatorExit)) w = e.leavePending r .generatorExit t := by
    unfold leavePending withFrameFor
    rw [Run.bind_ok (Run.onInterruption_ok hread), Run.bind_ok (Run.onInterruption_ok hread')]
    unfold World.withFrame Run.withPrivate
    simp only [hf, ht, Run.bind_ok (Run.onInterruption_ok hremoved)]
  unfold inject raiseExit
  rw [Run.bind_apply, Run.bind_apply, hframe]

/-- Where the body does not delegate, nothing is dropped. -/
theorem inject_of_simple (hf : w.frame? r = some f) (hdelegate : f.delegate = none) :
    e.inject g r .generatorExit w = e.raiseExit g r w := by
  have hsame : f.removeDelegate = (f, []) := by
    obtain ⟨_, _, _, _, _, _, _, _, _⟩ := f
    cases hdelegate
    rfl
  refine inject_eq_raiseExit hf hf ?_
  rw [replace_of_objects_nil _ (by rw [hsame]; rfl), hsame]

/-! ## Closing a delegate, and then -/

section Delegate

variable (hf : w.frame? r = some f) (hd : f.delegate = some inner)

include hf hd

theorem closeDelegate_closed
    (h : World.whileRunning g (e.closeIter inner) (w.retain inner) = .ok v t) :
    e.closeDelegate g r w = (e.dropDelegate r).ensuring (e.releaseAll [v, inner]) t := by
  have hattempt : Run.attempt (World.whileRunning g (e.closeIter inner)) (w.retain inner) =
      .ok (.ok v) t := Run.attempt_eq_ok.2 (.inl ⟨v, rfl, h⟩)
  have hboth : e.releaseAll [v, inner] = (e.release v).ensuring (e.release inner) := by
    rw [← releaseAll_singleton, ← releaseAll_singleton, ← releaseAll_append]
    rfl
  rw [hboth, ← Run.ensuring_assoc]
  unfold closeDelegate
  rw [Run.bind_ok (World.readFrame_eq_ok.2 ⟨hf, rfl⟩), hd]
  exact Run.ensuring_congr (Run.bind_ok hattempt)

theorem throwExit_closed
    (h : World.whileRunning g (e.closeIter inner) (w.retain inner) = .ok v t) :
    e.throwExit g r w = (e.inject g r .generatorExit).ensuring (e.releaseAll [v, inner]) t := by
  have hattempt : Run.attempt (World.whileRunning g (e.closeIter inner)) (w.retain inner) =
      .ok (.ok v) t := Run.attempt_eq_ok.2 (.inl ⟨v, rfl, h⟩)
  unfold throwExit
  rw [Run.bind_ok (World.readFrame_eq_ok.2 ⟨hf, rfl⟩), hd]
  exact Run.bind_ok (Run.onInterruption_ok hattempt)

theorem closeDelegate_raised
    (h : World.whileRunning g (e.closeIter inner) (w.retain inner) = .error (.raised x) t)
    (hx : ¬ x.EndsClosing) :
    e.closeDelegate g r w = (e.abandonDelegate r x).ensuring (e.releaseAll [inner]) t := by
  have hattempt : Run.attempt (World.whileRunning g (e.closeIter inner)) (w.retain inner) =
      .ok (.error x) t := Run.attempt_eq_ok.2 (.inr ⟨x, rfl, h⟩)
  unfold closeDelegate
  rw [Run.bind_ok (World.readFrame_eq_ok.2 ⟨hf, rfl⟩), hd, releaseAll_singleton]
  exact Run.ensuring_congr ((Run.bind_ok hattempt).trans (congrFun (if_neg hx) t))

theorem throwExit_raised
    (h : World.whileRunning g (e.closeIter inner) (w.retain inner) = .error (.raised x) t) :
    e.throwExit g r w = (e.abandonDelegate r x).ensuring (e.releaseAll [inner]) t := by
  have hattempt : Run.attempt (World.whileRunning g (e.closeIter inner)) (w.retain inner) =
      .ok (.error x) t := Run.attempt_eq_ok.2 (.inr ⟨x, rfl, h⟩)
  unfold throwExit
  rw [Run.bind_ok (World.readFrame_eq_ok.2 ⟨hf, rfl⟩), hd]
  exact Run.bind_ok (Run.onInterruption_ok hattempt)

/-- Where closing the delegate does not end, neither closing nor throwing goes on. -/
theorem concluding_broken (he : e.Lenient) {reason : Interruption} {k : Unit → Run World Value}
    (h : World.whileRunning g (e.closeIter inner) (w.retain inner) = .error reason t)
    (hreason : ∀ x, reason ≠ .raised x) :
    (e.closeDelegate g r >>= k) w = e.concluding (e.throwExit g r) w := by
  have hattempt : Run.attempt (World.whileRunning g (e.closeIter inner)) (w.retain inner) =
      .error reason t := by
    unfold Run.attempt
    rw [h]
    cases reason with
    | raised x => exact absurd rfl (hreason x)
    | aborted => rfl
    | outOfFuel => rfl
  have hclosed : e.closeDelegate g r w =
      Run.ensuring (fun s => .error reason s) (e.release inner) t := by
    unfold closeDelegate
    rw [Run.bind_ok (World.readFrame_eq_ok.2 ⟨hf, rfl⟩), hd]
    exact Run.ensuring_congr (Run.bind_error hattempt)
  have hthrown : e.throwExit g r w =
      Run.ensuring (fun s => .error reason s) (e.release inner) t := by
    unfold throwExit
    rw [Run.bind_ok (World.readFrame_eq_ok.2 ⟨hf, rfl⟩), hd]
    show ((Run.attempt _).onInterruption _ >>= _) (w.retain inner) = _
    rw [releaseAll_singleton]
    simp only [Run.ensuring, Run.bind_apply, Run.onInterruption, hattempt]
    cases reason with
    | raised x => exact absurd rfl (hreason x)
    | outOfFuel => rfl
    | aborted =>
        simp only
        generalize e.release inner t = y
        rcases y with ⟨_, u⟩ | ⟨reason, u⟩ <;> rfl
  have hsilent := releaseObjects_silent he inner.objects t
  rw [Run.bind_apply, hclosed]
  simp only [concluding, Run.bind_apply, Run.attempt, hthrown]
  simp only [Run.ensuring, Run.bind_apply, Run.onInterruption, release]
  cases reason with
  | raised x => exact absurd rfl (hreason x)
  | outOfFuel => rfl
  | aborted =>
      simp only
      generalize e.releaseObjects inner.objects t = y at hsilent
      rcases y with ⟨_, u⟩ | ⟨_ | _ | _, u⟩
      · rfl
      · exact absurd rfl (hsilent _ _)
      · rfl
      · rfl

end Delegate

/-! ## Generators that refuse -/

/-- What closing makes of a refusal leaves the world as it is. -/
theorem conclude_refusal (h : w.refusal? g = some x) (t : World) :
    (x = .alreadyExecuting ∧ e.conclude (.error x) t = .error (.raised x) t) ∨
      (x = .stopIteration ∧ e.conclude (.error x) t = .ok .none t) := by
  unfold World.refusal? at h
  split at h
  · cases h
    exact .inl ⟨rfl, rfl⟩
  · split at h <;> cases h
    exact .inr ⟨rfl, rfl⟩

theorem answerClose_refused (h : w.refusal? g = some x) :
    e.answerClose g w = e.conclude (.error x) w := by
  unfold World.refusal? at h
  unfold answerClose
  rw [Run.bind_apply]
  simp only [Run.get_apply]
  split at h
  · next hrunning =>
      cases h
      rw [if_pos hrunning]
      rfl
  · next hidle =>
      split at h <;> cases h
      next hframe =>
        rw [if_neg hidle, Option.isNone_iff_eq_none.1 hframe]
        rfl

theorem concluding_refused (h : w.refusal? g = some x) :
    e.concluding (e.answerThrow g .generatorExit) w = e.conclude (.error x) w := by
  have htb : tracebackOf Throw.generatorExit.traceback = .ok none := rfl
  have hrefused : e.answerThrow g .generatorExit w = .error (.raised x) w :=
    (answerThrow_refused h htb).trans rfl
  have hattempt : Run.attempt (e.answerThrow g .generatorExit) w = .ok (.error x) w :=
    Run.attempt_eq_ok.2 (.inr ⟨x, rfl, hrefused⟩)
  exact Run.bind_ok hattempt

theorem answerClose_of_refusal (h : w.refusal? g = some x) :
    e.answerClose g w = e.concluding (e.answerThrow g .generatorExit) w :=
  (answerClose_refused h).trans (concluding_refused h).symm

/-! ## Generators that do not refuse -/

theorem answerClose_of_idle (hidle : (w.generator g).running = false)
    (hslot : (w.generator g).frame = some r) :
    e.answerClose g w = e.owning (.frame r) (e.closeWith g r) (w.retain (.frame r)) := by
  unfold answerClose
  rw [Run.bind_apply]
  simp only [Run.get_apply]
  rw [if_neg (by simp [hidle]), hslot]
  rfl

theorem holdingFrame_of_none {m : Run World Value} (hslot : (w.generator g).frame = none) :
    e.holdingFrame g m w = m w := by
  unfold holdingFrame
  rw [Run.bind_apply]
  simp only [Run.get_apply, hslot]

theorem holdingFrame_of_slot {m : Run World Value} (hslot : (w.generator g).frame = some r) :
    e.holdingFrame g m w = e.owning (.frame r) m (w.retain (.frame r)) := by
  unfold holdingFrame
  rw [Run.bind_apply]
  simp only [Run.get_apply, hslot]
  rfl

/-- To hold the frame of a generator that refuses changes nothing. -/
theorem holdingFrame_refused (hslot : (w.generator g).frame = some r) (h : w.refusal? g = some x)
    (howned : 1 ≤ w.owners (.frame r)) :
    e.holdingFrame g (e.concluding (e.answerThrow g .generatorExit)) w =
      e.concluding (e.answerThrow g .generatorExit) w := by
  have hsame : (w.retain (.frame r)).refusal? g = w.refusal? g := by
    unfold World.refusal?
    rw [World.retain, generator_addOwners]
  have hheld := concluding_refused (e := e) (hsame.trans h)
  have hforgotten : e.release (.frame r) (w.retain (.frame r)) = .ok () w :=
    releaseObjects_addOwners (by simpa [Value.objects] using howned)
  rw [holdingFrame_of_slot hslot, concluding_refused h]
  rcases conclude_refusal (e := e) h w with ⟨rfl, hw⟩ | ⟨rfl, hw⟩
  · rw [hw]
    exact Run.ensuring_raised hheld hforgotten
  · rw [hw]
    exact Run.ensuring_ok hheld hforgotten

end Engine

theorem World.idle_of_not_refused (h : ¬ ∃ x, w.refusal? g = some x) :
    (w.generator g).running = false ∧ ∃ r, (w.generator g).frame = some r := by
  unfold World.refusal? at h
  split at h
  · exact absurd ⟨_, rfl⟩ h
  · next hidle =>
      refine ⟨by simpa using hidle, ?_⟩
      split at h
      · exact absurd ⟨_, rfl⟩ h
      · next hframe => exact Option.ne_none_iff_exists'.1 (by simpa using hframe)

/-- The frame of a generator has an owner. -/
theorem Zone.Linked.owned_frame (h : Z.Linked F w w') (hg : ¬ Z.hidden (.generator g))
    (hslot : (w.generator g).frame = some r) : 1 ≤ w.owners (.frame r) := by
  have howned := h.accounted.owned _ (h.frame_not_sealed hg hslot)
  have hle := Bag.apply_le (World.holds_generator_le (w := w) hg) (.frame r)
  have hone : 1 ≤ holds (w.generator g) (.frame r) := by
    rw [holds_generatorObject, hslot]
    simp [Bag.of_singleton_self]
  exact hone.trans (hle.trans (by omega))

/-! ## The two ways of raising the request, in linked worlds -/

section Linked

variable (hs : Serves C e e')

include hs

theorem raiseExit_ends (hZ : Z.Fit C) (hheld : Z.Held F g) (hopen : Z.Open F r)
    (h : Z.Linked F w w') :
    Ends Z.bond F holds (e.raiseExit g r w) (e'.raiseExit g r w') := by
  have hpending := leavePending_ends hs hZ (x := .generatorExit) hopen
    (h.le (by rw [holds_generatorExit, zero_add]))
  refine hpending.seq le_rfl fun t t' ht => ?_
  exact resume_ends hs hZ (v := .none) hheld (ht.le (by rw [holds_value_none, zero_add]))

theorem throwExit_ends (hZ : Z.Fit C) (hheld : Z.Held F g) (hadmits : Z.Admits g)
    (hidle : (w.generator g).running = false) (hslot : (w.generator g).frame = some r)
    (hframe : 1 ≤ F (.frame r) + Z.left (.frame r)) (h : Z.Linked F w w') :
    Ends Z.bond F holds (e.throwExit g r w) (e'.throwExit g r w') := by
  have hopen := h.opened hZ.valid hheld.1 hadmits hidle hslot hframe
  have hexit : ∀ {K : Bag} {t t' : World}, F ≤ K → Z.Linked K t t' →
      Ends Z.bond K holds (e.inject g r .generatorExit t) (e'.inject g r .generatorExit t') :=
    fun hle ht => inject_ends hs hZ (hheld.le hle) (hopen.le hle)
      (ht.le (by rw [holds_generatorExit, zero_add]))
  unfold Engine.throwExit
  rcases readFrame_cases hZ.valid hopen.unsealed h with
    ⟨hvacant, hread, hread'⟩ | ⟨f, hf, hread, hread'⟩
  · rw [Run.bind_error hread, Run.bind_error hread']
    exact .aborted (h.setUnwinding true) (hopen.breaks hZ.valid h le_rfl hvacant)
  · rw [Run.bind_ok hread, Run.bind_ok hread']
    cases hd : f.delegate with
    | none => exact hexit le_rfl h
    | some inner =>
        have hshared := h.retain hZ.valid (h.covered_delegate (hopen.visible hZ.valid) hf hd)
        have hrest : Resting Z (holds inner + F) (w.retain inner) g r f :=
          { held := hheld.le le_add_self
            free := h.free hZ.valid hheld.1 hadmits hidle hslot hf
            cell := h.loose hopen.loose hf
            slot := by rw [World.retain, generator_addOwners, hslot]
            frame := by rw [World.retain, frame_addOwners, hf] }
        have hforget : ∀ {K : Bag} {t t' : World}, Z.Linked (holds inner + K) t t' →
            Ends Z.bond K holds (e.releaseAll [inner] t) (e'.releaseAll [inner] t') := fun ht =>
          releaseAll_ends hs hZ (ht.le (by rw [holds_values_cons, holds_values_nil, add_zero]))
        show Ends Z.bond F holds
          (((Run.attempt (World.whileRunning g (e.closeIter inner))).onInterruption _ >>= _)
            (w.retain inner))
          (((Run.attempt (World.whileRunning g (e'.closeIter inner))).onInterruption _ >>= _)
            (w'.retain inner))
        refine (closeOutside_keeps hs hZ hrest (by rw [hd]; rfl) le_self_add hshared).attempt.handle (fun _ h => h) id
          (fun K t t' _ ht => hforget ht.1) fun outcome t t' ht => ?_
        obtain ⟨ht, hft, _⟩ := ht
        cases outcome with
        | ok v =>
            refine Ends.ensuring (C := holds [v, inner]) ?_ fun K s s' _ hss =>
              releaseAll_ends hs hZ hss
            refine hexit le_add_self (ht.le (le_of_eq ?_))
            rw [holds_values_cons, holds_values_cons, holds_values_nil, add_zero, holds_ok, add_assoc]
        | error x =>
            refine Ends.ensuring (C := holds inner) (abandonDelegate_ends hs hZ
              (hopen.le le_add_self) (fun hlaw b hb => ?_) ht) fun K s s' _ hss => hforget hss
            rw [hft] at hb
            cases hb
            exact hrest.next hshared hd hlaw

end Linked

/-! ## A delegate that leaves quietly -/

/-- A delegate has been closed with a result, and is dropped.  The two are let go of without running
code, and what they leave behind keeps an owner until the request to finish has been raised. -/
def LeavesQuietly (n : Nat) (g : GeneratorRef) (r : FrameRef) (inner v : Value) (t : World) : Prop :=
  ∃ t₁ t₂, (Machine.engine n).dropDelegate r t = .ok () t₁ ∧
    World.Fades n (v.objects ++ inner.objects) t₁ t₂ ∧
    ∀ s, (Machine.observedEngine (Machine.sparing t₁ t₂) n).raiseExit g r t₂ ≠ .error .outOfFuel s

/-- Raising the request to finish leaves alone what is held from outside. -/
theorem raiseExit_held {L : Law} [L.Free] (hZ : Z.Fit (Zone.Level L)) (hheld : Z.Held F g)
    (hopen : Z.Open F r) (h : Z.Linked F w w) :
    ∀ s, ((Machine.engine n).raiseExit g r).EndsIn w s → s.held = w.held := by
  intro s hs
  have hends := raiseExit_ends (serves_free (L := .holding w.held) n) hZ.decree (F := F) (g := g)
    (r := r) hheld (hopen.decree False.elim) (h.decree rfl False.elim)
  obtain ⟨s', hrelated⟩ := hends.related hs
  exact hrelated.pinned.law

/-- The request is raised in a world from which objects have gone. -/
theorem raiseExit_settles {L : Law} {k : Nat} {os : List Object} {e : Engine}
    (hs : Serves (Zone.Under L) e (Machine.engine n)) (hZ : Z.Fit (Zone.Under L)) (heven : Z.Even)
    (hheld : Z.Held G g) (hopen : Z.Open G r) (hframe : 1 ≤ G (.frame r)) (hw : Z.Linked F w w)
    (ht : Z.Linked G t t) (hlasting : Z.Lasting w t) (hfades : World.Fades k os w t) (hk : k ≤ n)
    (hrule : ∀ s, L.rule s → s.held = w.held)
    (hkept : ∀ s, ((Machine.engine n).raiseExit g r).EndsIn w s → s.held = w.held)
    (hfuel : ∀ s, e.raiseExit g r t ≠ .error .outOfFuel s) :
    ((Machine.engine n).raiseExit g r).ensuring ((Machine.engine n).releaseObjects os) w =
      e.raiseExit g r t := by
  have hlinked := Zone.Linked.shadow heven hfades.shrinks hw ht
  refine Ends.settle heven hw hlasting hfades hk (fun s h => hrule s ?_) hkept
    (raiseExit_ends hs (hZ.shadow heven hlasting hw ht) (hheld.shadow heven hw ht)
      (hopen.shadow heven ht hframe) hlinked) hfuel
  rwa [show Z.law = L from hZ.property] at h

/-- To raise the request drops the delegate first. -/
theorem inject_of_dropped {L : Law} [L.Free] (hZ : Z.Fit (Zone.Level L)) (hopen : Z.Open F r)
    (hf : t.frame? r = some f) (hframe : 1 ≤ F (.frame r)) (h : Z.Linked (G + F) t t)
    (hdrop : (Machine.engine n).dropDelegate r t = .ok () u) :
    (Machine.engine n).inject g r .generatorExit t = (Machine.engine n).raiseExit g r u := by
  obtain ⟨f', b, s, hf', hreplaced, rfl⟩ := World.withFrame_eq_ok.1 hdrop
  obtain rfl : f = f' := Option.some.inj (hf.symm.trans hf')
  have hfree := h.loose hopen.loose hf
  have hpinned := replace_quiet (serves_free (L := L) n) (hZ.pin_none hfree)
    (c := Frame.removeDelegate) (f := f) (G := 0) (by rw [holds_removeDelegate, zero_add])
    (by rw [zero_add]; exact h.takeFrame (hopen.visible hZ.valid) hf)
  rw [hreplaced] at hpinned
  obtain ⟨_, _, _, hlinked⟩ := hpinned.of_ok
  have hvacant : s.frame? r = none := hlinked.pinned.cells r none (by simp [Zone.pin])
  have hmade : r.index < s.frames.size := by
    refine Store.made_of_owned ?_
    have howned := hlinked.accounted.owned (.frame r) hopen.unsealed
    simp only [Pi.add_apply] at howned
    show 1 ≤ s.owners (.frame r)
    omega
  have hback : (s.setFrame r (some b)).setFrame r none = s := by
    rw [World.setFrame_setFrame, World.setFrame_same hvacant hmade]
  exact Engine.inject_eq_raiseExit (b := b) hf (by simp) (by rw [hback, hreplaced])

/-- The request is raised in the same way before the delegate is let go of and afterwards. -/
theorem exit_before_after {L : Law} [L.Free] (hZ : Z.Fit (Zone.Level L))
    (hheld : Z.Held F g) (hopen : Z.Open F r) (hf : t.frame? r = some f) (hframe : 1 ≤ F (.frame r))
    (h : Z.Linked (holds v + (holds inner + F)) t t)
    (hquiet : LeavesQuietly n g r inner v t) :
    ∃ t₁ t₂, (Machine.engine n).dropDelegate r t = .ok () t₁ ∧
      (Machine.engine n).releaseObjects (v.objects ++ inner.objects) t₁ = .ok () t₂ ∧
      (((Machine.engine n).inject g r .generatorExit).ensuring
        ((Machine.engine n).releaseAll [v, inner])) t = (Machine.engine n).raiseExit g r t₂ := by
  obtain ⟨t₁, t₂, hdrop, hfades, hfuel⟩ := hquiet
  have hs := serves_free (L := L) n
  have hinject := inject_of_dropped (G := holds v + holds inner) hZ hopen hf hframe
    (by rwa [add_assoc]) hdrop (g := g)
  have hreleased := hfades.releaseObjects (le_refl n)
  refine ⟨t₁, t₂, hdrop, hreleased, ?_⟩
  -- before the two are let go of, and afterwards
  have hdropped := dropDelegate_ends hs hZ
    ((hopen.le le_add_self).le (G := holds v + (holds inner + F)) le_add_self) h
  rw [hdrop] at hdropped
  obtain ⟨_, _, hbefore⟩ := hdropped.of_ok
  have hbefore : Z.Linked (.of (v.objects ++ inner.objects) + F) t₁ t₁ :=
    (hbefore.self hZ.property).le (le_of_eq (by
      rw [holds_unit, zero_add, Bag.of_append, holds_value, holds_value, add_assoc]))
  have hgone := releaseObjects_quiet hs hZ _ hbefore
  rw [hreleased] at hgone
  obtain ⟨_, _, hafter⟩ := hgone.of_ok
  have hafter : Z.Linked F t₂ t₂ :=
    (hafter.self hZ.property).le (by rw [holds_unit, zero_add])
  -- in the world that they have left, the observer does not make a difference
  have hserves := Machine.attended_serves (Machine.sparing_attends t₁ t₂) (le_refl n)
  have hspared := hZ.spare t₁ t₂
  have heven := Zone.even_spare hZ.property t₁ t₂
  have hheld₂ : t₂.held = t₁.held := hfades.shrinks.around.held
  have hbefore' := hbefore.spare (w := t₁) (t := t₂) rfl fun o ho => ho.2.trans ho.1.le
  have hafter' := hafter.spare (w := t₁) (t := t₂) hheld₂ fun o ho => ho.2
  have hsame := raiseExit_settles hserves hspared heven hheld (hopen.spare t₁ t₂) hframe hafter' hafter'
    (fun _ hless _ => absurd hless (Nat.lt_irrefl _)) (.nil (k := n)) le_rfl
    (fun s hs => hs.trans hheld₂.symm) (raiseExit_held hZ hheld hopen hafter) hfuel
  have hmoved := raiseExit_settles hserves hspared heven hheld (hopen.spare t₁ t₂) hframe hbefore' hafter'
    (Zone.lasting_spare Z t₁ t₂) hfades le_rfl (fun s hs => hs)
    (raiseExit_held hZ (hheld.le le_add_self) (hopen.le le_add_self) hbefore) hfuel
  have hnothing : ∀ m : Run World Value, m.ensuring ((Machine.engine n).releaseObjects []) = m :=
    Machine.ensuring_pure
  rw [hnothing] at hsame
  rw [Run.ensuring_congr hinject, hsame, ← hmoved]
  simp [Engine.releaseAll, Value.objectsOfAll]

/-! ## Closing and throwing in the same world -/

/-- To give up a delegate and to let go of something afterwards does not raise anything else. -/
theorem concluding_abandonDelegate {c : Run World Unit} (he : e.Lenient) (hc : Run.Silent c)
    (hx : ¬ x.EndsClosing) {k : Unit → Run World Value} :
    (((e.abandonDelegate r x : Run World Unit).ensuring c) >>= k) =
      e.concluding ((e.abandonDelegate r x).ensuring c) := by
  obtain ⟨m, hsilent, hm⟩ : ∃ m : Run World Unit, Run.Silent m ∧ ∀ {α : Type},
      (e.abandonDelegate r x : Run World α).ensuring c = m >>= fun _ => Run.raise x := by
    refine ⟨((e.finishDelegation r .none).onInterruption
      (e.releaseException x)).onInterruption c >>= fun _ => c, ?_, fun {α} => ?_⟩
    · refine Run.Silent.bind (Run.Silent.onInterruption ?_ hc) fun _ => hc
      exact (Engine.finishDelegation_silent he r _).onInterruption
        (Engine.releaseObjects_silent he _)
    · unfold Engine.abandonDelegate
      rw [Run.bind_ensuring, bind_assoc]
      refine bind_congr fun _ => ?_
      rw [Run.raise_ensuring]
  have hconcluded : e.conclude (.error x) = Run.raise x := if_neg hx
  unfold Engine.concluding
  rw [hm, hm, Run.attempt_bind hsilent, bind_assoc, bind_assoc]
  refine bind_congr fun _ => funext fun s => ?_
  rw [Run.bind_ok (Run.attempt_raise x s), hconcluded]
  rfl

/-- The delegate of a generator is closed in a world where this comes to a result that leaves quietly
with the delegate, or raises what does not end a closing. -/
structure ClosesQuietly (n : Nat) (g : GeneratorRef) (r : FrameRef) (inner : Value) (w : World) :
    Prop where
  raises : (∀ d, inner ≠ .generator d) → ∀ x t,
    World.whileRunning g ((Machine.engine n).closeIter inner) (w.retain inner) = .error (.raised x) t →
      ¬ x.EndsClosing
  leaves : ∀ v t,
    World.whileRunning g ((Machine.engine n).closeIter inner) (w.retain inner) = .ok v t →
      LeavesQuietly n g r inner v t

/-- No delegate ends a closing by what closing it raises. -/
theorem ClosesQuietly.ends (h : ClosesQuietly n g r inner w)
    (hraised : World.whileRunning g ((Machine.engine n).closeIter inner) (w.retain inner) =
      .error (.raised x) t) : ¬ x.EndsClosing := by
  cases inner with
  | generator d =>
      obtain ⟨s, hs, _⟩ := World.whileRunning_eq_raised.1 hraised
      cases n with
      | zero => cases hs
      | succ n => exact close_raises (Engine.machine_lenient n) hs
  | _ => exact h.raises nofun x t hraised

theorem closeWith_eq_throwExit {L : Law} [L.Free] (hZ : Z.Fit (Zone.Level L)) (hheld : Z.Held F g)
    (hadmits : Z.Admits g) (hidle : (w.generator g).running = false)
    (hslot : (w.generator g).frame = some r) (hframe : 1 ≤ F (.frame r)) (h : Z.Linked F w w)
    (hquiet : ∀ f inner, w.frame? r = some f → f.delegate = some inner →
      ClosesQuietly n g r inner w) :
    (Machine.engine n).closeWith g r w =
      (Machine.engine n).concluding ((Machine.engine n).throwExit g r) w := by
  have he := Engine.machine_lenient n
  have hs := serves_free (L := L) n
  have hopen := h.opened hZ.valid hheld.1 hadmits hidle hslot (Nat.le_add_right_of_le hframe)
  rw [Engine.closeWith_raiseExit he]
  rcases readFrame_cases hZ.valid hopen.unsealed h with ⟨_, hread, _⟩ | ⟨f, hf, hread, _⟩
  · -- the frame is in use
    have hclosed : (Machine.engine n).closeDelegate g r w =
        .error .aborted { w with unwinding := true } := Run.bind_error hread
    have hthrown : (Machine.engine n).throwExit g r w =
        .error .aborted { w with unwinding := true } := Run.bind_error hread
    rw [Run.bind_error hclosed, Engine.concluding]
    simp only [Run.bind_apply, Run.attempt, hthrown]
  cases hd : f.delegate with
  | none =>
      have hclosed : (Machine.engine n).closeDelegate g r w = .ok () w := by
        unfold Engine.closeDelegate
        rw [Run.bind_ok hread, hd]
        rfl
      have hthrown : (Machine.engine n).throwExit g r w = (Machine.engine n).raiseExit g r w := by
        unfold Engine.throwExit
        rw [Run.bind_ok hread, hd]
        exact Engine.inject_of_simple hf hd
      rw [Run.bind_ok hclosed]
      exact Engine.concluding_congr hthrown.symm
  | some inner =>
      have hcloses := hquiet f inner hf hd
      have hshared := h.retain hZ.valid (h.covered_delegate (hopen.visible hZ.valid) hf hd)
      have hrest : Resting Z (holds inner + F) (w.retain inner) g r f :=
        { held := hheld.le le_add_self
          free := h.free hZ.valid hheld.1 hadmits hidle hslot hf
          cell := h.loose hopen.loose hf
          slot := by rw [World.retain, generator_addOwners, hslot]
          frame := by rw [World.retain, frame_addOwners, hf] }
      have hkept := closeOutside_keeps hs hZ hrest (by rw [hd]; rfl) le_self_add hshared
      rcases hclosing : World.whileRunning g ((Machine.engine n).closeIter inner) (w.retain inner) with
        ⟨v, t⟩ | ⟨x | _ | _, t⟩
      · -- the delegate is closed
        rw [hclosing] at hkept
        obtain ⟨_, _, hlinked, hft, _⟩ := hkept.of_ok
        obtain ⟨t₁, t₂, hdrop, hreleased, hexit⟩ := exit_before_after hZ hheld hopen hft hframe
          (hlinked.self hZ.property) (hcloses.leaves v t hclosing)
        have hclosed : (Machine.engine n).closeDelegate g r w = .ok () t₂ := by
          rw [Engine.closeDelegate_closed hf hd hclosing]
          exact Run.ensuring_ok hdrop (by simpa [Engine.releaseAll, Value.objectsOfAll] using hreleased)
        rw [Run.bind_ok hclosed]
        exact Engine.concluding_congr
          (hexit.symm.trans (Engine.throwExit_closed hf hd hclosing).symm)
      · -- closing it raises an exception
        have hx := hcloses.ends hclosing
        rw [Run.bind_apply, Engine.closeDelegate_raised hf hd hclosing hx, ← Run.bind_apply,
          Engine.concluding_congr (Engine.throwExit_raised hf hd hclosing)]
        exact congrFun (concluding_abandonDelegate he (Engine.releaseAll_silent n [inner]) hx) t
      · exact Engine.concluding_broken hf hd he hclosing fun _ heq => by cases heq
      · exact Engine.concluding_broken hf hd he hclosing fun _ heq => by cases heq

/-- It makes no difference to a throw whether somebody else holds the frame meanwhile. -/
theorem throwExit_holding {L : Law} [L.Free] (hZ : Z.Fit (Zone.Level L)) (hheld : Z.Held F g)
    (hidle : (w.generator g).running = false) (hslot : (w.generator g).frame = some r)
    (h : Z.Linked (holds (Value.frame r) + F) w w)
    (hfuel : ∀ s, (Machine.engine n).throwExit g r w ≠ .error .outOfFuel s) :
    ((Machine.engine n).throwExit g r).ensuring ((Machine.engine n).releaseAll [.frame r])
        (w.retain (.frame r)) = (Machine.engine n).throwExit g r w := by
  have hserves : Serves (Zone.Under (.holding w.held)) (Machine.engine n) (Machine.engine n) :=
    Machine.machine_serves (fun _ hY => hY.free) (le_refl n)
  rw [Engine.releaseAll_singleton]
  refine ensuring_release_of_kept (q := holds) hZ h (fun {Y G t t'} hY hkept ht => ?_) hfuel
  have hadmits : Y.Admits g := Or.inr (by
    rw [show Y.law = .holding w.held from hY.fit.property]
    exact Law.Free.not_barred _ g)
  have hframe : 1 ≤ G (.frame r) + Y.left (.frame r) := by
    have hkept := Bag.apply_le hkept (.frame r)
    rw [Pi.add_apply, Pi.add_apply, holds_frameRef, Bag.of_singleton_self] at hkept
    omega
  have hends := throwExit_ends hserves hY.fit (hY.held hheld) hadmits (by rw [hY.generator, hidle])
    (by rw [hY.generator, hslot]) hframe ht
  exact ⟨⟨_, hends⟩, _, hends⟩

namespace Engine

/-- An outcome that refers to no object leaves the world as it is. -/
theorem conclude_of_simple (e : Engine) {outcome : Except Exception Value}
    (h : holds outcome = 0) :
    (∃ v, ∀ t, e.conclude outcome t = .ok v t) ∨
      ∃ x, ∀ t, e.conclude outcome t = .error (.raised x) t := by
  cases outcome with
  | ok v =>
      have hv : v.objects = [] := Bag.eq_nil_of_le_zero (by rw [← holds_value, ← holds_ok, h])
      exact .inr ⟨_, fun t => Run.ensuring_raised rfl (e.release_of_objects_nil hv t)⟩
  | error x =>
      have hnothing : Bag.of (Value.objectsOfAll x.args) = 0 := h
      have hx : Value.objectsOfAll x.args = [] := Bag.eq_nil_of_le_zero hnothing.le
      have hforgotten : ∀ t, e.releaseException x t = .ok () t := releaseAll_of_objects_nil hx
      simp only [conclude]
      split
      · exact .inl ⟨.none, fun t => Run.bind_ok (hforgotten t)⟩
      · exact .inr ⟨x, fun t => rfl⟩

/-- To draw the conclusion can wait until a clean-up is done. -/
theorem concluding_ensuring {m : Run World Value} {c : Run World Unit} (hc : Run.Silent c)
    {outcome : Except Exception Value} (h : Run.attempt (m.ensuring c) w = .ok outcome t)
    (hsimple : holds outcome = 0) :
    (e.concluding m).ensuring c w = e.concluding (m.ensuring c) w := by
  obtain ⟨s, hm, hs⟩ : ∃ s, Run.attempt m w = .ok outcome s ∧ c s = .ok () t := by
    rcases Run.attempt_eq_ok.1 h with ⟨v, rfl, hran⟩ | ⟨x, rfl, hran⟩
    · obtain ⟨s, hm, hs⟩ := Run.ensuring_eq_ok.1 hran
      exact ⟨s, Run.attempt_eq_ok.2 (.inl ⟨v, rfl, hm⟩), hs⟩
    · obtain ⟨s, hm, hs⟩ := (Run.ensuring_eq_raised hc).1 hran
      exact ⟨s, Run.attempt_eq_ok.2 (.inr ⟨x, rfl, hm⟩), hs⟩
  have hearly : e.concluding m w = e.conclude outcome s := Run.bind_ok hm
  have hlate : e.concluding (m.ensuring c) w = e.conclude outcome t := Run.bind_ok h
  rw [hlate]
  rcases e.conclude_of_simple hsimple with ⟨v, hv⟩ | ⟨x, hx⟩
  · rw [hv]
    exact Run.ensuring_ok (hearly.trans (hv s)) hs
  · rw [hx]
    exact Run.ensuring_raised (hearly.trans (hx s)) hs

end Engine

namespace Session

/-- What makes a generator that is suspended in its delegation to another one, which nothing else
holds. -/
def yieldingFromCommands : List Command :=
  [.assemble "p1" yieldingTwice, .assemble "p0" yieldingAtExit, .bind "seen" (.list []),
    .makeGenerator "g1" "p1" [] .none, .makeGenerator "g0" "p0" [.variable "g1", .variable "seen"] .none,
    .drive "g0" .next none, .unbind "g1"]

/-- The moment when that generator is to be closed. -/
def yieldingFromWorld : World := brokenOffAt (closingRun yieldingFromCommands "g0" ⟨1⟩)

/-- The world when its delegate has been closed, in the course of this. -/
def delegateClosedWorld : World :=
  Run.stateOf (World.whileRunning ⟨1⟩ ((Machine.engine 59).closeIter (.generator ⟨0⟩))
    ((yieldingFromWorld.retain (.frame ⟨1⟩)).retain (.generator ⟨0⟩)))

/-- The world when the delegate is about to be let go of. -/
def delegateDroppedWorld : World :=
  Run.stateOf ((Machine.engine 59).dropDelegate ⟨1⟩ delegateClosedWorld)

/-- The world when it has been let go of. -/
def delegateGoneWorld : World := delegateDroppedWorld.discard (.generator ⟨0⟩)

theorem closesQuietly_yieldingFrom :
    ClosesQuietly 59 ⟨1⟩ ⟨1⟩ (.generator ⟨0⟩) (yieldingFromWorld.retain (.frame ⟨1⟩)) where
  raises hother := absurd rfl (hother ⟨0⟩)
  leaves v t h := by
    have hclosed := h.symm.trans (Run.eq_ok_stateOf (a := Value.none) (by decide +kernel))
    rw [EStateM.Result.ok.injEq] at hclosed
    have hdrop : (Machine.engine 59).dropDelegate ⟨1⟩ delegateClosedWorld =
      .ok () delegateDroppedWorld := Run.eq_ok_stateOf (by decide +kernel)
    have hinert : (delegateDroppedWorld.content (.generator ⟨0⟩)).IsInert := by
      show (delegateDroppedWorld.generator ⟨0⟩).frame = none
      decide +kernel
    have hnothing : (delegateDroppedWorld.content (.generator ⟨0⟩)).released = [] := by
      decide +kernel
    have hending : (Run.endingOf ((Machine.observedEngine
        (Machine.sparing delegateDroppedWorld delegateGoneWorld) 59).raiseExit ⟨1⟩ ⟨1⟩
          delegateGoneWorld)).isSome = true := by decide +kernel
    rw [hclosed.1, hclosed.2]
    refine ⟨delegateDroppedWorld, delegateGoneWorld, hdrop, ?_, fun s hraised => ?_⟩
    · exact .gone (by decide +kernel) hinert (hnothing ▸ .nil) .nil
    · rw [hraised] at hending
      cases hending

/-- A body that makes a note when it is asked to finish. -/
def notingExit (number : Int64) : Code.Source :=
  ⟨"noting", ["seen"], "<bytecode>", 1,
    [.setupExcept 0, .loadConst (.int 3), .emit .yieldValue, .emit .returnValue,
      .bind 0, .loadFast "seen", .loadConst (.int number), .emit .listAppend, .loadConst .none,
      .emit .returnValue]⟩

/-- A body that delegates to its argument and lets go of it, and makes a note when it is asked to
finish. -/
def delegatingAndNoting : Code.Source :=
  ⟨"outer", ["it", "seen"], "<bytecode>", 1,
    [.setupExcept 0, .loadFast "it", .loadConst .none, .storeFast "it", .emit .yieldFrom,
      .emit .returnValue,
      .bind 0, .loadFast "seen", .loadConst (.int 2), .emit .listAppend, .loadConst .none,
      .emit .returnValue]⟩

/-- The delegate of a generator holds a third generator, and nothing else holds either of them. -/
def lettingGoCommands : List Command :=
  [.assemble "ph" (notingExit 1), .assemble "p1" yieldingTwice, .assemble "p0" delegatingAndNoting,
    .bind "seen" (.list []), .makeGenerator "h" "ph" [.variable "seen"] .none, .drive "h" .next none,
    .bind "c" (.list [.variable "h"]), .makeGenerator "g1" "p1" [] (.variable "c"),
    .makeGenerator "g0" "p0" [.variable "g1", .variable "seen"] .none, .drive "g0" .next none,
    .unbind "h", .unbind "c", .unbind "g1"]

/-- The moment when that generator is to be closed. -/
def lettingGoWorld : World := brokenOffAt (closingRun lettingGoCommands "g0" ⟨2⟩)

/-- A body that goes through its argument and makes a note when it is asked to finish. -/
def exhaustingAtExit : Code.Source :=
  ⟨"h", ["l", "seen"], "<bytecode>", 3,
    [.setupExcept 0, .loadConst (.int 3), .emit .yieldValue, .emit .returnValue,
      .bind 0, .loadFast "l", .emit .getIter, .bind 1, .forIter 2, .emit .yieldFrom, .emit .popTop,
      .jump 1,
      .bind 2, .loadFast "seen", .loadConst (.int 2), .emit .listAppend, .loadConst .none,
      .emit .returnValue]⟩

/-- A body that yields its first argument when it is asked to finish. -/
def yieldingArgument : Code.Source :=
  ⟨"outer", ["c", "k"], "<bytecode>", 1,
    [.setupExcept 0, .loadConst (.int 1), .emit .yieldValue, .emit .returnValue,
      .bind 0, .loadFast "c", .loadConst .none, .storeFast "c", .emit .yieldValue,
      .emit .returnValue]⟩

/-- What a generator yields when it is closed holds another one that exhausts it. -/
def yieldingArgumentCommands : List Command :=
  [.assemble "pk" (notingExit 1), .assemble "ph" exhaustingAtExit, .assemble "p0" yieldingArgument,
    .bind "seen" (.list []), .bind "l" (.list []),
    .makeGenerator "k" "pk" [.variable "seen"] .none, .drive "k" .next none,
    .makeGenerator "h" "ph" [.variable "l", .variable "seen"] .none, .drive "h" .next none,
    .bind "c" (.list [.variable "h"]),
    .makeGenerator "g0" "p0" [.variable "c", .variable "k"] .none, .drive "g0" .next none,
    .listPush (.variable "l") (.variable "g0"), .unbind "h", .unbind "c", .unbind "k"]

/-- The moment when that generator is to be closed. -/
def yieldingArgumentWorld : World := brokenOffAt (closingRun yieldingArgumentCommands "g0" ⟨2⟩)

end Session

end Resumable
