import Resumable.Proofs.Rejection

set_option autoImplicit false

/-!
# Throwing into a chain of delegations

An exception that is thrown into a generator goes down the chain of delegations that begins there, and
is raised in the last generator of the chain.  Each of the others is marked as running until the throw
into its delegate has come to an end, and its frame is at rest meanwhile; so when an exception comes
back, it is found as it was, and the exception is raised in its body (`answerThrow_through`).

What raises an exception in a body leaves it pending in the frame and resumes the generator
(`inject_raises`).
-/

namespace Resumable

variable {C : Zone → Prop} {Z : Zone} {F G : Bag} {L : Law} {e e' : Engine} {w w' t t' u : World}
  {g i : GeneratorRef} {r : FrameRef} {f : Frame} {x : Exception} {P Q : Exception → Prop}

/-! ## Raising an exception in a body -/

/-- The frame in which an exception is to be raised. -/
def Frame.raising (f : Frame) (x : Exception) : Frame :=
  { f with delegate := none, pending := some x }

/-- Nothing has changed about the thread and the code, nor about a generator and its frame, but that an
exception is to be raised there. -/
structure World.Raising (w : World) (g : GeneratorRef) (r : FrameRef) (f : Frame) (x : Exception)
    (t : World) : Prop where
  generator : t.generator g = w.generator g
  frame : t.frame? r = some (f.raising x)
  thread : t.thread = w.thread
  codes : t.codes = w.codes

/-- The frame after an exception has been left in it. -/
theorem raising_of_ok {b : Frame}
    (h : (do
      (e.replace Frame.removeDelegate).onInterruption (Run.shared (e.releaseException x))
      e.replace (·.replacePending x) : Run (Frame × World) Unit) (f, w) = .ok () (b, t)) :
    b = f.raising x := by
  obtain ⟨⟨⟩, ⟨d, s⟩, hremoved, hpending⟩ := Run.bind_eq_ok.1 h
  obtain ⟨rfl, _⟩ := Engine.replace_eq_ok.1 (Run.onInterruption_eq_ok.1 hremoved)
  obtain ⟨rfl, _⟩ := Engine.replace_eq_ok.1 hpending
  rfl

/-- Raising an exception in a body is to resume the generator once the exception is pending. -/
theorem inject_raises (hs : Serves C e e') (he : e.Lenient) (hZ : Z.Fit C) (hscript : ¬ Z.law.tame)
    (hrest : Resting Z F w g r f) (h : Z.Linked (holds x + F) w w')
    (hnext : ∀ t t', Z.Linked F t t' → w.Raising g r f x t →
      Run.RaisesOnly P (e.perform (.resume g .none) t)) :
    Run.RaisesOnly P (e.inject g r x w) := by
  have hleft := withFrame_keeps hZ hscript hrest.held hrest.free hrest.cell hrest.slot hrest.frame h
    fun Y H hY hy => raising_quiet hs hY (x := x) hy
  have hsilent : Run.Silent (e.withFrameFor x.args r (do
      (e.replace Frame.removeDelegate).onInterruption (Run.shared (e.releaseException x))
      e.replace (·.replacePending x))) := by
    refine Engine.withFrameFor_silent he _ (Run.Silent.bind ?_ fun _ => Engine.replace_silent he _)
    exact (Engine.replace_silent he _).onInterruption (Engine.releaseObjects_silent he _).shared
  refine Run.RaisesOnly.after hsilent fun _ t hchanged => ?_
  have hchanged := Engine.withFrameFor_eq_ok.1 hchanged
  rw [hchanged] at hleft
  obtain ⟨t', _, ht, hgenerator⟩ := hleft.of_ok
  obtain ⟨b, d, s, hb, hdone, rfl⟩ := World.withFrame_eq_ok.1 hchanged
  obtain rfl : f = b := Option.some.inj (hrest.frame.symm.trans hb)
  obtain rfl := raising_of_ok hdone
  have ht := ht.le (F := F) (by rw [holds_unit, zero_add])
  refine hnext _ t' ht ⟨hgenerator, ?_, ?_, ?_⟩
  · rw [World.frame_setFrame, if_pos rfl]
  · rw [ht.pinned.thread, h.pinned.thread]
  · rw [ht.pinned.codes, h.pinned.codes]

/-- Where an exception is pending, the body is run with it. -/
theorem resumeFrame_of_pending (hf : w.frame? r = some f) (hunfinished : f.isFinished = false)
    (hpending : f.pending = some x) :
    e.resumeFrame g r .none w = (Run.attempt (e.runBody g r (some x)) >>= e.settleBody g r)
      ((w.setFrame r none).setFrame r (some { f with pending := none })) := by
  rw [resumeFrame_of_unfinished hf hunfinished]
  unfold Engine.startBody
  rw [bind_assoc, takePending_bind hf, hpending]
  rfl

/-! ## Throwing into an idle generator -/

/-- What is thrown into the delegate of a generator. -/
def Throw.passedOn (thrown : Throw) (tb : Option Traceback) : Throw :=
  { thrown with traceback := tb.map .traceback }

theorem holds_passedOn (thrown : Throw) (tb : Option Traceback) :
    holds (thrown.passedOn tb) = holds (thrown.type :: thrown.value.toList) := by
  rw [holds_throw, holds_values_cons, holds_toList]
  cases tb <;> simp [Throw.passedOn]

/-- The exception that is thrown, with the traceback that is given for it. -/
def Exception.givenTraceback (x : Exception) : Option Traceback → Exception
  | none => x
  | some tb => x.setTraceback tb

/-- What is thrown is of the class that the type stands for. -/
theorem isSubclassOf_of_normalize {type : Value} {value : Option Value}
    (hx : Exception.normalize type value = .ok x) :
    ∃ kind, type.exceptionKind = some kind ∧ x.kind.isSubclassOf kind = true := by
  unfold Exception.normalize at hx
  split at hx
  · cases hx
    exact ⟨_, rfl, ExceptionKind.isSubclassOf_self _⟩
  · split at hx
    · next hsub =>
        cases hx
        exact ⟨_, rfl, hsub⟩
    · cases hx
      exact ⟨_, rfl, ExceptionKind.isSubclassOf_self _⟩
  · cases hx
    exact ⟨_, rfl, ExceptionKind.isSubclassOf_self _⟩
  · cases hx
  · cases hx
    exact ⟨_, rfl, ExceptionKind.isSubclassOf_self _⟩
  · cases hx

/-- The class of the request to finish has no subclasses. -/
theorem exceptionKind_of_normalize {type : Value} {value : Option Value}
    (hx : Exception.normalize type value = .ok x) (hkind : x.kind ≠ .generatorExit) :
    type.exceptionKind ≠ some .generatorExit := by
  obtain ⟨kind, htype, hsub⟩ := isSubclassOf_of_normalize hx
  rw [htype]
  rintro ⟨⟩
  revert hsub hkind
  cases x.kind <;> decide

theorem resting_of_idle [L.Free] (hZ : Z.Fit (Zone.Level L)) (hheld : Z.Held F g)
    (hw : Z.Linked G w w') (hidle : (w.generator g).running = false)
    (hslot : (w.generator g).frame = some r) (hf : w.frame? r = some f) : Resting Z F w g r f := by
  have hadmits : Z.Admits g := Or.inr (by
    rw [hZ.property.law]
    exact Law.Free.not_barred _ g)
  have hopen := hw.opened (G := .of [.frame r]) hZ.valid hheld.1 hadmits hidle hslot
    (by rw [Bag.of_singleton_self]; exact Nat.le_add_right 1 _)
  exact
    { held := hheld
      free := hw.free hZ.valid hheld.1 hadmits hidle hslot hf
      cell := hw.loose hopen.loose hf
      slot := hslot
      frame := hf }

/-- What is raised when the delegate is thrown into is raised in the body of the delegating
generator, unless it is the end of an iteration. -/
theorem throwIntoDelegate_through (thrown : Throw) {tb : Option Traceback} (hs : Serves C e e')
    (hZ : Z.Fit C) (hrest : Resting Z F w g r f) (hdelegates : f.delegate.isSome = true)
    (hdelegate : holds (Value.generator i) ≤ F) (htype : holds thrown.type ≤ F)
    (hvalue : holds thrown.value ≤ F) (h : Z.Linked F w w')
    (hstop : ∀ y, Q y → y.kind ≠ .stopIteration)
    (hinner : ∀ {Y : Zone} {H : Bag} {s s' : World}, Y.Fit C → Y.Held H i →
      Y.Linked (holds (thrown.passedOn tb) + H) s s' →
      s = (w.retainAll (thrown.type :: thrown.value.toList)).setRunning g true →
        Run.RaisesOnly Q (e.throw i (thrown.passedOn tb) s))
    (hback : ∀ {y s s'}, Q y → Z.Linked (holds y + F) s s' → s.frame? r = some f →
      s.generator g = w.generator g → Run.RaisesOnly P (e.inject g r y s)) :
    Run.RaisesOnly P (e.throwIntoDelegate g r i (thrown.passedOn tb) w) := by
  let given := thrown.type :: thrown.value.toList
  have hgiven : Z.Linked (holds (thrown.passedOn tb) + F) (w.retainAll given) (w'.retainAll given) := by
    rw [holds_passedOn]
    refine h.retainAll hZ.valid fun o ho => ?_
    by_cases hone : 1 ≤ holds thrown.type o
    · exact h.covered htype o hone
    · refine h.covered hvalue o ?_
      simp only [holds_values_cons, holds_toList, Pi.add_apply] at ho
      omega
  have hresting : Resting Z F (w.retainAll given) g r f := hrest.addOwners _
  -- the delegate is thrown into while the generator is marked as running
  have hrunning : Run.RaisesOnly Q
      (World.whileRunning g (e.throw i (thrown.passedOn tb)) (w.retainAll given)) := by
    obtain ⟨B, H, hsplit, hfit, hstarted⟩ :=
      hgiven.startRunning hZ hresting.held hresting.free hresting.cell hresting.slot
    have hthrown := hinner (hfit (some f) fun b hb => Option.some.inj hb ▸ hdelegates)
      (held_lend (r := r) hZ.valid hgiven (by rw [hsplit]) (by rw [hsplit]; exact hdelegate) _ (some f))
      (hstarted.pin (by rw [frame_setRunning, hresting.frame])) rfl
    exact hthrown.ensuring fun _ _ _ h => nomatch h
  have hkept := throwOutside_keeps hs hZ hresting hdelegates hdelegate hgiven
  refine hrunning.answered fun y s hy hraised => ?_
  have hraised : World.whileRunning g (e.throw i (thrown.passedOn tb)) (w.retainAll given) =
    .error (.raised y) s := hraised
  rw [hraised] at hkept
  obtain ⟨s', _, hs', hframe, hgenerator⟩ := hkept.of_raised
  show Run.RaisesOnly P ((if y.kind = .stopIteration then _ else _ : Run World Value) s)
  rw [if_neg (hstop y hy)]
  exact hback hy hs' hframe (hgenerator.trans (generator_addOwners ..))

theorem World.Raising.of_agrees (h : u.Raising g r f x t) (hgenerator : u.generator g = w.generator g)
    (hthread : u.thread = w.thread) (hcodes : u.codes = w.codes) : w.Raising g r f x t :=
  ⟨h.generator.trans hgenerator, h.frame, h.thread.trans hthread, h.codes.trans hcodes⟩

theorem World.Raising.of_addOwners {os : List Object} (h : (w.addOwners os).Raising g r f x t) :
    w.Raising g r f x t :=
  h.of_agrees (generator_addOwners ..) (thread_addOwners ..) (World.Same.addOwners w os []).codes

section Throwing

variable {thrown : Throw} {tb : Option Traceback} (hs : Serves C e e') (he : e.Lenient)
  (hZ : Z.Fit C) (hscript : ¬ Z.law.tame)

include hs he hZ hscript

/-- The exception is made, and is then pending in the frame when the generator is resumed. -/
theorem raiseIntoFrame_raises {type : Value} {value : Option Value} (hrest : Resting Z F w g r f)
    (htype : holds type ≤ F) (hx : Exception.normalize type value = .ok x)
    (h : Z.Linked (holds value + F) w w')
    (hnext : ∀ {t}, w.Raising g r f (x.givenTraceback tb) t →
      Run.RaisesOnly P (e.perform (.resume g .none) t)) :
    Run.RaisesOnly P (e.raiseIntoFrame g r type value tb w) := by
  refine Run.RaisesOnly.ensuring ?_ (Engine.releaseObjects_silent he _)
  have hmade : World.normalize type value w = .ok x (w.retainAll x.args) := by
    unfold World.normalize
    rw [hx]
    rfl
  have hlinked := normalize_ends hZ.valid (le_trans htype le_add_self) le_self_add h
  rw [hmade] at hlinked
  obtain ⟨s, _, hs'⟩ := hlinked.of_ok
  rw [Run.bind_ok hmade]
  have hgiven : holds (x.givenTraceback tb) = holds x := by cases tb <;> rfl
  have hinject : Run.RaisesOnly P (e.inject g r (x.givenTraceback tb) (w.retainAll x.args)) :=
    inject_raises hs he hZ hscript (F := holds value + F) ((hrest.addOwners _).le le_add_self)
      (hs'.le (by rw [hgiven])) fun t _ _ hraising => hnext hraising.of_addOwners
  cases tb <;> exact hinject

/-- A throw into a generator whose delegate, if there is one, has no way to be closed. -/
theorem throwInto_here {type : Value} {value : Option Value} (hrest : Resting Z F w g r f)
    (htype : holds type ≤ F) (hexit : type.exceptionKind ≠ some .generatorExit)
    (hx : Exception.normalize type value = .ok x)
    (hunclosable : ∀ inner, f.delegate = some inner → w.Unclosable inner)
    (h : Z.Linked (holds value + F) w w')
    (hnext : ∀ {t}, w.Raising g r f (x.givenTraceback tb) t →
      Run.RaisesOnly P (e.perform (.resume g .none) t)) :
    Run.RaisesOnly P (e.throwInto g r type value tb w) := by
  have hread : World.readFrame r w = .ok f w := World.readFrame_eq_ok.2 ⟨hrest.frame, rfl⟩
  have hforget : ∀ vs, Run.Silent (e.releaseAll vs) := fun _ => Engine.releaseObjects_silent he _
  unfold Engine.throwInto
  rw [Run.bind_ok (Run.onInterruption_ok hread)]
  cases hdelegate : f.delegate with
  | none => exact (raiseIntoFrame_raises hs he hZ hscript hrest htype hx h hnext).ensuring (hforget _)
  | some inner =>
      have hcovered := h.covered_delegate (fun hh =>
        h.frame_not_sealed hrest.held.1 hrest.slot (hZ.valid.sealed_of_hidden _ hh)) hrest.frame hdelegate
      have hshared : Z.Linked (holds value + (holds inner + F)) (w.retain inner) (w'.retain inner) :=
        (h.retain hZ.valid hcovered).le (add_left_comm _ _ _).le
      have hresting : Resting Z (holds inner + F) (w.retain inner) g r f :=
        (hrest.addOwners inner.objects).le le_add_self
      have hhere : ∀ vs : List Value, Run.RaisesOnly P (Run.ensuring
          (e.raiseIntoFrame g r type value tb) (e.releaseAll (vs ++ [.frame r])) (w.retain inner)) :=
        fun vs => (raiseIntoFrame_raises hs he hZ hscript hresting (le_add_left htype) hx hshared
          fun hraising => hnext hraising.of_addOwners).ensuring (hforget _)
      have hunclosable := hunclosable inner hdelegate
      show Run.RaisesOnly P
        ((if type.exceptionKind = some .generatorExit then _ else _ : Run World Value) (w.retain inner))
      rw [if_neg hexit]
      cases inner with
      | generator i => exact hunclosable.elim
      | iterator i =>
          have hmade := World.made_of_frame hresting.slot
          have hclosed := Engine.closeForThrow_unclosable (e := e) hmade (hshared.idle hresting.free)
            (hunclosable.of_iterators fun j => w.iterator_addOwners _ j)
          dsimp only
          rw [Run.bind_ok (Run.onInterruption_ok hclosed)]
          exact hhere ([] ++ [.iterator i])
      | _ => exact hhere _

/-- A throw into a generator that delegates to another one. -/
theorem throwInto_through {type : Value} {value : Option Value} (hrest : Resting Z F w g r f)
    (hdelegate : f.delegate = some (.generator i)) (htype : holds type ≤ F)
    (hexit : type.exceptionKind ≠ some .generatorExit) (hstop : ∀ y, Q y → y.kind ≠ .stopIteration)
    (h : Z.Linked (holds value + F) w w')
    (hinner : ∀ {Y : Zone} {H : Bag} {s s' : World}, Y.Fit C → Y.Held H i →
      Y.Linked (holds (Throw.passedOn ⟨type, value, none⟩ tb) + H) s s' → s.thread = w.thread →
      (∀ gs, g ∉ gs → w.Same gs s) →
        Run.RaisesOnly Q (e.throw i (Throw.passedOn ⟨type, value, none⟩ tb) s))
    (hnext : ∀ {y t}, Q y → w.Raising g r f y t → Run.RaisesOnly P (e.perform (.resume g .none) t)) :
    Run.RaisesOnly P (e.throwInto g r type value tb w) := by
  have hread : World.readFrame r w = .ok f w := World.readFrame_eq_ok.2 ⟨hrest.frame, rfl⟩
  have hcovered := h.covered_delegate (fun hh =>
    h.frame_not_sealed hrest.held.1 hrest.slot (hZ.valid.sealed_of_hidden _ hh)) hrest.frame hdelegate
  let u := w.retain (.generator i)
  let K : Bag := holds (Value.generator i) + (holds value + F)
  have hshared : Z.Linked K u (w'.retain (.generator i)) := h.retain hZ.valid hcovered
  have hresting : Resting Z K u g r f := (hrest.addOwners _).le (le_add_left le_add_self)
  have hsame : ∀ gs, w.Same gs u := World.Same.addOwners w _
  unfold Engine.throwInto
  rw [Run.bind_ok (Run.onInterruption_ok hread), hdelegate]
  show Run.RaisesOnly P
    ((if type.exceptionKind = some .generatorExit then _ else _ : Run World Value) u)
  rw [if_neg hexit]
  refine Run.RaisesOnly.ensuring ?_ (Engine.releaseObjects_silent he _)
  refine throwIntoDelegate_through ⟨type, value, none⟩ hs hZ hresting (by rw [hdelegate]; rfl)
    le_self_add (le_add_left (le_add_left htype)) (le_add_left le_self_add) hshared hstop
    (fun {Y H s s'} hY hheld hs' hworld => ?_) fun {y s s'} hy hs' hframe hgenerator => ?_
  · subst hworld
    refine hinner hY hheld hs' ?_ fun gs hg => ?_
    · exact (thread_addOwners ..).trans (thread_addOwners ..)
    · exact ((hsame gs).trans (.addOwners u _ gs)).trans (.setRunning _ hg true)
  · have hagain : Resting Z K s g r f :=
      { hresting with
        slot := by rw [hgenerator, hresting.slot]
        frame := hframe }
    refine inject_raises hs he hZ hscript hagain hs' fun t _ _ hraising => hnext hy ?_
    refine hraising.of_agrees (hgenerator.trans (generator_addOwners ..)) ?_ ?_
    · rw [hs'.pinned.thread, h.pinned.thread]
    · rw [hs'.pinned.codes, h.pinned.codes]

end Throwing

section Answers

variable {thrown : Throw} {tb : Option Traceback} [L.Free] (hs : Serves (Zone.Level L) e e')
  (he : e.Lenient) (hZ : Z.Fit (Zone.Level L)) (hscript : ¬ L.tame)
  (htb : Engine.tracebackOf thrown.traceback = .ok tb)
  (hexit : thrown.type.exceptionKind ≠ some .generatorExit)

include he hZ htb

/-- A throw into a generator that is idle is a throw into its frame, which the call owns meanwhile. -/
theorem answerThrow_leads (hheld : Z.Held F g) (hidle : (w.generator g).running = false)
    (hslot : (w.generator g).frame = some r) (hf : w.frame? r = some f)
    (h : Z.Linked (holds thrown + F) w w')
    (hinto : Resting Z (holds thrown.type + F) (w.retain (.frame r)) g r f →
      Z.Linked (holds thrown.value + (holds thrown.type + F)) (w.retain (.frame r))
        (w'.retain (.frame r)) →
      Run.RaisesOnly P (e.throwInto g r thrown.type thrown.value tb (w.retain (.frame r)))) :
    Run.RaisesOnly P (e.answerThrow g thrown w) := by
  refine Run.RaisesOnly.ensuring ?_ (Engine.releaseObjects_silent he _)
  rw [htb]
  simp only [Run.bind_apply, Run.get_apply, hidle, hslot]
  refine hinto ?_ ((shareFrame_linked hZ.valid hheld.1 hslot h).le fun o => ?_)
  · exact (resting_of_idle hZ (hheld.le le_add_self) h hidle hslot hf).addOwners _
  · simp only [holds_throw, Pi.add_apply]
    omega

include hs hscript hexit

/-- A throw into a generator that is neither running nor finished and does not delegate to what can be
closed comes to a resume in which the exception is to be raised. -/
theorem answerThrow_here (hheld : Z.Held F g) (hidle : (w.generator g).running = false)
    (hslot : (w.generator g).frame = some r) (hf : w.frame? r = some f)
    (hx : Exception.normalize thrown.type thrown.value = .ok x)
    (hunclosable : ∀ inner, f.delegate = some inner → w.Unclosable inner)
    (h : Z.Linked (holds thrown + F) w w')
    (hnext : ∀ {t}, w.Raising g r f (x.givenTraceback tb) t →
      Run.RaisesOnly P (e.perform (.resume g .none) t)) :
    Run.RaisesOnly P (e.answerThrow g thrown w) := by
  refine answerThrow_leads he hZ htb hheld hidle hslot hf h fun hrest hlinked => ?_
  refine throwInto_here hs he hZ (by rwa [hZ.property.law]) hrest le_self_add hexit hx
    (fun inner hinner => ?_) hlinked fun hraising => hnext hraising.of_addOwners
  exact (hunclosable inner hinner).of_iterators fun j => w.iterator_addOwners _ j

/-- A throw into a generator that delegates to another one is a throw into that one, and what this
raises is to be raised in the body of the first, unless it is the end of an iteration. -/
theorem answerThrow_through (hheld : Z.Held F g) (hidle : (w.generator g).running = false)
    (hslot : (w.generator g).frame = some r) (hf : w.frame? r = some f)
    (hdelegate : f.delegate = some (.generator i)) (hstop : ∀ y, Q y → y.kind ≠ .stopIteration)
    (h : Z.Linked (holds thrown + F) w w')
    (hinner : ∀ {Y : Zone} {H : Bag} {s s' : World}, Y.Fit (Zone.Level L) → Y.Held H i →
      Y.Linked (holds (thrown.passedOn tb) + H) s s' → s.thread = w.thread →
      (∀ gs, g ∉ gs → w.Same gs s) → Run.RaisesOnly Q (e.throw i (thrown.passedOn tb) s))
    (hnext : ∀ {y t}, Q y → w.Raising g r f y t → Run.RaisesOnly P (e.perform (.resume g .none) t)) :
    Run.RaisesOnly P (e.answerThrow g thrown w) := by
  refine answerThrow_leads he hZ htb hheld hidle hslot hf h fun hrest hlinked => ?_
  refine throwInto_through hs he hZ (by rwa [hZ.property.law]) hrest hdelegate
    le_self_add hexit hstop hlinked (fun hY hheld hs' hthread hsame => ?_)
    fun hy hraising => hnext hy hraising.of_addOwners
  exact hinner hY hheld hs' (hthread.trans (thread_addOwners ..)) fun gs hg =>
    (World.Same.addOwners w _ gs).trans (hsame gs hg)

end Answers

namespace Session

/-! ### A class that is thrown into the first of two generators -/

/-- The class of the exception that is thrown. -/
def valueErrorThrown : Throw := ⟨.exceptionType .valueError, none, none⟩

/-- The moment when it is to be thrown into a generator, in the course of a command after others. -/
def throwingMoment (cs : List Command) (c : Command) (g : GeneratorRef) : World :=
  brokenOffAt (runUpTo cs c (.asked (.throw g valueErrorThrown)))

theorem throwingMoment_amid {cs : List Command} {c : Command}
    (hdone : allDone (.new 5 .collecting) cs = true)
    (hid : (fresh (afterAll (.new 5 .collecting) cs)).thread.id = 0)
    (hbroken : isBrokenOff 0 (runUpTo cs c (.asked (.throw g valueErrorThrown))) = true) :
    Amid (.asked (.throw g valueErrorThrown)) (throwingMoment cs c g) :=
  runUpTo_amid hdone hid hbroken

/-- The command to throw it into the generator in a variable. -/
def throwValueError : Command := .drive "g0" (.throw (.exceptionType .valueError) none none) none

/-- The moment when it is to be thrown into a generator that delegates to another one. -/
def throwingDownWorld : World := throwingMoment delegatingCommands throwValueError ⟨1⟩

theorem throwingDownWorld_amid : Amid (.asked (.throw ⟨1⟩ valueErrorThrown)) throwingDownWorld :=
  throwingMoment_amid (by decide +kernel) (by decide +kernel) (by decide +kernel)

theorem throwingDownWorld_chain : throwingDownWorld.Chain ⟨1⟩ [⟨0⟩] :=
  .link (by decide +kernel) (by decide +kernel)
    (.last (by decide +kernel) (by decide +kernel) (by decide +kernel))

end Session

end Resumable
