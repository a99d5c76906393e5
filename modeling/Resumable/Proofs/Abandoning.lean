import Resumable.Proofs.Delegators
import Resumable.Proofs.Finishing
import Resumable.Proofs.Reentry
import Resumable.Proofs.Rejection
import Resumable.Proofs.Throwing

set_option autoImplicit false

/-!
# Delegations that are given up

Generators that delegate each to the next one, where the last one delegates to an iterator.  To close the
first of them, or to throw the request to finish into it, closes the iterator, while all of them are
marked as running (`World.closingDown`).  If that fails, the exception passes through all of them, and
each of them gives its delegation up: it is suspended after the delegating instruction, with `none` for
the result.

If what is let go of on the way has other owners, no body is run (`Session.failed_close_gives_up`).  A
generator that nobody but its delegator has is finalized when it is let go of, and that runs its body
(`Session.failed_close_disturbed`).
-/

namespace Resumable

variable {e : Engine} {p : Code.Program} {f : Frame} {inner v : Value} {x y : Exception}
  {w t u b : World} {g j : GeneratorRef} {r s : FrameRef} {it : IteratorRef} {o : Object}
  {gs above : List GeneratorRef} {Z : Zone} {F : Bag} {n m k : Nat}

/-! ## The chain -/

namespace World

/-- A generator is suspended in a delegation of its program. -/
structure DelegatingAt (w : World) (g : GeneratorRef) (r : FrameRef) (f : Frame) (p : Code.Program)
    (inner : Value) : Prop where
  idle : (w.generator g).running = false
  slot : (w.generator g).frame = some r
  frame : w.frame? r = some f
  delegate : f.delegate = some inner
  body : (w.code (w.generator g).code).body = .program p
  started : 0 ≤ f.position
  instruction : p.instructions[f.position.toNat]? = some .yieldFrom
  next : f.hasNext = true

/-- No object is left in the frame of a generator as the result of an earlier delegation. -/
def Settled (w : World) (g : GeneratorRef) : Prop :=
  ∀ r f, (w.generator g).frame = some r → w.frame? r = some f →
    (f.delegationResult.getD .none).objects = []

/-- The first of some generators, or an iterator if there are none. -/
def firstOf (it : IteratorRef) : List GeneratorRef → Value
  | [] => .iterator it
  | g :: _ => .generator g

/-- Generators that delegate each to the next one, and the last of them to an iterator. -/
inductive HangsOn (w : World) (it : IteratorRef) : List GeneratorRef → Prop where
  | nothing : HangsOn w it []
  | link {g : GeneratorRef} {r : FrameRef} {f : Frame} {p : Code.Program} {gs : List GeneratorRef}
      (h : w.DelegatingAt g r f p (firstOf it gs)) (hrest : HangsOn w it gs) : HangsOn w it (g :: gs)

section Decidable

/-- Whether a generator is suspended in a delegation of its program. -/
def isDelegatingTo (w : World) (g : GeneratorRef) (inner : Value) : Bool :=
  match (w.generator g).frame.bind w.frame?, (w.code (w.generator g).code).body with
  | some f, .program p =>
      !(w.generator g).running && f.hasNext && decide (f.delegate = some inner) &&
        decide (0 ≤ f.position) && decide (p.instructions[f.position.toNat]? = some .yieldFrom)
  | _, _ => false

theorem isDelegatingTo_iff :
    w.isDelegatingTo g inner = true ↔ ∃ r f p, w.DelegatingAt g r f p inner := by
  unfold isDelegatingTo
  constructor
  · intro h
    split at h
    · next f p hf hbody =>
        obtain ⟨r, hslot, hframe⟩ := Option.bind_eq_some_iff.1 hf
        simp only [Bool.and_eq_true, Bool.not_eq_true', decide_eq_true_eq] at h
        obtain ⟨⟨⟨⟨hidle, hnext⟩, hdelegate⟩, hstarted⟩, hat⟩ := h
        exact ⟨r, f, p, hidle, hslot, hframe, hdelegate, hbody, hstarted, hat, hnext⟩
    · cases h
  · rintro ⟨r, f, p, h⟩
    rw [h.slot, Option.bind_some, h.frame, h.body]
    simp [h.idle, h.next, h.delegate, h.started, h.instruction]

/-- Whether generators delegate each to the next one, and the last of them to an iterator. -/
def hangsOn (w : World) (it : IteratorRef) : List GeneratorRef → Bool
  | [] => true
  | g :: gs => w.isDelegatingTo g (firstOf it gs) && w.hangsOn it gs

theorem hangsOn_iff : w.hangsOn it gs = true ↔ w.HangsOn it gs := by
  induction gs with
  | nil => exact ⟨fun _ => .nothing, fun _ => rfl⟩
  | cons g gs ih =>
      rw [hangsOn, Bool.and_eq_true, isDelegatingTo_iff, ih]
      constructor
      · rintro ⟨⟨r, f, p, h⟩, hrest⟩
        exact .link h hrest
      · rintro (_ | ⟨h, hrest⟩)
        exact ⟨⟨_, _, _, h⟩, hrest⟩

instance (w : World) (it : IteratorRef) (gs : List GeneratorRef) : Decidable (w.HangsOn it gs) :=
  decidable_of_iff _ hangsOn_iff

instance (w : World) (g : GeneratorRef) : Decidable (w.Settled g) :=
  decidable_of_iff
    (∀ f ∈ (w.generator g).frame.bind w.frame?, (f.delegationResult.getD .none).objects = [])
    ⟨fun h r f hslot hf => h f (by rw [hslot]; exact hf), fun h f hf => by
      obtain ⟨r, hslot, hf⟩ := Option.bind_eq_some_iff.1 hf
      exact h r f hslot hf⟩

end Decidable

/-- The world in which the delegate of a generator is closed. -/
def beingClosed (w : World) (g : GeneratorRef) (r : FrameRef) (inner : Value) : World :=
  ((w.retain (.frame r)).retain inner).setRunning g true

/-- The world in which the iterator is closed, when the first of the generators is. -/
def closingDown (it : IteratorRef) : List GeneratorRef → World → World
  | [], w => w
  | g :: gs, w => closingDown it gs (w.beingClosed g ((w.generator g).frame.getD default) (firstOf it gs))

theorem objects_firstOf (it : IteratorRef) (gs : List GeneratorRef) :
    ∃ o, (firstOf it gs).objects = [o] ∧ ∀ r : FrameRef, o ≠ .frame r := by
  cases gs with
  | nil => exact ⟨_, rfl, nofun⟩
  | cons g gs => exact ⟨_, rfl, nofun⟩

section Fields

theorem generator_beingClosed :
    (w.beingClosed g r inner).generator j =
      if g = j then { w.generator g with running := true } else w.generator j := by
  simp [beingClosed, setRunning, retain]

@[simp] theorem frame_beingClosed : (w.beingClosed g r inner).frame? s = w.frame? s := by
  simp [beingClosed, setRunning, retain]

@[simp] theorem codes_beingClosed : (w.beingClosed g r inner).codes = w.codes := by
  show ((w.retain (.frame r)).retain inner).codes = _
  simp [retain]

@[simp] theorem thread_beingClosed : (w.beingClosed g r inner).thread = w.thread := by
  show ((w.retain (.frame r)).retain inner).thread = _
  simp [retain]

@[simp] theorem code_generator_beingClosed :
    ((w.beingClosed g r inner).generator j).code = (w.generator j).code := by
  rw [generator_beingClosed]
  split
  · next heq => rw [heq]
  · rfl

@[simp] theorem slot_beingClosed :
    ((w.beingClosed g r inner).generator j).frame = (w.generator j).frame := by
  rw [generator_beingClosed]
  split
  · next heq => rw [heq]
  · rfl

@[simp] theorem running_beingClosed :
    ({ (w.beingClosed g r inner).generator j with running := true } : Generator) =
      { w.generator j with running := true } := by
  rw [generator_beingClosed]
  split
  · next heq => rw [heq]
  · rfl

end Fields

theorem DelegatingAt.beingClosed {i : GeneratorRef} {q : FrameRef} {v : Value}
    (h : w.DelegatingAt g r f p inner) (hne : i ≠ g) :
    (w.beingClosed i q v).DelegatingAt g r f p inner where
  idle := by rw [generator_beingClosed, if_neg hne, h.idle]
  slot := by rw [slot_beingClosed, h.slot]
  frame := by rw [frame_beingClosed, h.frame]
  delegate := h.delegate
  body := by
    rw [code_generator_beingClosed, code, codes_beingClosed]
    exact h.body
  started := h.started
  instruction := h.instruction
  next := h.next

theorem Settled.beingClosed {q : FrameRef} {v : Value} (h : w.Settled j) :
    (w.beingClosed g q v).Settled j := by
  intro r f hslot hframe
  rw [slot_beingClosed] at hslot
  rw [frame_beingClosed] at hframe
  exact h r f hslot hframe

theorem HangsOn.beingClosed {i : GeneratorRef} {q : FrameRef} {v : Value} (h : w.HangsOn it gs)
    (hi : i ∉ gs) : (w.beingClosed i q v).HangsOn it gs := by
  induction h with
  | nothing => exact .nothing
  | @link g r f p gs h _ ih =>
      exact .link (h.beingClosed fun heq => hi (heq ▸ List.mem_cons_self))
        (ih fun hmem => hi (List.mem_cons_of_mem g hmem))

/-- There is one way down from a generator. -/
theorem HangsOn.unique {it' : IteratorRef} {gs' : List GeneratorRef} (h : w.HangsOn it (g :: gs))
    (h' : w.HangsOn it' (g :: gs')) : gs.length = gs'.length := by
  generalize hall : g :: gs = all at h
  induction h generalizing g gs gs' with
  | nothing => cases hall
  | @link i r f p rest hi hrest ih =>
      obtain ⟨rfl, rfl⟩ := List.cons.inj hall
      cases h' with
      | @link _ r' f' p' _ hi' hrest' =>
          obtain rfl : r = r' := Option.some.inj (hi.slot.symm.trans hi'.slot)
          obtain rfl : f = f' := Option.some.inj (hi.frame.symm.trans hi'.frame)
          have hsame := Option.some.inj (hi.delegate.symm.trans hi'.delegate)
          cases gs with
          | nil =>
              cases gs' with
              | nil => rfl
              | cons j gs' => cases hsame
          | cons i gs =>
              cases gs' with
              | nil => cases hsame
              | cons j gs' =>
                  obtain rfl : i = j := Value.generator.inj hsame
                  rw [List.length_cons, List.length_cons, ih hrest' rfl]

/-- From each of the generators the way down is part of it. -/
theorem HangsOn.shorter (h : w.HangsOn it gs) (hg : g ∈ gs) :
    ∃ rest, w.HangsOn it (g :: rest) ∧ (g :: rest).length ≤ gs.length := by
  induction h with
  | nothing => cases hg
  | @link i r f p gs h hrest ih =>
      rcases List.mem_cons.1 hg with rfl | hg
      · exact ⟨gs, .link h hrest, le_rfl⟩
      · obtain ⟨rest, hbelow, hle⟩ := ih hg
        exact ⟨rest, hbelow, hle.trans (Nat.le_succ _)⟩

/-- No generator comes up twice. -/
theorem HangsOn.not_mem (h : w.HangsOn it (g :: gs)) : g ∉ gs := fun hg => by
  cases h with
  | link hg' hrest =>
      obtain ⟨rest, hbelow, hle⟩ := hrest.shorter hg
      have := (HangsOn.link hg' hrest).unique hbelow
      rw [List.length_cons] at hle
      omega

end World

/-! ## One generator -/

namespace World

/-- The world in which a frame has given up its delegation, whose delegate has one owner less. -/
def abandoned (t : World) (r : FrameRef) (f : Frame) (o : Object) : World :=
  ((t.setFrame r none).setOwners (t.owners o - 1) o).setFrame r (some (f.finishDelegation .none))

@[simp] theorem owners_abandoned {o' : Object} :
    (t.abandoned r f o).owners o' = if o = o' then t.owners o - 1 else t.owners o' := by
  simp [abandoned]

@[simp] theorem frame_abandoned :
    (t.abandoned r f o).frame? s = if r = s then some (f.finishDelegation .none) else t.frame? s := by
  simp only [abandoned, frame_setFrame, frame_setOwners]
  split <;> rfl

@[simp] theorem generator_abandoned : (t.abandoned r f o).generator j = t.generator j := by
  simp [abandoned]

@[simp] theorem iterator_abandoned : (t.abandoned r f o).iterator? it = t.iterator? it := by
  simp [abandoned]

@[simp] theorem thread_abandoned : (t.abandoned r f o).thread = t.thread := by
  show ((t.setFrame r none).setOwners _ o).thread = _
  rw [thread_setOwners]
  rfl

@[simp] theorem codes_abandoned : (t.abandoned r f o).codes = t.codes := by
  show ((t.setFrame r none).setOwners _ o).codes = _
  cases o <;> rfl

/-- What giving up a delegation changes besides the owners of the delegate and of the frame. -/
structure GivesUp (t : World) (g : GeneratorRef) (r : FrameRef) (f : Frame) (inner : Value) (u : World) :
    Prop where
  thread : u.thread = t.thread
  codes : u.codes = t.codes
  generator : ∀ j, u.generator j =
    if g = j then { t.generator g with running := false } else t.generator j
  frame : ∀ s, u.frame? s = if r = s then some (f.finishDelegation .none) else t.frame? s
  owners : ∀ o, o ∉ inner.objects → o ≠ .frame r → u.owners o = t.owners o

end World

/-- The delegation of a frame that holds nothing else by it is finished. -/
theorem finishDelegation_of_shared (hf : t.frame? r = some f) (hdelegate : f.delegate = some inner)
    (hnext : f.hasNext = true) (hresult : (f.delegationResult.getD .none).objects = [])
    (hobjects : inner.objects = [o]) (htwo : 2 ≤ t.owners o) :
    e.finishDelegation r .none t = .ok () (t.abandoned r f o) := by
  have hout : (t.setFrame r none).owners o = t.owners o := World.owners_setFrame ..
  have hnext : ({ f with delegate := none } : Frame).hasNext = true := hnext
  have hdropped : e.replace Frame.removeDelegate (f, t.setFrame r none) =
      .ok () ({ f with delegate := none }, (t.setFrame r none).setOwners (t.owners o - 1) o) := by
    refine Engine.replace_eq_ok.2 ⟨rfl, ?_⟩
    have hreleased := Engine.release_of_shared (e := e) (w := t.setFrame r none) hobjects
      (by rw [hout]; exact htwo)
    rw [hout, ← Engine.releaseAll_singleton] at hreleased
    rw [Frame.removeDelegate, hdelegate]
    exact hreleased
  have hstepped : World.stepOn ({ f with delegate := none },
      (t.setFrame r none).setOwners (t.owners o - 1) o) =
      .ok () (({ f with delegate := none } : Frame).stepOn,
        (t.setFrame r none).setOwners (t.owners o - 1) o) := by
    unfold World.stepOn
    rw [Run.bind_apply]
    simp only [Run.get_apply]
    rw [if_pos hnext]
    rfl
  have hput := replace_of_objects_nil (e := e) (f := ({ f with delegate := none } : Frame).stepOn)
    (·.replaceDelegationResult .none) (by
      show Value.objectsOfAll f.delegationResult.toList = []
      cases hr : f.delegationResult with
      | none => rfl
      | some v =>
          rw [hr] at hresult
          simpa [Value.objectsOfAll] using hresult) ((t.setFrame r none).setOwners (t.owners o - 1) o)
  refine Engine.withFrameFor_eq_ok.2 (World.withFrame_eq_ok.2 ⟨f, _, _, hf, ?_, rfl⟩)
  rw [Run.bind_ok (Run.onInterruption_ok ((Run.bind_ok hdropped).trans hstepped))]
  exact hput

theorem abandonDelegate_of_finished {α : Type} (h : e.finishDelegation r .none t = .ok () u) :
    (e.abandonDelegate r y : Run World α) t = .error (.raised y) u := by
  unfold Engine.abandonDelegate
  rw [Run.bind_ok (Run.onInterruption_ok h)]
  rfl

section Failing

variable {t₁ t₂ : World} (h : w.DelegatingAt g r f p inner)
  (hclose : e.closeIter inner (w.beingClosed g r inner) = .error (.raised y) t)
  (hgiven : e.finishDelegation r .none (t.setRunning g false) = .ok () t₁)
  (hforget : e.release inner t₁ = .ok () t₂) (hlast : e.release (.frame r) t₂ = .ok () u)

include hclose

theorem whileRunning_of_failure :
    Run.attempt (World.whileRunning g (e.closeIter inner)) ((w.retain (.frame r)).retain inner) =
      .ok (.error y) (t.setRunning g false) := by
  have hraised : World.whileRunning g (e.closeIter inner) ((w.retain (.frame r)).retain inner) =
      .error (.raised y) (t.setRunning g false) := Run.ensuring_raised hclose rfl
  exact Run.attempt_eq_ok.2 (.inr ⟨y, rfl, hraised⟩)

include h hgiven hforget hlast

/-- Closing a generator whose delegate fails to close. -/
theorem answerClose_of_failure (hends : ¬ y.EndsClosing) :
    e.answerClose g w = .error (.raised y) u := by
  have hread : World.readFrame r (w.retain (.frame r)) = .ok f (w.retain (.frame r)) := by
    unfold World.readFrame
    rw [World.retain, frame_addOwners, h.frame]
  have hdelegate : e.closeDelegate g r (w.retain (.frame r)) = .error (.raised y) t₂ := by
    unfold Engine.closeDelegate
    rw [Run.bind_ok hread, h.delegate]
    refine Run.ensuring_raised ?_ hforget
    rw [Run.bind_ok (whileRunning_of_failure hclose)]
    have hother : ¬ (y.isCaughtBy .stopIteration || y.isCaughtBy .generatorExit) = true := hends
    simp only [if_neg hother]
    exact abandonDelegate_of_finished hgiven
  unfold Engine.answerClose
  rw [Run.bind_apply]
  simp only [Run.get_apply, h.idle, Bool.false_eq_true, if_false, h.slot]
  exact Run.ensuring_raised (Run.bind_error hdelegate) hlast

/-- Throwing the request to finish into a generator whose delegate fails to close. -/
theorem answerThrow_of_failure : e.answerThrow g .generatorExit w = .error (.raised y) u := by
  have hread : World.readFrame r (w.retain (.frame r)) = .ok f (w.retain (.frame r)) := by
    unfold World.readFrame
    rw [World.retain, frame_addOwners, h.frame]
  have hboth : e.releaseAll [inner, .frame r] t₁ = .ok () u := by
    rw [show [inner, Value.frame r] = [inner] ++ [.frame r] from rfl, Engine.releaseAll_append,
      Engine.releaseAll_singleton, Engine.releaseAll_singleton]
    exact Run.ensuring_ok hforget hlast
  have hthrown : e.throwInto g r (.exceptionType .generatorExit) none none (w.retain (.frame r)) =
      .error (.raised y) u := by
    unfold Engine.throwInto
    rw [Run.bind_ok (Run.onInterruption_ok hread)]
    simp only [h.delegate]
    refine (Run.bind_ok rfl).trans ?_
    simp only [Value.exceptionKind]
    refine (Run.bind_ok (Run.onInterruption_ok (whileRunning_of_failure hclose))).trans ?_
    exact Run.ensuring_raised (abandonDelegate_of_finished hgiven) hboth
  unfold Engine.answerThrow
  refine Run.ensuring_raised ?_ (e.release_of_objects_nil rfl u)
  rw [show Throw.generatorExit.traceback = none from rfl]
  simp only [Engine.tracebackOf]
  rw [Run.bind_apply]
  simp only [Run.get_apply, h.idle, Bool.false_eq_true, if_false, h.slot]
  exact hthrown

end Failing

/-! ### What the generator lets go of -/

namespace World

/-- The worlds agree on the thread, on code, generators and frames, and on the owners of all objects but
one. -/
structure AgreesBut (w : World) (o : Object) (u : World) : Prop where
  thread : u.thread = w.thread
  codes : u.codes = w.codes
  generator : ∀ j, u.generator j = w.generator j
  frame : ∀ s, u.frame? s = w.frame? s
  owners : ∀ o', o ≠ o' → u.owners o' = w.owners o'

theorem agreesBut_setOwners (w : World) (n : Nat) (o : Object) : w.AgreesBut o (w.setOwners n o) where
  thread := by simp
  codes := by cases o <;> rfl
  generator := by simp
  frame := by simp
  owners o' ho := by rw [owners_setOwners, if_neg ho]

theorem AgreesBut.setIterator (h : w.AgreesBut o u) (it : IteratorRef) :
    w.AgreesBut o (u.setIterator it none) where
  thread := h.thread
  codes := h.codes
  generator := h.generator
  frame := h.frame
  owners o' ho := by rw [owners_setIterator, h.owners o' ho]

end World

/-- An iterator of a script disappears when its last owner forgets it. -/
def Engine.Disposes (e : Engine) : Prop :=
  ∀ it s w, w.iterator? it = some (.scripted s) →
    e.perform (.reclaim (.iterator it)) w = .ok .none (w.setIterator it none)

/-- There is an owner left, or it was an iterator of a script. -/
theorem release_agreesBut (hobjects : inner.objects = [o])
    (ho : 2 ≤ w.owners o ∨ ∃ it s, o = .iterator it ∧ w.owners o = 1 ∧
      w.iterator? it = some (.scripted s)) :
    ∃ u, w.AgreesBut o u ∧ ∀ e : Engine, e.Disposes → e.release inner w = .ok () u := by
  rcases ho with htwo | ⟨it, s, rfl, hone, hcell⟩
  · exact ⟨_, w.agreesBut_setOwners _ o, fun e _ => Engine.release_of_shared hobjects htwo⟩
  · refine ⟨_, (w.agreesBut_setOwners 0 _).setIterator it, fun e he => ?_⟩
    have hreclaimed := he it s (w.setOwners 0 (.iterator it)) (by rw [World.iterator_setOwners, hcell])
    rw [Engine.release, hobjects]
    show Run.ensuring (e.releaseObject (.iterator it)) (pure ()) w = _
    rw [Machine.ensuring_pure]
    unfold Engine.releaseObject
    rw [hone]
    simp only [hreclaimed]

/-- A generator whose delegate fails to close gives its delegation up. -/
theorem World.DelegatingAt.givesUp (h : w.DelegatingAt g r f p inner) (hsettled : w.Settled g)
    (hframe : t.frame? r = some f)
    (hobjects : inner.objects = [o]) (hother : o ≠ .frame r) (htwo : 2 ≤ t.owners o)
    (howned : 2 ≤ t.owners (.frame r))
    (hdrops : 3 ≤ t.owners o ∨ ∃ it s, o = .iterator it ∧ t.iterator? it = some (.scripted s)) :
    ∃ u, t.GivesUp g r f inner u ∧ ∀ e : Engine, e.Disposes →
      e.closeIter inner (w.beingClosed g r inner) = .error (.raised y) t →
        (¬ y.EndsClosing → e.answerClose g w = .error (.raised y) u) ∧
          e.answerThrow g .generatorExit w = .error (.raised y) u := by
  have hidle : ∀ o', (t.setRunning g false).owners o' = t.owners o' := fun o' => owners_setGenerator ..
  obtain ⟨t₂, hagrees, hforget⟩ := release_agreesBut
    (w := (t.setRunning g false).abandoned r f o) hobjects (by
      rw [owners_abandoned, if_pos rfl, hidle]
      rcases hdrops with hthree | ⟨it, s, heq, hcell⟩
      · exact .inl (by omega)
      · by_cases hthree : 3 ≤ t.owners o
        · exact .inl (by omega)
        · exact .inr ⟨it, s, heq, by omega, by rw [iterator_abandoned]; exact hcell⟩)
  have hshared : t₂.owners (.frame r) = t.owners (.frame r) := by
    rw [hagrees.owners _ hother, owners_abandoned, if_neg hother, hidle]
  have hlast := fun e : Engine => Engine.release_of_shared (e := e) (v := .frame r) (w := t₂) rfl
    (by rw [hshared]; exact howned)
  refine ⟨t₂.setOwners (t₂.owners (.frame r) - 1) (.frame r), ?_, fun e he hclose => ?_⟩
  · exact
      { thread := by rw [thread_setOwners, hagrees.thread, thread_abandoned]; rfl
        codes := by
          rw [(t₂.agreesBut_setOwners _ _).codes, hagrees.codes, codes_abandoned]
          rfl
        generator := fun j => by
          rw [generator_setOwners, hagrees.generator, generator_abandoned, setRunning,
            generator_setGenerator]
        frame := fun s => by
          rw [frame_setOwners, hagrees.frame, frame_abandoned, setRunning, frame_setGenerator]
        owners := fun o' ho hr => by
          have hne : o ≠ o' := fun heq => ho (by rw [hobjects, heq]; exact List.mem_singleton_self o')
          rw [owners_setOwners, if_neg hr.symm, hagrees.owners _ hne, owners_abandoned, if_neg hne,
            hidle] }
  · have hgiven := finishDelegation_of_shared (e := e) (t := t.setRunning g false)
      (by rw [setRunning, frame_setGenerator, hframe]) h.delegate h.next (hsettled r f h.slot h.frame) hobjects
      (by rw [hidle]; exact htwo)
    exact ⟨answerClose_of_failure h hclose hgiven (hforget e he) (hlast e),
      answerThrow_of_failure h hclose hgiven (hforget e he) (hlast e)⟩

/-! ## All of them -/

namespace World

/-- The generators are marked as running.  Their frames are what they were, and the calls that close the
generators share them. -/
structure Waits (w : World) (gs : List GeneratorRef) (t : World) : Prop where
  generator : ∀ j ∈ gs, t.generator j = { w.generator j with running := true }
  frame : ∀ j ∈ gs, ∀ r, (w.generator j).frame = some r →
    t.frame? r = w.frame? r ∧ 2 ≤ t.owners (.frame r)

/-- What it changes that generators give their delegations up. -/
structure GivenUp (w : World) (gs : List GeneratorRef) (t u : World) : Prop where
  thread : u.thread = t.thread
  codes : u.codes = t.codes
  generator : ∀ j ∈ gs, u.generator j = w.generator j
  given : ∀ j ∈ gs, ∀ r f, (w.generator j).frame = some r → w.frame? r = some f →
    u.frame? r = some (f.finishDelegation .none)
  others : ∀ j ∉ gs, u.generator j = t.generator j
  frames : ∀ r, (∀ j ∈ gs, (w.generator j).frame ≠ some r) →
    u.frame? r = t.frame? r ∧ u.owners (.frame r) = t.owners (.frame r)
  owners : ∀ j ∉ gs.tail, u.owners (.generator j) = t.owners (.generator j)
  unchanged : gs = [] → u = t

theorem GivenUp.nobody (w t : World) : w.GivenUp [] t t where
  thread := rfl
  codes := rfl
  generator := by simp
  given := by simp
  others _ _ := rfl
  frames _ _ := ⟨rfl, rfl⟩
  owners _ _ := rfl
  unchanged _ := rfl

theorem Waits.beingClosed (h : w.Waits (g :: gs) t) : (w.beingClosed g r inner).Waits gs t where
  generator j hj := by
    rw [running_beingClosed]
    exact h.generator j (List.mem_cons_of_mem g hj)
  frame j hj s hs := by
    rw [frame_beingClosed]
    rw [slot_beingClosed] at hs
    exact h.frame j (List.mem_cons_of_mem g hj) s hs

theorem Apart.beingClosed (h : w.Apart) : (w.beingClosed g r inner).Apart := by
  intro i j s hi hj
  rw [slot_beingClosed] at hi hj
  exact h i j s hi hj

/-- One more generator gives its delegation up. -/
theorem GivenUp.step (h : w.DelegatingAt g r f p (firstOf it gs)) (hwaits : w.Waits (g :: gs) t)
    (hg : g ∉ gs)
    (hgiven : (w.beingClosed g r (firstOf it gs)).GivenUp gs t u)
    (hgives : u.GivesUp g r f (firstOf it gs) b) : w.GivenUp (g :: gs) t b where
  thread := hgives.thread.trans hgiven.thread
  codes := hgives.codes.trans hgiven.codes
  generator j hj := by
    rw [hgives.generator]
    split
    · next heq =>
        subst heq
        rw [hgiven.others g hg, hwaits.generator g List.mem_cons_self, ← h.idle]
    · next hne =>
        have hmem := (List.mem_cons.1 hj).resolve_left (Ne.symm hne)
        rw [hgiven.generator j hmem, generator_beingClosed, if_neg hne]
  given j hj s f' hs hf' := by
    rw [hgives.frame]
    by_cases heq : r = s
    · subst heq
      obtain rfl : f = f' := Option.some.inj (h.frame.symm.trans hf')
      rw [if_pos rfl]
    · rw [if_neg heq]
      rcases List.mem_cons.1 hj with rfl | hmem
      · exact absurd (Option.some.inj (h.slot.symm.trans hs)) heq
      · exact hgiven.given j hmem s f' (by rwa [slot_beingClosed]) (by rwa [frame_beingClosed])
  others j hj := by
    have hne : g ≠ j := fun heq => hj (heq ▸ List.mem_cons_self)
    rw [hgives.generator, if_neg hne]
    exact hgiven.others j fun hmem => hj (List.mem_cons_of_mem g hmem)
  frames s hs := by
    have hne : r ≠ s := fun heq => hs g List.mem_cons_self (heq ▸ h.slot)
    obtain ⟨hframe, howners⟩ := hgiven.frames s fun j hj hslot =>
      hs j (List.mem_cons_of_mem g hj) (by rwa [slot_beingClosed] at hslot)
    refine ⟨by rw [hgives.frame, if_neg hne, hframe], ?_⟩
    rw [hgives.owners _ ?_ fun heq => hne (Object.frame.inj heq).symm, howners]
    cases gs <;> simp [firstOf, Value.objects]
  owners j hj := by
    have hkept : Object.generator j ∉ (firstOf it gs).objects := by
      cases gs with
      | nil => simp [firstOf, Value.objects]
      | cons i rest =>
          intro hmem
          obtain rfl : j = i := Object.generator.inj (List.mem_singleton.1 hmem)
          exact hj List.mem_cons_self
    rw [hgives.owners _ hkept fun heq => by cases heq]
    exact hgiven.owners j fun hmem => hj (List.mem_of_mem_tail hmem)
  unchanged hnil := by cases hnil

end World

/-- A machine that answers a request to close a generator, whatever the fuel, and with which iterators of
scripts disappear. -/
structure Closes (e : Nat → Engine) : Prop where
  answers : ∀ k g w, (e (k + 1)).perform (.close g) w = (e k).answerClose g w
  disposes : ∀ k, (e (k + 1)).Disposes

section Chain

variable {e : Nat → Engine} (he : Closes e) (hends : ¬ y.EndsClosing)

include he hends

/-- The first of the generators is closed, or the request to finish is thrown into it. -/
theorem World.HangsOn.fails (hchain : w.HangsOn it (g :: gs))
    (hsettled : ∀ j ∈ g :: gs, w.Settled j) (hapart : w.Apart)
    (hwaits : w.Waits (g :: gs) t) (howned : ∀ j ∈ gs, 3 ≤ t.owners (.generator j))
    (htwo : 2 ≤ t.owners (.iterator it)) (hscript : ∃ s, t.iterator? it = some (.scripted s)) :
    ∃ u, w.GivenUp (g :: gs) t u ∧ ∀ k, 1 ≤ k →
      (e k).closeIter (.iterator it) (w.closingDown it (g :: gs)) = .error (.raised y) t →
        (e (k + gs.length)).answerClose g w = .error (.raised y) u ∧
          (e (k + gs.length)).answerThrow g .generatorExit w = .error (.raised y) u := by
  -- induction on the chain, whose generators are closed one after the other
  induction gs generalizing w g with
  | nil =>
      cases hchain with
      | @link _ r f p _ h hrest =>
          obtain ⟨hframe, hshared⟩ := hwaits.frame g List.mem_cons_self r h.slot
          obtain ⟨s, hs⟩ := hscript
          obtain ⟨u, hgives, hraises⟩ := h.givesUp (y := y)
            (hsettled g List.mem_cons_self) (hframe.trans h.frame)
            (o := .iterator it) rfl nofun htwo hshared (.inr ⟨it, s, rfl, hs⟩)
          refine ⟨u, .step h hwaits List.not_mem_nil (.nobody _ t) hgives, fun k hk hclose => ?_⟩
          obtain ⟨k, rfl⟩ : ∃ l, k = l + 1 := ⟨k - 1, by omega⟩
          rw [World.closingDown, h.slot] at hclose
          have hfails := hraises (e (k + 1)) (he.disposes k) hclose
          exact ⟨hfails.1 hends, hfails.2⟩
  | cons i gs ih =>
      have hnot := hchain.not_mem
      cases hchain with
      | @link _ r f p _ h hrest =>
          obtain ⟨u, hgiven, hraises⟩ := ih (hrest.beingClosed (q := r) (v := .generator i) hnot)
            (fun j hj => (hsettled j (List.mem_cons_of_mem g hj)).beingClosed)
            hapart.beingClosed hwaits.beingClosed fun j hj => howned j (List.mem_cons_of_mem i hj)
          obtain ⟨hframe, hshared⟩ := hwaits.frame g List.mem_cons_self r h.slot
          obtain ⟨hkept, howners⟩ := hgiven.frames r fun j hj hslot => hnot (by
            rw [World.slot_beingClosed] at hslot
            exact hapart g j r h.slot hslot ▸ hj)
          have hthree : 3 ≤ u.owners (.generator i) := by
            rw [hgiven.owners i hrest.not_mem]
            exact howned i List.mem_cons_self
          obtain ⟨b, hgives, hfails⟩ := h.givesUp (y := y)
            (hsettled g List.mem_cons_self) (hkept.trans (hframe.trans h.frame))
            (o := .generator i) rfl nofun (by omega) (by omega) (.inl hthree)
          refine ⟨b, .step h hwaits hnot hgiven hgives, fun k hk hclose => ?_⟩
          rw [World.closingDown, h.slot] at hclose
          have hinner : (e (k + gs.length + 1)).closeIter (.generator i)
              (w.beingClosed g r (.generator i)) = .error (.raised y) u := by
            rw [Engine.closeIter, Engine.close, he.answers]
            exact (hraises k hk hclose).1
          have hfails := hfails (e (k + gs.length + 1)) (he.disposes _) hinner
          rw [List.length_cons, ← Nat.add_assoc]
          exact ⟨hfails.1 hends, hfails.2⟩

end Chain

/-! ## The iterator -/

section Expressions

variable {τ : Type} {P : τ → Prop} {fields : FieldReader τ}

mutual

/-- Making a value leaves the private half to those who read from it. -/
theorem Expr.eval_maintains (hfields : ∀ b, Run.Maintains (fun s => P s.1) (fields b)) :
    (x : Expr) → Run.Maintains (fun s => P s.1) (x.eval fields)
  | .none | .bool _ | .int _ | .str _ | .exceptionType _ | .traceback _ => Run.maintains_pure _
  | .variable _ => Run.maintains_shared P _
  | .scripted _ _ _ _ => Run.maintains_shared P _
  | .field b => hfields b
  | .list items => (Expr.evalAll_maintains hfields items).bind fun _ => Run.maintains_shared P _
  | .exception _ args _ _ => (Expr.evalAll_maintains hfields args).bind fun _ => Run.maintains_pure _
  | .listIterator source => by
      refine (Expr.eval_maintains hfields source).bind fun v => ?_
      cases v with
      | list r => exact Run.maintains_shared P _
      | _ => exact Run.maintains_pure _

theorem Expr.evalAll_maintains (hfields : ∀ b, Run.Maintains (fun s => P s.1) (fields b)) :
    (xs : List Expr) → Run.Maintains (fun s => P s.1) (Expr.evalAll fields xs)
  | [] => Run.maintains_pure _
  | x :: xs => (Expr.eval_maintains hfields x).bind fun _ =>
      (Expr.evalAll_maintains hfields xs).bind fun _ => Run.maintains_pure _

end

/-- So does a method of a script. -/
theorem respond_maintains (hfields : ∀ b, Run.Maintains (fun s => P s.1) (fields b)) (c : Response) :
    Run.Maintains (fun s => P s.1) (e.respond fields c) := by
  rcases c with x | x | ⟨name, method, args⟩
  · exact x.eval_maintains hfields
  · exact (x.eval_maintains hfields).bind fun _ => Run.maintains_shared P _
  · exact (Run.maintains_shared P _).bind fun _ =>
      (Expr.evalAll_maintains hfields args).bind fun _ => Run.maintains_shared P _

end Expressions

namespace World

variable {α : Type} {a : α} {i : Iterator} {m : Run (Iterator × World) α}

theorem withIterator_eq_ok :
    withIterator it m w = .ok a t ↔
      ∃ i b u, w.iterator? it = some i ∧ m (i, w.setIterator it none) = .ok a (b, u) ∧
        t = u.setIterator it (some b) := by
  unfold withIterator Run.withPrivate
  cases w.iterator? it with
  | none => simp [abort]
  | some i =>
      simp only [Option.some.injEq, exists_and_left, exists_eq_left']
      rcases m (i, w.setIterator it none) with ⟨a', b, u⟩ | ⟨_ | _ | _, b, u⟩ <;> simp
      exact fun _ => eq_comm

theorem withIterator_of_raised {b : Iterator} (hi : w.iterator? it = some i)
    (hm : m (i, w.setIterator it none) = .error (.raised x) (b, u)) :
    withIterator it m w = .error (.raised x) (u.setIterator it (some b)) := by
  unfold withIterator Run.withPrivate
  rw [hi]
  simp only [hm, Run.modify_apply]

end World

/-- The iterator itself stays as it is when it is closed. -/
theorem close_maintains (P : Iterator → Prop) :
    Run.Maintains (fun s => P s.1) (Iterator.close? e) := by
  refine Run.maintains_get.bind fun s => ?_
  rcases s with ⟨_ | ⟨name, items, closing, echoes⟩, w⟩
  · exact Run.maintains_pure _
  · cases closing with
    | none => exact Run.maintains_pure _
    | some c =>
        have hresponds : Run.Maintains (fun s => P s.1) (e.respond noFields c) :=
          respond_maintains (fun _ => Run.maintains_pure _) c
        refine Run.Maintains.bind (fun _ h => h) fun _ => hresponds.attempt.bind fun closed => ?_
        rcases c with _ | _ | _
        · exact Run.maintains_pure _
        · exact Run.maintains_pure _
        · cases closed with
          | ok v => exact Run.Maintains.bind (fun _ h => h) fun _ => Run.maintains_pure _
          | error x => exact Run.maintains_pure _

/-- An iterator that raises an exception when it is closed follows a script. -/
theorem closed_scripted (hclose : World.withIterator it (Iterator.close? e) w = .ok (some (.error y)) t) :
    ∃ s, t.iterator? it = some (.scripted s) := by
  obtain ⟨i, b, u, -, hrun, rfl⟩ := World.withIterator_eq_ok.1 hclose
  rw [World.iterator_setIterator, if_pos rfl]
  have hscripted : ∃ s, i = .scripted s := by
    cases i with
    | list source index => cases hrun
    | scripted s => exact ⟨s, rfl⟩
  have hkept := close_maintains (e := e) (fun i => ∃ s, i = .scripted s)
    (i, w.setIterator it none) hscripted
  rw [hrun] at hkept
  obtain ⟨s, rfl⟩ := hkept
  exact ⟨s, rfl⟩

/-- Such an exception is raised where the delegate is closed. -/
theorem closeIter_of_raised
    (hclose : World.withIterator it (Iterator.close? e) w = .ok (some (.error y)) t)
    (hkind : y.kind ≠ .attributeError) :
    e.closeIter (.iterator it) w = .error (.raised y) t := by
  obtain ⟨i, b, u, hi, hrun, rfl⟩ := World.withIterator_eq_ok.1 hclose
  refine World.withIterator_of_raised hi ?_
  rw [Run.bind_ok hrun]
  simp only [if_neg hkind]
  rfl

/-! ## Where the iterator is closed -/

namespace Zone

theorem Extends.trans {Z Z' Z'' : Zone} (h : Z.Extends Z') (h' : Z'.Extends Z'') : Z.Extends Z'' where
  hidden := h'.hidden.trans h.hidden
  holders := h'.holders ∘ h.holders
  thread := h'.thread ∘ h.thread
  fixed g x hx := h'.fixed g x (h.fixed g x hx)
  law := h'.law.trans h.law
  cells r c hc := h'.cells r c (h.cells r c hc)
  level := h'.level ∘ h.level

/-- The zones in which generators are running. -/
structure Waiting (gs : List GeneratorRef) (Z : Zone) : Prop where
  level : Level .trivial Z
  running : ∀ j ∈ gs, ∃ x, Z.fixed j = some x ∧ x.running = true

theorem waiting_inherited (gs : List GeneratorRef) : Inherited (Waiting gs) := fun Z Z' h hext =>
  ⟨level_inherited .trivial Z Z' h.level hext, fun j hj => by
    obtain ⟨x, hx, hrunning⟩ := h.running j hj
    exact ⟨x, hext.fixed j x hx, hrunning⟩⟩

/-- A generator that delegates is marked as running, and shares its frame and the delegate. -/
theorem Linked.beingClosed (hw : Z.Linked F w w) (hZ : Z.Fit (Level .trivial)) (hheld : Z.Held F g)
    (h : w.DelegatingAt g r f p inner) :
    ∃ Y H, Z.Extends Y ∧ F + Z.left ≤ H + Y.left ∧ Y.Fit (Waiting [g]) ∧ holds inner ≤ H ∧
      1 ≤ H (.frame r) ∧ Y.Linked H (w.beingClosed g r inner) (w.beingClosed g r inner) := by
  have hshared := shareFrame_linked hZ.valid hheld.1 h.slot hw
  have hvisible : ¬ Z.hidden (.frame r) := hZ.property.hidden _
  have hboth := hshared.retain hZ.valid (hshared.covered_delegate hvisible
    (by rw [World.retain, frame_addOwners, h.frame]) h.delegate)
  have hrest : Resting Z F w g r f := resting_of_idle hZ hheld hw h.idle h.slot h.frame
  have hslot : (((w.retain (.frame r)).retain inner).generator g).frame = some r := by
    simp only [World.retain, generator_addOwners, h.slot]
  have hframe : ((w.retain (.frame r)).retain inner).frame? r = some f := by
    simp only [World.retain, frame_addOwners, h.frame]
  obtain ⟨B, H, hsplit, hfit, hstarted⟩ := Zone.Linked.startRunning
    (A := holds inner + holds (Value.frame r)) (F := F) hZ hheld hrest.free hrest.cell hslot
    (hboth.le (add_assoc _ _ _).le)
  have hpinned := hstarted.pin (r := r) (c := some f) (by rw [frame_setRunning, hframe])
  have hfixed : (Z.lend B).Extends ((Z.lend B).fix g
      { ((w.retain (.frame r)).retain inner).generator g with running := true }) :=
    extends_fix hrest.free
  have hext := (extends_lend B).trans
    (hfixed.trans (extends_pin (allows_of_free (r := r) hrest.cell (some f))))
  have hfit := hfit (some f) fun b hb => Option.some.inj hb ▸ (by rw [h.delegate]; rfl)
  refine ⟨_, _, hext, fun o => ?_, ⟨waiting_inherited [g], ⟨hfit.property, ?_⟩, hfit.valid, hfit.room⟩,
    ?_, ?_, hpinned⟩
  · rw [← hsplit]
    show (B + H + Z.left) o ≤ (holds inner + holds (Value.frame r) + H + (Z.left + B)) o
    simp only [Pi.add_apply]
    omega
  · rintro j hj
    obtain rfl := List.mem_singleton.1 hj
    exact ⟨_, Function.update_self .., rfl⟩
  · exact le_trans le_self_add le_self_add
  · simp only [Pi.add_apply, holds_frameRef, Bag.of_singleton_self]
    omega

end Zone

/-- The worlds are linked where the iterator is closed, and it has a holder, as the frames of the
generators have. -/
theorem World.HangsOn.linked (h : w.HangsOn it gs) (hZ : Z.Fit (Zone.Level .trivial))
    (hreach : Z.Reaches F (firstOf it gs)) (hw : Z.Linked F w w) :
    ∃ Y H, Z.Extends Y ∧ F + Z.left ≤ H + Y.left ∧ Y.Fit (Zone.Waiting gs) ∧
      Y.Reaches H (.iterator it) ∧ Y.Linked H (w.closingDown it gs) (w.closingDown it gs) ∧
      ∀ j ∈ gs, ∀ r, (w.generator j).frame = some r → 1 ≤ H (.frame r) + Y.left (.frame r) := by
  induction gs generalizing w Z F with
  | nil =>
      exact ⟨Z, F, ⟨rfl, id, id, fun _ _ => id, rfl, fun _ _ => id, id⟩, le_rfl,
        ⟨Zone.waiting_inherited [], ⟨hZ.property, nofun⟩, hZ.valid, hZ.room⟩, hreach, hw, nofun⟩
  | cons g gs ih =>
      have hnot := h.not_mem
      cases h with
      | @link _ r f p _ h hrest =>
          obtain ⟨Y, H, hext, hkept, hfit, hholds, hframe, hlinked⟩ := hw.beingClosed hZ hreach h
          have hlevel : Y.Fit (Zone.Level .trivial) :=
            ⟨Zone.level_inherited _, hfit.property.level, hfit.valid, hfit.room⟩
          obtain ⟨X, K, hext', hkept', hfit', hreach', hlinked', hframes⟩ :=
            ih (hrest.beingClosed hnot) hlevel (hlinked.reaches hlevel.valid hholds) hlinked
          refine ⟨X, K, hext.trans hext', hkept.trans hkept', ⟨Zone.waiting_inherited _,
            ⟨hfit'.property.level, fun j hj => ?_⟩, hfit'.valid, hfit'.room⟩, hreach', ?_,
            fun j hj s hs => ?_⟩
          · rcases List.mem_cons.1 hj with rfl | hj
            · exact ((Zone.waiting_inherited [j]) _ _ hfit.property hext').running j
                (List.mem_singleton_self j)
            · exact hfit'.property.running j hj
          · rwa [World.closingDown, h.slot]
          · rcases List.mem_cons.1 hj with rfl | hj
            · obtain rfl : r = s := Option.some.inj (h.slot.symm.trans hs)
              have := hkept' (.frame r)
              simp only [Pi.add_apply] at this
              omega
            · exact hframes j hj s (by rwa [World.slot_beingClosed])

/-! ## No body is run -/

namespace Machine

/-- The observer that breaks a run off when one of the generators is resumed that is not running. -/
def withholding (gs : List GeneratorRef) : Observer where
  note _ w := w.held
  stops
    | .asked (.resume j _), w => decide (j ∈ gs) && !(w.generator j).running
    | _, _ => false

/-- A request that is not broken off is answered. -/
theorem observed_withholding {request : Request} (h : (withholding gs).stops (.asked request) w = false) :
    observed (withholding gs) (n + 1) request w = request.answer (observedEngine (withholding gs) n) w := by
  have hasked : (withholding gs).see (.asked request) w = .ok () w := by
    rcases see_cases (withholding gs) (.asked request) w with ⟨hstops, -⟩ | ⟨-, hgoes⟩
    · exact absurd (hstops.symm.trans h) nofun
    · exact hgoes
  have hanswered : (withholding gs).see (.answered request) = pure () := rfl
  show ((withholding gs).see (.asked request) >>= fun _ =>
    (request.answer (observedEngine (withholding gs) n)).ensuring ((withholding gs).see (.answered request))) w = _
  rw [Run.bind_ok hasked, hanswered, ensuring_pure]

/-- While the generators are running, nothing is broken off. -/
theorem withholding_serves (h : n ≤ m) :
    Serves (Zone.Waiting gs) (engine n) (observedEngine (withholding gs) m) := by
  have hfree : ∀ {Z : Zone}, Z.Fit (Zone.Waiting gs) → ∀ request w, ¬ Z.law.bars request w :=
    fun hZ request w => by
      rw [hZ.property.level.law]
      exact Law.Free.free request w
  have hspares : ∀ {Z : Zone}, Z.Fit (Zone.Waiting gs) → ∀ {o : Object}, ¬ Z.spared o :=
    fun hZ o ho => hfree hZ (.reclaim o) default (hZ.valid.spared o ho default)
  induction n generalizing m with
  | zero =>
      exact ⟨h, fun _ _ _ _ _ _ ht => .outOfFuel ht.calm, fun hZ _ _ ho => absurd ho (hspares hZ)⟩
  | succ n ih =>
      obtain ⟨m, rfl⟩ : ∃ k, m = k + 1 := ⟨m - 1, by omega⟩
      refine ⟨h, fun {Z} hZ request {F w w'} hgranted hlinked => ?_,
        fun hZ _ _ ho => absurd ho (hspares hZ)⟩
      have hgoes : (withholding gs).stops (.asked request) w' = false := by
        cases request with
        | resume j v =>
            simp only [withholding, Bool.and_eq_false_iff, decide_eq_false_iff_not, Bool.not_eq_false']
            by_cases hj : j ∈ gs
            · obtain ⟨x, hx, hrunning⟩ := hZ.property.running j hj
              refine .inr ?_
              rw [hlinked.alike.generator j (hZ.property.level.hidden _), hlinked.pinned.fixed j x hx,
                hrunning]
            · exact .inl hj
        | _ => rfl
      show Ends _ F holds (perform (n + 1) request w) (observed (withholding gs) (m + 1) request w')
      rw [observed_withholding hgoes]
      exact answer_ends (ih (Nat.le_of_succ_le_succ h)) hZ request (hfree hZ request w) hgranted hlinked

end Machine

/-- An iterator that follows a script holds nothing. -/
theorem reclaim_scripted {d : ScriptedIterator} (h : w.iterator? it = some (.scripted d)) :
    (Request.reclaim (.iterator it)).answer e w = .ok .none (w.setIterator it none) := by
  show (e.reclaim (.iterator it) >>= fun _ => pure (.none : Value)) w = _
  unfold Engine.reclaim
  simp only [Run.bind_apply, Run.get_apply, Run.modify_apply, h]
  rfl

theorem closes_engine : Closes Machine.engine where
  answers _ _ _ := rfl
  disposes _ _ _ _ h := reclaim_scripted h

theorem closes_withholding (gs : List GeneratorRef) : Closes (Machine.observedEngine (Machine.withholding gs)) where
  answers _ _ _ := Machine.observed_withholding rfl
  disposes _ _ _ _ h := (Machine.observed_withholding rfl).trans (reclaim_scripted h)

/-! ## The failure -/

namespace World

@[simp] theorem frame_closingDown : (w.closingDown it gs).frame? s = w.frame? s := by
  induction gs generalizing w with
  | nil => rfl
  | cons g gs ih => rw [closingDown, ih, frame_beingClosed]

@[simp] theorem codes_closingDown : (w.closingDown it gs).codes = w.codes := by
  induction gs generalizing w with
  | nil => rfl
  | cons g gs ih => rw [closingDown, ih, codes_beingClosed]

@[simp] theorem thread_closingDown : (w.closingDown it gs).thread = w.thread := by
  induction gs generalizing w with
  | nil => rfl
  | cons g gs ih => rw [closingDown, ih, thread_beingClosed]

theorem generator_closingDown (hj : j ∈ gs ∨ (w.generator j).running = true) :
    (w.closingDown it gs).generator j = { w.generator j with running := true } := by
  induction gs generalizing w with
  | nil =>
      have hrunning := hj.resolve_left List.not_mem_nil
      rw [closingDown, ← hrunning]
  | cons g gs ih =>
      rw [closingDown, ih ?_, running_beingClosed]
      rw [generator_beingClosed]
      by_cases heq : g = j
      · exact .inr (by rw [if_pos heq])
      · rw [if_neg heq]
        exact hj.imp_left fun hmem => (List.mem_cons.1 hmem).resolve_left (Ne.symm heq)

/-- The last of the generators delegates to the iterator. -/
theorem HangsOn.last (h : w.HangsOn it (g :: gs)) :
    ∃ j ∈ g :: gs, ∃ r f p, w.DelegatingAt j r f p (.iterator it) := by
  induction gs generalizing g with
  | nil =>
      cases h with
      | link h hrest => exact ⟨g, List.mem_cons_self, _, _, _, h⟩
  | cons i gs ih =>
      cases h with
      | link h hrest =>
          obtain ⟨j, hj, hlast⟩ := ih hrest
          exact ⟨j, List.mem_cons_of_mem g hj, hlast⟩

end World

section Linked

variable {Y : Zone} {G H : Bag} {t' : World}

/-- In such a zone an object has as many owners in either world. -/
theorem Zone.Linked.owners_eq (h : Y.Linked G t t') (hY : Zone.Level .trivial Y) (o : Object) :
    t'.owners o = t.owners o := by
  have := h.alike.owners o (hY.hidden o)
  rw [hY.holders] at this
  omega

variable (hY : Y.Fit (Zone.Waiting gs)) (h : Y.Linked H (w.closingDown it gs) (w.closingDown it gs))
  (ht : Y.Linked G t t') (hle : H ≤ G)

include hY h ht hle

/-- While the iterator is closed the generators wait. -/
theorem Zone.Linked.waits
    (hframes : ∀ j ∈ gs, ∀ r, (w.generator j).frame = some r → 1 ≤ H (.frame r) + Y.left (.frame r)) :
    w.Waits gs t' := by
  have hsame : ∀ j ∈ gs, (w.closingDown it gs).Untouched j t := fun j hj =>
    h.untouched ht hY.valid (by rw [World.generator_closingDown (.inl hj)])
  have hgenerator : ∀ j ∈ gs, t.generator j = { w.generator j with running := true } := fun j hj => by
    rw [(hsame j hj).generator, World.generator_closingDown (.inl hj)]
  refine ⟨fun j hj => (ht.alike.generator j (hY.property.level.hidden _)).trans (hgenerator j hj),
    fun j hj r hr => ⟨?_, ?_⟩⟩
  · rw [ht.alike.frame r (hY.property.level.hidden _), (hsame j hj).frame r
      (by rw [World.generator_closingDown (.inl hj), hr]), World.frame_closingDown]
  · have hslot : (t.generator j).frame = some r := by rw [hgenerator j hj, hr]
    have hreferred := Bag.apply_le
      (World.holds_generator_le (w := t) (hY.property.level.hidden (.generator j))) (.frame r)
    have hone : 1 ≤ holds (t.generator j) (.frame r) := by
      rw [holds_generatorObject, hslot]
      simp [Bag.of_singleton_self]
    have howned := ht.accounted.owned (.frame r)
      (ht.frame_not_sealed (hY.property.level.hidden _) hslot)
    have := Bag.apply_le hle (.frame r)
    have := hframes j hj r hr
    rw [ht.owners_eq hY.property.level]
    omega

/-- The iterator is held by the generator that delegates to it, and by the call that closes it. -/
theorem Zone.Linked.owned_iterator (hj : j ∈ gs) (hlast : w.DelegatingAt j r f p (.iterator it))
    (hreach : Y.Reaches H (.iterator it)) : 2 ≤ t'.owners (.iterator it) := by
  have hsame := h.untouched ht hY.valid (g := j) (by rw [World.generator_closingDown (.inl hj)])
  have hf : t.frame? r = some f := by
    rw [hsame.frame r (by rw [World.generator_closingDown (.inl hj), hlast.slot]),
      World.frame_closingDown, hlast.frame]
  have hreferred := Bag.apply_le
    (World.holds_frame_le (w := t) (hY.property.level.hidden (.frame r))) (.iterator it)
  have hone : 1 ≤ holds (t.frame? r) (.iterator it) := by
    rw [hf, holds_some, holds_frame]
    simp only [hlast.delegate, holds_some, holds_iterator, Pi.add_apply, Bag.of_singleton_self]
    omega
  have howned := ht.accounted.owned (.iterator it) hreach.1
  have := Bag.apply_le hle (.iterator it)
  have := hreach.2
  rw [ht.owners_eq hY.property.level]
  omega

end Linked

/-- If the iterator fails to close, the generators give their delegations up, and the exception is
raised. -/
theorem World.HangsOn.givesUp (hchain : w.HangsOn it (g :: gs))
    (hsettled : ∀ j ∈ g :: gs, w.Settled j) (hZ : Z.Fit (Zone.Level .trivial))
    (hheld : Z.Held F g) (hw : Z.Linked F w w)
    (hclose : World.withIterator it (Iterator.close? (Machine.engine m)) (w.closingDown it (g :: gs)) =
      .ok (some (.error y)) t)
    (hkind : y.kind ≠ .attributeError) (hends : ¬ y.EndsClosing)
    (hshared : ∀ j ∈ gs, 3 ≤ t.owners (.generator j)) {e : Nat → Engine} (he : Closes e)
    (hserves : ∀ k, m ≤ k → Serves (Zone.Waiting (g :: gs)) (Machine.engine m) (e k)) (hk : m < k) :
    ∃ t' u, w.GivenUp (g :: gs) t' u ∧ t'.thread = w.thread ∧ t'.codes = w.codes ∧
      (e (k + gs.length)).answerClose g w = .error (.raised y) u ∧
        (e (k + gs.length)).answerThrow g .generatorExit w = .error (.raised y) u := by
  obtain ⟨Y, H, -, -, hY, hreach, hdown, hframes⟩ := hchain.linked hZ hheld hw
  have hraised := closeIter_of_raised hclose hkind
  have hends' := closeIter_ends (hserves k hk.le) hY hreach hdown
  rw [hraised] at hends'
  obtain ⟨t', hraised', ht⟩ := hends'.of_raised
  have hlevel := hY.property.level
  obtain ⟨j, hj, r, f, p, hlast⟩ := hchain.last
  obtain ⟨s, hs⟩ := closed_scripted hclose
  have hapart : w.Apart := fun i j r => hw.accounted.slots i j r (hZ.property.hidden _) (hZ.property.hidden _)
  obtain ⟨u, hgiven, hfails⟩ := hchain.fails he hends hsettled hapart
    (hdown.waits hY ht le_add_self hframes)
    (fun j hj => by rw [ht.owners_eq hlevel]; exact hshared j hj)
    (hdown.owned_iterator hY ht le_add_self hj hlast hreach)
    ⟨s, (ht.alike.iterator it (hlevel.hidden _)).trans hs⟩
  refine ⟨t', u, hgiven, ?_, ?_, hfails k (by omega) hraised'⟩
  · rw [ht.alike.thread, ← hlevel.thread, ← hdown.pinned.thread, World.thread_closingDown]
  · have hsame : ∀ {s s' : World}, s'.surroundings = s.surroundings → s'.codes = s.codes :=
      fun h => congrArg World.Surroundings.codes h
    rw [hsame ht.alike.surroundings, ht.pinned.codes, ← hdown.pinned.codes, World.codes_closingDown]

/-! ## How the generators go on -/

/-- Runs a program from an activation, with the frame of the generator out of its cell. -/
def Engine.carryOn (e : Engine) (p : Code.Program) (g : GeneratorRef) (r : FrameRef) (closure : Value)
    (a : Activation) : Run World Suspension :=
  World.whileRunning g (World.withFrame r fun s =>
    Code.Program.settle e (Exec.run e p closure e.fuel (a, s.2)))

namespace World

/-- A generator has given its delegation up.  It is suspended, with the same locals, stack and blocks.
Unless something waits to be raised there, the next resume goes on after the delegating instruction, with
`none` for the value of the delegation. -/
structure GaveUp (w : World) (g : GeneratorRef) (r : FrameRef) (f : Frame) (p : Code.Program)
    (u : World) : Prop where
  generator : u.generator g = w.generator g
  state : u.stateOf g = .suspended
  delegate : u.delegateOf g = none
  frame : ∃ b, u.frame? r = some b ∧ b.position = f.position + 1 ∧ b.locals = f.locals ∧
    b.stack = f.stack ∧ b.blocks = f.blocks
  next : u.thread.depth < u.thread.limit → ∀ n, (Machine.engine (n + 1)).next g u =
    (Machine.engine n).owning (.frame r) ((Machine.engine n).proceed g r .none) (u.entered r)
  goesOn : f.pending = none → ∀ e : Engine, e.resumeFrame g r .none (u.entered r) =
    (Run.attempt (e.carryOn p g r (w.generator g).closure
      (Code.Program.goingOn f .none (f.input.getD .none))) >>= e.settleBody g r) (u.entered r)

theorem HangsOn.delegatingAt (h : w.HangsOn it gs) (hj : j ∈ gs) :
    ∃ r f p inner, w.DelegatingAt j r f p inner := by
  obtain ⟨rest, hj, -⟩ := h.shorter hj
  cases hj with
  | link h _ => exact ⟨_, _, _, _, h⟩

section Frame

variable (h : w.DelegatingAt g r f p inner)

include h

theorem DelegatingAt.unfinished : (f.finishDelegation .none).isFinished = false := by
  have := h.started
  simp only [Frame.isFinished, Frame.finishDelegation, Frame.stepOn, Frame.finished, beq_eq_false_iff_ne]
  omega

/-- The body of such a frame is run from the instruction after the delegation. -/
theorem DelegatingAt.runBody_eq {b : World} (hgenerator : b.generator g = w.generator g)
    (hcodes : b.codes = w.codes) (hf : b.frame? r = some (f.finishDelegation .none)) :
    e.runBody g r none b =
      e.carryOn p g r (w.generator g).closure (Code.Program.goingOn f .none (f.input.getD .none)) b := by
  have hbody : (b.code (b.generator g).code).resume e (b.generator g).closure none =
      p.resume e (w.generator g).closure none := by
    rw [hgenerator, World.code, hcodes]
    exact CodeObject.resume_of_program h.body
  unfold Engine.runBody Engine.carryOn
  rw [Run.bind_apply]
  simp only [Run.get_apply, hbody]
  refine Run.ensuring_congr ?_
  have hgo : p.resume e (w.generator g).closure none
      (f.finishDelegation .none, (b.setRunning g true).setFrame r none) =
        Code.Program.settle e (Exec.run e p (w.generator g).closure e.fuel
          (Code.Program.goingOn f .none (f.input.getD .none), (b.setRunning g true).setFrame r none)) :=
    Code.Program.resume_afterDelegation h.started h.instruction .none f.input _
  unfold World.withFrame
  rw [frame_setRunning, hf]
  simp only [Run.withPrivate, hgo]

/-- So is the body when the generator is resumed. -/
theorem DelegatingAt.resumeFrame_eq {b : World} (hgenerator : b.generator g = w.generator g)
    (hcodes : b.codes = w.codes) (hf : b.frame? r = some (f.finishDelegation .none))
    (hpending : f.pending = none) :
    e.resumeFrame g r .none b = (Run.attempt (e.carryOn p g r (w.generator g).closure
      (Code.Program.goingOn f .none (f.input.getD .none))) >>= e.settleBody g r) b := by
  have hempty : (f.finishDelegation .none).pending = none := hpending
  have hsame : (b.setFrame r none).setFrame r (some { f.finishDelegation .none with pending := none }) = b := by
    rw [setFrame_setFrame, ← hempty]
    exact setFrame_self hf
  have hstarted : e.startBody g r .none b = Run.attempt (e.carryOn p g r (w.generator g).closure
      (Code.Program.goingOn f .none (f.input.getD .none))) b := by
    unfold Engine.startBody
    rw [takePending_bind hf, hsame, hempty]
    exact (Run.bind_ok rfl).trans (Run.attempt_congr (h.runBody_eq hgenerator hcodes hf))
  rw [resumeFrame_of_unfinished hf h.unfinished, Run.bind_apply, hstarted, Run.bind_apply]

/-- A generator whose frame has given its delegation up. -/
theorem DelegatingAt.gaveUp (hgenerator : u.generator g = w.generator g) (hcodes : u.codes = w.codes)
    (hf : u.frame? r = some (f.finishDelegation .none)) : w.GaveUp g r f p u := by
  have hslot : (u.generator g).frame = some r := by rw [hgenerator, h.slot]
  have hidle : (u.generator g).running = false := by rw [hgenerator, h.idle]
  have hstarted : (f.finishDelegation .none).isStarted = true := by
    have := h.started
    simp only [Frame.isStarted, Frame.finishDelegation, Frame.stepOn, Frame.notStarted, bne_iff_ne]
    omega
  refine ⟨hgenerator, ?_, ?_, ⟨_, hf, rfl, rfl, rfl, rfl⟩, fun hroom n => ?_, fun hpending e => ?_⟩
  · simp [stateOf, hidle, hslot, hf, h.unfinished, Frame.delegate_finishDelegation, hstarted]
  · simp [delegateOf, hslot, hf, Frame.delegate_finishDelegation]
  · exact resume_of_room hidle hslot hroom
  · exact h.resumeFrame_eq ((generator_entered ..).trans hgenerator)
      ((codes_addOwners u _).trans hcodes) ((frame_entered ..).trans hf) hpending

end Frame

end World

namespace Session

/-- A delegation that fails to close is given up at every level.

Generators delegate each to the next one, and the last of them to an iterator; no frame of theirs keeps
an object as the result of an earlier delegation.  The first of them is closed, or the request to finish is
thrown into it, in whatever session and by whatever code.  The iterator raises an exception when it is
closed, which is neither an `AttributeError` nor an end, and by then each of the other generators has an
owner besides the one that delegates to it and the call that closes it.

Then the call raises this exception, and none of the generators is resumed meanwhile.  Each of them has
given up its delegation, and the thread is as before. -/
theorem failed_close_gives_up
    (h : Amid (.asked (.close g)) w ∨ Amid (.asked (.throw g .generatorExit)) w)
    (hchain : w.HangsOn it (g :: gs)) (hsettled : ∀ j ∈ g :: gs, w.Settled j)
    (hclose : World.withIterator it (Iterator.close? (Machine.engine m)) (w.closingDown it (g :: gs)) =
      .ok (some (.error y)) t)
    (hkind : y.kind ≠ .attributeError) (hends : ¬ y.EndsClosing)
    (hshared : ∀ j ∈ gs, 3 ≤ t.owners (.generator j))
    {request : Request} (hrequest : request = .close g ∨ request = .throw g .generatorExit)
    {k : Nat} (hk : m + gs.length + 1 < k) :
    ∃ u, Machine.perform k request w = .error (.raised y) u ∧
      (∃ s, Machine.observed (Machine.withholding (g :: gs)) k request w = .error (.raised y) s) ∧
      u.thread = w.thread ∧
      ∀ j ∈ g :: gs, ∃ r f p inner, w.DelegatingAt j r f p inner ∧ w.GaveUp j r f p u := by
  obtain ⟨Z, F, hZ, hheld, hlinked⟩ : ∃ (Z : Zone) (F : Bag), Z.Fit (Zone.Level .trivial) ∧ Z.Held F g ∧
      Z.Linked F w w := by
    rcases h with h | h
    · obtain ⟨Z, F, w', hZ, hgranted, hlinked⟩ := h.moment
      exact ⟨Z, F, hZ, hgranted, (hlinked.self hZ.property).le le_add_self⟩
    · obtain ⟨Z, F, w', hZ, hgranted, hlinked⟩ := h.moment
      exact ⟨Z, F, hZ, hgranted, (hlinked.self hZ.property).le le_add_self⟩
  obtain ⟨l, rfl⟩ : ∃ l, k = l + gs.length + 1 := ⟨k - gs.length - 1, by omega⟩
  have hl : m < l := by omega
  have hserves : ∀ k, m ≤ k → Serves (Zone.Waiting (g :: gs)) (Machine.engine m) (Machine.engine k) :=
    fun k hk => Machine.machine_serves (fun Z hZ => by rw [hZ.level.law]; infer_instance) hk
  obtain ⟨t', u, hgiven, hthread, hcodes, hclosed, hthrown⟩ := hchain.givesUp hsettled hZ hheld hlinked
    hclose hkind hends hshared closes_engine hserves hl
  obtain ⟨_, s, _, _, _, hclosed', hthrown'⟩ := hchain.givesUp hsettled hZ hheld hlinked
    hclose hkind hends hshared (closes_withholding (g :: gs)) (fun k hk => Machine.withholding_serves hk) hl
  refine ⟨u, ?_, ⟨s, ?_⟩, hgiven.thread.trans hthread, fun j hj => ?_⟩
  · rcases hrequest with rfl | rfl
    · exact hclosed
    · exact hthrown
  · rcases hrequest with rfl | rfl
    · exact (Machine.observed_withholding rfl).trans hclosed'
    · exact (Machine.observed_withholding rfl).trans hthrown'
  · obtain ⟨r, f, p, inner, hat⟩ := hchain.delegatingAt hj
    exact ⟨r, f, p, inner, hat, hat.gaveUp (hgiven.generator j hj) (hgiven.codes.trans hcodes)
      (hgiven.given j hj r f hat.slot hat.frame)⟩

/-! ### Iterators that fail to close -/

/-- An iterator that gives two items, and cannot be closed. -/
def unclosable : Expr :=
  .scripted "probe" [.give (.value (.int 1)), .give (.value (.int 2))]
    (some (.raise (.exceptionType .valueError))) false

/-- How it ends that the last of two generators closes its iterator. -/
def closingIn (w : World) (g i : GeneratorRef) : EStateM.Result Interruption World
    (Option (Except Exception Value)) :=
  World.withIterator ⟨0⟩ (Iterator.close? (Machine.engine 10)) (w.closingDown ⟨0⟩ [g, i])

/-- What makes a generator that delegates to another one, which delegates to that iterator. -/
def unclosableCommands : List Command :=
  [.bind "i" unclosable, .assemble "p" delegatingOnce, .makeGenerator "g1" "p" [.variable "i"] .none,
    .makeGenerator "g0" "p" [.variable "g1"] .none, .drive "g0" .next none]

/-- The moment when the generator is to be closed. -/
def unclosableWorld : World := brokenOffAt (closingRun unclosableCommands "g0" ⟨1⟩)

/-- Both generators give their delegations up. -/
theorem failed_close_gives_up_unclosable :
    ∃ u, Machine.perform 60 (.close ⟨1⟩) unclosableWorld = .error (.raised (.new .valueError [])) u ∧
      u.stateOf ⟨1⟩ = .suspended ∧ u.stateOf ⟨0⟩ = .suspended := by
  have hamid : Amid (.asked (.close ⟨1⟩)) unclosableWorld :=
    closingRun_amid (by decide +kernel) (by decide +kernel) (by decide +kernel)
  obtain ⟨t, ht⟩ := Run.eq_ok_of_endingOf (a := some (.error (.new .valueError [])))
    (x := closingIn unclosableWorld ⟨1⟩ ⟨0⟩) (by decide +kernel)
  have hshared : 3 ≤ (Run.stateOf (closingIn unclosableWorld ⟨1⟩ ⟨0⟩)).owners (.generator ⟨0⟩) := by
    decide +kernel
  rw [ht] at hshared
  obtain ⟨u, hraised, -, -, hafter⟩ := failed_close_gives_up (m := 10) (k := 60) (.inl hamid)
    (by decide +kernel) (by decide +kernel) ht (by decide) (by decide)
    (fun j hj => by
      obtain rfl := List.mem_singleton.1 hj
      exact hshared)
    (.inl rfl) (by decide)
  obtain ⟨_, _, _, _, _, hone⟩ := hafter ⟨1⟩ (by decide)
  obtain ⟨_, _, _, _, _, hzero⟩ := hafter ⟨0⟩ (by decide)
  exact ⟨u, hraised, hone.state, hzero.state⟩

/-! ### What happens without other owners -/

/-- A body that delegates to its argument, and makes a note if an exception is raised there. -/
def notingExceptions : Code.Source :=
  ⟨"noting", ["it", "seen"], "<bytecode>", 1,
    [.setupExcept 0, .loadFast "it", .emit .yieldFrom, .emit .returnValue,
      .bind 0, .loadFast "seen", .loadConst (.int 1), .emit .listAppend, .loadConst .none,
      .emit .returnValue]⟩

/-- A body that delegates to its argument, and lets go of it. -/
def delegatingAway : Code.Source :=
  ⟨"outer", ["it"], "<bytecode>", 0,
    [.loadFast "it", .loadConst .none, .storeFast "it", .emit .yieldFrom, .emit .returnValue]⟩

/-- Nobody has the inner generator but the one that delegates to it. -/
def unsharedCommands : List Command :=
  [.bind "i" unclosable, .bind "seen" (.list []), .assemble "p1" notingExceptions,
    .assemble "p0" delegatingAway, .makeGenerator "g1" "p1" [.variable "i", .variable "seen"] .none,
    .makeGenerator "g0" "p0" [.variable "g1"] .none, .unbind "g1", .drive "g0" .next none]

/-- A body that delegates to its first argument, and to its second one if an exception is raised. -/
def delegatingAgain : Code.Source :=
  ⟨"outer", ["a", "b"], "<bytecode>", 1,
    [.setupExcept 0, .loadFast "a", .emit .yieldFrom, .emit .returnValue,
      .bind 0, .loadFast "b", .emit .yieldFrom, .emit .returnValue]⟩

/-- An iterator that ends with the value of a variable. -/
def endingWith (name : String) : Expr :=
  .scripted "ending" [.give (.raise (.exception .stopIteration [.variable name] none []))] none false

/-- A delegate ends with a generator that delegates to `g1`, but there is no level left to go on.  So this
generator stays behind in the frame, in which the next delegation is to `g1`. -/
def unsettledCommands : List Command :=
  [.bind "i" unclosable, .bind "seen" (.list []), .assemble "p1" notingExceptions,
    .assemble "pk" delegatingOnce, .assemble "p0" delegatingAgain,
    .makeGenerator "g1" "p1" [.variable "i", .variable "seen"] .none,
    .makeGenerator "k" "pk" [.variable "g1"] .none, .drive "k" .next none, .bind "a" (endingWith "k"),
    .makeGenerator "g0" "p0" [.variable "a", .variable "g1"] .none, .enter, .enter, .enter, .enter,
    .drive "g0" .next none, .unbind "k", .leave, .leave, .leave, .leave,
    .drive "g0" (.throw (.exceptionType .valueError) none none) none]

/-- A generator that delegates to another one is to be closed, and the iterator that this one delegates to
fails to close.  The exception is raised, but an exception is noted in a body. -/
structure NotedFailure (w : World) (g i : GeneratorRef) : Prop where
  amid : Amid (.asked (.close g)) w
  chain : w.HangsOn ⟨0⟩ [g, i]
  fails : Run.endingOf (closingIn w g i) = some (.result (some (.error (.new .valueError []))))
  raises : Run.endingOf (Machine.perform 60 (.close g) w) = some (.raised (.new .valueError []))
  before : w.items ⟨0⟩ = []
  noted : (Run.stateOf (Machine.perform 60 (.close g) w)).items ⟨0⟩ = [.int 1]
  finished : (Run.stateOf (Machine.perform 60 (.close g) w)).stateOf i = .finished

/-- An exception waits to be raised in the frame of the first generator. -/
def unclosableLater : World :=
  brokenOffAt (closingRun
    (unclosableCommands ++ [.editFrame (.variable "g0") (.pending (.exceptionType .keyError))]) "g0" ⟨1⟩)

/-- If the inner generator has no other owner, or an object is left of an earlier delegation, a body is run
meanwhile.  And an exception that waits in a frame is raised by the next resume. -/
theorem failed_close_disturbed :
    NotedFailure (brokenOffAt (closingRun unsharedCommands "g0" ⟨1⟩)) ⟨1⟩ ⟨0⟩ ∧
      NotedFailure (brokenOffAt (closingRun unsettledCommands "g0" ⟨2⟩)) ⟨2⟩ ⟨0⟩ ∧
      Amid (.asked (.close ⟨1⟩)) unclosableLater ∧ unclosableLater.HangsOn ⟨0⟩ [⟨1⟩, ⟨0⟩] ∧
      Run.endingOf (Machine.perform 60 (.close ⟨1⟩) unclosableLater) =
        some (.raised (.new .valueError [])) ∧
      ((Run.endingOf ((Machine.engine 60).next ⟨1⟩
        (Run.stateOf (Machine.perform 60 (.close ⟨1⟩) unclosableLater)))).any fun
          | .raised x => x.kind = .keyError
          | _ => false) = true := by
  refine ⟨?_, ?_, closingRun_amid (by decide +kernel) (by decide +kernel) (by decide +kernel),
    by decide +kernel, by decide +kernel, by decide +kernel⟩
  · exact
      { amid := closingRun_amid (by decide +kernel) (by decide +kernel) (by decide +kernel)
        chain := by decide +kernel
        fails := by decide +kernel
        raises := by decide +kernel
        before := by decide +kernel
        noted := by decide +kernel
        finished := by decide +kernel }
  · exact
      { amid := closingRun_amid (by decide +kernel) (by decide +kernel) (by decide +kernel)
        chain := by decide +kernel
        fails := by decide +kernel
        raises := by decide +kernel
        before := by decide +kernel
        noted := by decide +kernel
        finished := by decide +kernel }

end Session

end Resumable
