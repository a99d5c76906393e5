import Resumable.Proofs.Outcomes
import Resumable.Proofs.Performance

set_option autoImplicit false

/-!
# Resuming a generator in linked worlds

While the body of a generator runs, the generator is marked as running and its frame is out of its
cell.  Both are part of the zone that the body runs in, so whatever the body leads to leaves them as
they are, and the generator is found unchanged when the body is suspended.
-/

namespace Resumable

variable {C : Zone → Prop} {Z : Zone} {F G : Bag} {e e' : Engine} {w w' : World}
  {g : GeneratorRef} {r : FrameRef} {v : Value}

namespace Zone

/-- The cell of a frame that is at rest may change. -/
theorem Linked.loose (h : Z.Linked F w w') (hloose : ∀ f, Z.cells r ≠ some (some f)) {f : Frame}
    (hf : w.frame? r = some f) :
    Z.cells r = none := by
  cases hc : Z.cells r with
  | none => rfl
  | some c =>
      have := h.pinned.cells r c hc
      rw [hf] at this
      rw [← this] at hc
      exact absurd hc (hloose f)

/-- The frame of a generator is in its cell unless it is in use. -/
theorem Linked.present (h : Z.Linked F w w') (hZ : Z.Valid) (hg : ¬ Z.hidden (.generator g))
    (hslot : (w.generator g).frame = some r) (hcell : Z.cells r = none) : w.frame? r ≠ none := by
  intro hvacant
  have hsealed := h.frame_not_sealed hg hslot
  have howned := h.accounted.owned (.frame r) hsealed
  have hone : 1 ≤ w.references Z.hidden (.frame r) := by
    refine le_trans ?_ (Bag.apply_le (World.holds_generator_le (w := w) hg) (.frame r))
    rw [holds_generatorObject, hslot]
    simp [Bag.of_singleton_self]
  have hseated := h.accounted.seated (.frame r) (fun hh => hsealed (hZ.sealed_of_hidden _ hh))
    (by omega) hvacant
  rw [hcell] at hseated
  cases hseated

/-- Giving a level back. -/
theorem Linked.leave {t t' : World} (h : Z.deeper.Linked F t t') :
    Z.Linked F { t with thread := t.thread.leave } { t' with thread := t'.thread.leave } := by
  have hleft : t.thread.leave = Z.leftThread := by
    rw [h.pinned.thread]
    rfl
  have hright : t'.thread.leave = Z.rightThread := by
    rw [h.alike.thread]
    rfl
  rw [hleft, hright]
  exact h.setThread Z.leftThread Z.rightThread

end Zone

/-! ## Letting go of the frame -/

/-- What is left to do for a generator that has let go of its frame. -/
def Engine.letGo (e : Engine) (r : FrameRef) : Run World Unit :=
  e.owning (.frame r) do
    if ((← get).frame? r).isSome then
      World.withFrame r do
        modify fun (f, w) => (f.markFinished, w)
        e.replace Frame.removeDelegate

/-- The world in which a generator has no frame any more. -/
def World.frameless (w : World) (g : GeneratorRef) : World :=
  w.setGenerator g { w.generator g with frame := none }

theorem terminate_of_frameless (hslot : (w.generator g).frame = none) :
    e.terminate g w = .ok () w := by
  simp only [Engine.terminate, Run.bind_apply, Run.get_apply, hslot]
  rfl

theorem terminate_of_frame (hslot : (w.generator g).frame = some r) :
    e.terminate g w = e.letGo r (w.frameless g) := by
  simp only [Engine.terminate, Run.bind_apply, Run.get_apply, hslot]
  rfl

/-- The frame that a generator lets go of is held by the computation. -/
theorem frameless_linked (hg : ¬ Z.hidden (.generator g)) (hfree : Z.fixed g = none)
    (hslot : (w.generator g).frame = some r) (h : Z.Linked F w w') :
    Z.Linked (holds (Value.frame r) + F) (w.frameless g) (w'.frameless g) := by
  have hset := h.setGenerator hg hfree (x := { w.generator g with frame := none })
    (G := holds (Value.frame r) + F) rfl rfl (le_of_eq (by
      rw [holds_generatorObject, holds_generatorObject, hslot, holds_frameRef]
      simp only [Option.map_none, Option.toList_none, Bag.of_nil, Option.map_some,
        Option.toList_some]
      abel))
  unfold World.frameless
  rw [h.alike.generator g hg]
  exact hset

theorem letGo_ends (hs : Serves C e e') (hZ : Z.Fit C)
    (hopen : Z.Open (holds (Value.frame r) + F) r) (h : Z.Linked (holds (Value.frame r) + F) w w') :
    Ends Z.bond F holds (e.letGo r w) (e'.letGo r w') := by
  refine owning_ends hs hZ ?_
  show Ends Z.bond (holds (Value.frame r) + F) holds
    ((if (w.frame? r).isSome = true then _ else _ : Run World Unit) _)
    ((if (w'.frame? r).isSome = true then _ else _ : Run World Unit) _)
  rw [h.alike.frame r (hopen.visible hZ.valid)]
  split
  · refine withFrame_ends (hopen.visible hZ.valid) hopen.loose (hopen.breaks hZ.valid h le_rfl)
      Zone.Busy.breaks (fun _ f _ hf => ?_) h le_rfl fun f hcell _ hf => ?_
    · have hmarked : f.markFinished.Tame := ⟨(Frame.movable_markFinished f).placed, hf.input⟩
      exact fun u => replace_leaves hmarked.removeDelegate u
    · have hremoved := replace_quiet hs (hZ.pin_none hcell) (c := Frame.removeDelegate)
        (f := f.markFinished) (G := 0) (by rw [holds_removeDelegate, zero_add])
        (by rw [zero_add]; exact hf)
      exact hremoved
  · exact .ok (h.le (by rw [holds_unit, zero_add]))

theorem terminate_ends (hs : Serves C e e') (hZ : Z.Fit C) (hg : ¬ Z.hidden (.generator g))
    (hfree : Z.fixed g = none) (h : Z.Linked F w w') :
    Ends Z.bond F holds (e.terminate g w) (e'.terminate g w') := by
  cases hslot : (w.generator g).frame with
  | none =>
      rw [terminate_of_frameless hslot,
        terminate_of_frameless (by rw [h.alike.generator g hg, hslot])]
      exact .ok (h.le (by rw [holds_unit, zero_add]))
  | some r =>
      rw [terminate_of_frame hslot,
        terminate_of_frame (r := r) (by rw [h.alike.generator g hg, hslot])]
      refine letGo_ends hs hZ (h.opened hZ.valid hg (Or.inl hfree) (h.idle hfree) hslot ?_)
        (frameless_linked hg hfree hslot h)
      rw [Pi.add_apply, holds_frameRef, Bag.of_singleton_self]
      omega

/-! ## Running the body -/

/-- Runs the body of a generator on what a change makes of the frame. -/
def Engine.runBodyOn (e : Engine) (g : GeneratorRef) (r : FrameRef) (pending : Option Exception)
    (change : Frame → Frame) : Run World Suspension := do
  let w ← get
  let generator := w.generator g
  World.whileRunning g (World.withFrame r fun s =>
    (w.code generator.code).resume e generator.closure pending (change s.1, s.2))

/-- It makes no difference whether the frame is changed before or after it is taken. -/
theorem runBody_setFrame {f : Frame} {change : Frame → Frame} {pending : Option Exception}
    (hf : w.frame? r = some f) :
    e.runBody g r pending (w.setFrame r (some (change f))) = e.runBodyOn g r pending change w := by
  have hset : ((w.setRunning g true).setFrame r (some (change f))).frame? r = some (change f) := by
    rw [World.frame_setFrame, if_pos rfl]
  show (World.withFrame r _).ensuring _ ((w.setRunning g true).setFrame r (some (change f)))
    = (World.withFrame r _).ensuring _ (w.setRunning g true)
  refine Run.ensuring_congr ?_
  unfold World.withFrame
  rw [hset, show (w.setRunning g true).frame? r = some f from hf]
  simp only [World.setFrame_setFrame]
  rfl

section Body

variable {D : Zone → Prop} {pending : Option Exception} {change : Frame → Frame}

/-- Running the body of a generator leaves the generator as it is.  The engines need to serve only in
zones in which the generator does not change. -/
theorem runBodyOn_keeps (hs : Serves C e e') (hZ : Z.Fit D)
    (hsort : ∀ {Y : Zone}, Y.Fit D → (Y.fixed g).isSome = true → Y.Fit C)
    {K : Bag} (hchange : ∀ f, holds (change f) ≤ K + holds f)
    (hready : Z.law.tame → ∀ f, w.frame? r = some f → f.Tame →
      (change f).Ready ∧ holds (change f).input ≤ Z.left)
    (hheld : Z.Held F g) (hfree : Z.fixed g = none)
    (hcell : Z.cells r = none) (hslot : (w.generator g).frame = some r)
    (h : Z.Linked (K + (holds pending + F)) w w') :
    Ends (Z.bondAt g (w.generator g)) F holds (e.runBodyOn g r pending change w)
      (e'.runBodyOn g r pending change w') := by
  show Ends (Z.bondAt g (w.generator g)) F holds
    (World.whileRunning g (World.withFrame r fun s =>
      (w.code (w.generator g).code).resume e (w.generator g).closure pending (change s.1, s.2)) w)
    (World.whileRunning g (World.withFrame r fun s =>
      (w'.code (w'.generator g).code).resume e' (w'.generator g).closure pending (change s.1, s.2)) w')
  rw [h.alike.generator g hheld.1, code_eq h]
  have hvisible : ¬ Z.hidden (.frame r) := fun hh =>
    h.frame_not_sealed hheld.1 hslot (hZ.valid.sealed_of_hidden _ hh)
  have hcode : Z.law.tame → (w.code (w.generator g).code).Tame := fun hlaw => (h.tame hlaw).codes _
  refine whileRunning_keeps hZ hheld hfree hcell hslot (A := K + holds pending)
    (h.le (add_assoc _ _ _).le) fun B H x _ hx hfit ht => ?_
  let Y : Zone := ((Z.lend B).fix g x).pin r none
  have hclosure : Y.Secures (holds (w.generator g).closure) := fun {K u u'} hu => by
    refine hu.covered_of_references (le_trans ?_ (World.holds_generator_le (g := g) hheld.1))
    rw [hu.pinned.fixed g x (by simp [Y, Zone.fix, Zone.pin]), hx, holds_generatorObject]
    exact le_add_self
  have hbreaks : Y.Breaks → ((Z.lend B).fix g x).Breaks := fun hbreaks =>
    Zone.Breaks.unpin_running (x := x) hbreaks hheld.1 (by simp [Zone.fix]) (by rw [hx])
      (by rw [hx]; exact hslot)
  refine withFrame_ends (D := Y.Breaks) hvisible (fun f hf => ?_)
    (fun hvacant => absurd hvacant (h.present hZ.valid hheld.1 hslot hcell)) hbreaks
    (fun hlaw f hf htame => ?_) ht le_add_self fun f _ hf hu => ?_
  · have hf : Z.cells r = some (some f) := hf
    rw [hcell] at hf
    cases hf
  · have hready := hready hlaw f hf htame
    exact fun u => ((hcode hlaw).resume e _ pending hready.1 u).mono
      (fun _ _ hb => hb.1) (fun _ _ hb => hb) (fun _ hb => hb) fun _ hb => hb
  · have hfit := hfit none fun _ hnone => by cases hnone
    refine codeResume_ends hs (hsort hfit (by simp [Zone.fix, Zone.pin])) hcode hclosure
      (fun hlaw => ?_) (hu.le fun o => ?_)
    · exact le_trans (hready hlaw f hf ((h.tame hlaw).frames r f hf)).2 le_self_add
    · have := Bag.apply_le (hchange f) o
      simp only [Pi.add_apply] at this ⊢
      omega

theorem runBody_keeps (hs : Serves C e e') (hZ : Z.Fit D)
    (hsort : ∀ {Y : Zone}, Y.Fit D → (Y.fixed g).isSome = true → Y.Fit C)
    (hheld : Z.Held F g) (hfree : Z.fixed g = none) (hcell : Z.cells r = none)
    (hslot : (w.generator g).frame = some r) (h : Z.Linked (holds pending + F) w w') :
    Ends (Z.bondAt g (w.generator g)) F holds (e.runBody g r pending w)
      (e'.runBody g r pending w') :=
  have hsame : ∀ f : Frame, holds (id f) ≤ (0 : Bag) + holds f := fun _ => le_add_self
  runBodyOn_keeps hs hZ hsort hsame
    (fun _ f _ hf => ⟨hf.ready, by rw [id, hf.input]; exact zero_le⟩) hheld hfree hcell hslot
    (h.le (by rw [zero_add]))

theorem runBodyOn_ends (hs : Serves C e e') (hZ : Z.Fit C)
    {K : Bag} (hchange : ∀ f, holds (change f) ≤ K + holds f)
    (hready : Z.law.tame → ∀ f, w.frame? r = some f → f.Tame →
      (change f).Ready ∧ holds (change f).input ≤ Z.left)
    (hheld : Z.Held F g) (hfree : Z.fixed g = none) (hcell : Z.cells r = none)
    (hslot : (w.generator g).frame = some r) (h : Z.Linked (K + (holds pending + F)) w w') :
    Ends Z.bond F holds (e.runBodyOn g r pending change w) (e'.runBodyOn g r pending change w') :=
  (runBodyOn_keeps hs hZ (fun h _ => h) hchange hready hheld hfree hcell hslot h).imp (fun _ h => h)
    id fun _ _ _ h => h.1

theorem runBody_ends (hs : Serves C e e') (hZ : Z.Fit C) (hheld : Z.Held F g)
    (hfree : Z.fixed g = none) (hcell : Z.cells r = none)
    (hslot : (w.generator g).frame = some r) (h : Z.Linked (holds pending + F) w w') :
    Ends Z.bond F holds (e.runBody g r pending w) (e'.runBody g r pending w') :=
  (runBody_keeps hs hZ (fun h _ => h) hheld hfree hcell hslot h).imp (fun _ h => h)
    id fun _ _ _ h => h.1

/-- After a body has come to a result, another position follows the resume point. -/
theorem runBodyOn_next {a : Suspension} {t : World} {b : Frame} (hw : w.Tame)
    (hready : ∀ f, w.frame? r = some f → (change f).Ready)
    (hrun : e.runBodyOn g r pending change w = .ok a t) (hb : t.frame? r = some b) :
    b.hasNext = true := by
  obtain ⟨u, hinside, rfl⟩ := World.whileRunning_eq_ok.1 hrun
  obtain ⟨f, d, v, hf, hresumed, rfl⟩ := World.withFrame_eq_ok.1 hinside
  have hready := hready f hf
  have hleft := (hw.codes (w.generator g).code).resume e (w.generator g).closure pending hready
    ((w.setRunning g true).setFrame r none)
  unfold Run.Meets at hleft
  rw [hresumed] at hleft
  have hset : (((v.setFrame r (some d)).setRunning g false).frame? r) = some d := by
    simp [World.setRunning]
  obtain rfl : d = b := Option.some.inj (hset.symm.trans hb)
  exact hleft.2

end Body

/-! ## Going in and coming out -/

theorem takePending_vacant (h : w.frame? r = none) : Engine.takePending r w = World.abort w := by
  unfold Engine.takePending World.withFrame
  rw [h]

theorem takePending_present {f : Frame} (h : w.frame? r = some f) :
    Engine.takePending r w
      = .ok f.pending ((w.setFrame r none).setFrame r (some { f with pending := none })) := by
  unfold Engine.takePending World.withFrame
  rw [h]
  rfl

/-- A tame frame from which the pending exception is taken. -/
theorem Frame.Tame.takePending {f : Frame} (h : f.Tame) : ({ f with pending := none } : Frame).Tame :=
  ⟨⟨h.start, h.position, h.next⟩, h.input⟩

/-- Taking the pending exception out of a frame that is at rest. -/
theorem takePending_linked (h : Z.Linked F w w') (hr : ¬ Z.hidden (.frame r))
    (hcell : Z.cells r = none) {f : Frame} (hf : w.frame? r = some f) :
    Z.Linked (holds f.pending + F)
      ((w.setFrame r none).setFrame r (some { f with pending := none }))
      ((w'.setFrame r none).setFrame r (some { f with pending := none })) := by
  refine Zone.Linked.putFrame ((h.takeFrame hr hf).le fun o => ?_) hr hcell
    fun hlaw => ((h.tame hlaw).frames r f hf).takePending
  simp only [holds_frame, holds_none, Pi.add_apply, Pi.zero_apply]
  omega

@[simp] theorem generator_addOwners (w : World) (os : List Object) (i : GeneratorRef) :
    (w.addOwners os).generator i = w.generator i := by
  unfold World.addOwners
  induction os generalizing w with
  | nil => rfl
  | cons o os ih => rw [List.foldl_cons, ih, World.generator_setOwners]

@[simp] theorem frame_addOwners (w : World) (os : List Object) (s : FrameRef) :
    (w.addOwners os).frame? s = w.frame? s := by
  unfold World.addOwners
  induction os generalizing w with
  | nil => rfl
  | cons o os ih => rw [List.foldl_cons, ih, World.frame_setOwners]

/-- Work on a frame at rest may lead to other computations, but they leave the generator as it is, since
its frame is in use meanwhile. -/
theorem withFrame_keeps {α : Type} {f : Frame} {K : Bag} {q : α → Bag}
    {m m' : Run (Frame × World) α} (hZ : Z.Fit C) (hscript : ¬ Z.law.tame) (hheld : Z.Held F g)
    (hfree : Z.fixed g = none) (hcell : Z.cells r = none)
    (hslot : (w.generator g).frame = some r) (hf : w.frame? r = some f)
    (h : Z.Linked (K + F) w w')
    (hm : ∀ (Y : Zone) (H : Bag), Y.Fit C →
      Y.Linked (holds f + (K + H)) (w.setFrame r none) (w'.setFrame r none) →
        Ends (Y.quietWith Frame) H q (m (f, w.setFrame r none)) (m' (f, w'.setFrame r none))) :
    Ends (Z.bondAt g (w.generator g)) F q (World.withFrame r m w) (World.withFrame r m' w') := by
  obtain ⟨B, H, hsplit, hkept⟩ := hheld.split
  have hB : ∀ o, Z.sealed o → B o = 0 :=
    h.unsealed (by rw [← hsplit]; exact le_add_left le_self_add)
  have hidle := h.idle hfree
  have hvisible : ¬ Z.hidden (.frame r) := fun hh =>
    h.frame_not_sealed hheld.1 hslot (hZ.valid.sealed_of_hidden _ hh)
  have hf' : w'.frame? r = some f := (h.alike.frame r hvisible).trans hf
  have hlent : (Z.lend B).Linked (K + H) w w' :=
    Zone.Linked.lend (h.le (by rw [← hsplit]; exact (add_left_comm _ _ _).le))
  have htaken := (hlent.takeFrame hvisible hf).fix (g := g) hfree
  rw [World.generator_setFrame] at htaken
  have hfit := ((hZ.lend B).pin_none (r := r) hcell).fix_idle hkept hidle hslot
    (by simp [Zone.pin]) hfree
  unfold World.withFrame
  rw [hf, hf']
  refine Ends.withPrivate (hm _ H hfit htaken) (fun _ h => h)
    (fun _ => Zone.breaks_of_not_tame hscript) fun G b t t' _ ht => ⟨_, _, rfl, rfl, ?_, ?_⟩
  · have hput := (ht.unfix hfree hidle).putFrame hvisible hcell fun hlaw => absurd hlaw hscript
    refine (hput.unlend hB).le ?_
    rw [← hsplit]
    exact (add_left_comm _ _ _).le
  · rw [World.generator_setFrame]
    exact ht.pinned.fixed g _ (by simp [Zone.fix])

/-- Handing a value to a frame at rest leaves the generator as it is. -/
theorem handOver_ends (hs : Serves C e e') (hZ : Z.Fit C) (hscript : ¬ Z.law.tame) (hheld : Z.Held F g)
    (hfree : Z.fixed g = none) (hcell : Z.cells r = none)
    (hslot : (w.generator g).frame = some r) {f : Frame} (hf : w.frame? r = some f)
    (hv : holds v ≤ F) (h : Z.Linked F w w') :
    Ends (Z.bondAt g (w.generator g)) F holds (e.handOver r v w) (e'.handOver r v w') := by
  unfold Engine.handOver
  by_cases hnone : v.isNone = true
  · simp only [hnone, if_true]
    exact .ok ⟨h.le (by rw [holds_unit, zero_add]), rfl⟩
  · simp only [hnone]
    have hvisible : ¬ Z.hidden (.frame r) := fun hh =>
      h.frame_not_sealed hheld.1 hslot (hZ.valid.sealed_of_hidden _ hh)
    have hgenerator : (w.retain v).generator g = w.generator g := by simp [World.retain]
    have hf₁ : (w.retain v).frame? r = some f := by rw [World.retain, frame_addOwners, hf]
    have hf₂ : (w'.retain v).frame? r = some f := by
      rw [World.retain, frame_addOwners, h.alike.frame r hvisible, hf]
    have hput := withFrame_keeps hZ hscript hheld hfree hcell (by rw [hgenerator, hslot]) hf₁
      (h.retain hZ.valid (h.covered hv)) fun Y H hY ht =>
        replace_quiet hs hY (c := (·.replaceInput v)) (holds_replaceInput f v).le ht
    rw [hgenerator] at hput
    have hread : ∀ u : World, u.frame? r = some f → World.readFrame r u = .ok f u := by
      intro u hu
      unfold World.readFrame
      rw [hu]
    show Ends (Z.bondAt g (w.generator g)) F holds
      (((World.readFrame r).onInterruption (e.releaseAll [v]) >>= fun _ =>
        World.withFrame r (e.replace (·.replaceInput v))) (w.retain v))
      (((World.readFrame r).onInterruption (e'.releaseAll [v]) >>= fun _ =>
        World.withFrame r (e'.replace (·.replaceInput v))) (w'.retain v))
    rw [Run.bind_ok (Run.onInterruption_ok (hread _ hf₁)),
      Run.bind_ok (Run.onInterruption_ok (hread _ hf₂))]
    exact hput

/-- A frame in which nothing waits, once it is given a value. -/
def Frame.given (v : Value) (f : Frame) : Frame :=
  if v.isNone then f else { f with input := some v }

/-- A frame in which nothing waits is given a value and nothing else happens. -/
theorem handOver_of_empty {f : Frame} (hf : w.frame? r = some f) (hinput : f.input = none) :
    e.handOver r v w = .ok () ((w.retain v).setFrame r (some (f.given v))) := by
  unfold Engine.handOver Frame.given
  by_cases hnone : v.isNone = true
  · obtain rfl : v = .none := by
      cases v <;> simp [Value.isNone] at hnone
      rfl
    simp only [hnone, if_true]
    exact congrArg (EStateM.Result.ok ()) (World.setFrame_self hf).symm
  · simp only [hnone]
    have hretained : (w.retain v).frame? r = some f := by rw [World.retain, frame_addOwners, hf]
    show ((World.readFrame r).onInterruption (e.releaseAll [v]) >>= fun _ =>
        World.withFrame r (e.replace (·.replaceInput v))) (w.retain v) = _
    have hread : World.readFrame r (w.retain v) = .ok f (w.retain v) := by
      unfold World.readFrame
      rw [hretained]
    rw [Run.bind_ok (Run.onInterruption_ok hread)]
    refine World.withFrame_eq_ok.2
      ⟨f, { f with input := some v }, (w.retain v).setFrame r none, hretained, ?_, ?_⟩
    · exact Engine.replace_eq_ok.2 ⟨rfl, by rw [Frame.replaceInput, hinput]; rfl⟩
    · rw [World.setFrame_setFrame]
      simp

/-! ## Resuming -/

/-- Runs the body of a generator, with what is pending and what is sent, and tells how that ended. -/
def Engine.startBody (e : Engine) (g : GeneratorRef) (r : FrameRef) (input : Value) :
    Run World (Except Exception Suspension) := do
  let pending ← Engine.takePending r
  (e.handOver r input).onInterruption (e.releasePending pending)
  Run.attempt (e.runBody g r pending)

/-- Does what has to be done once the body has ended. -/
def Engine.settleBody (e : Engine) (g : GeneratorRef) (r : FrameRef) :
    Except Exception Suspension → Run World (Option Value)
  | .ok (.yielded v) => pure (some v)
  | .ok (.returned v) => do
      (e.terminate g).onInterruption (e.release v)
      Run.raise (.stopIterationWith v)
  | .ok (.delegateExhausted result) => do
      e.finishDelegation r result
      return none
  | .error exception => do
      (e.terminate g).onInterruption (e.releaseException exception)
      Run.raise exception

section Resume

variable {f : Frame}

theorem takePending_bind {α : Type} {m : Option Exception → Run World α} (hf : w.frame? r = some f) :
    (Engine.takePending r >>= m) w =
      m f.pending ((w.setFrame r none).setFrame r (some { f with pending := none })) := by
  rw [Run.bind_ok (takePending_present hf)]

/-- A frame that is not finished is resumed by running the body. -/
theorem resumeFrame_of_unfinished (hf : w.frame? r = some f) (hfinished : f.isFinished = false) :
    e.resumeFrame g r v w = (e.startBody g r v >>= e.settleBody g r) w := by
  unfold Engine.resumeFrame Engine.startBody
  rw [takePending_bind hf, bind_assoc, takePending_bind hf]
  have hlook : ((((w.setFrame r none).setFrame r (some { f with pending := none })).frame? r).map
      Frame.isFinished).getD false = false := by
    rw [World.frame_setFrame, if_pos rfl]
    exact hfinished
  generalize (w.setFrame r none).setFrame r (some { f with pending := none }) = u at hlook ⊢
  show (if ((u.frame? r).map Frame.isFinished).getD false = true then _ else _ :
    Run World (Option Value)) u = _
  rw [hlook]
  simp only [bind_assoc]
  refine congrFun (bind_congr fun _ => bind_congr fun outcome => ?_) u
  rcases outcome with x | yielded | returned | result <;> rfl

/-- A finished frame is not resumed. -/
theorem resumeFrame_of_finished (hf : w.frame? r = some f) (hfinished : f.isFinished = true) :
    e.resumeFrame g r v w =
      Run.ensuring (do e.terminate g; Run.raise .stopIteration : Run World (Option Value))
        (e.releasePending f.pending)
        ((w.setFrame r none).setFrame r (some { f with pending := none })) := by
  unfold Engine.resumeFrame
  rw [takePending_bind hf]
  have hlook : ((((w.setFrame r none).setFrame r (some { f with pending := none })).frame? r).map
      Frame.isFinished).getD false = true := by
    rw [World.frame_setFrame, if_pos rfl]
    exact hfinished
  generalize (w.setFrame r none).setFrame r (some { f with pending := none }) = u at hlook ⊢
  show (if ((u.frame? r).map Frame.isFinished).getD false = true then _ else _ :
    Run World (Option Value)) u = _
  rw [hlook]
  rfl

end Resume

/-- Where nothing waits in the frame, the body is run on the frame with what is sent. -/
theorem startBody_of_empty {f : Frame} (hf : w.frame? r = some f) (hinput : f.input = none) :
    e.startBody g r v w = Run.attempt (e.runBodyOn g r f.pending (Frame.given v))
      (((w.setFrame r none).setFrame r (some { f with pending := none })).retain v) := by
  have htaken : ((w.setFrame r none).setFrame r (some { f with pending := none })).frame? r =
      some { f with pending := none } := by simp
  unfold Engine.startBody
  rw [takePending_bind hf,
    Run.bind_ok (Run.onInterruption_ok (handOver_of_empty htaken hinput))]
  unfold Run.attempt
  rw [runBody_setFrame (by rw [World.retain, frame_addOwners, htaken])]

theorem holds_given_le (v : Value) (f : Frame) : holds (f.given v) ≤ holds v + holds f := by
  unfold Frame.given
  split
  · exact le_add_self
  · intro o
    simp only [holds_frame, holds_some, Pi.add_apply]
    omega

/-- A tame frame that is not finished can be resumed with a value. -/
theorem ready_given {f : Frame} (hf : f.Tame) (hfinished : f.isFinished = false) :
    (f.given v).Ready := by
  have hstarted : ¬ f.position < 0 := fun hnegative => by
    have hstart := hf.start
    have hposition : f.position = Frame.finished := by
      rw [Frame.finished] at hstart ⊢
      omega
    simp [Frame.isFinished, hposition] at hfinished
  unfold Frame.given
  split
  · exact hf.ready
  · exact ⟨⟨hf.start, hf.position, hf.next⟩, fun hnegative => absurd hnegative hstarted⟩

/-- What waits in a frame that is given a value. -/
theorem holds_input_given_le {f : Frame} (hf : f.Tame) : holds (f.given v).input ≤ holds v := by
  unfold Frame.given
  split
  · rw [hf.input]
    exact zero_le
  · exact le_rfl

/-- Running the body of a generator whose frame is at rest. -/
theorem startBody_ends (hs : Serves C e e') (hZ : Z.Fit C) (hheld : Z.Held F g)
    (hadmits : Z.Admits g) (hidle : (w.generator g).running = false)
    (hslot : (w.generator g).frame = some r) {f : Frame} (hf : w.frame? r = some f)
    (hfinished : f.isFinished = false) (hv : holds v ≤ F) (h : Z.Linked F w w') :
    Ends Z.bond F holds (e.startBody g r v w) (e'.startBody g r v w') := by
  have hvisible : ¬ Z.hidden (.frame r) := fun hh =>
    h.frame_not_sealed hheld.1 hslot (hZ.valid.sealed_of_hidden _ hh)
  have hf' : w'.frame? r = some f := (h.alike.frame r hvisible).trans hf
  have hfree := h.free hZ.valid hheld.1 hadmits hidle hslot hf
  have hopen := h.opened (G := .of [.frame r]) hZ.valid hheld.1 hadmits hidle hslot
    (by simp [Bag.of_singleton_self])
  have hcell := h.loose hopen.loose hf
  have htaken := takePending_linked h hvisible hcell hf
  have hslot' : (((w.setFrame r none).setFrame r (some { f with pending := none })).generator g).frame
      = some r := by simpa using hslot
  by_cases hlaw : Z.law.tame
  · -- nothing waits in the frame, and what is sent stays with those who wait
    have htame := (h.tame hlaw).frames r f hf
    rw [startBody_of_empty hf htame.input, startBody_of_empty hf' htame.input]
    have hretained := htaken.retain hZ.valid (v := v) (htaken.covered (le_trans hv le_add_self))
    obtain ⟨H, rfl⟩ := exists_add_of_le hv
    have hlent : (Z.lend (holds v)).Linked (holds v + (holds f.pending + H)) _ _ :=
      Zone.Linked.lend (hretained.le fun o => by
        simp only [Pi.add_apply]
        omega)
    have hran := runBodyOn_ends hs (hZ.lend (holds v)) (holds_given_le v)
      (fun _ b hb htame => ⟨ready_given htame ?_,
        le_trans (holds_input_given_le htame) le_add_self⟩) hheld.lend hfree hcell
      (by rw [World.retain, generator_addOwners, hslot']) hlent
    · exact (hran.attempt).unlend (h.unsealed le_self_add)
    · rw [World.retain, frame_addOwners, World.frame_setFrame, if_pos rfl] at hb
      cases hb
      exact hfinished
  · have hhanded := handOver_ends hs hZ hlaw (hheld.le le_add_self) hfree hcell hslot'
      (f := { f with pending := none }) (by simp) (le_trans hv le_add_self) htaken
    unfold Engine.startBody
    rw [takePending_bind hf, takePending_bind hf']
    refine hhanded.handle (fun _ h => h) id (fun K t t' _ ht => releasePending_ends hs hZ ht.1)
      fun _ t t' ht => ?_
    have hran := runBody_ends hs hZ hheld hfree hcell (by rw [ht.2, hslot'])
      (ht.1.le (by rw [holds_unit, zero_add]))
    exact hran.attempt

/-- After a body has come to a result, another position follows the resume point. -/
theorem startBody_next {f b : Frame} {a : Suspension} {t : World} (hw : w.Tame)
    (hf : w.frame? r = some f) (hfinished : f.isFinished = false)
    (hrun : e.startBody g r v w = .ok (.ok a) t) (hb : t.frame? r = some b) : b.hasNext = true := by
  have htame := hw.frames r f hf
  rw [startBody_of_empty hf htame.input] at hrun
  rcases Run.attempt_eq_ok.1 hrun with ⟨x, hx, hran⟩ | ⟨x, hx, _⟩
  · cases hx
    refine runBodyOn_next ?_ (fun d hd => ?_) hran hb
    · refine World.Tame.addOwners _ ((hw.setFrame r (x := none) nofun).setFrame r
        fun d hd => ?_)
      cases hd
      exact htame.takePending
    · rw [World.retain, frame_addOwners, World.frame_setFrame, if_pos rfl] at hd
      cases hd
      exact ready_given htame.takePending hfinished
  · cases hx

/-- Doing what has to be done once the body has ended. -/
theorem settleBody_ends (hs : Serves C e e') (hZ : Z.Fit C) (hg : ¬ Z.hidden (.generator g))
    (hfree : Z.fixed g = none) (hopen : Z.Open F r) (outcome : Except Exception Suspension)
    (hnext : Z.law.tame → ∀ a, outcome = .ok a → ∀ b, w.frame? r = some b → b.hasNext = true)
    (h : Z.Linked (holds outcome + F) w w') :
    Ends Z.bond F holds (e.settleBody g r outcome w) (e'.settleBody g r outcome w') := by
  rcases outcome with x | yielded | returned | result
  · have hended : Ends Z.bond F (fun _ => 0 + holds x)
        (((e.terminate g).onInterruption (e.releaseException x)) w)
        (((e'.terminate g).onInterruption (e'.releaseException x)) w') :=
      (terminate_ends hs hZ hg hfree h).onInterruption fun K s s' _ hss =>
        releaseException_ends hs hZ hss
    exact hended.bind le_rfl fun _ s s' hss => .raised (hss.le (by rw [zero_add]))
  · exact .ok h
  · have hended : Ends Z.bond F (fun _ => 0 + holds returned)
        (((e.terminate g).onInterruption (e.release returned)) w)
        (((e'.terminate g).onInterruption (e'.release returned)) w') :=
      (terminate_ends hs hZ hg hfree h).onInterruption fun K s s' _ hss =>
        release_ends hs hZ hss
    exact hended.bind le_rfl fun _ s s' hss => .raised (hss.le (by
      rw [zero_add, holds_stopIterationWith]))
  · exact (finishDelegation_ends hs hZ hopen (fun hlaw => hnext hlaw _ rfl) h).seq le_rfl
      fun s s' hss => .ok (hss.le (by rw [holds_none, zero_add]))

theorem resumeFrame_ends (hs : Serves C e e') (hZ : Z.Fit C) (hheld : Z.Held F g)
    (hadmits : Z.Admits g) (hidle : (w.generator g).running = false)
    (hslot : (w.generator g).frame = some r) (hframe : 1 ≤ F (.frame r) + Z.left (.frame r))
    (hv : holds v ≤ F) (h : Z.Linked F w w') :
    Ends Z.bond F holds (e.resumeFrame g r v w) (e'.resumeFrame g r v w') := by
  have hopen := h.opened hZ.valid hheld.1 hadmits hidle hslot hframe
  have hvisible := hopen.visible hZ.valid
  cases hf : w.frame? r with
  | none =>
      have hf' : w'.frame? r = none := (h.alike.frame r hvisible).trans hf
      have hout : ∀ u : World, u.frame? r = none →
          Engine.takePending r u = .error .aborted { u with unwinding := true } :=
        fun u hu => takePending_vacant hu
      unfold Engine.resumeFrame
      rw [Run.bind_error (hout w hf), Run.bind_error (hout w' hf')]
      exact abort_ends (hopen.breaks hZ.valid h le_rfl hf) h
  | some f =>
      have hf' : w'.frame? r = some f := (h.alike.frame r hvisible).trans hf
      have hfree := h.free hZ.valid hheld.1 hadmits hidle hslot hf
      by_cases hfinished : f.isFinished = true
      · rw [resumeFrame_of_finished hf hfinished, resumeFrame_of_finished hf' hfinished]
        have htaken := takePending_linked h hvisible (h.loose hopen.loose hf) hf
        refine Ends.ensuring (C := holds f.pending) ?_ fun K t t' _ ht =>
          releasePending_ends hs hZ ht
        exact (terminate_ends hs hZ hheld.1 hfree htaken).seq le_rfl fun t t' ht =>
          .raised (ht.le (by rw [holds_stopIteration, zero_add]))
      · have hfinished : f.isFinished = false := by simpa using hfinished
        rw [resumeFrame_of_unfinished hf hfinished, resumeFrame_of_unfinished hf' hfinished]
        refine (startBody_ends hs hZ hheld hadmits hidle hslot hf hfinished hv h).bindOf le_rfl
          fun outcome t t' hran ht => settleBody_ends hs hZ hheld.1 hfree hopen outcome ?_ ht
        rintro hlaw a rfl b hb
        exact startBody_next (h.tame hlaw) hf hfinished hran hb

/-! ## Levels -/

/-- What is left to do once a level is taken.  The caller owns the frame. -/
def Engine.proceed (e : Engine) (g : GeneratorRef) (r : FrameRef) (input : Value) :
    Run World Value := do
  let result ← (e.resumeFrame g r input).onInterruption do
    World.leave
    e.release input
  match result with
  | some v => do
      World.leave
      e.release input
      return v
  | none => Run.ensuring (e.perform (.resume g input)) World.leave

/-- The world in which a frame has one more owner and a level is taken. -/
def World.entered (w : World) (r : FrameRef) : World :=
  { w.retain (.frame r) with
    thread := { (w.retain (.frame r)).thread with depth := (w.retain (.frame r)).thread.depth + 1 } }

@[simp] theorem thread_addOwners (w : World) (os : List Object) : (w.addOwners os).thread = w.thread := by
  unfold World.addOwners
  induction os generalizing w with
  | nil => rfl
  | cons o os ih => rw [List.foldl_cons, ih, World.thread_setOwners]

section Entering

variable (hidle : (w.generator g).running = false) (hslot : (w.generator g).frame = some r)

include hidle hslot

/-- Resuming an idle generator begins with sharing its frame and taking a level. -/
theorem resume_of_idle :
    e.resume g v w =
      e.owning (.frame r) (World.enter.onInterruption (e.release v) >>= fun _ => e.proceed g r v)
        (w.retain (.frame r)) := by
  unfold Engine.resume
  rw [Run.bind_apply]
  simp only [Run.get_apply]
  rw [if_neg (by simp [hidle]), hslot]
  rfl

/-- Where a level is left, it is taken. -/
theorem resume_of_room (hroom : w.thread.depth < w.thread.limit) :
    e.resume g v w = e.owning (.frame r) (e.proceed g r v) (w.entered r) := by
  have hentered : World.enter (w.retain (.frame r)) = .ok () (w.entered r) := by
    unfold World.enter Thread.enter?
    rw [if_neg (by rw [World.retain, thread_addOwners]; exact Nat.not_le_of_lt hroom)]
    rfl
  rw [resume_of_idle hidle hslot]
  exact Run.ensuring_congr (Run.bind_ok (Run.onInterruption_ok hentered))

/-- Where no level is left, the value that is sent is forgotten and the resume is refused. -/
theorem resume_of_full (hfull : w.thread.limit ≤ w.thread.depth) :
    e.resume g v w =
      e.owning (.frame r) (do e.release v; Run.raise .recursionError) (w.retain (.frame r)) := by
  have hrefused : World.enter (w.retain (.frame r)) =
      .error (.raised .recursionError) (w.retain (.frame r)) := by
    unfold World.enter Thread.enter?
    rw [if_pos (by rw [World.retain, thread_addOwners]; exact hfull)]
  rw [resume_of_idle hidle hslot]
  refine Run.ensuring_congr ?_
  rw [Run.bind_apply, Run.bind_apply]
  unfold Run.onInterruption
  rw [hrefused]
  simp only
  generalize e.release v (w.retain (.frame r)) = x
  rcases x with ⟨_, t⟩ | ⟨reason, t⟩ <;> rfl

end Entering

/-- A level that is left in the left world is left in the right one. -/
theorem Zone.Room.right (hroom : Z.Room)
    (hguard : Z.law.Guarded → Z.leftThread.depth < Z.leftThread.limit) :
    Z.leftThread.depth < Z.leftThread.limit ↔ Z.rightThread.depth < Z.rightThread.limit := by
  rcases hroom with heq | ⟨hguarded, hle⟩
  · rw [heq]
  · have := hguard hguarded
    omega

/-- Sharing the frame of an idle generator. -/
theorem shareFrame_linked (hZ : Z.Valid) (hg : ¬ Z.hidden (.generator g))
    (hslot : (w.generator g).frame = some r) (h : Z.Linked F w w') :
    Z.Linked (holds (Value.frame r) + F) (w.retain (.frame r)) (w'.retain (.frame r)) := by
  refine h.retain hZ (h.covered_of_references (le_trans ?_ (World.holds_generator_le hg)))
  rw [holds_generatorObject, hslot, holds_frameRef]
  exact le_self_add

/-- Sharing the frame of an idle generator and taking a level. -/
theorem Zone.Linked.entered (h : Z.Linked F w w') (hZ : Z.Valid) (hg : ¬ Z.hidden (.generator g))
    (hslot : (w.generator g).frame = some r) :
    Z.deeper.Linked (holds (Value.frame r) + F) (w.entered r) (w'.entered r) := by
  have hshared := shareFrame_linked hZ hg hslot h
  have hentered := hshared.setThread Z.deeper.leftThread Z.deeper.rightThread
  unfold World.entered
  rw [hshared.pinned.thread, hshared.alike.thread]
  exact hentered

@[simp] theorem World.generator_entered (w : World) (r : FrameRef) (i : GeneratorRef) :
    (w.entered r).generator i = w.generator i :=
  generator_addOwners w _ i

@[simp] theorem World.frame_entered (w : World) (r s : FrameRef) :
    (w.entered r).frame? s = w.frame? s :=
  frame_addOwners w _ s

/-- What is left to do once a level is taken, given how resuming the frame ends. -/
theorem proceed_of_ends (hs : Serves C e e') (hZ : Z.Fit C) (hdeep : Z.deeper.Fit C)
    (hheld : Z.Held F g)
    (hresumed : Ends Z.deeper.bond (holds v + F) holds (e.resumeFrame g r v w)
      (e'.resumeFrame g r v w')) :
    Ends Z.bond F holds (e.proceed g r v w) (e'.proceed g r v w') := by
  have hback : ∀ {K : Bag} {t t' : World}, Z.deeper.Linked (holds v + K) t t' →
      Ends Z.bond K holds ((do World.leave; e.release v : Run World Unit) t)
        ((do World.leave; e'.release v : Run World Unit) t') := fun ht =>
    release_ends hs hZ ht.leave
  refine hresumed.handle (fun _ h => h) id (fun K t t' _ ht => hback ht) fun result t t' ht => ?_
  cases result with
  | some x =>
      have hforgotten := hback (K := holds x + F) (ht.le (add_left_comm _ _ _).le)
      show Ends Z.bond F holds
        (((do World.leave; e.release v : Run World Unit) >>= fun _ => pure x) t)
        (((do World.leave; e'.release v : Run World Unit) >>= fun _ => pure x) t')
      exact hforgotten.seq le_add_self fun s s' hss => .ok hss
  | none =>
      have hagain := resume_ends hs hdeep (g := g) hheld (ht.le (by rw [holds_none, zero_add]))
      exact hagain.bracket (fun _ h => h) id fun K s s' hss => hss.leave

/-- What is left to do once a level is taken. -/
theorem proceed_ends (hs : Serves C e e') (hZ : Z.Fit C) (hdeep : Z.deeper.Fit C)
    (hheld : Z.Held F g) (hadmits : Z.Admits g) (hidle : (w.generator g).running = false)
    (hslot : (w.generator g).frame = some r) (hframe : 1 ≤ F (.frame r) + Z.left (.frame r))
    (h : Z.deeper.Linked (holds v + F) w w') :
    Ends Z.bond F holds (e.proceed g r v w) (e'.proceed g r v w') := by
  refine proceed_of_ends hs hZ hdeep hheld
    (resumeFrame_ends hs hdeep (hheld.le le_add_self) hadmits hidle hslot ?_ le_self_add h)
  simp only [Zone.deeper, Pi.add_apply]
  omega

/-- Resuming a generator. -/
theorem answerResume_ends (hs : Serves C e e') (hZ : Z.Fit C)
    (hadmits : Z.Admits g) (hguard : Z.law.Guarded → w.isExhausted g = false) (hheld : Z.Held F g)
    (h : Z.Linked (holds v + F) w w') :
    Ends Z.bond F holds (e.resume g v w) (e'.resume g v w') := by
  have hsame := h.alike.generator g hheld.1
  -- a generator that is running or has no frame does not get that far
  have hrefused : ∀ x : Exception, holds x = 0 →
      Ends Z.bond F (holds : Value → Bag) (e.owning v (Run.raise x) w)
        (e'.owning v (Run.raise x) w') := fun x hx => raise_owning_ends hs hZ hx h
  by_cases hrunning : (w.generator g).running = true
  · have hout : ∀ (e : Engine) (u : World), (u.generator g).running = true →
        e.resume g v u = e.owning v (Run.raise .alreadyExecuting) u := fun e u hu => by
      unfold Engine.resume
      rw [Run.bind_apply]
      simp only [Run.get_apply]
      rw [if_pos hu]
    rw [hout e w hrunning, hout e' w' (by rw [hsame, hrunning])]
    exact hrefused _ rfl
  · have hidle : (w.generator g).running = false := by simpa using hrunning
    cases hslot : (w.generator g).frame with
    | none =>
        have hout : ∀ (e : Engine) (u : World), u.generator g = w.generator g →
            e.resume g v u = e.owning v (Run.raise .stopIteration) u := fun e u hu => by
          unfold Engine.resume
          rw [Run.bind_apply]
          simp only [Run.get_apply]
          rw [hu, if_neg hrunning, hslot]
        rw [hout e w rfl, hout e' w' hsame]
        exact hrefused _ rfl
    | some r =>
        have hidle' : (w'.generator g).running = false := by rw [hsame, hidle]
        have hslot' : (w'.generator g).frame = some r := by rw [hsame, hslot]
        have hright := hZ.room.right fun hguarded => by
          have hleft := hguard hguarded
          rw [World.isExhausted, hidle, hslot, h.pinned.thread] at hleft
          simpa using hleft
        by_cases hroom : Z.leftThread.depth < Z.leftThread.limit
        · rw [resume_of_room hidle hslot (by rwa [h.pinned.thread]),
            resume_of_room hidle' hslot' (by rw [h.alike.thread]; exact hright.1 hroom)]
          refine owning_ends hs hZ ?_
          refine proceed_ends hs hZ (hZ.deeper hroom) (hheld.le le_add_self) hadmits ?_ ?_ ?_
            ((h.entered hZ.valid hheld.1 hslot).le (add_left_comm _ _ _).le)
          · rw [World.generator_entered, hidle]
          · rw [World.generator_entered, hslot]
          · rw [Pi.add_apply, holds_frameRef, Bag.of_singleton_self]
            omega
        · rw [resume_of_full hidle hslot (by rw [h.pinned.thread]; exact Nat.not_lt.1 hroom),
            resume_of_full hidle' hslot'
              (by rw [h.alike.thread]; exact Nat.not_lt.1 (mt hright.2 hroom))]
          refine owning_ends hs hZ ?_
          have hshared := shareFrame_linked hZ.valid hheld.1 hslot h
          refine (release_ends hs hZ (hshared.le (add_left_comm _ _ _).le)).seq le_rfl
            fun t t' ht => .raised (ht.le ?_)
          rw [Exception.recursionError, holds_withMessage, zero_add]

/-- Leaving an exception in a frame that gives up its delegate. -/
theorem raising_quiet (hs : Serves C e e') (hZ : Z.Fit C) {f : Frame} {x : Exception}
    (h : Z.Linked (holds f + (holds x + F)) w w') :
    Ends (Z.quietWith Frame) F holds
      ((do
        (e.replace Frame.removeDelegate).onInterruption (Run.shared (e.releaseException x))
        e.replace (·.replacePending x) : Run (Frame × World) Unit) (f, w))
      ((do
        (e'.replace Frame.removeDelegate).onInterruption (Run.shared (e'.releaseException x))
        e'.replace (·.replacePending x) : Run (Frame × World) Unit) (f, w')) := by
  have hremoved := replace_quiet hs hZ (c := Frame.removeDelegate) (f := f) (G := 0)
    (F := holds x + F) (by rw [holds_removeDelegate, zero_add]) (by rw [zero_add]; exact h)
  have hguarded := hremoved.onInterruption (c := Run.shared (e.releaseException x))
    (d := Run.shared (e'.releaseException x)) fun K s s' _ hss => by
      obtain ⟨b, u⟩ := s
      obtain ⟨b', u'⟩ := s'
      obtain ⟨rfl, hu⟩ := hss
      exact Ends.shared (releaseException_quiet hs hZ (hu.le (add_left_comm _ _ _).le))
  refine hguarded.bindWith le_rfl fun _ b u u' hu => ?_
  exact replace_quiet hs hZ (holds_replacePending b x).le (hu.le (by rw [holds_unit, zero_add]))

/-- Resuming a generator with an exception raised at its resume point. -/
theorem inject_ends (hs : Serves C e e') (hZ : Z.Fit C) {x : Exception}
    (hheld : Z.Held F g) (hopen : Z.Open F r) (h : Z.Linked (holds x + F) w w') :
    Ends Z.bond F holds (e.inject g r x w) (e'.inject g r x w') := by
  unfold Engine.inject
  refine Ends.seq (G := F) ?_ le_rfl fun t t' ht => ?_
  · refine withFrameFor_ends hs hZ hopen Zone.Busy.breaks (fun _ f hf => ?_) h
      fun f t t' _ hpin ht => raising_quiet hs hpin ht
    have hremoved := replace_leaves (e := e) (c := Frame.removeDelegate) hf.removeDelegate
    exact (hremoved.onInterruption (fun _ hb => Run.Leaves.shared (fun _ => hb) hb hb)
      fun _ hb => Run.Leaves.shared (fun _ => hb) hb hb).bind fun _ b hb =>
        replace_leaves ⟨⟨hb.start, hb.position, hb.next⟩, hb.input⟩
  · exact resume_ends hs hZ hheld (ht.le (by rw [holds_value_none, zero_add]))

end Resumable
