import Resumable.Proofs.Forward

set_option autoImplicit false

/-!
# Driving a program that only goes forward

A generator whose program only goes forward, and that has to do with nothing but lists and iterators
over them, comes back from every call.  A resume may go on after a delegation that ran out, but then
there is less ahead of its frame (`perform_resume_halts`).  Throwing and closing resume the generator
once, after they dealt with its delegate, which is no generator.
-/

namespace Resumable

variable {P : Object → Prop} {p : Code.Program} {g : GeneratorRef} {r : FrameRef} {α : Type}
  {w : World} {v : Value} {n : Nat} {x : Exception}

/-! ## Work on the frame -/

/-- Less than so much is ahead of a frame, if it is in its cell. -/
def World.Ahead (p : Code.Program) (r : FrameRef) (n : Nat) (w : World) : Prop :=
  ∀ f, w.frame? r = some f → p.weight f.position.toNat f.blocks < n

/-- Less than so much is behind the instruction that a frame is suspended at. -/
def World.Behind (p : Code.Program) (r : FrameRef) (n : Nat) (w : World) : Prop :=
  ∀ f, w.frame? r = some f → p.weight f.stepOn.position.toNat f.blocks < n

theorem World.ahead_of_frame {t : World} (h : w.Ahead p r n) (hframe : t.frame? r = w.frame? r) :
    t.Ahead p r n := fun f hf => h f (hframe ▸ hf)

theorem World.exists_ahead (p : Code.Program) (r : FrameRef) (w : World) : ∃ n, w.Ahead p r n := by
  cases hf : w.frame? r with
  | none => exact ⟨0, fun f h => by rw [hf] at h; cases h⟩
  | some f => exact ⟨_, fun b h => by rw [hf] at h; cases h; exact Nat.lt_succ_self _⟩

theorem World.exists_behind (p : Code.Program) (r : FrameRef) (w : World) : ∃ n, w.Behind p r n := by
  cases hf : w.frame? r with
  | none => exact ⟨0, fun f h => by rw [hf] at h; cases h⟩
  | some f => exact ⟨_, fun b h => by rw [hf] at h; cases h; exact Nat.lt_succ_self _⟩

/-- A computation halts on a frame that is out of its cell, and leaves it confined. -/
abbrev HaltsOn (P : Object → Prop) (p : Code.Program) (g : GeneratorRef) (r : FrameRef)
    (Q : α → Frame × World → Prop) (m : Nat → Run (Frame × World) α) (s : Frame × World) : Prop :=
  Halts P (fun a t => Within P t.1 ∧ t.2.Confined P p g r ∧ Q a t)
    (fun t => Within P t.1 ∧ t.2.Confined P p g r) m s

/-- Work on a frame, which is put back at the end. -/
theorem withFrame_halts {Q : α → Frame × World → Prop} {R : α → World → Prop}
    {m : Nat → Run (Frame × World) α} (hw : w.Confined P p g r)
    (hm : ∀ f, w.frame? r = some f → Within P f → HaltsOn P p g r Q m (f, w.setFrame r none))
    (hQ : ∀ a b t, Q a (b, t) → R a (t.setFrame r (some b))) :
    Halts P (fun a t => t.Confined P p g r ∧ R a t) (fun t => t.Confined P p g r)
      (fun k => World.withFrame r (m k)) w := by
  cases hf : w.frame? r with
  | none =>
      exact Halts.of_eq (x := .error .aborted { w with unwinding := true })
        (fun k => by simp only [World.withFrame, hf]; rfl) (.aborted (hw.setUnwinding true))
  | some f =>
      have hback : ∀ {b : Frame} {t : World}, Within P b → t.Confined P p g r →
          (t.setFrame r (some b)).Confined P p g r := fun hb ht =>
        ht.setFrame fun _ h => Option.some.inj h ▸ hb
      refine ((hm f hf (hw.frame f hf)).withPrivate (fun b t => t.setFrame r (some b))
        (fun a b t h => ⟨hback h.1 h.2.1, hQ a b t h.2.2⟩) fun b t h => hback h.1 h.2).congr
          fun k => ?_
      simp only [World.withFrame, hf]

section Frames

variable (hP : Listlike P) (hw : w.Confined P p g r)

include hP hw

/-- A change of a frame. -/
theorem replace_halts {change : Frame → Frame × List Value} (hchange : KeepsWithin P change)
    {f : Frame} (hf : Within P f) :
    Halts P (fun _ t => t.1 = (change f).1 ∧ Within P t.1 ∧ t.2.Confined P p g r) (fun _ => False)
      (fun k => (Machine.engine k).replace change) (f, w) := by
  obtain ⟨hchanged, hremoved⟩ := hchange f hf
  refine ((releaseAll_halts hP hw hremoved).shared (b := (change f).1)).mono (fun _ t ht => ?_)
    (fun _ ht => ht.2) |>.congr fun k => rfl
  exact ⟨ht.1, ht.1 ▸ hchanged, ht.2⟩

/-- A change of a frame that is in its cell. -/
theorem withFrame_replace_halts {change : Frame → Frame × List Value} (hchange : KeepsWithin P change)
    {Q : World → Prop}
    (hQ : ∀ f (t : World), w.frame? r = some f → Q (t.setFrame r (some (change f).1))) :
    Halts P (fun _ t => t.Confined P p g r ∧ Q t) (fun t => t.Confined P p g r)
      (fun k => World.withFrame r ((Machine.engine k).replace change)) w :=
  withFrame_halts (Q := fun _ s => ∃ f, w.frame? r = some f ∧ s.1 = (change f).1) hw
    (fun f hf hwithin => (replace_halts hP (hw.setFrame (x := none) nofun) hchange hwithin).mono
      (fun _ _ h => ⟨h.2.1, h.2.2, f, hf, h.1⟩) fun _ h => h.elim)
    fun _ b t h => by
      obtain ⟨f, hf, rfl⟩ := h
      exact hQ f t hf

omit hP in
theorem takePending_halts (hahead : w.Ahead p r n) :
    Halts P (fun pending t => Within P pending ∧ t.Confined P p g r ∧ t.Ahead p r n)
      (fun t => t.Confined P p g r) (fun _ => Engine.takePending r) w := by
  refine (withFrame_halts (Q := fun pending s => Within P pending ∧
      ∃ f, w.frame? r = some f ∧ s.1 = { f with pending := none })
    (R := fun pending t => Within P pending ∧ t.Ahead p r n) hw (fun f hf hwithin => ?_)
    fun pending b t h => ⟨h.1, ?_⟩).mono (fun _ _ h => ⟨h.2.1, h.1, h.2.2⟩) fun _ h => h
  · obtain ⟨hlocals, hstack, hdelegate, hpending, hrest⟩ := within_frame_iff.1 hwithin
    exact Halts.of_ok (fun _ => rfl) ⟨within_frame_iff.2
      ⟨hlocals, hstack, hdelegate, within_of_holds_zero rfl, hrest⟩, hw.setFrame nofun, hpending,
      f, hf, rfl⟩
  · obtain ⟨_, f, hf, rfl⟩ := h
    intro b hb
    rw [World.frame_setFrame, if_pos rfl] at hb
    cases hb
    exact hahead f hf

omit hP in
/-- To look at the frame halts; the computation is abandoned if the frame is in use. -/
theorem readFrame_halts :
    Halts P (fun f t => t = w ∧ Within P f) (fun t => t.Confined P p g r)
      (fun _ => World.readFrame r) w := by
  cases hf : w.frame? r with
  | none =>
      exact Halts.of_eq (fun _ => by simp only [World.readFrame, hf]; rfl)
        (.aborted (hw.setUnwinding true))
  | some f =>
      exact Halts.of_ok (fun _ => by simp only [World.readFrame, hf]) ⟨rfl, hw.frame f hf⟩

/-- A change of a frame, of which nothing is done if the frame is in use. -/
theorem withFrameFor_halts {vs : List Value} (hvs : Within P vs) {Q : World → Prop}
    {m : Nat → Run (Frame × World) Unit}
    (hm : Halts P (fun _ t => t.Confined P p g r ∧ Q t) (fun t => t.Confined P p g r)
      (fun k => World.withFrame r (m k)) w) :
    Halts P (fun _ t => t.Confined P p g r ∧ Q t) (fun t => t.Confined P p g r)
      (fun k => (Machine.engine k).withFrameFor vs r (m k)) w := by
  refine ((readFrame_halts hw).onInterruption fun t ht => releaseAll_halts hP ht hvs).bind
    fun f t ht => ?_
  obtain ⟨rfl, -⟩ := ht
  exact hm

/-- To hand over the value that is sent leaves the resume point alone. -/
theorem handOver_halts (hv : Within P v) (hahead : w.Ahead p r n) :
    Halts P (fun _ t => t.Confined P p g r ∧ t.Ahead p r n) (fun t => t.Confined P p g r)
      (fun k => (Machine.engine k).handOver r v) w := by
  unfold Engine.handOver
  cases v.isNone with
  | true => exact .pure ⟨hw, hahead⟩
  | false =>
      have hshared := hw.retain v
      have hframe : (w.retain v).frame? r = w.frame? r := frame_addOwners w v.objects r
      refine Halts.congr (t := w.retain v) (withFrameFor_halts hP hshared (within_singleton_iff.2 hv)
        (withFrame_replace_halts hP hshared (keepsWithin_replaceInput hv) fun f t hf b hb => ?_))
        fun k => rfl
      rw [World.frame_setFrame, if_pos rfl] at hb
      cases hb
      exact hahead f (hframe ▸ hf)

theorem dropDelegate_halts :
    Halts P (fun _ t => t.Confined P p g r) (fun t => t.Confined P p g r)
      (fun k => (Machine.engine k).dropDelegate r) w :=
  (withFrame_replace_halts hP hw keepsWithin_removeDelegate (Q := fun _ => True)
    fun _ _ _ => trivial).imp fun _ _ h => h.1

theorem leavePending_halts (hx : Within P x) :
    Halts P (fun _ t => t.Confined P p g r) (fun t => t.Confined P p g r)
      (fun k => (Machine.engine k).leavePending r x) w :=
  (withFrameFor_halts hP hw hx (withFrame_replace_halts hP hw (keepsWithin_replacePending hx)
    (Q := fun _ => True) fun _ _ _ => trivial)).imp fun _ _ h => h.1

/-- A delegation that ended leaves the frame behind the instruction. -/
theorem finishDelegation_halts (hv : Within P v) (hbehind : w.Behind p r n) :
    Halts P (fun _ t => t.Confined P p g r ∧ t.Ahead p r n) (fun t => t.Confined P p g r)
      (fun k => (Machine.engine k).finishDelegation r v) w := by
  refine withFrameFor_halts hP hw (within_singleton_iff.2 hv) (withFrame_halts
    (Q := fun _ s => p.weight s.1.position.toNat s.1.blocks < n) hw (fun f hf hwithin => ?_)
    fun _ b t h c hc => ?_)
  · have hout := hw.setFrame (x := none) nofun
    have hstepped : Halts P (fun _ s => s.1 = (f.removeDelegate.1).stepOn ∧ Within P s.1 ∧
          s.2.Confined P p g r) (fun s => Within P s.1 ∧ s.2.Confined P p g r)
        (fun k => (do
          (Machine.engine k).replace Frame.removeDelegate
          World.stepOn : Run (Frame × World) Unit)) (f, w.setFrame r none) := by
      refine ((replace_halts hP hout keepsWithin_removeDelegate hwithin).mono (fun _ _ h => h)
        fun _ h => h.elim).bind fun _ s hs => ?_
      obtain ⟨b, t⟩ := s
      obtain ⟨rfl, hb, ht⟩ := hs
      cases hnext : (f.removeDelegate.1).hasNext with
      | true =>
          refine Halts.of_ok (a := ()) (t := ((f.removeDelegate.1).stepOn, t)) (fun _ => ?_) ⟨rfl, hb, ht⟩
          simp only [World.stepOn, Run.bind_apply, Run.get_apply, hnext, if_true]
          rfl
      | false =>
          refine Halts.of_eq (x := .error .aborted (f.removeDelegate.1, { t with unwinding := true }))
            (fun _ => ?_) (.aborted ⟨hb, ht.setUnwinding true⟩)
          simp only [World.stepOn, Run.bind_apply, Run.get_apply, hnext, if_false, Bool.false_eq_true]
          rfl
    refine (hstepped.onInterruption fun s hs => ?_).bind fun _ s hs => ?_
    · obtain ⟨b, t⟩ := s
      refine (release_halts hP hs.2 hv).shared.mono (fun _ u hu => ?_) fun _ hu => hu.2
      exact ⟨hu.1 ▸ hs.1, hu.2⟩
    · obtain ⟨b, t⟩ := s
      obtain ⟨rfl, hb, ht⟩ := hs
      refine (replace_halts hP ht (keepsWithin_replaceDelegationResult hv) hb).mono (fun _ u hu => ?_)
        fun _ h => h.elim
      obtain ⟨c, u⟩ := u
      obtain ⟨rfl, hc, hu⟩ := hu
      exact ⟨hc, hu, hbehind f hf⟩
  · rw [World.frame_setFrame, if_pos rfl] at hc
    cases hc
    exact h

end Frames

/-! ## Resuming -/

theorem confined_setRunning (hw : w.Confined P p g r) (b : Bool) : (w.setRunning g b).Confined P p g r :=
  hw.setGenerator rfl rfl (Or.inl rfl)

/-- A computation during which the generator is marked as running. -/
theorem whileRunning_halts {Q : α → World → Prop} {m : Nat → Run World α}
    (hm : Halts P (fun a t => t.Confined P p g r ∧ Q a (t.setRunning g false))
      (fun t => t.Confined P p g r) m (w.setRunning g true)) :
    Halts P (fun a t => t.Confined P p g r ∧ Q a t) (fun t => t.Confined P p g r)
      (fun k => World.whileRunning g (m k)) w :=
  Halts.congr (hm.ensuring
    (fun _ _ ht => Halts.of_ok (fun _ => rfl) ⟨confined_setRunning ht.1 false, ht.2⟩)
    fun _ ht => Halts.of_ok (fun _ => rfl) (confined_setRunning ht false)) fun _ => rfl

/-- A computation that owns the frame. -/
theorem owningFrame_halts (hP : Listlike P) {Q : α → Prop} {m : Nat → Run World α}
    (hm : Halts P (fun a t => t.Confined P p g r ∧ Q a) (fun t => t.Confined P p g r) m w) :
    Halts P (fun a t => t.Confined P p g r ∧ Q a) (fun t => t.Confined P p g r)
      (fun k => (Machine.engine k).owning (.frame r) (m k)) w :=
  hm.ensuring (fun _ _ ht => (releaseFrame_halts hP ht.1).imp fun _ _ hu => ⟨hu, ht.2⟩)
    fun _ ht => releaseFrame_halts hP ht

section Resuming

variable (hP : Listlike P) (hw : w.Confined P p g r)

include hP hw

theorem terminate_halts :
    Halts P (fun _ t => t.Confined P p g r) (fun t => t.Confined P p g r)
      (fun k => (Machine.engine k).terminate g) w := by
  cases hslot : (w.generator g).frame with
  | none =>
      refine Halts.of_ok (a := ()) (fun k => ?_) hw
      simp only [Engine.terminate, Run.bind_apply, Run.get_apply, hslot]
      rfl
  | some s =>
      obtain rfl := hw.slot s hslot
      have hlet := hw.setGenerator (x := { w.generator g with frame := none }) rfl rfl (Or.inr rfl)
      have hmarked : Halts P (fun _ t => t.Confined P p g s ∧ True) (fun t => t.Confined P p g s)
          (fun k => World.withFrame s (do
            modify fun t => (t.1.markFinished, t.2)
            (Machine.engine k).replace Frame.removeDelegate))
          (w.setGenerator g { w.generator g with frame := none }) := by
        refine withFrame_halts (Q := fun _ _ => True) hlet (fun f hf hwithin => ?_) fun _ _ _ _ => trivial
        have hout := hlet.setFrame (x := none) fun _ hsome => by cases hsome
        refine Halts.congr ((replace_halts hP hout keepsWithin_removeDelegate
          (f := f.markFinished) hwithin).mono (fun _ _ h => ⟨h.2.1, h.2.2, trivial⟩)
            fun _ h => h.elim) fun k => rfl
      refine Halts.congr (t := w.setGenerator g { w.generator g with frame := none })
        ((owningFrame_halts hP (Q := fun _ => True) (m := fun k => do
          if ((← get).frame? s).isSome then
            World.withFrame s do
              modify fun t => (t.1.markFinished, t.2)
              (Machine.engine k).replace Frame.removeDelegate) ?_).imp fun _ _ h => h.1) fun k => ?_
      · cases hpresent : ((w.setGenerator g { w.generator g with frame := none }).frame? s).isSome with
        | true =>
            refine hmarked.congr fun k => ?_
            simp only [Run.bind_apply, Run.get_apply, hpresent, if_true]
        | false =>
            refine Halts.of_ok (a := ()) (fun k => ?_) ⟨hlet, trivial⟩
            simp only [Run.bind_apply, Run.get_apply, hpresent, if_false, Bool.false_eq_true]
            rfl
      · simp only [Engine.terminate, Run.bind_apply, Run.get_apply, hslot]
        rfl

/-- A run of the body.  If its delegate ran out, there is less behind the delegating instruction than
there was ahead of the frame. -/
theorem runBody_halts (hforward : p.Forward) {pending : Option Exception} (hpending : Within P pending)
    (hahead : w.Ahead p r n) :
    Halts P (fun suspension t => t.Confined P p g r ∧ Within P suspension ∧
        ∀ v, suspension = .delegateExhausted v → ∃ m < n, t.Behind p r m)
      (fun t => t.Confined P p g r) (fun k => (Machine.engine k).runBody g r pending) w := by
  refine Halts.congr (t := w) (whileRunning_halts (m := fun k => World.withFrame r
    (p.resume (Machine.engine k) (w.generator g).closure pending)) ?_) fun k => ?_
  · have hrunning := confined_setRunning hw true
    refine withFrame_halts (Q := fun suspension s => Within P suspension ∧
        ∀ v, suspension = .delegateExhausted v →
          ∃ m < n, p.weight s.1.stepOn.position.toNat s.1.blocks < m) hrunning
      (fun f hf hwithin => ?_) fun suspension b t h => ⟨h.1, fun v hv => ?_⟩
    · have hless := hahead f ((frame_setRunning w true r) ▸ hf)
      exact (Code.Program.resume_halts hP hforward hw.closure hpending hwithin
        (hrunning.setFrame (x := none) nofun)).imp fun _ _ h =>
          ⟨h.frame, h.world, h.given, fun v hv => ⟨_, hless, h.less v hv⟩⟩
    · obtain ⟨m, hm, hbehind⟩ := h.2 v hv
      refine ⟨m, hm, fun c hc => ?_⟩
      rw [frame_setRunning, World.frame_setFrame, if_pos rfl] at hc
      cases hc
      exact hbehind
  · simp only [Engine.runBody, Run.bind_apply, Run.get_apply, CodeObject.resume, hw.body]

theorem resumeFrame_halts (hforward : p.Forward) (hv : Within P v) (hahead : w.Ahead p r n) :
    Halts P (fun result t => t.Confined P p g r ∧ Within P result ∧
        (result = none → ∃ m < n, t.Ahead p r m))
      (fun t => t.Confined P p g r) (fun k => (Machine.engine k).resumeFrame g r v) w := by
  refine (takePending_halts hw hahead).bind fun pending t ht => ?_
  obtain ⟨hpending, ht, hahead⟩ := ht
  cases hfinished : ((t.frame? r).map Frame.isFinished).getD false with
  | true =>
      have hstop : Halts P (fun (_ : Option Value) _ => False) (fun u => u.Confined P p g r) (fun k => do
          (Machine.engine k).terminate g
          Run.raise .stopIteration) t :=
        (terminate_halts hP ht).bind fun _ u hu => Halts.raise (within_of_holds_zero rfl) hu
      have hstopped : Halts P (fun (_ : Option Value) _ => False) (fun u => u.Confined P p g r) (fun k =>
          Run.ensuring (do
            (Machine.engine k).terminate g
            Run.raise .stopIteration) ((Machine.engine k).releasePending pending)) t :=
        hstop.ensuring (fun _ _ h => h.elim) fun u hu => releasePending_halts hP hu hpending
      refine (hstopped.mono (fun _ _ h => h.elim) fun _ h => h).congr fun k => ?_
      simp only [Run.bind_apply, Run.get_apply, hfinished, if_true]
  | false =>
      refine Halts.congr (t := t) (((handOver_halts hP ht hv hahead).onInterruption fun u hu =>
        releasePending_halts hP hu hpending).bind fun _ u hu => ((runBody_halts hP hu.1 hforward
          hpending hu.2).attempt).bind (f := fun outcome k =>
            (Machine.engine k).settleBody g r outcome) fun outcome t ht => ?_) fun k => ?_
      · rcases outcome with x | v | v | v
        · exact ((terminate_halts hP ht.2).onInterruption fun u hu =>
            releaseException_halts hP hu ht.1).bind fun _ u hu => Halts.raise ht.1 hu
        · exact .pure ⟨ht.1, ht.2.1, fun hnone => by cases hnone⟩
        · have hraised : Within P (Exception.stopIterationWith v) :=
            ht.2.1.le (holds_stopIterationWith v).le
          exact ((terminate_halts hP ht.1).onInterruption fun u hu =>
            release_halts hP hu ht.2.1).bind fun _ u hu => Halts.raise hraised hu
        · obtain ⟨m, hm, hbehind⟩ := ht.2.2 v rfl
          exact (finishDelegation_halts hP ht.1 ht.2.1 hbehind).bind fun _ u hu =>
            .pure ⟨hu.1, within_of_holds_zero rfl, fun _ => ⟨m, hm, hu.2⟩⟩
      · exact congrFun (if_neg (by rw [hfinished]; exact Bool.false_ne_true)) t

omit hP in
/-- Taking a level leaves the frame alone. -/
theorem enter_halts (hahead : w.Ahead p r n) :
    Halts P (fun _ t => t.Confined P p g r ∧ t.Ahead p r n) (fun t => t.Confined P p g r)
      (fun _ => World.enter) w := by
  cases hthread : w.thread.enter? with
  | none =>
      exact Halts.of_eq (x := .error (.raised .recursionError) w)
        (fun _ => by simp only [World.enter, hthread]) (.raised (within_of_holds_zero rfl) hw)
  | some thread =>
      exact Halts.of_ok (a := ()) (t := { w with thread := thread })
        (fun _ => by simp only [World.enter, hthread]) ⟨hw.setThread thread, hahead⟩

/-- A resume that found its delegate exhausted is followed by one with less ahead. -/
theorem resumeOnce_halts (hforward : p.Forward) (hv : Within P v) (hahead : w.Ahead p r n)
    (hagain : ∀ m < n, ∀ {t : World}, t.Confined P p g r → t.Ahead p r m →
      Orderly P p g r (fun k => Machine.perform k (.resume g v)) t) :
    Halts P (fun a t => t.Confined P p g r ∧ Within P a) (fun t => t.Confined P p g r) (fun k => do
      World.enter.onInterruption ((Machine.engine k).release v)
      let result ← ((Machine.engine k).resumeFrame g r v).onInterruption do
        World.leave
        (Machine.engine k).release v
      match result with
      | some v' =>
          World.leave
          (Machine.engine k).release v
          return v'
      | none => Run.ensuring (Machine.perform k (.resume g v)) World.leave) w := by
  have hleft : ∀ {t : World}, t.Confined P p g r →
      Halts P (fun _ t => t.Confined P p g r) (fun _ => False) (fun k => do
        World.leave
        (Machine.engine k).release v) t := fun ht =>
    (release_halts hP (ht.setThread _) hv).congr fun k => rfl
  refine ((enter_halts hw hahead).onInterruption fun t ht => release_halts hP ht hv).bind
    fun _ t ht => ((resumeFrame_halts hP ht.1 hforward hv ht.2).onInterruption fun u hu =>
      hleft hu).bind fun result u hu => ?_
  cases result with
  | some item =>
      exact ((release_halts hP (hu.1.setThread u.thread.leave) hv).mono (fun _ _ h => h)
        fun _ h => h.elim).bind (fun _ x hx => Halts.pure ⟨hx, hu.2.1⟩) |>.congr fun k => rfl
  | none =>
      obtain ⟨m, hm, hless⟩ := hu.2.2 rfl
      refine (hagain m hm hu.1 hless).ensuring (fun _ x hx => ?_) fun x hx => ?_
      · exact Halts.of_ok (fun _ => rfl) ⟨hx.2.setThread _, hx.1⟩
      · exact Halts.of_ok (fun _ => rfl) (hx.setThread _)

omit hw in
theorem resume_halts (hforward : p.Forward) (n : Nat) (hw : w.Confined P p g r) (hv : Within P v)
    (hahead : w.Ahead p r n) : Orderly P p g r (fun k => (Machine.engine k).resume g v) w := by
  induction n using Nat.strong_induction_on generalizing w v with
  | h n ih =>
    have hrefused : ∀ x : Exception, holds x = 0 → Orderly P p g r
        (fun k => (Machine.engine k).owning v (Run.raise x : Run World Value)) w := fun x hx =>
      owning_orderly hP hv (Halts.raise (within_of_holds_zero hx) hw)
    cases hrunning : (w.generator g).running with
    | true =>
        refine (hrefused .alreadyExecuting rfl).congr fun k => ?_
        simp only [Engine.resume, Run.bind_apply, Run.get_apply, hrunning, if_true]
    | false =>
        cases hslot : (w.generator g).frame with
        | none =>
            refine (hrefused .stopIteration rfl).congr fun k => ?_
            simp only [Engine.resume, Run.bind_apply, Run.get_apply, hrunning, hslot, if_false,
              Bool.false_eq_true]
        | some s =>
            obtain rfl := hw.slot s hslot
            have hshared := hw.retain (.frame s)
            have hkept : (w.retain (.frame s)).Ahead p s n :=
              World.ahead_of_frame hahead (frame_addOwners w _ s)
            refine Halts.congr (t := w.retain (.frame s)) ((owningFrame_halts hP (Q := Within P)
              (resumeOnce_halts hP hshared hforward hv hkept fun m hm t ht hless =>
                Halts.of_succ (ih m hm ht hv hless))).imp fun _ _ h => ⟨h.2, h.1⟩) fun k => ?_
            simp only [Engine.resume, Run.bind_apply, Run.get_apply, hrunning, hslot, if_false,
              Bool.false_eq_true]
            rfl

omit hw in
theorem perform_resume_halts (hforward : p.Forward) (hw : w.Confined P p g r) (hv : Within P v) :
    Orderly P p g r (fun k => Machine.perform k (.resume g v)) w := by
  obtain ⟨n, hahead⟩ := World.exists_ahead p r w
  exact Halts.of_succ (resume_halts hP hforward n hw hv hahead)

end Resuming

/-! ## Throwing and closing -/

section Ending

variable (hP : Listlike P) (hw : w.Confined P p g r)

include hP hw

/-- To forget what a computation owned, the frame among it. -/
theorem releaseOwned_halts {vs : List Value} (hvs : ∀ v ∈ vs, Within P v ∨ v = .frame r) :
    Halts P (fun _ t => t.Confined P p g r) (fun _ => False)
      (fun k => (Machine.engine k).releaseAll vs) w := by
  have hos : ∀ o ∈ Value.objectsOfAll vs, P o ∨ o = .frame r := by
    intro o ho
    obtain ⟨v, hv, hmem⟩ := Engine.mem_objectsOfAll.1 ho
    rcases hvs v hv with hwithin | rfl
    · exact Or.inl (within_value_iff.1 hwithin o hmem)
    · exact Or.inr (List.mem_singleton.1 hmem)
  show Halts P _ _ (fun k => (Machine.engine k).releaseObjects (Value.objectsOfAll vs)) w
  generalize Value.objectsOfAll vs = os at hos
  induction os generalizing w with
  | nil => exact Halts.of_ok (fun _ => rfl) hw
  | cons o os ih =>
      have halone : Halts P (fun _ t => t.Confined P p g r) (fun _ => False)
          (fun k => (Machine.engine k).releaseObjects [o]) w := by
        rcases hos o List.mem_cons_self with ho | rfl
        · exact (releaseObjects_light hP w.load (fun u hu => List.mem_singleton.1 hu ▸ ho)
            ⟨hw, le_rfl⟩).imp fun _ _ ht => ht.1
        · exact releaseFrame_halts hP hw
      obtain ⟨t, n, ht, hn⟩ := halone.result
      have hone : Halts P (fun _ t => t.Confined P p g r) (fun _ => False)
          (fun k => (Machine.engine k).releaseObject o) w := by
        refine ⟨.ok () t, n, fun k hk => ?_, .ok ht⟩
        obtain ⟨u, hu, hpure⟩ := Run.ensuring_eq_ok.1 (hn k hk)
        cases hpure
        exact hu
      exact hone.ensuring (fun _ t ht => ih ht fun u hu => hos u (List.mem_cons_of_mem o hu))
        fun _ h => h.elim

omit hw in
/-- A computation that owns values, the frame among them. -/
theorem owningAll_orderly [Holder α] {m : Nat → Run World α} {vs : List Value}
    (hvs : ∀ v ∈ vs, Within P v ∨ v = .frame r) (hm : Orderly P p g r m w) :
    Orderly P p g r (fun k => (m k).ensuring ((Machine.engine k).releaseAll vs)) w :=
  hm.ensuring (fun _ _ ht => (releaseOwned_halts hP ht.2 hvs).imp fun _ _ hu => ⟨ht.1, hu⟩)
    fun _ ht => releaseOwned_halts hP ht hvs

/-- An iterator that is closed is not a generator, and has no way of closing. -/
theorem closeIter_orderly {inner : Value} (hinner : Within P inner) :
    Orderly P p g r (fun k => (Machine.engine k).closeIter inner) w := by
  cases inner with
  | generator i =>
      exact absurd (within_value_iff.1 hinner (.generator i) List.mem_cons_self) (hP.generator i)
  | iterator i =>
      rcases iterator_cases hw hinner with hnone | ⟨l, n, hx, hl⟩
      · refine (abort_orderly hw).congr fun k => ?_
        simp only [Engine.closeIter, World.withIterator, hnone]
      · exact Halts.of_ok (a := .none)
          (t := (w.setIterator i none).setIterator i (some (.list l n)))
          (fun k => by simp only [Engine.closeIter, World.withIterator, hx]; rfl)
          ⟨within_of_holds_zero rfl, (hw.vacate i).setListIterator i hl n⟩
  | _ => exact Halts.of_ok (a := .none) (fun _ => rfl) ⟨within_of_holds_zero rfl, hw⟩

omit hP in
theorem closeForThrow_halts {i : IteratorRef} (hi : Within P (Value.iterator i)) :
    Halts P (fun closed t => t.Confined P p g r ∧ closed = .ok []) (fun t => t.Confined P p g r)
      (fun k => (Machine.engine k).closeForThrow g i) w := by
  have hrunning := confined_setRunning hw true
  have hclosed : Halts P (fun a t => t.Confined P p g r ∧ a = none) (fun t => t.Confined P p g r)
      (fun k => World.whileRunning g (World.withIterator i (Iterator.close? (Machine.engine k)))) w := by
    refine whileRunning_halts ?_
    rcases iterator_cases hrunning hi with hnone | ⟨l, n, hx, hl⟩
    · refine Halts.of_eq (x := .error .aborted { w.setRunning g true with unwinding := true })
        (fun k => ?_) (.aborted (hrunning.setUnwinding true))
      simp only [World.withIterator, hnone]
      rfl
    · exact Halts.of_ok (a := none)
        (t := ((w.setRunning g true).setIterator i none).setIterator i (some (.list l n)))
        (fun k => by simp only [World.withIterator, hx]; rfl)
        ⟨(hrunning.vacate i).setListIterator i hl n, rfl⟩
  exact hclosed.bind fun a t ht => by
    obtain ⟨ht, rfl⟩ := ht
    exact .pure ⟨ht, rfl⟩

variable (hforward : p.Forward)

include hforward

theorem inject_orderly (hx : Within P x) :
    Orderly P p g r (fun k => (Machine.engine k).inject g r x) w := by
  refine (withFrameFor_halts hP hw (Q := fun _ => True) hx (withFrame_halts (Q := fun _ _ => True)
    hw (fun f _ hwithin => ?_) fun _ _ _ _ => trivial)).bind
      fun _ t ht => perform_resume_halts hP hforward ht.1 (within_of_holds_zero rfl)
  have hout := hw.setFrame (x := none) nofun
  have hremoved : Halts P (fun _ s => Within P s.1 ∧ s.2.Confined P p g r)
      (fun s => Within P s.1 ∧ s.2.Confined P p g r) (fun k =>
        ((Machine.engine k).replace Frame.removeDelegate).onInterruption
          (Run.shared ((Machine.engine k).releaseException x))) (f, w.setFrame r none) :=
    ((replace_halts hP hout keepsWithin_removeDelegate hwithin).mono (fun _ _ h => h.2)
      fun _ h => h).onInterruption fun _ h => h.elim
  refine hremoved.bind fun _ s hs => ?_
  obtain ⟨b, t⟩ := s
  exact (replace_halts hP hs.2 (keepsWithin_replacePending hx) hs.1).mono
    (fun _ _ h => ⟨h.2.1, h.2.2, trivial⟩) fun _ h => h.elim

theorem raiseIntoFrame_orderly {type : Value} {value : Option Value} (htype : Within P type)
    (hvalue : Within P value) (traceback : Option Traceback) :
    Orderly P p g r (fun k => (Machine.engine k).raiseIntoFrame g r type value traceback) w := by
  refine owningAll_orderly hP (fun u hu => ?_) ?_
  · exact Or.inl (within_values_iff.1 (within_toList_iff.2 hvalue) u hu)
  · refine (normalize_orderly hw htype hvalue).bind fun y t ht => ?_
    cases traceback with
    | none => exact inject_orderly hP ht.2 hforward ht.1
    | some _ => exact inject_orderly hP ht.2 hforward (ht.1.le (holds_setTraceback _ _).le)

omit hforward in
/-- A delegate that failed to close is given up. -/
theorem abandonDelegate_orderly [Holder α] (hx : Within P x) :
    Orderly P p g r (fun k => ((Machine.engine k).abandonDelegate r x : Run World α)) w := by
  obtain ⟨n, hbehind⟩ := World.exists_behind p r w
  exact ((finishDelegation_halts hP hw (within_of_holds_zero rfl) hbehind).onInterruption
    fun t ht => releaseException_halts hP ht hx).bind fun _ t ht => Halts.raise hx ht.1

theorem throwInto_orderly {type : Value} {value : Option Value} (htype : Within P type)
    (hvalue : Within P value) (traceback : Option Traceback) :
    Orderly P p g r (fun k => (Machine.engine k).throwInto g r type value traceback) w := by
  have hvalues : ∀ u ∈ value.toList, Within P u ∨ u = .frame r := fun u hu =>
    Or.inl (within_values_iff.1 (within_toList_iff.2 hvalue) u hu)
  have howned : ∀ u ∈ .frame r :: value.toList, Within P u ∨ u = .frame r := fun u hu => by
    rcases List.mem_cons.1 hu with rfl | hu
    · exact Or.inr rfl
    · exact hvalues u hu
  have hraise : ∀ {held : List Value} {t : World}, Within P held → t.Confined P p g r →
      Orderly P p g r (fun k => Run.ensuring
        ((Machine.engine k).raiseIntoFrame g r type value traceback)
        ((Machine.engine k).releaseAll (held ++ [.frame r]))) t := fun hheld ht =>
    owningAll_orderly hP (fun u hu => by
      rcases List.mem_append.1 hu with hu | hu
      · exact Or.inl (within_values_iff.1 hheld u hu)
      · exact Or.inr (List.mem_singleton.1 hu))
      (raiseIntoFrame_orderly hP ht hforward htype hvalue traceback)
  refine ((readFrame_halts hw).onInterruption fun t ht => releaseOwned_halts hP ht howned).bind
    fun f t ht => ?_
  obtain ⟨rfl, hwithin⟩ := ht
  have hdelegate := (within_frame_iff.1 hwithin).2.2.1
  cases hinner : f.delegate with
  | none => exact hraise (within_of_holds_zero rfl) hw
  | some inner =>
      rw [hinner] at hdelegate
      have hinner' : Within P inner := hdelegate
      have hforget : ∀ u ∈ inner :: .frame r :: value.toList, Within P u ∨ u = .frame r := fun u hu => by
        rcases List.mem_cons.1 hu with rfl | hu
        · exact Or.inl hinner'
        · exact howned u hu
      refine (share_orderly hw inner).bind fun _ t ht => ?_
      by_cases hexit : type.exceptionKind = some .generatorExit
      · simp only [if_pos hexit]
        have hclosed : Halts P (fun a u => u.Confined P p g r ∧ Within P a) (fun u => u.Confined P p g r)
            (fun k => World.whileRunning g ((Machine.engine k).closeIter inner)) t :=
          whileRunning_halts ((closeIter_orderly hP (confined_setRunning ht.2 true) hinner').imp
            fun _ _ h => ⟨h.2, h.1⟩)
        refine (hclosed.attempt.onInterruption fun u hu => releaseOwned_halts hP hu hforget).bind
          fun outcome u hu => ?_
        cases outcome with
        | ok v => exact hraise (within_cons_iff.2 ⟨hu.2, within_singleton_iff.2 hinner'⟩) hu.1
        | error x => exact owningAll_orderly hP hforget (abandonDelegate_orderly hP hu.2 hu.1)
      · simp only [if_neg hexit]
        cases inner with
        | generator i =>
            exact absurd (within_value_iff.1 hinner' (.generator i) List.mem_cons_self) (hP.generator i)
        | iterator i =>
            refine ((closeForThrow_halts ht.2 hinner').onInterruption fun u hu =>
              releaseOwned_halts hP hu hforget).bind fun closed u hu => ?_
            obtain ⟨hu, rfl⟩ := hu
            exact hraise (within_singleton_iff.2 hinner') hu
        | _ => exact hraise (within_singleton_iff.2 hinner') ht.2

/-! ## Answers -/

theorem answerThrow_orderly (thrown : Throw) (htype : Within P thrown.type)
    (hvalue : Within P thrown.value) (htraceback : Within P thrown.traceback) :
    Orderly P p g r (fun k => (Machine.engine k).answerThrow g thrown) w := by
  refine owning_orderly hP htype ?_
  have hrefused : ∀ x : Exception, holds x = 0 → Orderly P p g r (fun k =>
      Run.ensuring (Run.raise x : Run World Value)
        ((Machine.engine k).releaseAll (thrown.traceback.toList ++ thrown.value.toList))) w := fun x hx =>
    owningAll_orderly hP (fun u hu => Or.inl (by
      rcases List.mem_append.1 hu with hu | hu
      · exact within_values_iff.1 (within_toList_iff.2 htraceback) u hu
      · exact within_values_iff.1 (within_toList_iff.2 hvalue) u hu))
      (Halts.raise (within_of_holds_zero hx) hw)
  cases htrace : Engine.tracebackOf thrown.traceback with
  | error x =>
      have hx : holds x = 0 := by
        unfold Engine.tracebackOf at htrace
        split at htrace <;> cases htrace
        rfl
      exact hrefused x hx
  | ok traceback =>
      cases hrunning : (w.generator g).running with
      | true =>
          refine (hrefused .alreadyExecuting rfl).congr fun k => ?_
          simp only [Run.bind_apply, Run.get_apply, hrunning, if_true]
      | false =>
          cases hslot : (w.generator g).frame with
          | none =>
              refine (hrefused .stopIteration rfl).congr fun k => ?_
              simp only [Run.bind_apply, Run.get_apply, hrunning, hslot, if_false, Bool.false_eq_true]
          | some s =>
              obtain rfl := hw.slot s hslot
              refine ((share_orderly hw (.frame s)).bind fun _ t ht =>
                throwInto_orderly hP ht.2 hforward htype hvalue traceback).congr fun k => ?_
              simp only [Run.bind_apply, Run.get_apply, hrunning, hslot, if_false, Bool.false_eq_true]

omit hforward hw in
/-- What is done once the delegate was asked to close. -/
theorem concludeClosing_orderly {m : Nat → Run World Value}
    (hm : Halts P (fun a u => u.Confined P p g r ∧ Within P a) (fun u => u.Confined P p g r) m w) :
    Orderly P p g r (fun k => do
      match ← Run.attempt (m k) with
      | .ok v => (Machine.engine k).owning v ((Machine.engine k).dropDelegate r)
      | .error x =>
          if x.isCaughtBy .stopIteration || x.isCaughtBy .generatorExit then
            Run.ensuring ((Machine.engine k).dropDelegate r) ((Machine.engine k).releaseException x)
          else (Machine.engine k).abandonDelegate r x) w := by
  have hdropped : ∀ {u : World}, u.Confined P p g r →
      Orderly P p g r (fun k => (Machine.engine k).dropDelegate r) u := fun hu =>
    (dropDelegate_halts hP hu).imp fun _ _ h => ⟨within_of_holds_zero rfl, h⟩
  refine hm.attempt.bind fun outcome u hu => ?_
  cases outcome with
  | ok v => exact owning_orderly hP hu.2 (hdropped hu.1)
  | error x =>
      by_cases hx : (x.isCaughtBy .stopIteration || x.isCaughtBy .generatorExit) = true
      · simp only [hx, if_true]
        exact owningAll_orderly hP (fun y hy => Or.inl (within_values_iff.1 hu.1 y hy))
          (hdropped hu.2)
      · simp only [if_neg hx]
        exact abandonDelegate_orderly hP hu.2 hu.1

omit hforward in
theorem closeDelegate_halts :
    Halts P (fun _ t => t.Confined P p g r) (fun t => t.Confined P p g r)
      (fun k => (Machine.engine k).closeDelegate g r) w := by
  refine (readFrame_halts hw).bind fun f t ht => ?_
  obtain ⟨rfl, hwithin⟩ := ht
  have hdelegate := (within_frame_iff.1 hwithin).2.2.1
  cases hinner : f.delegate with
  | none => exact .pure hw
  | some inner =>
      rw [hinner] at hdelegate
      have hinner' : Within P inner := hdelegate
      refine (share_orderly hw inner).bind fun _ t ht => ?_
      have hclosed : Halts P (fun a u => u.Confined P p g r ∧ Within P a) (fun u => u.Confined P p g r)
          (fun k => World.whileRunning g ((Machine.engine k).closeIter inner)) t :=
        whileRunning_halts ((closeIter_orderly hP (confined_setRunning ht.2 true) hinner').imp
          fun _ _ h => ⟨h.2, h.1⟩)
      exact (owning_orderly hP hinner' (concludeClosing_orderly hP hclosed)).imp fun _ _ h => h.2

theorem closeWith_orderly : Orderly P p g r (fun k => (Machine.engine k).closeWith g r) w := by
  refine (closeDelegate_halts hP hw).bind fun _ t ht => ?_
  refine (leavePending_halts hP ht (within_of_holds_zero rfl)).bind fun _ u hu => ?_
  refine (perform_resume_halts hP hforward hu (within_of_holds_zero rfl)).attempt.bind
    fun outcome x hx => ?_
  cases outcome with
  | ok v => exact owning_orderly hP hx.1 (Halts.raise (within_of_holds_zero rfl) hx.2)
  | error y =>
      by_cases hy : (y.isCaughtBy .stopIteration || y.isCaughtBy .generatorExit) = true
      · simp only [hy, if_true]
        exact ((releaseException_halts hP hx.2 hx.1).mono (fun _ _ h => h) fun _ h => h.elim).bind
          fun _ _ hz => .pure ⟨within_of_holds_zero rfl, hz⟩
      · simp only [if_neg hy]
        exact Halts.raise hx.1 hx.2

theorem answerClose_orderly : Orderly P p g r (fun k => (Machine.engine k).answerClose g) w := by
  cases hrunning : (w.generator g).running with
  | true =>
      refine (Halts.raise (x := .alreadyExecuting) (within_of_holds_zero rfl) hw).congr fun k => ?_
      simp only [Engine.answerClose, Run.bind_apply, Run.get_apply, hrunning, if_true]
  | false =>
      cases hslot : (w.generator g).frame with
      | none =>
          refine Halts.of_ok (a := .none) (fun k => ?_) ⟨within_of_holds_zero rfl, hw⟩
          simp only [Engine.answerClose, Run.bind_apply, Run.get_apply, hrunning, hslot, if_false,
            Bool.false_eq_true]
          rfl
      | some s =>
          obtain rfl := hw.slot s hslot
          refine ((share_orderly hw (.frame s)).bind fun _ t ht =>
            (owningFrame_halts hP (Q := Within P) ((closeWith_orderly hP ht.2 hforward).imp
              fun _ _ h => ⟨h.2, h.1⟩)).imp fun _ _ h => ⟨h.2, h.1⟩).congr fun k => ?_
          simp only [Engine.answerClose, Run.bind_apply, Run.get_apply, hrunning, hslot, if_false,
            Bool.false_eq_true]

/-- Every operation on the generator halts. -/
theorem call_orderly (method : Method) {args : List Value} (hargs : Within P args) :
    Orderly P p g r (fun k => (Machine.engine k).call g method args) w := by
  have hfirst : Within P (args.head?.getD .none) := within_getD fun o ho => by
    cases args with
    | nil => rfl
    | cons u us => exact (within_cons_iff.1 hargs).1 o ho
  have hlater : ∀ i : Nat, Within P args[i]? := fun i => by
    cases hv : args[i]? with
    | none => exact within_of_holds_zero rfl
    | some u => exact within_values_iff.1 hargs u (List.mem_of_getElem? hv)
  have hnext := perform_resume_halts hP hforward hw (v := .none) (within_of_holds_zero rfl)
  cases method with
  | next => exact hnext
  | nextOrEnd =>
      refine Halts.bind (Q := fun item t => Within P item ∧ t.Confined P p g r) ?_ fun item t ht => ?_
      · refine hnext.attempt.bind fun outcome t ht => ?_
        cases outcome with
        | ok v => exact .pure ht
        | error x =>
            by_cases hx : x.kind = .stopIteration
            · simp only [if_pos hx]
              exact ((releaseException_halts hP ht.2 ht.1).mono (fun _ _ h => h) fun _ h => h.elim).bind
                fun _ u hu => .pure ⟨within_of_holds_zero rfl, hu⟩
            · simp only [if_neg hx]
              exact Halts.raise ht.1 ht.2
      · cases item with
        | none => exact .pure ⟨within_of_holds_zero rfl, ht.2⟩
        | some v => exact .pure ht
  | send =>
      have hrefused : ∀ x : Exception, holds x = 0 → Orderly P p g r (fun k =>
          (Machine.engine k).owning (args.head?.getD .none) (Run.raise x : Run World Value)) w :=
        fun x hx => owning_orderly hP hfirst (Halts.raise (within_of_holds_zero hx) hw)
      cases hslot : (w.generator g).frame with
      | none =>
          refine (hrefused .stopIteration rfl).congr fun k => ?_
          simp only [Engine.call, Engine.send, Run.bind_apply, Run.get_apply, hslot]
      | some s =>
          cases hstarted : w.isJustStarted s && !(args.head?.getD .none).isNone with
          | true =>
              refine (hrefused (.typeError "can't send non-None value to a just-started generator")
                rfl).congr fun k => ?_
              simp only [Engine.call, Engine.send, Run.bind_apply, Run.get_apply, hslot, hstarted, if_true]
          | false =>
              refine (perform_resume_halts hP hforward hw hfirst).congr fun k => ?_
              simp only [Engine.call, Engine.send, Run.bind_apply, Run.get_apply, hslot, hstarted, if_false,
                Bool.false_eq_true]
              rfl
  | throw =>
      exact Halts.of_succ (answerThrow_orderly hP hw hforward
        ⟨args.head?.getD .none, args[1]?, args[2]?⟩ hfirst (hlater 1) (hlater 2))
  | close => exact Halts.of_succ (answerClose_orderly hP hw hforward)
  | yieldFrom =>
      have hdelegate : Within P ((w.delegateOf g).getD .none) := by
        unfold World.delegateOf
        cases hslot : (w.generator g).frame with
        | none => exact within_of_holds_zero rfl
        | some s =>
            obtain rfl := hw.slot s hslot
            simp only [Option.bind_eq_bind, Option.bind_some]
            cases hf : w.frame? s with
            | none => exact within_of_holds_zero rfl
            | some f => exact within_getD (within_frame_iff.1 (hw.frame f hf)).2.2.1
      exact (share_orderly hw _).bind fun _ t ht => .pure ⟨hdelegate, ht.2⟩
  | state => exact Halts.of_ok (fun _ => rfl) ⟨within_of_holds_zero rfl, hw⟩
  | running => exact Halts.of_ok (fun _ => rfl) ⟨within_of_holds_zero rfl, hw⟩
  | frame => exact Halts.of_ok (fun _ => rfl) ⟨within_of_holds_zero rfl, hw⟩

end Ending

end Resumable
