import Resumable.Proofs.Repose

set_option autoImplicit false

/-!
# Resumed generators come to rest

A resume takes the exception that waits in the frame, hands over what is sent and runs the body.  The body
leaves the frame at rest, unless it is abandoned, and what is done afterwards keeps it there.

So the machine brings the frame of a generator to rest whatever it is asked for, as long as the generator is
not resumed while it is crossed (`observed_guards`).  An observer sees to that.
-/

namespace Resumable

open Run (Keeps Leaves Marked Meets Sustains)
open World (After Broken Follows Unwinding)

variable {α : Type} {g i : GeneratorRef} {r : FrameRef} {w t u : World} {e : Engine} {ρ σ : Prop}
  {f : Frame} {p : Code.Program}

/-! ## Bodies -/

/-- A frame that a body leaves behind is at rest, and instructions have been carried out. -/
structure Frame.Arrived (p : Code.Program) (f : Frame) : Prop where
  sits : f.Sits p
  rests : ∃ point, f.RestsAt p point
  started : f.position ≠ Frame.notStarted

theorem Frame.Suspended.arrived {suspension : Suspension} (h : f.Suspended p suspension)
    (hunladen : f.Unladen) : f.Arrived p := by
  obtain ⟨hprepared, point, hrests, hne⟩ := h.rests
  exact ⟨⟨hunladen.input, hprepared, Or.inl ⟨point, hrests⟩⟩, ⟨point, hrests⟩, hrests.started hne⟩

theorem Frame.Sits.given (h : f.Sits p) (v : Value) : (f.given v).Prepared p := by
  unfold Frame.given
  split
  · exact h.prepared
  · exact ⟨h.prepared.start, fun hdelegate => (h.prepared.delegate hdelegate).congr rfl rfl rfl rfl rfl⟩

/-- What a body makes of a frame that is given a value. -/
theorem codeResume_arrives (he : e.Lenient) {c : CodeObject} (hbody : c.body = .program p)
    (closure : Value) (pending : Option Exception) (v : Value) (h : f.Sits p)
    (hunfinished : f.isFinished = false) (htaken : f.pending = none)
    (hpending : pending.isSome = true → f.delegate = none) :
    Leaves (fun suspension b => b.Arrived p ∧
        ∀ result, suspension = .delegateExhausted result → b.RestsAt p .delegating)
      (·.Arrived p) (fun _ => True) (c.resume e closure pending) (f.given v) := by
  have hsame : ∀ {α : Type} (q : Frame → α), (∀ x, q { f with input := x } = q f) →
      q (f.given v) = q f := fun q hq => by
    unfold Frame.given
    split
    · rfl
    · exact hq _
  have hran := p.resume_rests he closure pending (h.given v)
    ((hsame Frame.isFinished fun _ => rfl).trans hunfinished)
    ((hsame Frame.pending fun _ => rfl).trans htaken)
    (fun hsome => (hsame Frame.delegate fun _ => rfl).trans (hpending hsome))
  unfold CodeObject.resume
  rw [hbody]
  refine hran.mono (fun suspension b hb => ⟨hb.2.arrived hb.1, ?_⟩) (fun b hb => ?_) fun _ _ => True.intro
  · rintro result rfl
    exact hb.2.2
  · exact (show b.Suspended p (.returned .none) from hb.2).arrived hb.1

/-! ## Running a body -/

namespace Engine.Upholds

variable {P U B : World → Prop} (h : e.Upholds P U B)
  (hset : ∀ {b : Bool} {w : World} (x : Option Frame), Marked P U b w → Marked P U b (w.setFrame r x))

include h hset

/-- A frame is let go of, where nothing depends on that frame. -/
theorem letGo : Keeps P U B (e.letGo r) := by
  refine h.owning (Run.keeps_get.bind fun t => ?_) _
  split
  · exact h.withFrame hset (Keeps.bind (fun _ _ hs => hs) fun _ => h.replace _)
  · exact Run.keeps_pure _

/-- A body is run, where nothing depends on the frame or on the mark of its generator. -/
theorem startBody (hmark : ∀ {b : Bool} {w : World} (x : Bool), Marked P U b w →
    Marked P U b (w.setRunning i x)) (v : Value) : Keeps P U B (e.startBody i r v) := by
  have hmarks : ∀ x, Keeps P U B (modify (·.setRunning i x) : Run World Unit) := fun x _ t ht => hmark x ht
  refine (h.takePending hset).bind fun pending => ?_
  refine ((h.handOver hset v).onInterruption (h.releasePending pending)).bind fun _ => ?_
  refine Keeps.attempt (Run.keeps_get.bind fun s => (hmarks true).bind fun _ => ?_)
  exact (h.withFrame hset (h.codeResume _ _ _)).ensuring (hmarks false)

end Engine.Upholds

/-- After a body has been run, its generator is not running, and how it ended is what the run gives. -/
theorem startBody_idle (he : e.Lenient) (v : Value) :
    Meets (fun _ u => (u.generator i).running = false) (fun _ _ => False) (fun _ => True) (fun _ => True)
      (e.startBody i r v) t := by
  have htake : Run.Silent (Engine.takePending r) :=
    Engine.withFrame_silent fun _ _ _ h => nomatch h
  have hhand : ∀ pending, Run.Silent ((e.handOver r v).onInterruption (e.releasePending pending)) := by
    intro pending
    have hforget : Run.Silent (e.releasePending pending) := by
      cases pending with
      | none => exact Run.silent_pure ()
      | some x => exact Engine.releaseObjects_silent he _
    refine Run.Silent.onInterruption ?_ hforget
    unfold Engine.handOver
    split
    · exact Run.silent_pure ()
    · exact Run.Silent.bind (fun _ _ _ h => nomatch h) fun _ =>
        Engine.withFrameFor_silent he _ (Engine.replace_silent he _)
  have hmarked : ∀ u : World, ((u.setRunning i false).generator i).running = false := fun u => by
    simp [World.setRunning]
  have hran : ∀ pending u, Meets (fun _ v => (v.generator i).running = false)
      (fun _ v => (v.generator i).running = false) (fun _ => True) (fun _ => True)
      (e.runBody i r pending) u := fun pending u =>
    Meets.trivial.ensuring (fun _ v _ => hmarked v) (fun _ v _ => hmarked v) fun _ _ => True.intro
  refine (Meets.trivial.of_silent htake).bind fun pending s _ =>
    (Meets.trivial.of_silent (hhand pending)).bind fun _ u _ => ?_
  exact (hran pending u).attempt.mono (fun outcome _ hv => by cases outcome <;> exact hv)
    (fun _ _ h => h) (fun _ _ => True.intro) fun _ _ => True.intro

/-- The exception that waits in a frame is taken. -/
theorem World.Sits.takePending (ht : t.Sits g) (hf : t.frame? r = some f) (hr : t.Aside g σ r)
    (hfinished : ρ → f.isFinished = true ∨ (t.generator g).frame ≠ some r) :
    After g ρ σ t ((t.setFrame r none).setFrame r (some { f with pending := none })) := by
  refine (ht.takeFrame r).sits.after_self.putFrame hf (fun p hp hslot => ?_) (fun hρ p hp hslot => ?_) hr
  · exact ⟨(ht.frame p hp r f hslot hf).setPending none, fun _ => rfl⟩
  · have hend := (hfinished hρ).resolve_right (fun hne => hne hslot)
    intro _
    rcases (ht.frame p hp r f hslot hf).point with ⟨point, hpoint⟩ | ⟨_, n, _, hposition, _⟩
    · exact ⟨point, hpoint.congr rfl rfl rfl rfl rfl⟩
    · simp [Frame.isFinished, Frame.finished, hposition] at hend

section Own

variable (he : e.Guards g) (ht : t.Sits g) (hslot : (t.generator g).frame = some r)
  (hf : t.frame? r = some f) (hp : t.bodyOf g = .program p)

include ht hslot hf hp

/-- A body that is run on the frame of the generator leaves it at rest. -/
theorem withFrame_arrives {m : Run (Frame × World) α} {Q : α → Frame → Prop}
    (hm : Sustains (After g True True (t.setFrame r none)) Unwinding (Broken g (t.setFrame r none)) m)
    (hleft : Leaves (fun a b => b.Arrived p ∧ Q a b) (·.Arrived p) (fun _ => True) m f) :
    Meets (fun a u => (Follows g t u ∧ u.Calm g) ∧ ∃ b, u.frame? r = some b ∧ Q a b)
      (fun _ u => Follows g t u ∧ u.Calm g) Unwinding (Broken g t) (World.withFrame r m) t := by
  have htaken := ht.takeFrame r
  have hback : ∀ {s b}, After g True True (t.setFrame r none) s → b.Arrived p →
      Follows g t (s.setFrame r (some b)) ∧ (s.setFrame r (some b)).Calm g := by
    intro s b hs hb
    have hprogram : ∀ {p'}, t.bodyOf g = .program p' → p' = p := fun hp' => by
      rw [hp] at hp'
      exact (Body.program.inj hp').symm
    have hfollows : Follows g t (s.setFrame r (some b)) := by
      refine hs.toFollows.putFrame hf fun p' hp' _ => ?_
      rw [hprogram hp']
      exact ⟨hb.sits, fun hstart => absurd hstart hb.started⟩
    refine ⟨hfollows, fun p' hp' k d hk hd _ => ?_⟩
    obtain rfl : r = k := Option.some.inj (hslot.symm.trans (hfollows.slot k hk))
    rw [World.frame_setFrame, if_pos rfl] at hd
    cases hd
    rw [hprogram (hfollows.body.symm.trans hp')]
    exact hb.rests
  have hboth := (hm false (f, t.setFrame r none) (.unmarked htaken.sits.after_self)).and
    (hleft (t.setFrame r none))
  unfold Meets at hboth ⊢
  unfold World.withFrame
  rw [hf]
  simp only [Run.withPrivate]
  generalize m (f, t.setFrame r none) = x at hboth
  rcases x with ⟨a, b, s⟩ | ⟨_ | _ | _, b, s⟩
  case ok => exact ⟨hback hboth.1.1 hboth.2.1, b, by simp, hboth.2.2⟩
  case error.raised => exact hback hboth.1.1 hboth.2
  case error.aborted => exact hboth.1.2 rfl
  case error.outOfFuel => exact hboth.1.imp_left htaken.toFollows.trans

include he

/-- The body of the generator itself is run. -/
theorem runBodyOn_arrives (hunfinished : f.isFinished = false) (htaken : f.pending = none)
    {pending : Option Exception} (hpending : pending.isSome = true → f.delegate = none) (v : Value) :
    Meets (fun suspension u => (Follows g t u ∧ u.Calm g) ∧
        ∀ result, suspension = .delegateExhausted result → u.AtDelegation g r)
      (fun _ u => Follows g t u ∧ u.Calm g) Unwinding (Broken g t)
      (e.runBodyOn g r pending (Frame.given v)) t := by
  let s := t.setRunning g true
  have hs : Follows g t s := ht.setRunning g true
  have hbody : (t.code (t.generator g).code).body = .program p := hp
  have hsits : f.Sits p := ht.frame p hp r f hslot hf
  have hran := withFrame_arrives hs.sits ((t.frame_of_setRunning g g true).trans hslot) hf
    (hs.body.trans hp)
    (Q := fun suspension b => ∀ result, suspension = .delegateExhausted result →
      b.RestsAt p .delegating)
    (m := fun x => (t.code (t.generator g).code).resume e (t.generator g).closure pending
      (x.1.given v, x.2))
    (fun b x hx => (he.after (s.setFrame r none) True True).codeResume _ _ _ b (x.1.given v, x.2) hx)
    (fun x => codeResume_arrives he.lenient hbody (t.generator g).closure pending v hsits hunfinished
      htaken hpending x)
  have hback : ∀ u, Follows g s u ∧ u.Calm g →
      Follows g t (u.setRunning g false) ∧ (u.setRunning g false).Calm g := fun u hu =>
    ⟨(hs.trans hu.1).trans (hu.1.sits.setRunning g false), hu.2.setRunning g false⟩
  refine Meets.ensuring (hran.mono (fun _ _ h => h) (fun _ _ h => h) (fun _ h => h)
    fun _ hu => hu.imp_left hs.trans) (fun suspension u hu => ⟨hback u hu.1, ?_⟩)
    (fun _ u hu => hback u hu) fun _ hu => hu
  rintro result rfl p' hp' _ d hd
  obtain ⟨b, hb, hexhausted⟩ := hu.2
  obtain rfl : b = d := Option.some.inj (hb.symm.trans hd)
  have hprogram : t.bodyOf g = .program p' := (hback u hu.1).1.body.symm.trans hp'
  rw [hp] at hprogram
  cases hprogram
  exact hexhausted result rfl

theorem startBody_own (hunfinished : f.isFinished = false)
    (hplain : f.pending.isSome = true → f.delegate = none) (v : Value) :
    Meets (fun outcome u => (Follows g t u ∧ u.Calm g) ∧
        ∀ result, outcome = .ok (.delegateExhausted result) → u.AtDelegation g r)
      (fun _ _ => False) Unwinding (Broken g t) (e.startBody g r v) t := by
  let b : Frame := { f with pending := none }
  let s := ((t.setFrame r none).setFrame r (some b)).retain v
  have htaken : Follows g t ((t.setFrame r none).setFrame r (some b)) :=
    (ht.takePending (σ := False) (ρ := False) hf (fun h => h.elim) fun h => h.elim).toFollows
  have hquiet : ((t.setFrame r none).setFrame r (some b)).Quiet s := World.quiet_addOwners _ _
  have hs : Follows g t s := htaken.trans (htaken.sits.quiet hquiet).toFollows
  have hpresent : s.frame? r = some b := by
    rw [hquiet.frame, World.frame_setFrame, if_pos rfl]
  have howned : (s.generator g).frame = some r := by
    rw [hquiet.generator, World.generator_setFrame, World.generator_setFrame, hslot]
  have hran := (runBodyOn_arrives he hs.sits howned hpresent (hs.body.trans hp) hunfinished rfl
    hplain v).attempt
  refine Meets.congr (hran.mono (fun outcome u hu => ?_) (fun _ _ h => h.elim) (fun _ h => h)
    fun _ hu => hu.imp_left hs.trans) (startBody_of_empty hf (ht.frame p hp r f hslot hf).input)
  rcases outcome with x | suspension
  · exact ⟨⟨hs.trans hu.1, hu.2⟩, nofun⟩
  · refine ⟨⟨hs.trans hu.1.1, hu.1.2⟩, fun result hresult => hu.2 result ?_⟩
    cases hresult
    rfl

end Own

/-- The mark of another generator. -/
theorem World.Sits.setRunning_other (h : w.Sits g) (hi : i ≠ g) (b : Bool) :
    After g True True w (w.setRunning i b) := by
  have hsame : (w.setRunning i b).generator g = w.generator g := by
    unfold World.setRunning
    rw [World.generator_setGenerator, if_neg hi]
  exact h.after (w.bodyOf_setRunning i b) le_rfl (Store.size_set_le _ _ _)
    (fun j _ hs => (w.frame_of_setRunning i j b).symm.trans hs) (fun _ _ _ hf => hf)
    (fun _ _ => congrArg Generator.running hsame)
    fun hidle => (congrArg Generator.running hsame).trans hidle

/-- Nothing is said of the frame of a generator that follows a script. -/
theorem World.Follows.setFrame_script (h : Follows g w t) (hscript : ∀ p, w.bodyOf g ≠ .program p)
    (r : FrameRef) (x : Option Frame) : Follows g w (t.setFrame r x) where
  sits := by
    refine ⟨fun j s hs => ?_, fun j s hs hj => ?_, fun p hp => absurd (h.body.symm.trans hp) (hscript p)⟩
    · exact (h.sits.made j s (by simpa using hs)).trans_le (Store.size_set_le _ _ _)
    · exact h.sits.alone j s (by simpa using hs) (by simpa using hj)
  count := h.count
  body := h.body
  slot s hs := h.slot s (by simpa using hs)
  fresh p hp := absurd hp (hscript p)

section Resume

variable (he : e.Guards g)

include he

/-- The body of another generator does not touch the frame. -/
theorem startBody_apart (hr : (w.generator g).frame ≠ some r) (hi : i ≠ g) (v : Value) :
    Keeps (After g True True w) Unwinding (Broken g w) (e.startBody i r v) :=
  (he.after w True True).startBody
    (fun x hs => ⟨hs.1.next (hs.1.sits.setFrame (fun h => hr (hs.1.slot r h)) x), hs.2⟩)
    (fun x hs => ⟨hs.1.next (hs.1.sits.setRunning_other hi x), hs.2⟩) v

theorem startBody_script (hscript : ∀ p, w.bodyOf g ≠ .program p) (v : Value) :
    Keeps (Follows g w) Unwinding (Broken g w) (e.startBody i r v) :=
  (he.upholds (X := Follows g w) (fun _ hs => hs.sits) (fun _ _ hs hu => hs.trans hu.toFollows)
    (fun _ _ hs hu => Or.inl (hs.trans hu)) fun _ hu => Or.inr hu).startBody
    (fun x hs => ⟨hs.1.setFrame_script hscript r x, hs.2⟩)
    (fun x hs => ⟨hs.1.trans (hs.1.sits.setRunning i x), hs.2⟩) v

/-- What running the body of a generator leads to, from a world in which the frame is in its cell. -/
theorem startBody_after (ht : t.Sits g) (hslot : (t.generator i).frame = some r) (hf : t.frame? r = some f)
    (hunfinished : f.isFinished = false) (hcrossed : i = g → t.isCrossed g = false) (v : Value) :
    Meets (fun outcome u => After g True (i ≠ g) t u ∧
        ∀ result, outcome = .ok (.delegateExhausted result) → u.AtDelegation g r)
      (fun _ => After g True (i ≠ g) t) Unwinding (Broken g t) (e.startBody i r v) t := by
  have hsettled : ∀ {u}, Follows g t u → (u.generator g).running = false → u.Calm g → i = g →
      After g True (i ≠ g) t u := fun hu hidle hcalm hi =>
    ⟨hu, fun _ => hidle, fun _ _ => hcalm, fun hne => absurd hi hne⟩
  by_cases hi : i = g
  · subst hi
    by_cases hprogram : ∃ p, t.bodyOf i = .program p
    · obtain ⟨p, hp⟩ := hprogram
      have hplain : f.pending.isSome = true → f.delegate = none := by
        have hcrossed := hcrossed rfl
        rw [World.isCrossed, hslot, Option.bind_some, hf] at hcrossed
        intro hpending
        simpa [hpending] using hcrossed
      have hran := (startBody_own he ht hslot hf hp hunfinished hplain v).and (startBody_idle he.lenient v)
      exact hran.mono (fun _ u hu => ⟨hsettled hu.1.1.1 hu.2 hu.1.1.2 rfl, hu.1.2⟩)
        (fun _ _ hu => hu.1.elim) (fun _ hu => hu.1) fun _ hu => hu.1
    · have hscript : ∀ p, t.bodyOf i ≠ .program p := fun p hp => hprogram ⟨p, hp⟩
      have hkept := ((startBody_script he hscript v (i := i) (r := r)) false t
        (.unmarked ht.after_self.toFollows)).and (startBody_idle he.lenient v)
      refine hkept.mono (fun _ u hu => ⟨hsettled hu.1.1 hu.2 (fun p hp => ?_) rfl, fun _ _ p hp => ?_⟩)
        (fun _ _ hu => hu.2.elim) (fun _ hu => hu.1.2 rfl) fun _ hu => hu.1
      · exact absurd (hu.1.1.body.symm.trans hp) (hscript p)
      · exact absurd (hu.1.1.body.symm.trans hp) (hscript p)
  · have hr : (t.generator g).frame ≠ some r := ht.aside hslot hi
    have hkept := startBody_apart he hr hi v false t (.unmarked ht.after_self)
    refine hkept.mono (fun _ u hu => ⟨hu.1.mono id fun _ => True.intro, fun _ _ p _ hk => ?_⟩)
      (fun _ _ hu => hu.1.mono id fun _ => True.intro) (fun _ hu => hu.2 rfl) fun _ hu => hu
    exact absurd (hu.1.slot r hk) hr

/-! ## What is done afterwards -/

theorem terminate_after : Keeps (After g ρ σ w) Unwinding (Broken g w) (e.terminate i) := by
  intro b t ht
  cases hslot : (t.generator i).frame with
  | none =>
      unfold Meets
      rw [terminate_of_frameless hslot]
      exact ht
  | some r =>
      have hfree : After g True True t (t.frameless i) := ht.1.sits.frameless rfl rfl rfl
      have hr : ((t.frameless i).generator g).frame ≠ some r := by
        unfold World.frameless
        rw [World.generator_setGenerator]
        split
        · exact nofun
        · next hne => exact ht.1.sits.aside hslot hne
      have hgone := (he.after (t.frameless i) True True).letGo
        (fun x hs => ⟨hs.1.next (hs.1.sits.setFrame (fun h => hr (hs.1.slot r h)) x), hs.2⟩) b (t.frameless i)
        ⟨hfree.sits.after_self, ht.2⟩
      have hnext := ht.1.next hfree
      exact Meets.congr (hgone.mono (fun _ _ hu => ⟨hnext.next hu.1, hu.2⟩)
        (fun _ _ hu => ⟨hnext.next hu.1, hu.2⟩) (fun _ hu => ⟨hnext.next hu.1, hu.2⟩)
        fun _ hu => hu.imp_left hnext.toFollows.trans) (terminate_of_frame hslot)

/-- What is done once the body has ended. -/
theorem settleBody_after (ht : t.Sits g) (hr : t.Aside g (i ≠ g) r) (outcome : Except Exception Suspension)
    (hat : ∀ result, outcome = .ok (.delegateExhausted result) → t.AtDelegation g r) :
    t.Handles g (i ≠ g) True True t (e.settleBody i r outcome) := by
  have h := he.after t True (i ≠ g)
  have hself : After g True (i ≠ g) t t := ht.after_self.mono id fun _ => True.intro
  rcases outcome with x | v | v | v
  · exact hself.handles (((terminate_after he).onInterruption (h.releaseException x)).bind fun _ =>
      Run.keeps_raise x)
  · exact Meets.pure hself
  · exact hself.handles (((terminate_after he).onInterruption (h.release v)).bind fun _ =>
      Run.keeps_raise _)
  · exact ((finishDelegation_after he ht hr v (hat v rfl)).mono (fun _ _ hu => hu) (fun _ _ hu => hu.elim)
      (fun _ hu => hu) fun _ hu => hu).bind fun _ _ hu => Meets.pure hu

theorem resumeFrame_after (ht : t.Sits g) (hslot : (t.generator i).frame = some r)
    (hcrossed : i = g → t.isCrossed g = false) (v : Value) :
    t.Responds g (i ≠ g) t (e.resumeFrame i r v) := by
  have h := he.after t True (i ≠ g)
  have hr := ht.aside hslot
  cases hf : t.frame? r with
  | none =>
      have hvacant : e.resumeFrame i r v t = World.abort t := by
        unfold Engine.resumeFrame
        rw [Run.bind_error (takePending_vacant hf)]
        rfl
      have haborted : t.Responds g (i ≠ g) t (World.abort : Run World (Option Value)) := rfl
      exact haborted.congr hvacant
  | some f =>
      by_cases hfinished : f.isFinished = true
      · have htaken : After g True (i ≠ g) t ((t.setFrame r none).setFrame r (some { f with pending := none })) :=
          ht.takePending hf hr fun _ => Or.inl hfinished
        have hended : Keeps (After g True (i ≠ g) t) Unwinding (Broken g t)
            (Run.ensuring (do e.terminate i; Run.raise .stopIteration : Run World (Option Value))
              (e.releasePending f.pending)) :=
          ((terminate_after he).bind fun _ => Run.keeps_raise _).ensuring (h.releasePending _)
        exact Meets.congr (htaken.handles hended).responds (resumeFrame_of_finished hf hfinished)
      · have hunfinished : f.isFinished = false := by simpa using hfinished
        refine Meets.congr (Meets.bind (startBody_after he ht hslot hf hunfinished hcrossed v)
          fun outcome u hu => ?_) (resumeFrame_of_unfinished hf hunfinished)
        exact World.Responds.lift (settleBody_after he hu.1.sits (hu.1.toFollows.aside hr) outcome hu.2).responds
          hu.1

theorem proceed_after (ht : t.Sits g) (hslot : (t.generator i).frame = some r)
    (hcrossed : i = g → t.isCrossed g = false) (v : Value) :
    t.Responds g (i ≠ g) t (e.proceed i r v) := by
  have h := he.after t True (i ≠ g)
  have hcleans : Keeps (After g True (i ≠ g) t) Unwinding (Broken g t) (do World.leave; e.release v) :=
    h.leave.bind fun _ => h.release v
  have hsilent : Run.Silent (do World.leave; e.release v : Run World Unit) :=
    Run.Silent.bind (fun _ _ _ h => nomatch h) fun _ => Engine.releaseObjects_silent he.lenient _
  have hg := (he.abandoning t).leave.bind fun _ => (he.abandoning t).release v
  have hran : t.Responds g (i ≠ g) t ((e.resumeFrame i r v).onInterruption do World.leave; e.release v) := by
    refine (resumeFrame_after he ht hslot hcrossed v).onInterruption (fun x u hu => ?_) fun u hu => ?_
    · exact (hcleans false u (.unmarked hu)).mono (fun _ _ h => h.1) (fun _ _ h => h.1) (fun _ h => h.2 rfl)
        fun _ h => h
    · exact ((hg true u ⟨hu, fun _ => hu⟩).of_silent hsilent).mono (fun _ _ h => h.1) (fun _ _ h => h)
        (fun _ h => h.1) fun _ h => h
  refine hran.bind fun outcome u hu => ?_
  cases outcome with
  | some result =>
      exact (hu.handles (h.leave.bind fun _ => (h.release v).bind fun _ =>
        Run.keeps_pure result)).responds
  | none => exact (hu.handles ((h.requests _).ensuring h.leave)).responds

/-- The answer to the request to resume a generator. -/
theorem resume_after (ht : t.Sits g) (hcrossed : i = g → t.isCrossed g = false) (v : Value) :
    t.Responds g True t (e.resume i v) := by
  have h := he.after t True True
  cases hrefused : t.refusal? i with
  | some x =>
      have hkept : Keeps (After g True True t) Unwinding (Broken g t) (e.refuse x [v] : Run World Value) :=
        (h.releaseAll _).bind fun _ => Run.keeps_raise x
      refine Meets.congr ?_ (Engine.resume_refused hrefused v)
      exact (hkept false t (.unmarked ht.after_self)).mono (fun _ _ h => h.1) (fun _ _ h => h.1)
        (fun _ h => h.2 rfl) fun _ h => h
  | none =>
      obtain ⟨hidle, r, hslot⟩ := World.refusal?_eq_none.1 hrefused
      have hshared : t.Quiet (t.retain (.frame r)) := t.quiet_addOwners _
      have hs := ht.quiet hshared
      refine World.Responds.of_idle (Meets.congr (World.Responds.lift (he.forgetAnswer ?_ _)
        (hs.mono id fun _ => True.intro)) (resume_of_idle hidle hslot)) hidle
      have hentered : Meets (fun _ u => (t.retain (.frame r)).Quiet u)
          (fun _ => After g True (i ≠ g) (t.retain (.frame r))) (fun _ => False)
          (Broken g (t.retain (.frame r))) World.enter (t.retain (.frame r)) := by
        unfold Meets World.enter
        cases (t.retain (.frame r)).thread.enter? with
        | none => exact hs.sits.after_self.mono id fun _ => True.intro
        | some thread => exact World.quiet_setThread _ thread
      refine Meets.bind (hentered.onInterruption (fun _ u hu => ?_) fun _ hu => hu.elim) fun _ u hu => ?_
      · exact (he.forgets _ hu).mono (fun _ _ h => h) (fun _ _ h => h.elim) (fun _ h => h.elim) fun _ h => h
      · have hquiet := hshared.trans hu
        have hu := hs.sits.quiet hu
        refine World.Responds.lift (proceed_after he hu.sits
          ((congrArg Generator.frame (hquiet.generator i)).trans hslot) (fun hi => ?_) v)
            (hu.mono id fun _ => True.intro)
        rw [hquiet.isCrossed, hcrossed hi]

end Resume

/-! ## The machine -/

/-- The answer to a request, unless the request is to resume the generator in question while that is
crossed. -/
theorem answer_after (he : e.Guards g) (ht : t.Sits g) {request : Request}
    (hcrossed : ∀ v, request = .resume g v → t.isCrossed g = false) :
    t.Responds g True t (request.answer e) := by
  cases request with
  | resume i v => exact resume_after he ht (fun hi => hcrossed v (hi ▸ rfl)) v
  | throw i thrown => exact answerThrow_after he ht thrown
  | close i => exact answerClose_after he ht
  | reclaim o => exact Meets.bind (reclaim_after he ht o) fun _ _ hu => Meets.pure hu

/-- The observer breaks off a run that is about to resume the generator while that is crossed, and a run in
which a computation is being abandoned. -/
structure Observer.Heeds (o : Observer) (g : GeneratorRef) : Prop where
  minds : o.Minds g
  unwinding : ∀ event w, w.unwinding = true → o.stops event w = true

theorem see_after (o : Observer) {E : Exception → World → Prop} {A : World → Prop} (event : Event)
    (ht : After g True True w t) :
    Meets (fun _ u => After g True True w u ∧ o.stops event u = false) E A (Broken g w)
      (o.see event) t := by
  have hnoted := ht.next (ht.sits.quiet (t.quiet_setHeld (o.note event t)))
  unfold Meets
  rcases Machine.see_cases o event t with ⟨hstops, hsee⟩ | ⟨hgoes, hsee⟩
  · rw [hsee]
    exact Or.inl (hnoted.next (hnoted.sits.quiet (World.quiet_setThread _ _))).toFollows
  · rw [hsee]
    exact ⟨hnoted, (see_eq_ok.1 hsee).1⟩

/-- No computation that is being abandoned gets past an event. -/
theorem see_unwinding {o : Observer} (ho : o.Heeds g) {Q : Unit → World → Prop}
    {E : Exception → World → Prop} {A : World → Prop} (event : Event) (hw : Unwinding w) :
    Meets Q E A Unwinding (o.see event) w := by
  unfold Meets
  rcases Machine.see_cases o event w with ⟨_, hsee⟩ | ⟨_, hsee⟩
  · rw [hsee]
    exact hw
  · obtain ⟨hgoes, _⟩ := see_eq_ok.1 hsee
    rw [ho.unwinding event (w.noted (o.note event w)) hw] at hgoes
    cases hgoes

/-- Under an observer that heeds a generator the machine brings its frame to rest, with any fuel. -/
theorem observed_guards {o : Observer} (ho : o.Heeds g) (n : Nat) :
    (Machine.observedEngine o n).Guards g := by
  induction n with
  | zero => exact ⟨observed_lenient o 0, fun hw _ => Or.inl hw.after_self.toFollows, fun hw _ => hw⟩
  | succ n ih =>
      refine ⟨observed_lenient o (n + 1), fun {w} hw request => ?_, fun hw request =>
        Meets.bind (Q := fun _ _ => False) (see_unwinding ho _ hw) fun _ _ h => h.elim⟩
      refine Meets.bind (see_after o (.asked request) hw.after_self) fun _ t ht => ?_
      have hcrossed : ∀ v, request = .resume g v → t.isCrossed g = false := by
        rintro v rfl
        by_contra hcrossed
        have hgoes := ht.2
        rw [ho.minds _ v (by simpa using hcrossed)] at hgoes
        cases hgoes
      have hanswer := World.Responds.lift (answer_after ih ht.1.sits hcrossed) ht.1
      refine Meets.ensuring hanswer (fun _ u hu => ?_) (fun _ u hu => ?_) fun u hu => ?_
      · exact (see_after o _ hu).imp fun _ _ h => h.1
      · exact (see_after o _ hu).imp fun _ _ h => h.1
      · exact (see_unwinding ho _ hu).mono (fun _ _ h => h) (fun _ _ h => h) (fun _ h => h)
          fun _ h => Or.inr h

end Resumable
