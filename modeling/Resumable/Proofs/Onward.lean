import Resumable.Proofs.Alignment
import Resumable.Proofs.Results
import Resumable.Proofs.Upholding

set_option autoImplicit false

/-!
# Frames stay aligned

While code runs, code objects stay as they are, generators lose their frames and do not get any, and the
frame of a generator is aligned with the body whenever it is in its cell (`World.Onward`).  Every function of
the model leads onward if its requests do.

There is one condition.  Where a frame has both a delegate and an exception that is to be raised at its
resume point, the generator is crossed: to resume it would leave the delegate behind.  So it must not be
resumed then.
-/

namespace Resumable

open Run (Keeps Maintains Sustains)

variable {α : Type} {g i : GeneratorRef} {r : FrameRef} {w t u : World} {e : Engine}

namespace World

/-- What a generator executes. -/
def bodyOf (w : World) (g : GeneratorRef) : Body := (w.code (w.generator g).code).body

/-- The frame of a generator is nobody else's, and it is aligned with the body while it is in its cell. -/
structure Aligned (w : World) (g : GeneratorRef) : Prop where
  made : ∀ i r, (w.generator i).frame = some r → r.index < w.frames.size
  alone : ∀ i r, (w.generator g).frame = some r → (w.generator i).frame = some r → i = g
  frame : ∀ r f, (w.generator g).frame = some r → w.frame? r = some f → f.Aligned (w.bodyOf g)

/-- A world that another one may lead to.  No generator gets a frame, and that of a generator stays
aligned. -/
structure Onward (g : GeneratorRef) (w t : World) : Prop where
  codes : t.codes = w.codes
  size : w.frames.size ≤ t.frames.size
  code : (t.generator g).code = (w.generator g).code
  slot : ∀ i r, (t.generator i).frame = some r → (w.generator i).frame = some r
  frame : w.Aligned g → ∀ r f, (t.generator g).frame = some r → t.frame? r = some f →
    f.Aligned (w.bodyOf g)

namespace Onward

@[refl] theorem refl (g : GeneratorRef) (w : World) : w.Onward g w where
  codes := rfl
  size := le_rfl
  code := rfl
  slot _ _ h := h
  frame h := h.frame

theorem bodyOf (h : w.Onward g t) : t.bodyOf g = w.bodyOf g := by
  unfold World.bodyOf World.code
  rw [h.codes, h.code]

theorem aligned (h : w.Onward g t) (hw : w.Aligned g) : t.Aligned g where
  made i r hr := lt_of_lt_of_le (hw.made i r (h.slot i r hr)) h.size
  alone i r hg hi := hw.alone i r (h.slot g r hg) (h.slot i r hi)
  frame r f hr hf := h.bodyOf ▸ h.frame hw r f hr hf

theorem trans (h : w.Onward g t) (h' : t.Onward g u) : w.Onward g u where
  codes := h'.codes.trans h.codes
  size := h.size.trans h'.size
  code := h'.code.trans h.code
  slot i r hr := h.slot i r (h'.slot i r hr)
  frame hw r f hr hf := h.bodyOf ▸ h'.frame (h.aligned hw) r f hr hf

/-- A change after which no generator has another frame, and the frames that are in their cells were there
before. -/
theorem of_changes (hcodes : t.codes = w.codes) (hsize : w.frames.size ≤ t.frames.size)
    (hcode : (t.generator g).code = (w.generator g).code)
    (hslot : ∀ i r, (t.generator i).frame = some r → (w.generator i).frame = some r)
    (hframe : ∀ r f, t.frame? r = some f → w.frame? r = some f) : w.Onward g t where
  codes := hcodes
  size := hsize
  code := hcode
  slot := hslot
  frame hw r f hr hf := hw.frame r f (hslot g r hr) (hframe r f hf)

theorem of_quiet (h : w.Quiet t) : w.Onward g t :=
  of_changes h.codes h.size (by rw [h.generator]) (fun i r hr => h.generator i ▸ hr)
    fun r f hf => h.frame r ▸ hf

/-- A generator is marked, or lets go of its frame. -/
theorem setGenerator (w : World) {x : Generator} (hcode : x.code = (w.generator i).code)
    (hslot : ∀ r, x.frame = some r → (w.generator i).frame = some r) :
    w.Onward g (w.setGenerator i x) := by
  refine of_changes rfl le_rfl ?_ (fun j r hr => ?_) fun r f hf => by simpa using hf
  · rw [generator_setGenerator]
    split
    · next heq => rw [hcode, heq]
    · rfl
  · rw [generator_setGenerator] at hr
    split at hr
    · next heq => exact heq ▸ hslot r hr
    · exact hr

theorem setRunning (w : World) (i : GeneratorRef) (b : Bool) : w.Onward g (w.setRunning i b) :=
  setGenerator w rfl fun _ hr => hr

/-- A frame is taken out of its cell. -/
theorem takeFrame (w : World) (r : FrameRef) : w.Onward g (w.setFrame r none) := by
  refine of_changes rfl (Store.size_set_le _ _ _) (by simp) (fun i s hs => by simpa using hs)
    fun s f hf => ?_
  rw [frame_setFrame] at hf
  split at hf
  · cases hf
  · exact hf

/-- A frame is put into its cell. -/
theorem putFrame (h : w.Onward g t) {f : Frame}
    (hf : w.Aligned g → (t.generator g).frame = some r → f.Aligned (w.bodyOf g)) :
    w.Onward g (t.setFrame r (some f)) where
  codes := h.codes
  size := h.size.trans (Store.size_set_le _ _ _)
  code := by simpa using h.code
  slot i s hs := h.slot i s (by simpa using hs)
  frame hw s b hs hb := by
    have hs : (t.generator g).frame = some s := by simpa using hs
    rw [frame_setFrame] at hb
    split at hb
    · next heq =>
      cases hb
      exact hf hw (heq ▸ hs)
    · exact h.frame hw s b hs hb

end Onward

end World

namespace Run

section States

variable {β σ : Type} {P : σ → Prop} {m : Run σ α} {f : α → Run σ β} {c : Run σ Unit} {s : σ}

/-- What follows on a computation may rely on what that came to. -/
theorem stateOf_bind (hm : P (stateOf (m s))) (hf : ∀ a t, m s = .ok a t → P t → P (stateOf (f a t))) :
    P (stateOf ((m >>= f) s)) := by
  rw [bind_apply]
  rcases h : m s with ⟨a, t⟩ | ⟨reason, t⟩ <;> rw [h] at hm
  · exact hf a t h hm
  · exact hm

theorem stateOf_onInterruption (hm : P (stateOf (m s))) (hc : Maintains P c) :
    P (stateOf (m.onInterruption c s)) :=
  Maintains.onInterruption (m := fun _ => m s) (fun _ _ => hm) hc (stateOf (m s)) hm

theorem stateOf_ensuring (hm : P (stateOf (m s))) (hc : Maintains P c) :
    P (stateOf (m.ensuring c s)) :=
  Maintains.ensuring (m := fun _ => m s) (fun _ _ => hm) hc (stateOf (m s)) hm

theorem stateOf_attempt (hm : P (stateOf (m s))) : P (stateOf (Run.attempt m s)) :=
  Maintains.attempt (m := fun _ => m s) (fun _ _ => hm) (stateOf (m s)) hm

end States

variable {τ ω : Type} {A : τ → Prop} {m : Run (τ × ω) α} {b : τ}

theorem Leaves.stateOf (h : Leaves (fun _ => A) A A m b) (w : ω) : A (Run.stateOf (m (b, w))).1 := by
  have hended := h w
  unfold Meets at hended
  rcases hx : m (b, w) with ⟨a, t⟩ | ⟨_ | _ | _, t⟩ <;> rw [hx] at hended <;> exact hended

end Run

open Run (Leaves)

/-- Whatever the world that a computation starts in, and however the computation ends, it leads no further than
onward from a given world. -/
abbrev World.Leads (w : World) (g : GeneratorRef) (m : Run World α) : Prop :=
  Keeps (w.Onward g) (fun _ => True) (w.Onward g) m

/-- The same, for a computation that has a frame of its own as well. -/
abbrev World.LeadsWith (w : World) (g : GeneratorRef) (m : Run (Frame × World) α) : Prop :=
  Sustains (w.Onward g) (fun _ => True) (w.Onward g) m

theorem World.leads_iff {m : Run World α} :
    w.Leads g m ↔ ∀ t, w.Onward g t → w.Onward g (Run.stateOf (m t)) := Run.keeps_iff_maintains

theorem World.leadsWith_iff {m : Run (Frame × World) α} :
    w.LeadsWith g m ↔ ∀ s, w.Onward g s.2 → w.Onward g (Run.stateOf (m s)).2 :=
  Run.keeps_iff_maintains (P := fun s : Frame × World => w.Onward g s.2)

/-- The requests lead onward. -/
def Engine.Advances (e : Engine) (g : GeneratorRef) : Prop :=
  ∀ w request, Maintains (World.Onward g w) (e.perform request)

theorem Engine.Advances.upholds (he : e.Advances g) (w : World) :
    e.Upholds (w.Onward g) (fun _ => True) (w.Onward g) where
  quiet h hw := ⟨hw.1.trans (.of_quiet h), fun _ => True.intro⟩
  marks _ _ := True.intro
  spent _ h := h
  requests request := Run.keeps_iff_maintains.2 (he w request)

/-! ## Frames that are worked on -/

/-- Working on a frame leads onward, if the work does and leaves the frame aligned. -/
theorem World.Onward.withFrame {m : Run (Frame × World) α} (h : w.Onward g t)
    (hm : ∀ s : World, s.LeadsWith g m)
    (hkeeps : w.Aligned g → ∀ f, t.frame? r = some f → (t.generator g).frame = some r →
      f.Aligned (w.bodyOf g) → (Run.stateOf (m (f, t.setFrame r none))).1.Aligned (w.bodyOf g)) :
    w.Onward g (Run.stateOf (World.withFrame r m t)) := by
  unfold World.withFrame
  cases hf : t.frame? r with
  | none => exact h.trans (.of_quiet t.quiet_setUnwinding)
  | some f =>
      have hdone : t.Onward g (Run.stateOf (m (f, t.setFrame r none))).2 :=
        World.leadsWith_iff.1 (hm t) (f, t.setFrame r none) (.takeFrame t r)
      have hkept : w.Aligned g → ((Run.stateOf (m (f, t.setFrame r none))).2.generator g).frame = some r →
          (Run.stateOf (m (f, t.setFrame r none))).1.Aligned (w.bodyOf g) := fun hw hslot =>
        hkeeps hw f hf (hdone.slot g r hslot) (h.frame hw r f (hdone.slot g r hslot) hf)
      have hback := h.trans hdone
      clear hdone
      simp only [Run.withPrivate]
      generalize m (f, t.setFrame r none) = x at hback hkept
      rcases x with ⟨a, b, s⟩ | ⟨_ | _ | _, b, s⟩
      case error.outOfFuel => exact hback
      all_goals exact hback.putFrame hkept

section Onward

variable (he : e.Advances g)

/-- Working on a frame in a way that leaves it aligned with any body. -/
theorem withFrame_onward {m : Run (Frame × World) α} (hm : ∀ s : World, s.LeadsWith g m)
    (hkeeps : ∀ b f, f.Aligned b →
      Leaves (fun _ d => d.Aligned b) (·.Aligned b) (·.Aligned b) m f) :
    w.Leads g (World.withFrame r m) :=
  World.leads_iff.2 fun _ ht => ht.withFrame hm fun _ f _ _ hf => (hkeeps _ f hf).stateOf _

theorem whileRunning_onward {m : Run World α} (hm : w.Leads g m) :
    w.Leads g (World.whileRunning i m) :=
  have hmarks : ∀ b, w.Leads g (modify (·.setRunning i b)) := fun b =>
    World.leads_iff.2 fun t ht => ht.trans (.setRunning t i b)
  (hmarks true).bind fun _ => hm.ensuring (hmarks false)

include he

theorem withFrameFor_onward (vs : List Value) {m : Run (Frame × World) α}
    (hm : ∀ s : World, s.LeadsWith g m)
    (hkeeps : ∀ b f, f.Aligned b →
      Leaves (fun _ d => d.Aligned b) (·.Aligned b) (·.Aligned b) m f) :
    w.Leads g (e.withFrameFor vs r m) :=
  (((he.upholds w).readFrame r).onInterruption ((he.upholds w).releaseAll vs)).bind fun _ =>
    withFrame_onward hm hkeeps

omit he in
/-- A change that leaves a frame aligned. -/
theorem replace_aligned {c : Frame → Frame × List Value} {b : Body} {f : Frame} (h : (c f).1.Aligned b) :
    Leaves (fun _ d => d.Aligned b) (·.Aligned b) (·.Aligned b) (e.replace c) f :=
  replace_leaves h

theorem dropDelegate_onward : w.Leads g (e.dropDelegate r) :=
  withFrame_onward (fun s => (he.upholds s).replace _) fun _ _ _ =>
    replace_aligned (Frame.aligned_of_delegate_none rfl)

theorem leavePending_onward (x : Exception) : w.Leads g (e.leavePending r x) :=
  withFrameFor_onward he _ (fun s => (he.upholds s).replace _) fun _ _ hf =>
    replace_aligned (hf.congr rfl rfl)

theorem finishDelegation_onward (v : Value) : w.Leads g (e.finishDelegation r v) := by
  refine withFrameFor_onward he _ (fun s => ?_) fun b f _ => ?_
  · have h := he.upholds s
    exact (((h.replace _).bind fun _ => h.stepOn).onInterruption (h.release v).beside).bind
      fun _ => h.replace _
  · -- the delegate goes first, and nothing brings another
    let P : Frame → Prop := fun d => d.delegate = none
    have hstep : Maintains (fun s : Frame × World => P s.1) World.stepOn := by
      refine Run.maintains_get.bind fun s => ?_
      split
      · exact fun _ hs => hs
      · exact Run.maintains_shared P World.abort
    have hmoved : Leaves (fun _ => P) P P
        (do e.replace Frame.removeDelegate; World.stepOn : Run (Frame × World) Unit) f :=
      Leaves.bind (Q := fun _ => P) (replace_leaves (P := P) (c := Frame.removeDelegate) rfl)
        fun _ d hd => Leaves.of_maintains hstep hd
    have hkept := (hmoved.onInterruption
        (fun _ hd => Leaves.shared (m := e.release v) (fun _ => hd) hd hd)
        fun _ hd => Leaves.shared (m := e.release v) (fun _ => hd) hd hd).bind
      fun _ d hd => replace_leaves (e := e) (P := P) (c := (·.replaceDelegationResult v)) hd
    exact hkept.mono (fun _ _ hd => Frame.aligned_of_delegate_none hd)
      (fun _ hd => Frame.aligned_of_delegate_none hd) fun _ hd => Frame.aligned_of_delegate_none hd

/-! ## Resuming -/

theorem letGo_onward : w.Leads g (e.letGo r) := by
  refine (he.upholds w).owning (Run.keeps_get.bind fun t => ?_) _
  split
  · have hfinished : ∀ b f, f.Aligned b → Leaves (fun _ d => d.Aligned b) (·.Aligned b) (·.Aligned b)
        (do modify fun s => (s.1.markFinished, s.2); e.replace Frame.removeDelegate :
          Run (Frame × World) Unit) f := fun b f _ =>
      Leaves.bind (Q := fun _ _ => True) (fun _ => trivial) fun _ d _ =>
        replace_aligned (Frame.aligned_of_delegate_none (f := (Frame.removeDelegate d).1) rfl)
    exact withFrame_onward (fun s => Run.Keeps.bind (fun _ _ h => h) fun _ => (he.upholds s).replace _)
      hfinished
  · exact Run.keeps_pure _

theorem terminate_onward : w.Leads g (e.terminate i) := by
  refine World.leads_iff.2 fun t ht => ?_
  cases hslot : (t.generator i).frame with
  | none => rwa [terminate_of_frameless hslot]
  | some r =>
      rw [terminate_of_frame hslot]
      exact World.leads_iff.1 (letGo_onward he) _ (ht.trans (.setGenerator t rfl nofun))

omit he in
theorem takePending_onward (ht : w.Onward g t) : w.Onward g (Run.stateOf (Engine.takePending r t)) :=
  World.leads_iff.1 (withFrame_onward (m := fun s => .ok s.1.pending ({ s.1 with pending := none }, s.2))
    (fun _ _ _ h => h) fun _ _ hf => fun _ => hf.congr rfl rfl) t ht

theorem handOver_onward (v : Value) : w.Leads g (e.handOver r v) := by
  unfold Engine.handOver
  split
  · exact Run.keeps_pure _
  · refine ((he.upholds w).share v).bind fun _ => ?_
    exact withFrameFor_onward he _ (fun s => (he.upholds s).replace _) fun _ _ hf =>
      replace_aligned (hf.congr rfl rfl)

omit he in
/-- Handing a value over leaves the delegate. -/
theorem handOver_delegate {v : Value} {f b : Frame} (h : e.handOver r v t = .ok () u)
    (hf : t.frame? r = some f) (hb : u.frame? r = some b) : b.delegate = f.delegate := by
  unfold Engine.handOver at h
  split at h
  · cases h
    rw [hf] at hb
    cases hb
    rfl
  · replace h : e.withFrameFor [v] r (e.replace (·.replaceInput v)) (t.retain v) = .ok () u := h
    obtain ⟨f', b', s, hf', hreplaced, rfl⟩ := World.withFrame_eq_ok.1 (Engine.withFrameFor_eq_ok.1 h)
    obtain ⟨rfl, _⟩ := Engine.replace_eq_ok.1 hreplaced
    rw [World.retain, frame_addOwners, hf] at hf'
    rw [World.frame_setFrame, if_pos rfl] at hb
    cases hf'
    cases hb
    rfl

/-- The body of a generator is run.  If it is the generator in question, its frame must not have a delegate
when an exception is raised at the resume point. -/
theorem runBody_onward (hlenient : e.Lenient) {pending : Option Exception} (ht : w.Onward g t)
    (hslot : (w.generator i).frame = some r)
    (hpending : i = g → pending.isSome = true → ∀ f, t.frame? r = some f → f.delegate = none) :
    w.Onward g (Run.stateOf (e.runBody i r pending t)) := by
  have hmarked : w.Onward g (t.setRunning i true) := ht.trans (.setRunning t i true)
  refine Run.stateOf_ensuring ?_ fun u hu => hu.trans (.setRunning u i false)
  refine hmarked.withFrame (fun s => (he.upholds s).codeResume _ _ _) fun hw f hf hown haligned => ?_
  obtain rfl : i = g := hw.alone i r (hmarked.slot g r hown) hslot
  have hf : t.frame? r = some f := by simpa [World.setRunning] using hf
  have hbody := ht.bodyOf
  unfold World.bodyOf at hbody haligned
  unfold World.bodyOf CodeObject.resume
  rw [hbody]
  cases hprogram : (w.code (w.generator i).code).body with
  | script s => trivial
  | program p =>
      rw [hprogram] at haligned
      exact Code.Program.resume_aligned hlenient _ pending haligned (fun h => hpending rfl h f hf) _

theorem settleBody_onward (outcome : Except Exception Suspension) :
    w.Leads g (e.settleBody i r outcome) := by
  have h := he.upholds w
  rcases outcome with x | v | v | v
  · exact ((terminate_onward he).onInterruption (h.releaseException x)).bind fun _ =>
      Run.keeps_raise x
  · exact Run.keeps_pure _
  · exact ((terminate_onward he).onInterruption (h.release v)).bind fun _ => Run.keeps_raise _
  · exact (finishDelegation_onward he v).bind fun _ => Run.keeps_pure _

end Onward

/-- The frame of a generator has both a delegate and an exception that is to be raised at its resume point,
and is in its cell. -/
def World.isCrossed (w : World) (g : GeneratorRef) : Bool :=
  (((w.generator g).frame.bind w.frame?).map fun f => f.pending.isSome && f.delegate.isSome).getD false

namespace World

theorem Quiet.isCrossed (h : w.Quiet t) (g : GeneratorRef) : t.isCrossed g = w.isCrossed g := by
  have hframes : t.frame? = w.frame? := funext h.frame
  unfold World.isCrossed
  rw [h.generator, hframes]

theorem quiet_of_enter (h : enter w = .ok () t) : w.Quiet t := by
  unfold enter at h
  split at h
  · cases h
  · next thread _ =>
    cases h
    exact w.quiet_setThread thread

theorem refusal?_eq_none :
    w.refusal? g = none ↔ (w.generator g).running = false ∧ ∃ r, (w.generator g).frame = some r := by
  unfold refusal?
  cases (w.generator g).running <;> cases (w.generator g).frame <;> simp

end World

section Resume

variable (he : e.Advances g) (hlenient : e.Lenient)

include he hlenient

/-- The frame of a generator is resumed.  It must not be crossed, if it is the generator in question. -/
theorem resumeFrame_onward (ht : w.Onward g t) (hslot : (t.generator i).frame = some r)
    (hcrossed : i = g → t.isCrossed g = false) (v : Value) :
    w.Onward g (Run.stateOf (e.resumeFrame i r v t)) := by
  have h := he.upholds w
  cases hf : t.frame? r with
  | none =>
      unfold Engine.resumeFrame
      rw [Run.bind_error (takePending_vacant hf)]
      exact World.leads_iff.1 (h.abort (α := Unit)) t ht
  | some f =>
      have htaken : w.Onward g ((t.setFrame r none).setFrame r (some { f with pending := none })) := by
        have hrun := takePending_onward (r := r) ht
        rwa [takePending_present hf] at hrun
      by_cases hfinished : f.isFinished = true
      · rw [resumeFrame_of_finished hf hfinished]
        exact World.leads_iff.1 (((terminate_onward he).bind fun _ => Run.keeps_raise _).ensuring
          (h.releasePending _)) _ htaken
      · rw [resumeFrame_of_unfinished hf (by simpa using hfinished)]
        refine Run.stateOf_bind ?_ fun outcome u _ hu =>
          World.leads_iff.1 (settleBody_onward he outcome) u hu
        unfold Engine.startBody
        rw [takePending_bind hf]
        refine Run.stateOf_bind (Run.stateOf_onInterruption
          (World.leads_iff.1 (handOver_onward he v) _ htaken) (World.leads_iff.1 (h.releasePending _))) fun _ u hhanded hu => Run.stateOf_attempt ?_
        refine runBody_onward he hlenient hu (ht.slot i r hslot) ?_
        rintro rfl hpending b hb
        have hdelegate := handOver_delegate (f := { f with pending := none })
          (Run.onInterruption_eq_ok.1 hhanded) (by rw [World.frame_setFrame, if_pos rfl]) hb
        have hplain := hcrossed rfl
        rw [World.isCrossed, hslot, Option.bind_some, hf] at hplain
        simpa [hdelegate, hpending] using hplain

theorem proceed_onward (ht : w.Onward g t) (hslot : (t.generator i).frame = some r)
    (hcrossed : i = g → t.isCrossed g = false) (v : Value) :
    w.Onward g (Run.stateOf (e.proceed i r v t)) := by
  have h := he.upholds w
  refine Run.stateOf_bind (Run.stateOf_onInterruption
    (resumeFrame_onward he hlenient ht hslot hcrossed v)
      (World.leads_iff.1 (h.leave.bind fun _ => h.release v)))
    fun outcome u _ hu => ?_
  cases outcome with
  | some result =>
      exact World.leads_iff.1 (h.leave.bind fun _ => (h.release v).bind fun _ => Run.keeps_pure _) u hu
  | none => exact World.leads_iff.1 ((h.requests _).ensuring h.leave) u hu

/-- The answer to the request to resume a generator. -/
theorem resume_onward (ht : w.Onward g t) (hcrossed : i = g → t.isCrossed g = false) (v : Value) :
    w.Onward g (Run.stateOf (e.resume i v t)) := by
  have h := he.upholds w
  cases hrefused : t.refusal? i with
  | some x =>
      rw [Engine.resume_refused hrefused]
      exact World.leads_iff.1 ((h.releaseAll _).bind fun _ => Run.keeps_raise x) t ht
  | none =>
      obtain ⟨hidle, r, hslot⟩ := World.refusal?_eq_none.1 hrefused
      rw [resume_of_idle hidle hslot]
      have hshared : t.Quiet (t.retain (.frame r)) := t.quiet_addOwners _
      refine Run.stateOf_ensuring (Run.stateOf_bind ?_ fun _ u hentered hu => ?_)
        (World.leads_iff.1 (h.release _))
      · exact Run.stateOf_onInterruption (World.leads_iff.1 h.enter _ (ht.trans (.of_quiet hshared)))
          (World.leads_iff.1 (h.release v))
      · have hquiet := hshared.trans (World.quiet_of_enter (Run.onInterruption_eq_ok.1 hentered))
        refine proceed_onward he hlenient hu ((congrArg Generator.frame (hquiet.generator i)).trans hslot)
          (fun hi => ?_) v
        rw [hquiet.isCrossed, hcrossed hi]

end Resume

/-! ## Throwing and closing -/

section Control

variable (he : e.Advances g)

include he

theorem inject_onward (x : Exception) : w.Leads g (e.inject i r x) := by
  refine (withFrameFor_onward he _ (fun s => ?_) fun b f _ => ?_).bind fun _ => (he.upholds w).requests _
  · have h := he.upholds s
    exact ((h.replace _).onInterruption (h.releaseException x).beside).bind fun _ => h.replace _
  · let P : Frame → Prop := fun d => d.delegate = none
    have hremoved : Leaves (fun _ => P) P P (e.replace Frame.removeDelegate) f :=
      replace_leaves (P := P) (c := Frame.removeDelegate) rfl
    have hleft := (hremoved.onInterruption
        (fun _ hd => Leaves.shared (m := e.releaseException x) (fun _ => hd) hd hd)
        fun _ hd => Leaves.shared (m := e.releaseException x) (fun _ => hd) hd hd).bind
      fun _ d hd => replace_leaves (e := e) (P := P) (c := (·.replacePending x)) hd
    exact hleft.mono (fun _ _ hd => Frame.aligned_of_delegate_none hd)
      (fun _ hd => Frame.aligned_of_delegate_none hd) fun _ hd => Frame.aligned_of_delegate_none hd

theorem raiseIntoFrame_onward (type : Value) (value : Option Value) (traceback : Option Traceback) :
    w.Leads g (e.raiseIntoFrame i r type value traceback) :=
  (((he.upholds w).normalize type value).bind fun _ => inject_onward he _).ensuring
    ((he.upholds w).releaseAll _)

theorem abandonDelegate_onward (x : Exception) :
    w.Leads g (e.abandonDelegate r x : Run World α) :=
  ((finishDelegation_onward he .none).onInterruption ((he.upholds w).releaseException x)).bind fun _ =>
    Run.keeps_raise x

theorem throwIntoDelegate_onward (delegate : GeneratorRef) (thrown : Throw) :
    w.Leads g (e.throwIntoDelegate i r delegate thrown) := by
  have h := he.upholds w
  refine (h.shareAll _).bind fun _ =>
    (whileRunning_onward (h.throw delegate thrown)).attempt.bind fun outcome => ?_
  rcases outcome with x | v
  · dsimp only
    split
    · exact ((h.share _).bind fun _ => (finishDelegation_onward he _).bind fun _ =>
        h.requests _).ensuring (h.releaseException x)
    · exact inject_onward he x
  · exact Run.keeps_pure v

theorem closeForThrow_onward (delegate : IteratorRef) :
    w.Leads g (e.closeForThrow i delegate) := by
  have h := he.upholds w
  refine (whileRunning_onward (h.withIterator delegate h.iteratorClose)).bind fun outcome => ?_
  rcases outcome with _ | x | v
  · exact Run.keeps_pure _
  · dsimp only
    split <;> exact Run.keeps_pure _
  · exact Run.keeps_pure _

theorem throwInto_onward (type : Value) (value : Option Value) (traceback : Option Traceback) :
    w.Leads g (e.throwInto i r type value traceback) := by
  have h := he.upholds w
  have hraise : ∀ held : List Value, w.Leads g
      (Run.ensuring (e.raiseIntoFrame i r type value traceback) (e.releaseAll (held ++ [.frame r]))) :=
    fun _ => (raiseIntoFrame_onward he type value traceback).ensuring (h.releaseAll _)
  refine (((he.upholds w).readFrame r).onInterruption (h.releaseAll _)).bind fun f => ?_
  rcases f.delegate with _ | inner
  · exact hraise []
  · refine (h.share inner).bind fun _ => ?_
    dsimp only
    split
    · refine ((whileRunning_onward (h.closeIter inner)).attempt.onInterruption (h.releaseAll _)).bind
        fun outcome => ?_
      rcases outcome with x | v
      · exact (abandonDelegate_onward he x).ensuring (h.releaseAll _)
      · exact hraise [v, inner]
    · split
      · exact (throwIntoDelegate_onward he _ _).ensuring (h.releaseAll _)
      · refine ((closeForThrow_onward he _).onInterruption (h.releaseAll _)).bind fun outcome => ?_
        rcases outcome with x | closed
        · exact (inject_onward he x).ensuring (h.releaseAll _)
        · exact hraise _
      · exact hraise _

/-- The answer to the request to throw into a generator. -/
theorem answerThrow_onward (thrown : Throw) : w.Leads g (e.answerThrow i thrown) := by
  have h := he.upholds w
  have hrefuse : ∀ x : Exception, w.Leads g
      (Run.ensuring (Run.raise x) (e.releaseAll (thrown.traceback.toList ++ thrown.value.toList)) :
        Run World Value) :=
    fun x => (Run.keeps_raise x).ensuring (h.releaseAll _)
  refine h.owning ?_ thrown.type
  dsimp only
  split
  · exact hrefuse _
  · refine Run.keeps_get.bind fun t => ?_
    split
    · exact hrefuse _
    · split
      · exact hrefuse _
      · exact (h.share _).bind fun _ => throwInto_onward he _ _ _

theorem closeDelegate_onward : w.Leads g (e.closeDelegate i r) := by
  have h := he.upholds w
  refine ((he.upholds w).readFrame r).bind fun f => ?_
  rcases f.delegate with _ | inner
  · exact Run.keeps_pure ()
  · refine (h.share inner).bind fun _ => h.owning ?_ inner
    refine (whileRunning_onward (h.closeIter inner)).attempt.bind fun outcome => ?_
    rcases outcome with x | v
    · dsimp only
      split
      · exact (dropDelegate_onward he).ensuring (h.releaseException x)
      · exact abandonDelegate_onward he x
    · exact h.owning (dropDelegate_onward he) v

theorem closeWith_onward : w.Leads g (e.closeWith i r) := by
  have h := he.upholds w
  refine (closeDelegate_onward he).bind fun _ => (leavePending_onward he _).bind fun _ =>
    (h.requests _).attempt.bind fun outcome => ?_
  rcases outcome with x | v
  · dsimp only
    split
    · exact (h.releaseException x).bind fun _ => Run.keeps_pure _
    · exact Run.keeps_raise x
  · exact h.owning (Run.keeps_raise _) v

/-- The answer to the request to close a generator. -/
theorem answerClose_onward : w.Leads g (e.answerClose i) := by
  have h := he.upholds w
  refine Run.keeps_get.bind fun t => ?_
  dsimp only
  split
  · exact Run.keeps_raise _
  · split
    · exact Run.keeps_pure _
    · exact (h.share _).bind fun _ => h.owning (closeWith_onward he) _

/-! ## Disposal -/

theorem finalize_onward : w.Leads g (e.finalize i) := by
  have h := he.upholds w
  refine Run.keeps_get.bind fun t => ?_
  split
  · exact Run.keeps_pure ()
  · refine (h.share _).bind fun _ => h.owning (Run.keeps_get.bind fun u => ?_) _
    split
    · intro b s hs
      refine (closeWith_onward he).contain_bind hs (fun v => h.release v) (fun x => h.report x i)
        fun t ht => ⟨ht.1.trans ?_, fun _ => True.intro⟩
      exact .of_changes rfl le_rfl rfl (fun _ _ hr => hr) fun _ _ hf => hf
    · exact Run.keeps_pure ()

/-- The disposal of an object. -/
theorem reclaim_onward (o : Object) : w.Leads g (e.reclaim o) := by
  have h := he.upholds w
  cases o with
  | list r =>
      exact Run.keeps_get.bind fun t => (h.edits fun t => t.quiet_setItems r []).bind fun _ =>
        h.releaseAll _
  | iterator r =>
      refine Run.keeps_get.bind fun t => (h.edits fun t => t.quiet_setIterator r none).bind fun _ => ?_
      split
      · exact h.release _
      · exact Run.keeps_pure _
  | frame r =>
      refine Run.keeps_get.bind fun t => Run.Keeps.bind ?_ fun _ => h.releaseAll _
      exact World.leads_iff.2 fun u hu => hu.trans (.takeFrame u r)
  | generator i =>
      refine (finalize_onward he).ensuring (World.leads_iff.2 fun t ht => ?_)
      exact World.leads_iff.1 (h.releaseAll _) _ (ht.trans (.setGenerator t rfl nofun))

end Control

/-! ## The machine -/

/-- The answer to a request, unless the request is to resume the generator in question while that is
crossed. -/
theorem answer_onward (he : e.Advances g) (hlenient : e.Lenient) {request : Request} (ht : w.Onward g t)
    (hcrossed : ∀ v, request = .resume g v → t.isCrossed g = false) :
    w.Onward g (Run.stateOf (request.answer e t)) := by
  cases request with
  | resume i v => exact resume_onward he hlenient ht (fun hi => hcrossed v (hi ▸ rfl)) v
  | throw i thrown => exact World.leads_iff.1 (answerThrow_onward he thrown) t ht
  | close i => exact World.leads_iff.1 (answerClose_onward he) t ht
  | reclaim o => exact World.leads_iff.1 ((reclaim_onward he o).bind fun _ => Run.keeps_pure _) t ht

/-- The observer breaks off a run that is about to resume the generator while that is crossed. -/
def Observer.Minds (o : Observer) (g : GeneratorRef) : Prop :=
  ∀ w v, w.isCrossed g = true → o.stops (.asked (.resume g v)) w = true

theorem see_onward (o : Observer) (event : Event) : Maintains (w.Onward g) (o.see event) := by
  intro t ht
  have hnoted := ht.trans (.of_quiet (t.quiet_setHeld (o.note event t)))
  rcases Machine.see_cases o event t with ⟨_, hsee⟩ | ⟨_, hsee⟩ <;> rw [hsee]
  · exact hnoted.trans (.of_quiet (World.quiet_setThread _ _))
  · exact hnoted

/-- Under an observer that minds a generator the machine leads onward, with any fuel. -/
theorem observed_advances {o : Observer} (ho : o.Minds g) (n : Nat) :
    (Machine.observedEngine o n).Advances g := by
  induction n with
  | zero => exact fun w _ t ht => ht
  | succ n ih =>
      intro w request t ht
      refine Run.stateOf_bind (see_onward o _ t ht) fun _ u hsee hu => ?_
      refine Run.stateOf_ensuring (answer_onward ih (observed_lenient o n) hu ?_) (see_onward o _)
      rintro v rfl
      obtain ⟨hgoes, rfl⟩ := see_eq_ok.1 hsee
      by_contra hcrossed
      rw [ho _ v (by simpa using hcrossed)] at hgoes
      cases hgoes

end Resumable
