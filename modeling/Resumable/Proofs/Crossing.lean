import Resumable.Proofs.Closing
import Resumable.Proofs.Enacting
import Resumable.Proofs.Onward

set_option autoImplicit false

/-!
# Sessions in which a generator is never crossed

To close a generator that delegates is to take its delegate away and to leave an exception in its frame.
Letting go of the delegate may run a finalizer that resumes the generator, and if the generator delegates
again by then, it is crossed.  Nothing else crosses a generator but changing its frame from outside.

As long as neither happens, the frame of a generator is aligned with the body, between the commands of a
session (`Uncrossed.aligned`) and in the middle of them (`AmidUncrossed.aligned`).
-/

namespace Resumable

open Run (Maintains)

variable {g : GeneratorRef} {w t u : World} {event : Event}

namespace World

/-- A code object that is added changes what a generator executes only if there was nothing to execute. -/
theorem Aligned.newCode (h : w.Aligned g) (c : CodeObject) : (w.newCode c).2.Aligned g where
  made := h.made
  alone := h.alone
  frame r f hr hf := by
    have haligned := h.frame r f hr hf
    unfold bodyOf code at haligned ⊢
    by_cases hin : (w.generator g).code.index < w.codes.length
    · have hsame : (w.codes ++ [c])[(w.generator g).code.index]? = w.codes[(w.generator g).code.index]? :=
        List.getElem?_append_left hin
      show f.Aligned ((w.codes ++ [c])[(w.generator g).code.index]?.getD default).body
      rwa [hsame]
    · rw [List.getElem?_eq_none (Nat.not_lt.1 hin)] at haligned
      refine Frame.aligned_of_delegate_none ?_
      by_contra hdelegate
      obtain ⟨n, _, hi⟩ := haligned (Option.isSome_iff_ne_none.2 hdelegate)
      cases hi

theorem Aligned.newFrame (h : w.Aligned g) (b : Frame) : (w.newFrame b).2.Aligned g where
  made i r hr := lt_of_lt_of_le (h.made i r hr) (by simp [World.newFrame, Store.size_alloc])
  alone := h.alone
  frame r f hr hf := by
    have hlt := h.made g r hr
    rw [frame_newFrame, if_neg] at hf
    · exact h.frame r f hr hf
    · rintro rfl
      exact Nat.lt_irrefl _ hlt

/-- A generator is made on a frame that no other one has. -/
theorem Aligned.newGenerator (h : w.Aligned g) (r : CodeRef) (args : List Value) (closure : Value) :
    (w.newGenerator r args closure).2.Aligned g := by
  have hframe := h.newFrame (.new r args)
  have hfresh : ∀ i, (w.generator i).frame ≠ some ⟨w.frames.size⟩ := fun i hi =>
    Nat.lt_irrefl _ (h.made i _ hi)
  rw [newGenerator_eq]
  generalize hx : (⟨r, closure, some (w.newFrame (.new r args)).1, false⟩ : Generator) = x
  have hslot : x.frame = some ⟨w.frames.size⟩ := hx ▸ rfl
  refine ⟨fun i s hs => ?_, fun i s hg hi => ?_, fun s f hs hf => ?_⟩
  · rw [generator_adopt] at hs
    split at hs
    · rw [hslot, Option.some.injEq] at hs
      subst hs
      exact Nat.lt_of_lt_of_le (Nat.lt_succ_self _)
        (by simp [World.adopt, World.newFrame, Store.size_alloc])
    · exact hframe.made i s hs
  · rw [generator_adopt] at hg hi
    split at hg <;> split at hi
    · next hnew hnew' => rw [hnew, hnew']
    · rw [hslot, Option.some.injEq] at hg
      subst hg
      exact absurd hi (hfresh i)
    · rw [hslot, Option.some.injEq] at hi
      subst hi
      exact absurd hg (hfresh g)
    · exact h.alone i s hg hi
  · unfold bodyOf
    rw [generator_adopt] at hs ⊢
    split at hs
    · rw [hslot, Option.some.injEq] at hs
      subst hs
      have hnew : f = .new r args := by
        have hf : (w.newFrame (.new r args)).2.frame? ⟨w.frames.size⟩ = some f := hf
        have hself : (⟨w.frames.size⟩ : FrameRef) = (w.newFrame (.new r args)).1 := rfl
        rw [frame_newFrame, if_pos hself] at hf
        exact (Option.some.inj hf).symm
      subst hnew
      exact Frame.aligned_of_delegate_none rfl
    · next hne =>
      rw [if_neg hne]
      exact hframe.frame s f hs hf

theorem aligned_new (limit : Nat) (sink : Sink) (g : GeneratorRef) : (World.new limit sink).Aligned g where
  made _ _ h := nomatch h
  alone _ _ h := nomatch h
  frame _ _ h := nomatch h

theorem Quiet.aligned (h : w.Quiet t) (hw : w.Aligned g) : t.Aligned g := (Onward.of_quiet h).aligned hw

end World

theorem World.quiet_fresh (w : World) : w.Quiet (Session.fresh w) :=
  ⟨rfl, le_rfl, le_rfl, fun _ => rfl, fun _ => rfl, id⟩

theorem World.elsewhere_quiet (w : World) : w.elsewhere.Quiet w :=
  ⟨rfl, le_rfl, le_rfl, fun _ => rfl, fun _ => rfl, id⟩

/-- An engine whose requests lead onward keeps frames aligned. -/
theorem Engine.Advances.upholdsAligned {e : Engine} (he : e.Advances g) :
    e.Upholds (·.Aligned g) (fun _ => True) (·.Aligned g) where
  quiet h hw := ⟨h.aligned hw.1, fun _ => True.intro⟩
  marks _ _ := True.intro
  spent _ h := h
  requests request := Run.keeps_iff_maintains.2 fun w hw => (he w request w (.refl g w)).aligned hw

namespace Session

theorem admits_aligned (g : GeneratorRef) : Admits (·.Aligned g) (fun _ => True) where
  code c h := ⟨h.1.newCode c, fun _ => True.intro⟩
  frame r args h := ⟨h.1.newFrame (.new r args), fun _ => True.intro⟩
  generator r args closure h := ⟨h.1.newGenerator r args closure, fun _ => True.intro⟩

theorem takeFrom_aligned (g : GeneratorRef) (r : FrameRef) (taking : FrameTaking) :
    Maintains (·.Aligned g) (takeFrom r taking) := by
  intro w hw
  have htaken : w.Leads g (takeFrom r taking) := by
    refine withFrame_onward (fun s => ?_) fun b f hf => ?_ <;> cases taking
    · exact fun _ _ h => h
    · exact fun _ _ h => h
    · exact fun _ => hf.congr rfl rfl
    · exact fun _ => hf.congr rfl rfl
  exact (World.leads_iff.1 htaken w (.refl g w)).aligned hw

end Session

/-! ## Minding a generator -/

/-- Whether a generator is about to be resumed. -/
def Event.isResumeOf (g : GeneratorRef) : Event → Bool
  | .asked (.resume i _) => i = g
  | _ => false

namespace Observer

/-- The observer who notes nothing and lets every run go on. -/
def unconcerned : Observer := ⟨fun _ w => w.held, fun _ _ => false⟩

/-- The observer who, on top of it, breaks a run off before a generator is resumed while it is crossed. -/
def minding (o : Observer) (g : GeneratorRef) : Observer where
  note := o.note
  stops event w := o.stops event w || event.isResumeOf g && w.isCrossed g

theorem minding_minds (o : Observer) (g : GeneratorRef) : (o.minding g).Minds g := fun w v h => by
  simp [minding, Event.isResumeOf, h]

end Observer

namespace Session

open Machine (observedEngine)

/-- Carrying out a command does not come to a moment at which a generator is resumed while it is crossed:
it makes no difference whether the run would be broken off there. -/
def Spares (g : GeneratorRef) (fuel : Nat) (full : Bool) (w : World) (c : Command) : Prop :=
  carryOut (observedEngine (Observer.unconcerned.minding g) fuel) full c (fresh w) =
    carryOut (Machine.engine fuel) full c (fresh w)

/-- The worlds that a session comes to in which a generator is never resumed while it is crossed, and no
command handles a frame. -/
inductive Uncrossed (g : GeneratorRef) : World → Prop where
  | start (limit : Nat) (sink : Sink) : Uncrossed g (World.new limit sink)
  | step {w : World} (h : Uncrossed g w) (fuel : Nat) (full : Bool) (c : Command)
      (hc : c.handlesFrames = false) (hspared : Spares g fuel full w c)
      (hdone : (step fuel full w c).1.report ≠ .outOfFuel) : Uncrossed g (step fuel full w c).2

/-- A command of such a session comes to an event in a world, and up to then the generator has not been
resumed while it was crossed. -/
def AmidUncrossed (g : GeneratorRef) (event : Event) (u : World) : Prop :=
  ∃ w fuel full c likes, Uncrossed g w ∧ c.handlesFrames = false ∧
    u.thread.id = (fresh w).thread.id ∧
    let o := Observer.breaking (fun _ t => t.held) event likes
    carryOut (observedEngine o fuel) full c (fresh w) = .error .outOfFuel u.elsewhere ∧
      carryOut (observedEngine (o.minding g) fuel) full c (fresh w) = .error .outOfFuel u.elsewhere

theorem Uncrossed.reachable (h : Uncrossed g w) : Reachable w := by
  induction h with
  | start limit sink => exact .start limit sink
  | step _ fuel full c _ _ hdone ih => exact ih.step fuel full c hdone

/-- None of the commands comes to such a moment. -/
def SparesAll (g : GeneratorRef) (w : World) : List Command → Prop
  | [] => True
  | c :: cs => Spares g 40 false w c ∧ SparesAll g (step 40 false w c).2 cs

theorem Uncrossed.afterAll {cs : List Command} (h : Uncrossed g w)
    (hcs : ∀ c ∈ cs, c.handlesFrames = false) (hspared : SparesAll g w cs)
    (hdone : allDone w cs = true) : Uncrossed g (afterAll w cs) := by
  induction cs generalizing w with
  | nil => exact h
  | cons c cs ih =>
      rw [allDone] at hdone
      split at hdone
      · cases hdone
      · next hreport =>
        exact ih (h.step 40 false c (hcs c List.mem_cons_self) hspared.1 hreport)
          (fun c hc => hcs c (List.mem_cons_of_mem _ hc)) hspared.2 hdone

theorem AmidUncrossed.amid (h : AmidUncrossed g event u) : Amid event u := by
  obtain ⟨w, fuel, full, c, likes, hw, _, hthread, hrun, _⟩ := h
  exact ⟨w, fuel, full, c, hw.reachable, hthread, likes, hrun⟩

theorem runUpTo_amidUncrossed {cs : List Command} {c : Command}
    (h : Uncrossed g (afterAll (.new 5 .collecting) cs)) (hc : c.handlesFrames = false)
    (hid : (fresh (afterAll (.new 5 .collecting) cs)).thread.id = 0)
    (hbroken : isBrokenOff 0 (runUpTo cs c event) = true)
    (hsame : carryOut (observedEngine
      ((Observer.breaking (fun _ t => t.held) event fun _ => true).minding g) 60) false c
      (fresh (afterAll (.new 5 .collecting) cs)) = runUpTo cs c event) :
    AmidUncrossed g event (brokenOffAt (runUpTo cs c event)) := by
  obtain ⟨hrun, hthread⟩ := eq_of_isBrokenOff hbroken
  exact ⟨_, 60, false, c, fun _ => true, h, hc, hthread.trans hid.symm, hrun, hsame.trans hrun⟩

/-- Under an observer that minds a generator, a command leaves its frame aligned. -/
theorem carryOut_aligned {o : Observer} (ho : o.Minds g) {c : Command} (hc : c.handlesFrames = false)
    (fuel : Nat) (full : Bool) (h : w.Aligned g) :
    (Run.stateOf (carryOut (observedEngine o fuel) full c (fresh w))).Aligned g :=
  Run.keeps_iff_maintains.1
    (upholds_carryOut (observed_advances ho fuel).upholdsAligned (admits_aligned g) hc
      (fun _ r taking => Run.keeps_iff_maintains.2 (takeFrom_aligned g r taking)) full)
    (fresh w) (w.quiet_fresh.aligned h)

theorem step_aligned {fuel : Nat} {full : Bool} {c : Command} (hc : c.handlesFrames = false)
    (hspared : Spares g fuel full w c) (h : w.Aligned g) : (step fuel full w c).2.Aligned g := by
  have hdone := carryOut_aligned (Observer.minding_minds .unconcerned g) hc fuel full h
  rw [hspared] at hdone
  have hrun : carryOut (Machine.engine fuel) full c { w with diagnostics := "", log := [] } =
      carryOut (Machine.engine fuel) full c (fresh w) := rfl
  unfold step
  simp only [hrun]
  generalize carryOut (Machine.engine fuel) full c (fresh w) = x at hdone
  rcases x with ⟨report, t⟩ | ⟨_ | _ | _, t⟩
  case error.aborted =>
    have hleft : t.Onward g { t with unwinding := false } :=
      .of_changes rfl le_rfl rfl (fun _ _ hr => hr) fun _ _ hf => hf
    exact hleft.aligned hdone
  all_goals exact hdone

theorem Uncrossed.aligned (h : Uncrossed g w) : w.Aligned g := by
  induction h with
  | start limit sink => exact World.aligned_new limit sink g
  | step _ fuel full c hc hspared _ ih => exact step_aligned hc hspared ih

theorem AmidUncrossed.aligned (h : AmidUncrossed g event u) : u.Aligned g := by
  obtain ⟨w, fuel, full, c, likes, hw, hc, _, _, hrun⟩ := h
  have hdone := carryOut_aligned (Observer.minding_minds (.breaking (fun _ t => t.held) event likes) g) hc
    fuel full hw.aligned
  rw [hrun] at hdone
  exact u.elsewhere_quiet.aligned hdone

end Session

end Resumable
