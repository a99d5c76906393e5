import Resumable.Proofs.Crossing
import Resumable.Proofs.Returning

set_option autoImplicit false

/-!
# Sessions in which frames come to rest

Between the commands of a session the frame of a generator is at rest, unless an exception waits in it
(`Undisturbed.reposes`).  In the middle of a command this is so as well while the generator is not running,
but for one moment: a generator that is being closed has let go of its delegate, and no exception waits in
its frame yet (`AmidUndisturbed.sits`).

This holds as long as the generator is not resumed while it is crossed, no computation is abandoned, and no
command changes a frame from outside.
-/

namespace Resumable

open Run (Keeps Marked)
open World (After Follows Unwinding)

variable {g : GeneratorRef} {w t u : World} {event : Event} {f : Frame} {p : Code.Program}

/-! ## Frames without a program -/

namespace Frame

/-- Where there are no instructions, a frame has finished or not started. -/
theorem RestsAt.of_empty {point : RestPoint} (h : f.RestsAt default point) :
    point = .finished ∨ point = .created := by
  cases point with
  | finished => exact Or.inl rfl
  | created => exact Or.inr rfl
  | yielded =>
      obtain ⟨n, _, hi, _⟩ := h
      cases hi
  | delegating =>
      obtain ⟨n, _, _, hi, _⟩ := h
      cases hi
  | delegated =>
      obtain ⟨n, _, hi, _⟩ := h
      cases hi

/-- Then it is at rest whatever the instructions are. -/
theorem RestsAt.anew {point : RestPoint} (h : f.RestsAt default point) (p : Code.Program) :
    f.RestsAt p point := by
  rcases h.of_empty with rfl | rfl
  · exact h
  · exact h

theorem Sits.anew (h : f.Sits default) (p : Code.Program) : f.Sits p := by
  rcases h.point with ⟨point, hpoint⟩ | ⟨_, n, _, _, hi⟩
  · refine ⟨h.input, (hpoint.anew p).prepared fun hfinished hcreated => ?_, Or.inl ⟨point, hpoint.anew p⟩⟩
    exact absurd hpoint.of_empty (not_or.2 ⟨hfinished, hcreated⟩)
  · cases hi

/-- Nothing has been done to a frame since it was made, but for an exception that may wait in it. -/
def AsMade (f : Frame) : Prop := ∃ code args, f.Alike (.new code args)

/-- A frame that has been made. -/
theorem sits_new (code : CodeRef) (args : List Value) (p : Code.Program) :
    (new code args).Sits p ∧ (new code args).RestsAt p .created := by
  have hcreated : (new code args).RestsAt p .created := ⟨rfl, rfl, rfl, rfl⟩
  exact ⟨⟨rfl, hcreated.prepared fun _ hne => absurd rfl hne, Or.inl ⟨_, hcreated⟩⟩, hcreated⟩

end Frame

/-! ## Worlds between commands -/

namespace World

/-- The frame of a generator is as it was made, as long as it has not started. -/
def Intact (w : World) (g : GeneratorRef) : Prop :=
  ∀ p, w.bodyOf g = .program p → ∀ r f, (w.generator g).frame = some r → w.frame? r = some f →
    f.position = Frame.notStarted → f.AsMade

/-- A generator is not running, and its frame is at rest. -/
structure Reposes (w : World) (g : GeneratorRef) : Prop where
  sits : w.Sits g
  calm : w.Calm g
  idle : (w.generator g).running = false
  intact : w.Intact g

/-- A world after another one, as far as a generator is concerned that has been made by then.  It has no
other frame, and a frame that has not started has not been touched. -/
structure Since (g : GeneratorRef) (w u : World) : Prop where
  made : g.index < u.generators.size
  program : (∃ p, u.bodyOf g = .program p) → ∃ p, w.bodyOf g = .program p
  slot : ∀ r, (u.generator g).frame = some r → (w.generator g).frame = some r
  fresh : (∃ p, u.bodyOf g = .program p) → ∀ r f, (u.generator g).frame = some r →
    u.frame? r = some f → f.position = Frame.notStarted → ∃ b, w.frame? r = some b ∧ f.Alike b

theorem Intact.follows (h : w.Intact g) (hu : Follows g w u) : u.Intact g := by
  intro p hp r f hr hf hstart
  have hp := hu.body.symm.trans hp
  obtain ⟨b, hb, halike⟩ := hu.fresh p hp r f hr hf hstart
  have hposition : b.position = Frame.notStarted := (congrArg Frame.position halike).symm.trans hstart
  obtain ⟨code, args, hmade⟩ := h p hp r b (hu.slot r hr) hb hposition
  exact ⟨code, args, halike.trans hmade⟩

theorem Since.refl (hmade : g.index < w.generators.size) : Since g w w where
  made := hmade
  program h := h
  slot _ hr := hr
  fresh _ _ f _ hf _ := ⟨f, hf, rfl⟩

theorem Since.follows (h : Since g w t) (hu : Follows g t u) : Since g w u where
  made := h.made.trans_le hu.count
  program hprogram := h.program (hu.body ▸ hprogram)
  slot r hr := h.slot r (hu.slot r hr)
  fresh hprogram r f hr hf hstart := by
    obtain ⟨p, hp⟩ := hprogram
    have hp := hu.body.symm.trans hp
    obtain ⟨b, hb, halike⟩ := hu.fresh p hp r f hr hf hstart
    have hposition : b.position = Frame.notStarted :=
      (congrArg Frame.position halike).symm.trans hstart
    obtain ⟨d, hd, halike'⟩ := h.fresh ⟨p, hp⟩ r b (hu.slot r hr) hb hposition
    exact ⟨d, hd, halike.trans halike'⟩

theorem Since.trans (h : Since g w t) (h' : Since g t u) : Since g w u where
  made := h'.made
  program hprogram := h.program (h'.program hprogram)
  slot r hr := h.slot r (h'.slot r hr)
  fresh hprogram r f hr hf hstart := by
    obtain ⟨b, hb, halike⟩ := h'.fresh hprogram r f hr hf hstart
    have hposition : b.position = Frame.notStarted :=
      (congrArg Frame.position halike).symm.trans hstart
    obtain ⟨d, hd, halike'⟩ := h.fresh (h'.program hprogram) r b (h'.slot r hr) hb hposition
    exact ⟨d, hd, halike.trans halike'⟩

theorem Reposes.after (h : w.Reposes g) (ht : After g True True w t) : t.Reposes g :=
  ⟨ht.sits, ht.calm True.intro h.calm, ht.idle h.idle, h.intact.follows ht.toFollows⟩

/-- A code object that is added changes what a generator executes only if there was nothing to execute. -/
theorem bodyOf_newCode (w : World) (c : CodeObject) (g : GeneratorRef) :
    (w.newCode c).2.bodyOf g = w.bodyOf g ∨ w.bodyOf g = .program default := by
  by_cases hin : (w.generator g).code.index < w.codes.length
  · have hsame : (w.codes ++ [c])[(w.generator g).code.index]? = w.codes[(w.generator g).code.index]? :=
      List.getElem?_append_left hin
    refine Or.inl ?_
    show ((w.codes ++ [c])[(w.generator g).code.index]?.getD default).body = _
    rw [hsame]
    rfl
  · refine Or.inr ?_
    unfold bodyOf code
    rw [List.getElem?_eq_none (Nat.not_lt.1 hin)]
    rfl

theorem Reposes.newCode (h : w.Reposes g) (c : CodeObject) : (w.newCode c).2.Reposes g := by
  refine ⟨⟨h.sits.made, h.sits.alone, fun p hp r f hr hf => ?_⟩, fun p hp r f hr hf hpending => ?_, h.idle,
    fun p hp r f hr hf hstart => ?_⟩
  · rcases w.bodyOf_newCode c g with hsame | hempty
    · exact h.sits.frame p (hsame.symm.trans hp) r f hr hf
    · exact (h.sits.frame default hempty r f hr hf).anew p
  · rcases w.bodyOf_newCode c g with hsame | hempty
    · exact h.calm p (hsame.symm.trans hp) r f hr hf hpending
    · obtain ⟨point, hpoint⟩ := h.calm default hempty r f hr hf hpending
      exact ⟨point, hpoint.anew p⟩
  · rcases w.bodyOf_newCode c g with hsame | hempty
    · exact h.intact p (hsame.symm.trans hp) r f hr hf hstart
    · exact h.intact default hempty r f hr hf hstart

theorem Since.newCode (h : Since g w t) (c : CodeObject) : Since g w (t.newCode c).2 := by
  have hprogram : (∃ p, (t.newCode c).2.bodyOf g = .program p) → ∃ p, t.bodyOf g = .program p := by
    rintro ⟨p, hp⟩
    rcases t.bodyOf_newCode c g with hsame | hempty
    · exact ⟨p, hsame.symm.trans hp⟩
    · exact ⟨default, hempty⟩
  exact ⟨h.made, fun hp => h.program (hprogram hp), h.slot, fun hp => h.fresh (hprogram hp)⟩

/-- A frame that is made is not that of a generator. -/
theorem Sits.newFrame (h : w.Sits g) (b : Frame) : After g True True w (w.newFrame b).2 := by
  refine h.after rfl (by simp [World.newFrame, Store.size_alloc]) le_rfl (fun _ _ hr => hr)
    (fun r f hr hf => ?_) (fun _ _ => rfl) id
  have hlt := h.made g r hr
  rw [frame_newFrame, if_neg] at hf
  · exact hf
  · rintro rfl
    exact Nat.lt_irrefl _ hlt

/-- Another generator is made, on a frame that no generator has. -/
theorem Sits.adopt (h : w.Sits g) {x : Generator} (hnew : g ≠ (w.adopt x).1)
    (hslot : ∀ r, x.frame = some r → r.index < w.frames.size ∧ (w.generator g).frame ≠ some r) :
    After g True True w (w.adopt x).2 := by
  have hother : ∀ r, ((w.adopt x).2.generator g).frame = some r → (w.generator g).frame = some r :=
    fun r hr => by rwa [generator_adopt, if_neg hnew] at hr
  have hself : (w.adopt x).2.generator g = w.generator g := by rw [generator_adopt, if_neg hnew]
  have hbody : (w.adopt x).2.bodyOf g = w.bodyOf g := bodyOf_congr rfl (congrArg Generator.code hself)
  refine
    { sits := ⟨fun i r hr => ?_, fun i r hg hi => ?_, fun p hp r f hr hf => ?_⟩
      count := by simp [World.adopt, Store.size_alloc]
      body := hbody
      slot := hother
      fresh := fun _ _ r f _ hf _ => ⟨f, hf, rfl⟩
      idle := fun hidle => (congrArg Generator.running hself).trans hidle
      calm := fun _ hcalm p hp r f hr hf => hcalm p (hbody.symm.trans hp) r f (hother r hr) hf
      still := fun _ hrunning r _ => ⟨(congrArg Generator.running hself).trans hrunning, fun _ hf => hf⟩ }
  · rw [generator_adopt] at hr
    split at hr
    · exact (hslot r hr).1
    · exact h.made i r hr
  · have hg := hother r hg
    rw [generator_adopt] at hi
    split at hi
    · exact absurd hg (hslot r hi).2
    · exact h.alone i r hg hi
  · exact h.frame p (hbody.symm.trans hp) r f (hother r hr) hf

/-- The generator itself is made, on a frame that no generator has. -/
theorem Reposes.adopted (h : w.Reposes g) {x : Generator} (hself : g = (w.adopt x).1) (hidle : x.running = false)
    {r : FrameRef} (hslot : x.frame = some r) (hmade : r.index < w.frames.size)
    (hvacant : ∀ i, (w.generator i).frame ≠ some r) {code : CodeRef} {args : List Value}
    (hframe : w.frame? r = some (.new code args)) : (w.adopt x).2.Reposes g := by
  have hx : (w.adopt x).2.generator g = x := by rw [generator_adopt, if_pos hself]
  have hnew : ∀ s f, ((w.adopt x).2.generator g).frame = some s → (w.adopt x).2.frame? s = some f →
      f = .new code args := fun s f hs hf => by
    rw [hx, hslot, Option.some.injEq] at hs
    subst hs
    exact Option.some.inj ((show w.frame? r = some f from hf).symm.trans hframe)
  refine ⟨⟨fun i s hs => ?_, fun i s hg hi => ?_, fun p _ s f hs hf => ?_⟩, fun p _ s f hs hf _ => ?_, ?_,
    fun p _ s f hs hf _ => ?_⟩
  · rw [generator_adopt] at hs
    split at hs
    · rw [hslot, Option.some.injEq] at hs
      exact hs ▸ hmade
    · exact h.sits.made i s hs
  · rw [hx, hslot, Option.some.injEq] at hg
    subst hg
    rw [generator_adopt] at hi
    split at hi
    · next hi' => exact hi'.trans hself.symm
    · exact absurd hi (hvacant i)
  · rw [hnew s f hs hf]
    exact (Frame.sits_new code args p).1
  · rw [hnew s f hs hf]
    exact ⟨_, (Frame.sits_new code args p).2⟩
  · rw [hx, hidle]
  · rw [hnew s f hs hf]
    exact ⟨code, args, rfl⟩

section NewGenerator

variable (code : CodeRef) (args : List Value) (closure : Value)

/-- A generator is made on a frame that no other one has. -/
theorem newGenerator_vacant (h : w.Sits g) :
    (∀ i, ((w.newFrame (.new code args)).2.generator i).frame ≠ some (w.newFrame (.new code args)).1) ∧
      (w.newFrame (.new code args)).1.index < (w.newFrame (.new code args)).2.frames.size :=
  ⟨fun i hi => Nat.lt_irrefl _ (h.made i _ hi),
    Nat.lt_of_lt_of_le (Nat.lt_succ_self _) (by simp [World.newFrame, Store.size_alloc])⟩

theorem Sits.newGenerator (h : w.Sits g) (hmade : g.index < w.generators.size) :
    After g True True w (w.newGenerator code args closure).2 := by
  obtain ⟨hvacant, hsize⟩ := newGenerator_vacant code args h
  have hframe := h.newFrame (.new code args)
  rw [newGenerator_eq]
  refine hframe.next (hframe.sits.adopt ?_ fun r hr => ?_)
  · rintro rfl
    exact Nat.lt_irrefl _ hmade
  · obtain rfl := Option.some.inj hr
    exact ⟨hsize, hvacant g⟩

theorem Reposes.newGenerator (h : w.Reposes g) : (w.newGenerator code args closure).2.Reposes g := by
  obtain ⟨hvacant, hsize⟩ := newGenerator_vacant code args h.sits
  have hframe := h.after (h.sits.newFrame (.new code args))
  rw [newGenerator_eq]
  by_cases hself : g = ((w.newFrame (.new code args)).2.adopt
      ⟨code, closure, some (w.newFrame (.new code args)).1, false⟩).1
  · exact hframe.adopted hself rfl rfl hsize hvacant (by rw [frame_newFrame, if_pos rfl])
  · refine hframe.after (hframe.sits.adopt hself fun r hr => ?_)
    obtain rfl := Option.some.inj hr
    exact ⟨hsize, hvacant g⟩

end NewGenerator

theorem reposes_new (limit : Nat) (sink : Sink) (g : GeneratorRef) : (World.new limit sink).Reposes g where
  sits := ⟨nofun, nofun, fun _ _ _ _ h => nomatch h⟩
  calm _ _ _ _ h := nomatch h
  idle := rfl
  intact _ _ _ _ h := nomatch h

end World

/-! ## Sessions -/

namespace Observer

/-- The observer who minds a generator, and breaks a run off as well where a computation is being
abandoned. -/
def heeding (o : Observer) (g : GeneratorRef) : Observer where
  note := o.note
  stops event w := (o.minding g).stops event w || w.unwinding

theorem heeding_heeds (o : Observer) (g : GeneratorRef) : (o.heeding g).Heeds g where
  minds w v h := by simp [heeding, o.minding_minds g w v h]
  unwinding event w h := by simp [heeding, h]

end Observer

namespace Session

open Machine (observedEngine)

/-- A command does not handle the frame of a generator from outside. -/
def LeavesFrame (g : GeneratorRef) (w : World) (c : Command) : Prop :=
  ∀ r, c.handled (fresh w) = some r → (w.generator g).frame ≠ some r

/-- Carrying out a command neither comes to a moment at which a generator is resumed while it is crossed, nor
to one at which a computation is being abandoned: it makes no difference whether the run would be broken off
there. -/
def GoesWell (g : GeneratorRef) (fuel : Nat) (full : Bool) (w : World) (c : Command) : Prop :=
  carryOut (observedEngine (Observer.unconcerned.heeding g) fuel) full c (fresh w) =
    carryOut (Machine.engine fuel) full c (fresh w)

/-- The worlds that a session leads to from a world, in which the frame of a generator is not handled from
outside, the generator is not resumed while it is crossed, and no computation is abandoned. -/
inductive Undisturbed (g : GeneratorRef) (w : World) : World → Prop where
  | refl : Undisturbed g w w
  | step {u : World} (h : Undisturbed g w u) (fuel : Nat) (full : Bool) (c : Command)
      (hc : LeavesFrame g u c) (hwell : GoesWell g fuel full u c)
      (hdone : (step fuel full u c).1.report ≠ .outOfFuel) : Undisturbed g w (step fuel full u c).2

/-- A command of such a session comes to an event in a world, and up to then neither has happened. -/
def AmidUndisturbed (g : GeneratorRef) (w : World) (event : Event) (u : World) : Prop :=
  u.unwinding = false ∧ ∃ v fuel full c likes, Undisturbed g w v ∧ LeavesFrame g v c ∧
    u.thread.id = (fresh v).thread.id ∧
    let o := Observer.breaking (fun _ t => t.held) event likes
    carryOut (observedEngine o fuel) full c (fresh v) = .error .outOfFuel u.elsewhere ∧
      carryOut (observedEngine (o.heeding g) fuel) full c (fresh v) = .error .outOfFuel u.elsewhere

theorem Undisturbed.reachable (h : Undisturbed g w u) (hw : Reachable w) : Reachable u := by
  induction h with
  | refl => exact hw
  | step _ fuel full c _ _ hdone ih => exact ih.step fuel full c hdone

theorem Undisturbed.trans (h : Undisturbed g w t) (h' : Undisturbed g t u) : Undisturbed g w u := by
  induction h' with
  | refl => exact h
  | step _ fuel full c hc hwell hdone ih => exact ih.step fuel full c hc hwell hdone

/-! ## What a command leads to -/

/-- In the middle of a command, the frame of a generator may be resumed. -/
structure Underway (g : GeneratorRef) (w u : World) : Prop where
  sits : u.Sits g
  intact : u.Intact g
  since : g.index < w.generators.size → World.Since g w u

/-- After a command, the frame of a generator is at rest. -/
structure Settled (g : GeneratorRef) (w u : World) : Prop where
  reposes : u.Reposes g
  since : g.index < w.generators.size → World.Since g w u

theorem Settled.refl (h : w.Reposes g) : Settled g w w := ⟨h, .refl⟩

theorem Settled.after (h : Settled g w t) (hu : After g True True t u) : Settled g w u :=
  ⟨h.reposes.after hu, fun hmade => (h.since hmade).follows hu.toFollows⟩

theorem Settled.follows (h : Settled g w t) (hu : Follows g t u) : Underway g w u :=
  ⟨hu.sits, h.reposes.intact.follows hu, fun hmade => (h.since hmade).follows hu⟩

theorem Underway.follows (h : Underway g w t) (hu : Follows g t u) : Underway g w u :=
  ⟨hu.sits, h.intact.follows hu, fun hmade => (h.since hmade).follows hu⟩

theorem admits_settled (g : GeneratorRef) (w : World) : Admits (Settled g w) Unwinding where
  code c h := ⟨⟨h.1.reposes.newCode c, fun hmade => (h.1.since hmade).newCode c⟩, h.2⟩
  frame r args h := ⟨h.1.after (h.1.reposes.sits.newFrame (.new r args)), h.2⟩
  generator r args closure h := by
    refine ⟨⟨h.1.reposes.newGenerator r args closure, fun hmade => ?_⟩, h.2⟩
    have hsince := h.1.since hmade
    exact hsince.follows (h.1.reposes.sits.newGenerator r args closure hsince.made).toFollows

/-- A command that a heeded run carries out leaves the frame of a generator at rest. -/
theorem carryOut_reposes {o : Observer} (ho : o.Heeds g) {c : Command} (hc : LeavesFrame g w c) (fuel : Nat)
    (full : Bool) (hw : w.Reposes g) :
    Run.Meets (fun _ => Settled g w) (fun _ => Settled g w) (Settled g w)
      (fun u => Underway g w u ∨ Unwinding u) (carryOut (observedEngine o fuel) full c) (fresh w) := by
  have he := observed_guards ho fuel
  have hfresh := hw.sits.quiet w.quiet_fresh
  have hstart : Settled g w (fresh w) := (Settled.refl hw).after hfresh
  cases hx : c.frameOperand with
  | none =>
      have hupholds : (observedEngine o fuel).Upholds (Settled g w) Unwinding
          fun u => Underway g w u ∨ Unwinding u :=
        he.upholds (fun _ ht => ht.reposes.sits) (fun _ _ ht hu => ht.after hu)
          (fun _ _ ht hu => Or.inl (ht.follows hu)) fun _ hu => Or.inr hu
      have hplain : c.handlesFrames = false ∧ c.takesWaiting = false := by
        cases c <;> first | exact ⟨rfl, rfl⟩ | cases hx
      have hkept := upholds_carryOut hupholds (admits_settled g w) hplain.1
        (fun htakes => absurd htakes (by simp [hplain.2])) full false (fresh w) (.unmarked hstart)
      exact hkept.mono (fun _ _ hu => hu.1) (fun _ _ hu => hu.1) (fun _ hu => hu.1) fun _ hu => hu
  | some x =>
      have hothers : ∀ r, (observedEngine o fuel).Upholds
          (fun t => After g True True (fresh w) t ∧ (t.generator g).frame ≠ some r) Unwinding
          (World.Broken g (fresh w)) := fun r =>
        he.upholds (fun _ ht => ht.1.sits) (fun _ _ ht hu => ⟨ht.1.next hu, fun hr => ht.2 (hu.slot r hr)⟩)
          (fun _ _ ht hu => Or.inl (ht.1.toFollows.trans hu)) fun _ hu => Or.inr hu
      have hkept := upholds_handling (he.after (fresh w) True True) hothers (fun _ _ ht => ht.1)
        (fun r _ t y ht => ⟨⟨ht.1.1.next (ht.1.1.sits.setFrame ht.1.2 y), by simpa using ht.1.2⟩, ht.2⟩)
        hx full (b := false) (.unmarked hfresh.sits.after_self)
        (fun v t r heval hr ht => ⟨ht, fun hslot => hc r ?_ (ht.slot r hslot)⟩)
      · exact hkept.mono (fun _ _ hu => hstart.after hu.1) (fun _ _ hu => hstart.after hu.1)
          (fun _ hu => hstart.after hu.1) fun _ hu => hu.imp_left hstart.follows
      · unfold Command.handled
        rw [hx]
        simp only [heval, hr]

theorem step_reposes {fuel : Nat} {full : Bool} {c : Command} (hc : LeavesFrame g w c)
    (hwell : GoesWell g fuel full w c) (hdone : (step fuel full w c).1.report ≠ .outOfFuel)
    (hw : w.Reposes g) : Settled g w (step fuel full w c).2 := by
  have hend := carryOut_reposes (Observer.heeding_heeds .unconcerned g) hc fuel full hw
  rw [Run.Meets, hwell] at hend
  have hrun : carryOut (Machine.engine fuel) full c { w with diagnostics := "", log := [] } =
      carryOut (Machine.engine fuel) full c (fresh w) := rfl
  unfold step at hdone ⊢
  simp only [hrun] at hdone ⊢
  generalize carryOut (Machine.engine fuel) full c (fresh w) = x at hend hdone
  rcases x with ⟨report, t⟩ | ⟨_ | _ | _, t⟩
  case error.outOfFuel => exact absurd rfl hdone
  case error.aborted =>
    exact hend.after (hend.reposes.sits.after rfl le_rfl le_rfl (fun _ _ hr => hr) (fun _ _ _ hf => hf)
      (fun _ _ => rfl) id)
  all_goals exact hend

/-- What commands lead to, one after the other. -/
theorem Undisturbed.settled (h : Undisturbed g w u) (hw : w.Reposes g) : Settled g w u := by
  induction h with
  | refl => exact .refl hw
  | step _ fuel full c hc hwell hdone ih =>
      have hnext := step_reposes hc hwell hdone ih.reposes
      exact ⟨hnext.reposes, fun hmade => (ih.since hmade).trans (hnext.since (ih.since hmade).made)⟩

theorem AmidUndisturbed.underway (h : AmidUndisturbed g w event u) (hw : w.Reposes g) : Underway g w u := by
  obtain ⟨hgoing, v, fuel, full, c, likes, hv, hc, _, _, hrun⟩ := h
  have hbefore := hv.settled hw
  have hend := carryOut_reposes
    (Observer.heeding_heeds (.breaking (fun _ t => t.held) event likes) g) hc fuel full hbefore.reposes
  rw [Run.Meets, hrun] at hend
  rcases hend with hunderway | hunwinding
  · have hback := hunderway.follows (hunderway.sits.quiet u.elsewhere_quiet).toFollows
    exact ⟨hback.sits, hback.intact, fun hmade =>
      (hbefore.since hmade).trans (hback.since (hbefore.since hmade).made)⟩
  · have hunwinding : u.unwinding = true := hunwinding
    rw [hgoing] at hunwinding
    cases hunwinding

end Session

end Resumable
