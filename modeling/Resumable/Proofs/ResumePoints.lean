import Mathlib
import Resumable.Proofs.Undisturbed

set_option autoImplicit false

/-!
# Resume points

Whenever a generator is not running and no exception waits in its frame, the frame is at one of five points,
which says what state is reported of the generator (`Session.resume_points`).  Once a generator has left its
first state, it is never reported again.

A generator that is closed lets go of its delegate before the exception is left in its frame.  In between,
the frame is at none of the points, and if the generator is resumed then, it may be at none of them
afterwards (`Session.closed_between_resume_points`).
-/

namespace Resumable

open World (Since)

variable {g : GeneratorRef} {w u : World} {event : Event} {f : Frame} {p : Code.Program}

/-- The instruction at a place of a body that is a program. -/
def Body.instruction? (body : Body) (n : Nat) : Option Code.Instruction :=
  match body with
  | .program p => p.instructions[n]?
  | .script _ => none

@[simp] theorem Body.instruction?_program (p : Code.Program) (n : Nat) :
    (Body.program p).instruction? n = p.instructions[n]? := rfl

namespace World

/-- The frame of a generator rests at one point, and no other.  The point says what state is reported of the
generator, and a frame that no instruction has been carried out in is as it was made. -/
def RestsIn (w : World) (g : GeneratorRef) (p : Code.Program) (f : Frame) : Prop :=
  ∃ point, f.RestsAt p point ∧ (∀ other, f.RestsAt p other → other = point) ∧
    w.stateOf g = point.state ∧ (point = .created → f.AsMade)

theorem Intact.restsIn {point : RestPoint} {r : FrameRef} (h : w.Intact g)
    (hprogram : w.bodyOf g = .program p) (hidle : (w.generator g).running = false)
    (hslot : (w.generator g).frame = some r) (hf : w.frame? r = some f) (hpoint : f.RestsAt p point) :
    w.RestsIn g p f := by
  refine ⟨point, hpoint, fun other hother => hother.unique hpoint, hpoint.stateOf hidle hslot hf, ?_⟩
  rintro rfl
  exact h p hprogram r f hslot hf hpoint.1

/-- Between commands the frame of a generator is in its cell. -/
theorem Sound.present {L : Law} {F : Bag} (h : w.Sound L F) {r : FrameRef}
    (hslot : (w.generator g).frame = some r) : ∃ f, w.frame? r = some f := by
  have hall : holds (w.generator g) ≤ w.references fun _ => False := holds_generator_le fun hh => hh
  have hle := Bag.apply_le hall (.frame r)
  have hone : 1 ≤ holds (w.generator g) (.frame r) := by
    rw [holds_generatorObject, hslot]
    simp [Bag.of_singleton_self]
  have howned := h.owned (.frame r)
  exact Option.ne_none_iff_exists'.1 (h.seated (.frame r) (by omega))

theorem stateOf_frameless (hidle : (w.generator g).running = false) (hslot : (w.generator g).frame = none) :
    w.stateOf g = .finished := by
  simp [stateOf, hidle, hslot]

/-- Of a generator that has not been resumed yet, the frame is in its cell and has not started. -/
theorem frame_of_created (h : w.stateOf g = .created) :
    (w.generator g).running = false ∧ ∃ r f, (w.generator g).frame = some r ∧ w.frame? r = some f ∧
      f.position = Frame.notStarted ∧ f.delegate = none := by
  unfold stateOf at h
  split at h
  · cases h
  · next hidle =>
    split at h
    · cases h
    · next r hslot =>
      split at h
      · cases h
      · next f hf =>
        refine ⟨by simpa using hidle, r, f, hslot, hf, ?_⟩
        split_ifs at h with hfinished hdelegate hstarted
        exact ⟨by simpa [Frame.isStarted] using hstarted, by simpa using hdelegate⟩

theorem stateOf_created {r : FrameRef} (hidle : (w.generator g).running = false)
    (hslot : (w.generator g).frame = some r) (hf : w.frame? r = some f)
    (hstart : f.position = Frame.notStarted) (hdelegate : f.delegate = none) : w.stateOf g = .created := by
  simp [stateOf, hidle, hslot, hf, Frame.isFinished, Frame.isStarted, hstart, hdelegate,
    Frame.notStarted, Frame.finished]

/-- A generator of which the first state is reported was in that state before, and its frame has not been
touched since. -/
theorem Since.created (h : Since g w u) (hidle : (w.generator g).running = false)
    (hprogram : ∃ p, u.bodyOf g = .program p) (hstate : u.stateOf g = .created) :
    w.stateOf g = .created ∧ ∃ r b f, (w.generator g).frame = some r ∧ (u.generator g).frame = some r ∧
      w.frame? r = some b ∧ u.frame? r = some f ∧ f.Alike b := by
  obtain ⟨_, r, f, hslot, hf, hstart, hdelegate⟩ := frame_of_created hstate
  obtain ⟨b, hb, halike⟩ := h.fresh hprogram r f hslot hf hstart
  have hslot' := h.slot r hslot
  have hstart' : b.position = Frame.notStarted := (congrArg Frame.position halike).symm.trans hstart
  have hdelegate' : b.delegate = none := (congrArg Frame.delegate halike).symm.trans hdelegate
  exact ⟨stateOf_created hidle hslot' hb hstart' hdelegate', r, b, f, hslot', hslot, hb, hf, halike⟩

end World

namespace Session

/-- Consider a session in which the frame of a generator is not handled from outside, the generator is not
resumed while it is crossed, and no computation is abandoned.

Between its commands the generator is not running.  It has let go of its frame, and then it has finished, or
its frame is in its cell, no value waits there for a resume, and unless an exception does, the frame rests at
one point.  In the middle of a command this is so while the generator is not running and its frame is in its
cell, but for a frame whose delegate has been taken away.

If the first state is reported of a generator, between commands or in the middle of one, it has been in that
state all the time. -/
theorem resume_points (g : GeneratorRef) (limit : Nat) (sink : Sink) (u : World) (p : Code.Program)
    (hprogram : u.bodyOf g = .program p) :
    (Undisturbed g (.new limit sink) u → (u.generator g).running = false ∧
      ((u.generator g).frame = none → u.stateOf g = .finished) ∧
      ∀ r, (u.generator g).frame = some r →
        ∃ f, u.frame? r = some f ∧ f.input = none ∧ (f.pending = none → u.RestsIn g p f)) ∧
    (∀ event, AmidUndisturbed g (.new limit sink) event u → (u.generator g).running = false →
      ((u.generator g).frame = none → u.stateOf g = .finished) ∧
      ∀ r f, (u.generator g).frame = some r → u.frame? r = some f →
        f.input = none ∧ (f.pending = none → u.RestsIn g p f ∨ f.Forsaken p)) ∧
    (∀ w, Undisturbed g (.new limit sink) w → g.index < w.generators.size →
      Undisturbed g w u ∨ (∃ event, AmidUndisturbed g w event u) → u.stateOf g = .created →
        w.stateOf g = .created ∧ ∃ r b f, (w.generator g).frame = some r ∧
          (u.generator g).frame = some r ∧ w.frame? r = some b ∧ u.frame? r = some f ∧ f.Alike b) := by
  have hnew := World.reposes_new limit sink g
  refine ⟨fun h => ?_, fun event h hidle => ?_, fun w hw hmade h hstate => ?_⟩
  · have hrest := (h.settled hnew).reposes
    refine ⟨hrest.idle, World.stateOf_frameless hrest.idle, fun r hslot => ?_⟩
    obtain ⟨f, hf⟩ := (h.reachable (.start limit sink)).sound.present hslot
    refine ⟨f, hf, (hrest.sits.frame p hprogram r f hslot hf).input, fun hpending => ?_⟩
    obtain ⟨point, hpoint⟩ := hrest.calm p hprogram r f hslot hf hpending
    exact hrest.intact.restsIn hprogram hrest.idle hslot hf hpoint
  · have hunderway := h.underway hnew
    refine ⟨World.stateOf_frameless hidle, fun r f hslot hf => ?_⟩
    have hsits := hunderway.sits.frame p hprogram r f hslot hf
    refine ⟨hsits.input, fun _ => hsits.point.imp_left fun ⟨point, hpoint⟩ => ?_⟩
    exact hunderway.intact.restsIn hprogram hidle hslot hf hpoint
  · have hrest := (hw.settled hnew).reposes
    have hsince : Since g w u := by
      rcases h with h | ⟨event, h⟩
      · exact (h.settled hrest).since hmade
      · exact (h.underway hrest).since hmade
    exact hsince.created hrest.idle ⟨p, hprogram⟩ hstate

theorem AmidUndisturbed.after {v : World} (h : AmidUndisturbed g v event u) (hv : Undisturbed g w v) :
    AmidUndisturbed g w event u := by
  obtain ⟨hgoing, t, fuel, full, c, likes, ht, hrest⟩ := h
  exact ⟨hgoing, t, fuel, full, c, likes, hv.trans ht, hrest⟩

/-! ### A generator that is resumed, delegates and is resumed again -/

/-- None of the commands handles a frame or comes to such a moment. -/
def GoesWellAll (g : GeneratorRef) (w : World) : List Command → Prop
  | [] => True
  | c :: cs => c.frameOperand = none ∧ GoesWell g 40 false w c ∧ GoesWellAll g (step 40 false w c).2 cs

theorem leavesFrame_of_frameOperand {c : Command} (h : c.frameOperand = none) : LeavesFrame g w c := by
  intro r hr
  rw [Command.handled, h] at hr
  cases hr

theorem Undisturbed.afterAll {cs : List Command} (h : Undisturbed g w u) (hwell : GoesWellAll g u cs)
    (hdone : allDone u cs = true) : Undisturbed g w (afterAll u cs) := by
  induction cs generalizing u with
  | nil => exact h
  | cons c cs ih =>
      rw [allDone] at hdone
      split at hdone
      · cases hdone
      · next hreport =>
        exact ih (h.step 40 false c (leavesFrame_of_frameOperand hwell.1) hwell.2.1 hreport) hwell.2.2 hdone

/-- A generator has been made that is going to delegate to another one. -/
def madeWorld : World := afterAll (.new 5 .collecting) (delegatingCommands.take 4)

/-- The other one has been resumed by itself. -/
def outpacedWorld : World := afterAll madeWorld [.drive "g1" .next none]

/-- The generator has been resumed, and delegates. -/
def followingWorld : World := afterAll outpacedWorld [.drive "g0" .next none]

theorem madeWorld_undisturbed : Undisturbed ⟨1⟩ (.new 5 .collecting) madeWorld := by
  refine .afterAll .refl ?_ (by decide +kernel)
  refine ⟨rfl, ?_, rfl, ?_, rfl, ?_, rfl, ?_, trivial⟩ <;> unfold GoesWell <;> cbv

theorem outpacedWorld_undisturbed : Undisturbed ⟨1⟩ madeWorld outpacedWorld := by
  refine .afterAll .refl ⟨rfl, ?_, trivial⟩ (by decide +kernel)
  unfold GoesWell
  cbv

theorem followingWorld_undisturbed : Undisturbed ⟨1⟩ outpacedWorld followingWorld := by
  refine .afterAll .refl ⟨rfl, ?_, trivial⟩ (by decide +kernel)
  unfold GoesWell
  cbv

/-- The generator is resumed once more, up to the moment when this is asked for. -/
def followingRun : EStateM.Result Interruption World Report :=
  carryOut (Machine.observedEngine
    (.breaking (fun _ t => t.held) (.asked (.resume ⟨1⟩ .none)) fun _ => true) 60) false
    (.drive "g0" .next none) (fresh followingWorld)

theorem followingRun_amid :
    AmidUndisturbed ⟨1⟩ followingWorld (.asked (.resume ⟨1⟩ .none)) (brokenOffAt followingRun) := by
  have hbroken : followingRun = .error .outOfFuel (brokenOffAt followingRun).elsewhere ∧
      (brokenOffAt followingRun).thread.id = 0 := eq_of_isBrokenOff (by decide +kernel)
  refine ⟨by decide +kernel, followingWorld, 60, false, .drive "g0" .next none, fun _ => true, .refl,
    leavesFrame_of_frameOperand rfl, hbroken.2.trans (by decide +kernel), hbroken.1, Eq.trans ?_ hbroken.1⟩
  unfold followingRun
  cbv

/-- What is seen of the generator in these worlds. -/
theorem outpacedWorld_seen :
    (outpacedWorld.generator ⟨1⟩).RunsProgram outpacedWorld.codes ∧ 1 < madeWorld.generators.size ∧
      outpacedWorld.stateOf ⟨1⟩ = .created := by decide +kernel

theorem followingRun_seen :
    ((brokenOffAt followingRun).generator ⟨1⟩).RunsProgram (brokenOffAt followingRun).codes ∧
      ((brokenOffAt followingRun).generator ⟨1⟩).running = false ∧
      ((brokenOffAt followingRun).generator ⟨1⟩).frame = some ⟨1⟩ ∧
      ((brokenOffAt followingRun).frame? ⟨1⟩).isSome = true ∧
      (brokenOffAt followingRun).stateOf ⟨1⟩ = .delegating := by decide +kernel

/-- The generator stays in its first state while the other one is resumed.  It delegates at the moment when
it is about to be resumed once more. -/
theorem resume_points_outpaced :
    (∃ p, Undisturbed ⟨1⟩ madeWorld outpacedWorld ∧ outpacedWorld.bodyOf ⟨1⟩ = .program p ∧
      (outpacedWorld.generator ⟨1⟩).running = false ∧ outpacedWorld.stateOf ⟨1⟩ = .created ∧
      madeWorld.stateOf ⟨1⟩ = .created) ∧
    ∃ p f, (brokenOffAt followingRun).bodyOf ⟨1⟩ = .program p ∧
      (brokenOffAt followingRun).stateOf ⟨1⟩ = .delegating ∧
      (brokenOffAt followingRun).frame? ⟨1⟩ = some f ∧ f.input = none ∧
      (f.pending = none → (brokenOffAt followingRun).RestsIn ⟨1⟩ p f ∨ f.Forsaken p) := by
  have hout := madeWorld_undisturbed.trans outpacedWorld_undisturbed
  have hfollowing := hout.trans followingWorld_undisturbed
  refine ⟨?_, ?_⟩
  · obtain ⟨⟨p, hp⟩, hmade, hstate⟩ := outpacedWorld_seen
    obtain ⟨hbetween, _, hcreated⟩ := resume_points ⟨1⟩ 5 .collecting outpacedWorld p hp
    exact ⟨p, outpacedWorld_undisturbed, hp, (hbetween hout).1, hstate, (hcreated madeWorld madeWorld_undisturbed hmade
      (.inl outpacedWorld_undisturbed) hstate).1⟩
  · obtain ⟨⟨p, hp⟩, hidle, hslot, hin, hstate⟩ := followingRun_seen
    obtain ⟨f, hf⟩ := Option.isSome_iff_exists.1 hin
    obtain ⟨_, hamid, _⟩ := resume_points ⟨1⟩ 5 .collecting (brokenOffAt followingRun) p hp
    obtain ⟨hinput, hrests⟩ := (hamid _ (followingRun_amid.after hfollowing) hidle).2 ⟨1⟩ f hslot hf
    exact ⟨p, f, hp, hstate, hf, hinput, hrests⟩

/-! ### A generator that is resumed while it is being closed -/

/-- A body that yields once, and when it is closed asks for an item of each iterable in a list. -/
def askingEachAtExit : Code.Source :=
  ⟨"h", ["l"], "<bytecode>", 2,
    [.setupExcept 0, .loadConst (.int 3), .emit .yieldValue, .emit .returnValue,
      .bind 0, .loadFast "l", .emit .getIter, .forIter 1, .emit .getIter, .forIter 1,
      .bind 1, .loadConst .none, .emit .returnValue]⟩

/-- A body that delegates to an argument that it does not keep, and once more to another argument beneath
it; if an exception is raised, it yields. -/
def delegatingTwice : Code.Source :=
  ⟨"outer", ["below", "it"], "<bytecode>", 1,
    [.setupExcept 0, .loadFast "below", .loadFast "it", .loadConst .none, .storeFast "it",
      .emit .yieldFrom, .emit .returnValue, .bind 0, .loadConst (.int 5), .emit .yieldValue,
      .emit .returnValue]⟩

/-- A generator that delegates is closed.  Its delegate is held by it alone, and all that the delegate holds
is a generator that asks the first one for an item when it is closed. -/
def meddlingCommands : List Command :=
  [.assemble "ph" askingEachAtExit, .assemble "p1" yieldingTwice, .assemble "p0" delegatingTwice,
    .bind "l" (.list []), .makeGenerator "h" "ph" [.variable "l"] .none, .drive "h" .next none,
    .bind "c" (.list [.variable "h"]), .makeGenerator "g1" "p1" [] (.variable "c"),
    .makeGenerator "g0" "p0" [.list [.int 7], .variable "g1"] .none, .drive "g0" .next none,
    .listPush (.variable "l") (.variable "g0"), .unbind "h", .unbind "c", .unbind "g1",
    .drive "g0" .close none]

/-- The world after these commands. -/
def meddledWorld : World := afterAll (.new 5 .collecting) meddlingCommands

theorem meddledWorld_seen :
    allDone (.new 5 .collecting) meddlingCommands = true ∧
      (run 40 false (.new 5 .collecting) meddlingCommands).all
        (fun a => match a.report with | .aborted => false | _ => true) = true ∧
      (meddledWorld.generator ⟨2⟩).RunsProgram meddledWorld.codes ∧
      (meddledWorld.generator ⟨2⟩).running = false ∧ (meddledWorld.generator ⟨2⟩).frame = some ⟨2⟩ ∧
      (meddledWorld.frame? ⟨2⟩).map (fun f => (f.position, f.delegate.isSome, f.pending)) =
        some (9, true, none) := by decide +kernel

/-- The generator is at an instruction that does not delegate, and it delegates. -/
theorem closed_between_resume_points :
    ∃ cs u p r f, (∀ c ∈ cs, c.frameOperand = none) ∧
      (run 40 false (.new 5 .collecting) cs).all
        (fun a => match a.report with | .aborted => false | _ => true) = true ∧
      u = afterAll (.new 5 .collecting) cs ∧ Reachable u ∧ u.bodyOf ⟨2⟩ = .program p ∧
      (u.generator ⟨2⟩).running = false ∧ (u.generator ⟨2⟩).frame = some r ∧ u.frame? r = some f ∧
      f.pending = none ∧ ∀ point, ¬ f.RestsAt p point := by
  obtain ⟨hdone, hwell, ⟨p, hp⟩, hidle, hslot, hseen⟩ := meddledWorld_seen
  have hp : meddledWorld.bodyOf ⟨2⟩ = .program p := hp
  have hinstruction : p.instructions[9]? = some .returnValue := by
    have hat : (meddledWorld.bodyOf ⟨2⟩).instruction? 9 = some .returnValue := by decide +kernel
    rwa [hp, Body.instruction?_program] at hat
  obtain ⟨f, hf, hframe⟩ := Option.map_eq_some_iff.1 hseen
  obtain ⟨hposition, hdelegate, hpending⟩ : f.position = 9 ∧ f.delegate.isSome = true ∧ f.pending = none := by
    simpa using hframe
  refine ⟨meddlingCommands, meddledWorld, p, ⟨2⟩, f, by decide, hwell, rfl,
    (Reachable.start 5 .collecting).afterAll hdone, hp, hidle, hslot, hf, hpending, fun point hpoint => ?_⟩
  by_cases hpoint' : point = .delegating
  · subst hpoint'
    obtain ⟨n, _, hn, hi, _⟩ := hpoint
    obtain rfl : n = 9 := by omega
    rw [hinstruction] at hi
    cases hi
  · rw [hpoint.delegate_eq_none hpoint'] at hdelegate
    cases hdelegate

end Session

end Resumable
