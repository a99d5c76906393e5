import Resumable.Proofs.Orderly

set_option autoImplicit false

/-!
# Conflicts of use

Two users of one object are in conflict: the second one finds the cell vacant, and what it was about to
do is abandoned.  In an orderly session no command comes to that.  Calls into a generator that is
running are refused before they look for its frame, and an iterator is in use for no longer than it
takes to look at its list.

Inside a command the same holds of every call, as long as nothing is in use at that moment but the
frames of running generators.  There is one kind of moment at which something is: what a frame no
longer holds is forgotten while the frame is out of its cell, and the generator is not marked as
running then.  A generator that is finalized at such a moment may call the generator whose frame it is.
That call is abandoned, and the finalizer contains it: the body that made the call is given up without
a trace.
-/

namespace Resumable

theorem Run.eq_aborted_of_endingOf {σ α : Type} {x : EStateM.Result Interruption σ α}
    (h : Run.endingOf x = some .aborted) : ∃ s, x = .error .aborted s := by
  rcases x with ⟨a, s⟩ | ⟨_ | _ | _, s⟩ <;> cases h
  exact ⟨s, rfl⟩

namespace Session

variable {w u : World} {c : Command}

/-- An orderly command carried out on an orderly world is not abandoned. -/
theorem Orderly.carryOut_ne_aborted (h : Orderly w) (hc : c.IsOrderly) (fuel : Nat)
    (full : Bool) :
    Run.endingOf (carryOut (Machine.engine fuel) full c (fresh w)) ≠ some .aborted := by
  intro hending
  obtain ⟨t, haborted⟩ := Run.eq_aborted_of_endingOf hending
  have hfresh : (fresh w).Sound .tamed 0 := fresh_sound (w := w) unheld_tamed h.sound
  by_cases hthread : c.isOfThread = true
  · obtain ⟨_, _, hdone, _⟩ := carryOut_ofThread full unheld_tamed
      (e := Machine.engine fuel) hthread hfresh
    rw [hdone] at haborted
    cases haborted
  · have hserves := Machine.machine_serves (C := Zone.Level .tamed)
      (fun Z hZ => by rw [hZ.law]; infer_instance) (le_refl fuel)
    have hsettled : Settles .tamed _ 0 (fun _ => 0)
        (carryOut (Machine.engine fuel) full c) (fresh w) :=
      carryOut_settles hserves (by simpa using hthread) (fun _ => hc.tame) ⟨hfresh, rfl⟩
    unfold Settles at hsettled
    rw [haborted] at hsettled
    cases hsettled with
    | aborted _ htamed => exact htamed True.intro

/-- A command of an orderly session comes to a request in a world. -/
def AmidOrderly (request : Request) (u : World) : Prop :=
  ∃ w fuel full c, Orderly w ∧ c.IsOrderly ∧
    Machine.ComesTo (fun _ t => t.held) fuel (fun e => carryOut e full c) (fresh w)
      (.asked request) u

theorem AmidOrderly.moment {request : Request} (h : AmidOrderly request u) :
    Machine.Moment (Zone.Level .tamed) (.asked request) u := by
  obtain ⟨w, fuel, full, c, hw, hc, hcomes⟩ := h
  have hunchanged : (fresh w).noted (fresh w).held = fresh w := rfl
  have hfresh : ((fresh w).noted (fresh w).held).Sound .tamed 0 :=
    fresh_sound (w := w) unheld_tamed hw.sound
  rw [← hunchanged] at hcomes
  exact moment_of_comesTo hfresh (fun _ => hc.tame) (fun _ _ _ => True.intro) hcomes

/-- Conflicts of use do not get out of a command.

A command of an orderly session is never abandoned.  Neither is any request that is made in the course
of one, however deeply nested, at a moment at which nothing is in use but the frames of running
generators. -/
theorem conflicts_contained (h : Orderly w) (hc : c.IsOrderly) :
    (∀ fuel full,
        Run.endingOf (carryOut (Machine.engine fuel) full c (fresh w)) ≠ some .aborted) ∧
      ∀ request u, AmidOrderly request u → u.Clear →
        ∀ n, Run.endingOf (Machine.perform n request u) ≠ some .aborted := by
  refine ⟨h.carryOut_ne_aborted hc, fun request u hamid hclear n hending => ?_⟩
  obtain ⟨t, haborted⟩ := Run.eq_aborted_of_endingOf hending
  exact hamid.moment.not_aborted True.intro hclear n haborted

/-! ### A finalizer that is in conflict -/

/-- A body that delegates to its argument and lets go of it. -/
def lettingGoOfItself : Code.Source :=
  ⟨"outer", ["it"], "<bytecode>", 0,
    [.loadFast "it", .loadConst .none, .storeFast "it", .emit .yieldFrom, .emit .returnValue]⟩

/-- A body that asks its argument for an item when it is closed.  It makes a note of the end of the
iteration, and of an exception. -/
def askingAtExit : Code.Source :=
  ⟨"asking", ["o", "seen"], "<bytecode>", 3,
    [.setupExcept 0, .loadConst (.int 1), .emit .yieldValue, .emit .returnValue,
      .bind 0, .setupExcept 2, .loadFast "o", .forIter 1,
      .bind 1, .loadFast "seen", .loadConst (.str "ended"), .emit .listAppend, .loadConst .none,
      .emit .returnValue,
      .bind 2, .storeFast "e", .loadFast "seen", .loadFast "e", .emit .listAppend,
      .loadConst .none, .emit .returnValue]⟩

/-- A generator delegates to an iterator over a list.  Nothing else holds the list, and all that it holds
is a generator that asks the first one for an item when it is closed. -/
def conflictCommands : List Command :=
  [.assemble "po" lettingGoOfItself, .assemble "px" askingAtExit, .bind "l" (.list []),
    .bind "s" (.list []), .makeGenerator "o" "po" [.variable "l"] .none,
    .makeGenerator "x" "px" [.variable "o", .variable "s"] .none, .drive "x" .next none,
    .listPush (.variable "l") (.variable "x"), .unbind "x", .drive "o" .next none, .unbind "l"]

/-- The world that these commands lead to. -/
def conflictWorld : World := afterAll (.new 5 .collecting) conflictCommands

theorem Orderly.afterAll {cs : List Command} (h : Orderly w) (hcs : ∀ c ∈ cs, c.IsOrderly)
    (hdone : allDone w cs = true) : Orderly (afterAll w cs) := by
  induction cs generalizing w with
  | nil => exact h
  | cons c cs ih =>
      rw [allDone] at hdone
      split at hdone
      · cases hdone
      · next hreport =>
        exact ih (h.step 40 false (hcs c List.mem_cons_self) hreport)
          (fun c hc => hcs c (List.mem_cons_of_mem _ hc)) hdone

theorem conflictWorld_orderly : Orderly conflictWorld := by
  refine (Orderly.start 5 .collecting).afterAll ?_ (by decide +kernel)
  have houter : lettingGoOfItself.IsSymbolic := by decide
  have hasking : askingAtExit.IsSymbolic := by decide
  simp [conflictCommands, Command.IsOrderly, Command.IsTame, Expr.isTame, Expr.areTame,
    Drive.isTame, houter, hasking]

/-- The next resume of that generator, up to the moment when it is asked for an item while its frame is
in use. -/
def conflictRun : EStateM.Result Interruption World Report :=
  let asked := Observer.breaking (fun _ t => t.held) (.asked (.resume ⟨0⟩ .none)) fun t =>
    (t.frame? ⟨0⟩).isNone
  carryOut (Machine.observedEngine asked 60) false (.drive "o" .next none) (fresh conflictWorld)

theorem conflictRun_amid : AmidOrderly (.resume ⟨0⟩ .none) (brokenOffAt conflictRun) := by
  have hbroken : isBrokenOff 0 conflictRun = true := by decide +kernel
  have hid : (fresh conflictWorld).thread.id = 0 := by decide +kernel
  obtain ⟨hrun, hthread⟩ := eq_of_isBrokenOff hbroken
  exact ⟨_, 60, false, .drive "o" .next none, conflictWorld_orderly, rfl, hthread.trans hid.symm,
    _, hrun⟩

/-- The resume that this happens in is not abandoned. -/
theorem conflicts_contained_askingAtExit :
    Run.endingOf (carryOut (Machine.engine 60) false (.drive "o" .next none)
      (fresh conflictWorld)) ≠ some .aborted :=
  (conflicts_contained conflictWorld_orderly (c := .drive "o" .next none) rfl).1 60 false

/-- The generator is not running, and still the request is abandoned.  The body that makes it has a
handler, which notes nothing. -/
theorem finalizer_in_conflict :
    AmidOrderly (.resume ⟨0⟩ .none) (brokenOffAt conflictRun) ∧
      ((brokenOffAt conflictRun).generator ⟨0⟩).running = false ∧
      Run.endingOf (Machine.perform 40 (.resume ⟨0⟩ .none) (brokenOffAt conflictRun)) =
        some .aborted ∧
      (step 40 false conflictWorld (.drive "o" .next none)).2.items ⟨1⟩ = [] :=
  ⟨conflictRun_amid, by decide +kernel, by decide +kernel, by decide +kernel⟩

end Session

end Resumable
