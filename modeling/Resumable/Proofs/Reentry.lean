import Resumable.Proofs.Termination

set_option autoImplicit false

/-!
# Re-entry

A generator that is running is not resumed a second time, thrown into or closed.  Every operation
looks at the running mark before it looks at anything else, with one exception: `send` first asks
whether the frame was ever resumed.  While the body runs, the frame is out of its cell and this cannot
be told.  But while a delegate is thrown into or closed on behalf of the generator, the frame is at
rest in its cell, and a value that is sent to a frame that was never resumed is refused for that
reason instead.

Either way the call has no effect on the generator.  Its record and the cell of its frame belong to
the zone of any computation that goes on meanwhile, and that includes forgetting the arguments.
-/

namespace Resumable

variable {g : GeneratorRef} {w w' t t' u : World} {Z : Zone} {F G : Bag}

/-- A generator, the cell of its frame and the thread are as they were. -/
structure World.Untouched (w : World) (g : GeneratorRef) (t : World) : Prop where
  generator : t.generator g = w.generator g
  frame : ∀ r, (w.generator g).frame = some r → t.frame? r = w.frame? r
  thread : t.thread = w.thread

/-- A generator that is running is the same in all worlds of a zone, and so is the cell of its
frame. -/
theorem Zone.Linked.untouched (h : Z.Linked F w w') (ht : Z.Linked G t t') (hZ : Z.Valid)
    (hrunning : (w.generator g).running = true) : w.Untouched g t := by
  obtain ⟨x, hx⟩ := Option.isSome_iff_exists.1 (h.pinned.running g hrunning)
  have hw := h.pinned.fixed g x hx
  obtain ⟨r, c, hr, hc⟩ := hZ.slot g x hx (by rw [← hw, hrunning])
  refine ⟨(ht.pinned.fixed g x hx).trans hw.symm, fun s hs => ?_,
    ht.pinned.thread.trans h.pinned.thread.symm⟩
  obtain rfl : r = s := by rw [hw, hr] at hs; exact Option.some.inj hs
  exact (ht.pinned.cells r c hc).trans (h.pinned.cells r c hc).symm

/-- The refusal of a value that is sent too early. -/
def Exception.sentTooEarly : Exception :=
  .typeError "can't send non-None value to a just-started generator"

/-- A generator that is running refuses every call.  A call forgets its arguments and raises the
refusal. -/
structure World.Refuses (w : World) (g : GeneratorRef) (r : FrameRef) : Prop where
  next : ∀ n, (Machine.engine (n + 1)).next g w = .error (.raised .alreadyExecuting) w
  nextOrEnd : ∀ n, (Machine.engine (n + 1)).nextOrEnd g w = .error (.raised .alreadyExecuting) w
  close : ∀ n, (Machine.engine (n + 1)).close g w = .error (.raised .alreadyExecuting) w
  throw : ∀ n (thrown : Throw) tb, Engine.tracebackOf thrown.traceback = .ok tb →
    Refused (Machine.engine n) .alreadyExecuting (thrown.value.toList ++ [thrown.type])
      ((Machine.engine (n + 1)).throw g thrown) w
  send : ∀ n v, (w.isJustStarted r = true → v.isNone = true) →
    Refused (Machine.engine n) .alreadyExecuting [v] ((Machine.engine (n + 1)).send g v) w
  /-- the frame is at rest, was never resumed, and a value is sent -/
  sendEarly : ∀ n v, w.isJustStarted r = true → v.isNone = false →
    Refused (Machine.engine n) .sentTooEarly [v] ((Machine.engine n).send g v) w

theorem World.refuses_of_running {r : FrameRef} (hrunning : (w.generator g).running = true)
    (hslot : (w.generator g).frame = some r) : w.Refuses g r := by
  have hrefusal := World.refusal?_running hrunning
  refine ⟨fun n => ?_, fun n => ?_, fun n => ?_, fun n thrown tb htb => ?_, fun n v hready => ?_,
    fun n v hearly hv => ?_⟩
  · exact Engine.next_refused hrefusal
  · exact Engine.nextOrEnd_running hrunning
  · exact Engine.close_running hrunning
  · exact refused_of_refuse (Engine.throw_refused hrefusal htb)
  · exact refused_of_refuse (Engine.send_refused hslot hrefusal hready)
  · exact refused_of_refuse (Engine.send_early hslot hearly hv)

namespace Session

/-- Re-entry is refused without effect.

At every moment of a session at which a generator is running it has a frame, and it refuses every
call: with the exception for a generator that is executing, unless a value is sent while the frame is
at rest and was never resumed.  Whatever request is made at that moment, and whatever value is sent,
the generator, the cell of its frame and the thread are in the end what they were. -/
theorem reentry_refused {event : Event} (h : Amid event u)
    (hrunning : (u.generator g).running = true) :
    (∃ r, (u.generator g).frame = some r ∧ u.Refuses g r) ∧
      (∀ request, event = .asked request → ∀ n t,
        (Machine.perform n request).EndsIn u t → u.Untouched g t) ∧
      ∀ i v, event = .asked (.resume i v) → ∀ n t,
        ((Machine.engine n).send i v).EndsIn u t → u.Untouched g t := by
  obtain ⟨Z, F, w', hZ, hgranted, hlinked⟩ := h.moment
  refine ⟨?_, ?_, ?_⟩
  · obtain ⟨x, hx⟩ := Option.isSome_iff_exists.1 (hlinked.pinned.running g hrunning)
    obtain rfl := hlinked.pinned.fixed g x hx
    obtain ⟨r, _, hr, _⟩ := hZ.valid.slot g _ hx hrunning
    exact ⟨r, hr, World.refuses_of_running hrunning hr⟩
  · rintro request rfl n t ht
    have hends := (serves_free n).answers hZ request hgranted hlinked
    obtain ⟨_, hafter⟩ := hends.related ht
    exact hlinked.untouched hafter hZ.valid hrunning
  · rintro i v rfl n t ht
    obtain ⟨_, hafter⟩ := (send_ends (serves_free n) hZ hgranted hlinked).related ht
    exact hlinked.untouched hafter hZ.valid hrunning

/-- The generator that closes itself. -/
theorem reentry_refused_closingItself :
    (firstMoment (.asked (.close ⟨0⟩))).Refuses ⟨0⟩ ⟨0⟩ := by
  obtain ⟨⟨r, hr, hrefuses⟩, _⟩ :=
    reentry_refused (g := ⟨0⟩) (firstMoment_amid (.inr rfl)) rfl
  obtain rfl : (⟨0⟩ : FrameRef) = r := Option.some.inj hr
  exact hrefuses

/-! ### A value sent while a delegate is closed -/

/-- A generator that was never resumed delegates to an iterator which, when it is closed, sends a value
to the generator. -/
def sendingWhileClosed : World :=
  let w := (step 20 false (.new 5 .collecting) (.makeScript "a" "a" "" ⟨[], .finish⟩)).2
  let w := (step 20 false w (.makeGenerator "g" "a" [] .none)).2
  let closing : Response := .call (.mk "g" .send [.int 5])
  let w := (step 20 false w (.bind "i" (.scripted "i" [] (some closing) false))).2
  (step 20 false w (.editFrame (.variable "g") (.delegate (.variable "i")))).2

/-- The kinds of the exceptions that were raised by the calls that closing an iterator made. -/
def refusals (log : List LogEntry) : List ExceptionKind :=
  log.filterMap fun
    | .called (.exception kind _ _) => some kind
    | _ => none

/-- Throwing into that generator closes the iterator while the generator is running.  The value is not
refused because the generator is executing. -/
theorem reentry_sent_early :
    let throwing : Drive := .throw (.exceptionType .valueError) none none
    refusals (step 20 false sendingWhileClosed (.drive "g" throwing none)).1.log = [.typeError] := by
  decide +kernel

end Session

end Resumable
