import Resumable.Proofs.Throwing

set_option autoImplicit false

/-!
# Where a thrown exception is raised

An exception that is thrown into a generator is raised in the body of the generator that the delegations
lead down to, if that one is neither running nor finished (`throw_delivered`).  The throw comes to no
result and raises nothing before that: an observer that breaks the run off when the exception is about to
be raised there always does so, unless the run does not come to an end at all.
-/

namespace Resumable

variable {Z : Zone} {F : Bag} {e : Engine} {w w' t u : World} {g i h : GeneratorRef} {r : FrameRef}
  {f : Frame} {x : Exception} {v : Value} {P : Exception → Prop} {n : Nat} {rest : List GeneratorRef}

/-! ## The moment before an exception is raised -/

/-- A resume of the generator raises the exception in its body: a level is left, and the exception is
pending in the frame, which is at rest and has not finished. -/
def World.raisesIn (w : World) (g : GeneratorRef) (x : Exception) : Bool :=
  !(w.generator g).running && decide (w.thread.depth < w.thread.limit) &&
    (((w.generator g).frame.bind w.frame?).map fun f =>
      !f.isFinished && decide (f.pending = some x)).getD false

theorem World.raisesIn_iff :
    w.raisesIn g x = true ↔ (w.generator g).running = false ∧ w.thread.depth < w.thread.limit ∧
      ∃ r f, (w.generator g).frame = some r ∧ w.frame? r = some f ∧ f.isFinished = false ∧
        f.pending = some x := by
  unfold World.raisesIn
  cases hslot : (w.generator g).frame with
  | none => simp
  | some r => cases hf : w.frame? r <;> simp [and_assoc, hf]

/-- At such a moment a resume of the generator runs its body with the exception. -/
theorem resume_of_raisesIn (hraises : w.raisesIn g x = true) (e : Engine) :
    ∃ r f, (w.generator g).frame = some r ∧ w.frame? r = some f ∧
      e.resume g .none w = e.owning (.frame r) (e.proceed g r .none) (w.entered r) ∧
      e.resumeFrame g r .none (w.entered r) =
        (Run.attempt (e.runBody g r (some x)) >>= e.settleBody g r)
          (((w.entered r).setFrame r none).setFrame r (some { f with pending := none })) := by
  obtain ⟨hidle, hroom, r, f, hslot, hf, hunfinished, hpending⟩ := World.raisesIn_iff.1 hraises
  have hentered : (w.entered r).frame? r = some f := by rw [World.frame_entered, hf]
  refine ⟨r, f, hslot, hf, resume_of_room hidle hslot hroom, ?_⟩
  exact resumeFrame_of_pending hentered hunfinished hpending

/-- The observer that breaks a run off when the exception is about to be raised in the body of the
generator. -/
def Machine.delivery (g : GeneratorRef) (x : Exception) : Observer :=
  .breaking (fun _ w => w.held) (.asked (.resume g .none)) (·.raisesIn g x)

theorem resume_delivered (hraises : w.raisesIn g x = true) :
    Run.RaisesOnly P (Machine.observed (Machine.delivery g x) n (.resume g .none) w) := by
  cases n with
  | zero => exact True.intro
  | succ n =>
      have hstops : (Machine.delivery g x).stops (.asked (.resume g .none)) w = true := by
        simpa [Machine.delivery, Observer.breaking] using hraises
      have hbroken : (Machine.delivery g x).see (.asked (.resume g .none)) w
          = .error .outOfFuel w.elsewhere := if_pos hstops
      refine Run.RaisesOnly.bind ?_
      rw [hbroken]
      exact True.intro

/-- A request that is answered under observation raises what its answer raises. -/
theorem observed_raisesOnly {request : Request}
    (hanswer : Run.RaisesOnly P
      (request.answer (Machine.observedEngine (Machine.delivery g x) n) w)) :
    Run.RaisesOnly P (Machine.observed (Machine.delivery g x) (n + 1) request w) := by
  refine Run.RaisesOnly.after (see_silent _ _) fun _ t hsee => ?_
  obtain ⟨_, rfl⟩ := see_eq_ok.1 hsee
  exact Run.RaisesOnly.ensuring hanswer (see_silent _ _)

/-- A run that may raise nothing comes to no result and raises nothing. -/
theorem Run.RaisesOnly.never {α : Type} {y : EStateM.Result Interruption World α}
    (h : Run.RaisesOnly (fun _ => False) y) :
    (∀ v t, y ≠ .ok v t) ∧ ∀ x t, y ≠ .error (.raised x) t := by
  constructor
  · rintro v t rfl
    exact h
  · rintro x t rfl
    exact h

/-! ## Down the delegations -/

namespace World

theorem frame_of_delegateOf (hdelegate : w.delegateOf g = some v) :
    ∃ r f, (w.generator g).frame = some r ∧ w.frame? r = some f ∧ f.delegate = some v := by
  obtain ⟨r, hr, hdelegate⟩ := Option.bind_eq_some_iff.1 hdelegate
  obtain ⟨f, hf, hdelegate⟩ := Option.bind_eq_some_iff.1 hdelegate
  exact ⟨r, f, hr, hf, hdelegate⟩

theorem Descends.mem (hdown : w.Descends g rest h) : h ∈ g :: rest := by
  induction hdown with
  | last => exact List.mem_cons_self
  | link _ _ _ ih => exact List.mem_cons_of_mem _ ih

end World

/-- An exception that is thrown into a generator is raised in the one that the delegations lead down
to. -/
theorem throw_delivered {thrown : Throw} {tb : Option Traceback} (hdown : w.Descends g rest h)
    (hidle : (w.generator h).running = false) (hslot : (w.generator h).frame = some r)
    (hf : w.frame? r = some f) (hunfinished : f.isFinished = false)
    (hunclosable : ∀ inner, f.delegate = some inner → w.Unclosable inner)
    (hroom : w.thread.depth < w.thread.limit)
    (htb : Engine.tracebackOf thrown.traceback = .ok tb)
    (hx : Exception.normalize thrown.type thrown.value = .ok x) (hexit : x.kind ≠ .generatorExit)
    (hZ : Z.Fit (Zone.Level .lax)) (hheld : Z.Held F g) (hw : Z.Linked (holds thrown + F) w w') :
    Run.RaisesOnly (fun _ => False)
      (Machine.observed (Machine.delivery h (x.givenTraceback tb)) n (.throw g thrown) w) := by
  have hserves := fun n => Machine.attended_serves
    (lax_attends (Machine.delivery h (x.givenTraceback tb))) (le_refl n)
  have hlenient := observed_lenient (Machine.delivery h (x.givenTraceback tb))
  have htype := exceptionKind_of_normalize hx hexit
  induction rest generalizing n g w w' Z F thrown with
  | nil =>
      cases hdown
      cases n with
      | zero => exact True.intro
      | succ n =>
          refine observed_raisesOnly <| answerThrow_here (hserves n) (hlenient n) hZ id htb htype hheld
            hidle hslot hf hx hunclosable hw fun hraising => resume_delivered ?_
          refine World.raisesIn_iff.2 ⟨?_, ?_, r, _, ?_, hraising.frame, hunfinished, rfl⟩
          · rw [hraising.generator, hidle]
          · rwa [hraising.thread]
          · rw [hraising.generator, hslot]
  | cons i rest ih =>
      cases n with
      | zero => exact True.intro
      | succ n =>
          have hg := hdown.not_mem
          cases hdown with
          | link hstill hdelegate hrest =>
              obtain ⟨s, b, hs, hb, hdelegate⟩ := World.frame_of_delegateOf hdelegate
              refine observed_raisesOnly <| answerThrow_through (hserves n) (hlenient n) hZ id htb htype
                hheld hstill hs hb hdelegate (fun _ => False.elim) hw
                (fun {Y H t t'} hY hYheld ht hthread hsame => ?_) fun hy => hy.elim
              have hsame := hsame (i :: rest) hg
              refine ih (hsame.descends hrest) ?_ ?_ ?_ (fun inner hinner => ?_) (by rwa [hthread]) ?_ hx
                hY hYheld ht htype
              · rw [hsame.generator h hrest.mem, hidle]
              · rw [hsame.generator h hrest.mem, hslot]
              · rw [hsame.frame, hf]
              · exact (hunclosable inner hinner).of_iterators hsame.iterator
              · cases tb <;> rfl

namespace Session

/-- The exception that is made of the class. -/
def valueErrorMade : Exception := ⟨.valueError, [], none⟩

/-- What makes a generator that is suspended in its delegation to another one, which has finished since
then. -/
def finishedDelegateCommands : List Command :=
  delegatingCommands ++ [.drive "g1" .next none, .drive "g1" .next none]

/-- What makes a generator that is suspended in its delegation to another one, which delegates to an
iterator. -/
def probingCommands (items : List Item) (closing : Option Response) : List Command :=
  [.assemble "p0" delegatingOnce, .bind "i" (.scripted "probe" items closing false),
    .makeGenerator "g1" "p0" [.variable "i"] .none, .makeGenerator "g0" "p0" [.variable "g1"] .none,
    .drive "g0" .next none]

/-- The iterator throws into the first generator when the second one asks for the second item. -/
def runningDelegateCommands : List Command :=
  probingCommands [.give (.value (.int 1)), .give (.call (.mk "g0" .throw [.exceptionType .valueError]))]
    none

/-- The iterator raises another exception when it is closed. -/
def failingDelegateCommands : List Command :=
  probingCommands [.give (.value (.int 1))] (some (.raise (.exception .keyError [] none [])))

/-- The moment when the delegate has finished. -/
def finishedDelegateWorld : World := throwingMoment finishedDelegateCommands throwValueError ⟨1⟩

/-- The moment when the delegate is running. -/
def runningDelegateWorld : World := throwingMoment runningDelegateCommands (.drive "g1" .next none) ⟨1⟩

/-- The moment when the delegate of the delegate is to be closed. -/
def failingDelegateWorld : World := throwingMoment failingDelegateCommands throwValueError ⟨1⟩

/-- The first of two generators is suspended in its delegation to the second, and an exception is to be
thrown into it.  It raises something else in the end, and the exception was not raised in the body of
either. -/
def Loses (w : World) (raised : Exception) : Prop :=
  Amid (.asked (.throw ⟨1⟩ valueErrorThrown)) w ∧ w.stateOf ⟨1⟩ = .delegating ∧
    w.delegateOf ⟨1⟩ = some (.generator ⟨0⟩) ∧ w.thread.depth < w.thread.limit ∧
    ∀ i ∈ [(⟨1⟩ : GeneratorRef), ⟨0⟩],
      Run.endingOf (Machine.observed (Machine.delivery i valueErrorMade) 60
        (.throw ⟨1⟩ valueErrorThrown) w) = some (.raised raised)

end Session

end Resumable
