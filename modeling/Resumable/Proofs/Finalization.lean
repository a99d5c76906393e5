import Resumable.Proofs.Closing
import Resumable.Proofs.Sharing

set_option autoImplicit false

/-!
# Finalization is contained

A generator that has lost its last owner is closed if it is suspended.  Whoever let go of it does not
notice how that ends, whatever the body does and whatever stands behind the diagnostic stream.

There is one way out.  The text of an exception is made outside of what is contained, and an iterator
has no text while one of its methods runs.  So this is proved for moments at which no iterator that
someone refers to is in use (`World.Unoccupied`); that much is enough for the whole disposal, since an
iterator that is taken from its cell in the course of it is put back before anything is reported.
-/

namespace Resumable

variable {C : Zone → Prop} {Z : Zone} {L : Law} {F G : Bag} {e : Engine} {w w' u s t : World}
  {g : GeneratorRef} {r : FrameRef} {f : Frame} {α β : Type}

/-! ## Iterators in their cells -/

/-- No iterator that has an owner is in use. -/
def World.Unoccupied (w : World) : Prop :=
  ∀ r, 1 ≤ w.owners (.iterator r) → w.iterator? r ≠ none

namespace Zone

/-- The zone in which no iterator is in use. -/
def unused (Z : Zone) : Zone := { Z with used := fun _ => False }

theorem not_busy_unused (Z : Zone) : ¬ Z.unused.Busy := fun ⟨_, hr⟩ => hr

theorem Linked.unused (h : Z.Linked F w w') (hw : w.Unoccupied) : Z.unused.Linked F w w' where
  pinned := { h.pinned with }
  alike := { h.alike with }
  accounted := { h.accounted with
    seated := fun o ho hone => by
      have hold := h.accounted.seated o ho hone
      cases o with
      | iterator r => exact hw r hone
      | frame r => exact hold
      | _ => trivial }
  tame := h.tame

theorem Fit.unused (h : Z.Fit (Level L)) : Z.unused.Fit (Level L) where
  inherited := h.inherited
  property := { h.property with }
  valid := { h.valid with }
  room := h.room

end Zone

/-! ## The finalizer -/

/-- A clean-up follows on a change of the state. -/
theorem Run.modify_ensuring {σ : Type} (change : σ → σ) (c : Run σ Unit) (x : σ) :
    Run.ensuring (modify change) c x = c (change x) := by
  unfold Run.ensuring
  simp only [Run.bind_apply, Run.onInterruption, Run.modify_apply]
  generalize c (change x) = y
  rcases y with ⟨_, _⟩ | ⟨_, _⟩ <;> rfl

/-- The line that reports an exception that a generator was closed with. -/
def World.finalLine (w : World) (x : Exception) (g : GeneratorRef) : String :=
  "Exception " ++ x.kind.name ++ ": " ++ (Form.message? (w.forms x.args)).getD ""
    ++ " in " ++ w.repr (.generator g)

namespace Engine

/-- The finalizer of a generator whose frame is not suspended does nothing. -/
theorem finalize_of_spent (howned : ∀ r, (w.generator g).frame = some r → 1 ≤ w.owners (.frame r))
    (hspent : ∀ r f, (w.generator g).frame = some r → w.frame? r = some f → f.isFinished = true) :
    e.finalize g w = .ok () w := by
  unfold finalize
  simp only [Run.bind_apply, Run.get_apply]
  cases hslot : (w.generator g).frame with
  | none => rfl
  | some r =>
      have hneedless : needsClosing (w.retain (.frame r)) r = false := by
        unfold needsClosing
        rw [World.retain, frame_addOwners]
        cases hf : w.frame? r with
        | none => simp
        | some f => simp [hspent r f hslot hf]
      have hforgotten : e.releaseObjects [.frame r] (w.addOwners [.frame r]) = .ok () w :=
        releaseObjects_addOwners (by simpa using howned r hslot)
      have hnothing : ∀ m : Run World Unit, (do if needsClosing (← get) r then m : Run World Unit)
          (w.retain (.frame r)) = .ok () (w.retain (.frame r)) := fun m => by
        simp only [Run.bind_apply, Run.get_apply, hneedless]
        rfl
      exact Run.ensuring_ok (hnothing _) hforgotten

/-- The finalizer attempts to close the generator once.  What it does when it has is said by how that
ended: it writes a line if that was with an exception, and nothing otherwise. -/
structure ClosesOnce (e : Engine) (g : GeneratorRef) (r : FrameRef) (w : World) : Prop where
  closed : ∀ v s, e.closeWith g r (w.retain (.frame r)) = .ok v s →
    e.finalize g w = (e.release v).ensuring (e.release (.frame r)) s
  abandoned : ∀ s, e.closeWith g r (w.retain (.frame r)) = .error .aborted s →
    e.finalize g w = e.release (.frame r) { s with unwinding := false }
  reported : ∀ x s, e.closeWith g r (w.retain (.frame r)) = .error (.raised x) s →
    e.finalize g w = (e.releaseException x).ensuring (e.release (.frame r))
      (s.writeLine (s.finalLine x g)).2

/-- The finalizer of a suspended generator. -/
theorem finalize_of_suspended (hslot : (w.generator g).frame = some r)
    (hf : w.frame? r = some f) (hsuspended : f.isFinished = false)
    (hcalm : w.unwinding = false) {ending : Run.Ending Value}
    (hended : Run.contain (e.closeWith g r) (w.retain (.frame r)) = .ok ending s) :
    e.finalize g w =
      Run.ensuring (match ending with
        | .result v => e.release v
        | .raised exception => e.report exception g
        | .aborted => modify fun w => { w with unwinding := false }) (e.release (.frame r)) s := by
  have hneeds : needsClosing (w.retain (.frame r)) r = true := by
    unfold needsClosing
    have hstill : (w.retain (.frame r)).unwinding = false := hcalm
    rw [hstill, World.retain, frame_addOwners, hf]
    simp [hsuspended]
  unfold finalize
  simp only [Run.bind_apply, Run.get_apply, hslot]
  show Run.ensuring _ (e.release (.frame r)) (w.retain (.frame r)) = _
  refine Run.ensuring_congr ?_
  cases ending <;> simp only [Run.bind_apply, Run.get_apply, hneeds, if_true, hended]

/-- Reporting an exception that has a text. -/
theorem report_of_legible {x : Exception} (hlegible : (w.forms x.args).any Form.isInUse = false) :
    e.report x g w = e.releaseException x (w.writeLine (w.finalLine x g)).2 := by
  have hdescribed : e.describe x g w = .ok (w.finalLine x g) w := by
    unfold describe
    simp only [Run.bind_apply, Run.get_apply, hlegible]
    rfl
  exact Run.bind_ok hdescribed

theorem closesOnce (hslot : (w.generator g).frame = some r) (hf : w.frame? r = some f)
    (hsuspended : f.isFinished = false) (hcalm : w.unwinding = false)
    (hlegible : ∀ x s, e.closeWith g r (w.retain (.frame r)) = .error (.raised x) s →
      (s.forms x.args).any Form.isInUse = false) : e.ClosesOnce g r w where
  closed v s h := by
    have hended : Run.contain (e.closeWith g r) (w.retain (.frame r)) = .ok (.result v) s := by
      simp only [Run.contain, h]
    exact finalize_of_suspended hslot hf hsuspended hcalm hended
  abandoned s h := by
    have hended : Run.contain (e.closeWith g r) (w.retain (.frame r)) = .ok .aborted s := by
      simp only [Run.contain, h]
    rw [finalize_of_suspended hslot hf hsuspended hcalm hended]
    exact Run.modify_ensuring _ _ s
  reported x s h := by
    have hended : Run.contain (e.closeWith g r) (w.retain (.frame r)) = .ok (.raised x) s := by
      simp only [Run.contain, h]
    rw [finalize_of_suspended hslot hf hsuspended hcalm hended]
    exact Run.ensuring_congr (report_of_legible (hlegible x s h))

end Engine

namespace Session

/-- At the moment at which a generator is to be disposed of it is out of everybody's reach. -/
theorem Amid.unowned (h : Amid (.asked (.reclaim (.generator g))) u) (hfree : u.Unoccupied) :
    ∃ (Z : Zone) (F : Bag) (w' : World), Z.Fit (Zone.Level .trivial) ∧ ¬ Z.Busy ∧
      ¬ Z.sealed (.generator g) ∧ u.owners (.generator g) = 0 ∧ Z.Linked F u w' := by
  obtain ⟨Z, F, w', hZ, ⟨hsealed, howners⟩, hlinked⟩ := h.moment
  exact ⟨Z.unused, _, w', hZ.unused, Z.not_busy_unused, hsealed, howners, hlinked.unused hfree⟩

/-- An exception that the generator is closed with has a text. -/
theorem legible_of_closed (h : Amid (.asked (.reclaim (.generator g))) u) (hfree : u.Unoccupied)
    (hslot : (u.generator g).frame = some r) {n : Nat} {x : Exception}
    (hraised : (Machine.engine n).closeWith g r (u.retain (.frame r)) = .error (.raised x) s) :
    (s.forms x.args).any Form.isInUse = false := by
  obtain ⟨Z, F, w', hZ, hidle, hsealed, howners, hlinked⟩ := h.unowned hfree
  have hhidden : ¬ Z.hidden (.generator g) := fun hh => hsealed (hZ.valid.sealed_of_hidden _ hh)
  have hloose := free_of_unowned hZ.valid hlinked hsealed howners
  have hdying := hlinked.orphan hsealed howners
  have hfit := hZ.orphan (.generator g)
  have hheld : (Z.orphan (.generator g)).Held F g := ⟨hhidden, Or.inl (Or.inl rfl)⟩
  have hshared := shareFrame_linked hfit.valid hheld.1 hslot hdying
  have hends := closeWith_ends (serves_free n) hfit (hheld.le le_add_self) (Or.inl hloose)
    (hshared.idle hloose) (by rw [World.retain, generator_addOwners, hslot])
    (Nat.le_add_right_of_le (frame_held r F)) hshared
  rw [hraised] at hends
  obtain ⟨_, _, hafter⟩ := hends.of_raised
  by_contra huse
  have hcovered := hafter.covered (B := holds x.args) le_self_add
  have hbusy : (Z.orphan (.generator g)).Busy :=
    busy_of_forms hfit.valid hafter hcovered (by simpa using huse)
  exact hidle hbusy

/-- A body that yields once, and raises an error when it is asked to finish. -/
def stubborn : Script :=
  ⟨[[.yield (.int 1)]], .raise (.exception .valueError [.str "no"] none [])⟩

/-- The moment when a suspended generator with this body is to be disposed of, since the variable that
held it is removed. -/
def stubbornWorld : World :=
  brokenOffAt (runUpTo [.makeScript "b" "b" "" stubborn, .makeGenerator "g" "b" [] .none,
    .drive "g" .next none] (.unbind "g") (.asked (.reclaim (.generator ⟨0⟩))))

/-- A body that raises an error about an iterator when it is asked to finish. -/
def accusing : Script :=
  ⟨[[.yield (.int 1)]], .raise (.exception .valueError [.variable "it"] none [])⟩

/-- A body that lets go of its argument. -/
def dropping : Script := ⟨[[.setLocal 0 .none, .yield (.int 7)]], .finish⟩

/-- The moment when a suspended generator with the first body is to be disposed of by the second one,
which is resumed by a method of that iterator. -/
def accusingWorld : World :=
  brokenOffAt (runUpTo [.makeScript "b" "b" "" accusing, .makeGenerator "g" "b" [] .none,
    .drive "g" .next none, .makeScript "d" "d" "" dropping, .makeGenerator "d" "d" [.variable "g"] .none,
    .unbind "g", .bind "it" (.scripted "probe" [.give (.call (.mk "d" .next []))] none false)]
    (.iteratorNext (.variable "it")) (.asked (.reclaim (.generator ⟨0⟩))))

end Session

end Resumable
