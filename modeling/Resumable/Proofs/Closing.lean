import Resumable.Proofs.Exits
import Resumable.Proofs.Sharing

set_option autoImplicit false

/-!
# Closing a chain of delegations

A generator may delegate to another one, that to a third, and so on.  To close the first of them is to
close the whole chain: each generator closes the next one before the request to finish is raised in its
own body.  Where the call returns, none of them has a frame any more.

That closing never raises the end of an iteration or the request to finish itself (`close_raises`) is
what makes this so: for a delegate that ends like that is taken to be closed.
-/

namespace Resumable

variable {g i : GeneratorRef} {r : FrameRef} {v : Value} {w w' t t' u : World} {Z : Zone}
  {F G : Bag} {n depth : Nat} {chain rest dead : List GeneratorRef} {seen : List Nat}
  {x : Exception}

/-! ## What closing raises -/

/-- Closing a generator takes the exception for the end of what is closed. -/
def Exception.EndsClosing (x : Exception) : Prop :=
  (x.isCaughtBy .stopIteration || x.isCaughtBy .generatorExit) = true

instance (x : Exception) : Decidable x.EndsClosing := inferInstanceAs (Decidable (_ = _))

section Raising

variable {e : Engine} (he : e.Lenient)

include he

theorem abandonDelegate_raises {α : Type} {y : Exception}
    (h : (e.abandonDelegate r y : Run World α) w = .error (.raised x) t) : x = y := by
  rcases Run.bind_eq_raised.1 h with hraised | ⟨_, _, _, hraised⟩
  · exact absurd hraised (Run.Silent.onInterruption (Engine.finishDelegation_silent he _ _)
      (Engine.releaseObjects_silent he _) _ _ _)
  · cases hraised
    rfl

theorem closeDelegate_raises (h : e.closeDelegate g r w = .error (.raised x) t) :
    ¬ x.EndsClosing := by
  rcases Run.bind_eq_raised.1 h with hraised | ⟨f, u, hread, h⟩
  · exact absurd hraised World.readFrame_ne_raised
  cases hd : f.delegate with
  | none =>
      rw [hd] at h
      cases h
  | some inner =>
      rw [hd] at h
      rcases Run.bind_eq_raised.1 h with hraised | ⟨_, u', _, h⟩
      · cases hraised
      obtain ⟨_, h, _⟩ := (Run.ensuring_eq_raised (Engine.releaseObjects_silent he _)).1 h
      rcases Run.bind_eq_raised.1 h with hraised | ⟨outcome, _, _, h⟩
      · exact absurd hraised Run.attempt_ne_raised
      have hdrop := Engine.dropDelegate_silent he r
      cases outcome with
      | ok v => exact absurd h (hdrop.ensuring (Engine.releaseObjects_silent he _) _ _ _)
      | error y =>
          simp only at h
          split at h
          · exact absurd h (hdrop.ensuring (Engine.releaseObjects_silent he _) _ _ _)
          · next hy =>
              obtain rfl := abandonDelegate_raises he h
              exact hy

theorem closeWith_raises (h : e.closeWith g r w = .error (.raised x) t) : ¬ x.EndsClosing := by
  rcases Run.bind_eq_raised.1 h with hraised | ⟨_, _, _, h⟩
  · exact closeDelegate_raises he hraised
  rcases Run.bind_eq_raised.1 h with hraised | ⟨_, _, _, h⟩
  · exact absurd hraised (Engine.leavePending_silent he _ _ _ _ _)
  rcases Run.bind_eq_raised.1 h with hraised | ⟨outcome, _, _, h⟩
  · exact absurd hraised Run.attempt_ne_raised
  cases outcome with
  | ok v =>
      obtain ⟨_, h, _⟩ := (Run.ensuring_eq_raised (Engine.releaseObjects_silent he _)).1 h
      cases h
      decide
  | error y =>
      simp only at h
      split at h
      · rcases Run.bind_eq_raised.1 h with hraised | ⟨_, _, _, h⟩
        · exact absurd hraised (Engine.releaseObjects_silent he _ _ _ _)
        · cases h
      · next hy =>
          cases h
          exact hy

/-- Closing a generator raises neither the end of an iteration nor the request to finish. -/
theorem close_raises (h : e.answerClose g w = .error (.raised x) t) : ¬ x.EndsClosing := by
  unfold Engine.answerClose at h
  rw [Run.bind_apply] at h
  simp only [Run.get_apply] at h
  split at h
  · cases h
    decide
  · cases hslot : (w.generator g).frame with
    | none =>
        rw [hslot] at h
        cases h
    | some r =>
        rw [hslot] at h
        rcases Run.bind_eq_raised.1 h with hraised | ⟨_, _, _, h⟩
        · cases hraised
        obtain ⟨_, h, _⟩ := (Run.ensuring_eq_raised (Engine.releaseObjects_silent he _)).1 h
        exact closeWith_raises he h

omit he in
theorem observed_close_raises {o : Observer}
    (h : Machine.observed o n (.close g) w = .error (.raised x) t) : ¬ x.EndsClosing := by
  cases n with
  | zero => cases h
  | succ n =>
      obtain ⟨_, _, h, _⟩ := observed_eq_raised.1 h
      exact close_raises (observed_lenient o n) h

end Raising

/-! ## Chains -/

namespace World

/-- A generator that is not running delegates to the first of a list of generators, that one to the
second, and so on.  The last one does not delegate. -/
inductive Chain (w : World) : GeneratorRef → List GeneratorRef → Prop where
  | last {g : GeneratorRef} (hmade : g.index < w.generators.size)
      (hidle : (w.generator g).running = false) (hdelegate : w.delegateOf g = none) : Chain w g []
  | link {g i : GeneratorRef} {rest : List GeneratorRef} (hstate : w.stateOf g = .delegating)
      (hdelegate : w.delegateOf g = some (.generator i)) (hrest : Chain w i rest) :
      Chain w g (i :: rest)

/-- A generator that delegates is idle, and its frame is at rest and has not finished. -/
theorem frame_of_delegating (h : w.stateOf g = .delegating) :
    (w.generator g).running = false ∧ ∃ r f, (w.generator g).frame = some r ∧
      w.frame? r = some f ∧ f.isFinished = false := by
  unfold stateOf at h
  split at h
  · cases h
  · next hidle =>
      refine ⟨by simpa using hidle, ?_⟩
      split at h
      · cases h
      · next r hr =>
          split at h
          · cases h
          · next f hf =>
              refine ⟨r, f, hr, hf, ?_⟩
              by_contra hfinished
              rw [if_pos (by simpa using hfinished)] at h
              cases h

/-- A generator that is idle with its frame at rest has finished if the frame has. -/
theorem stateOf_finished_iff {f : Frame} (hidle : (w.generator g).running = false)
    (hslot : (w.generator g).frame = some r) (hf : w.frame? r = some f) :
    w.stateOf g = .finished ↔ f.isFinished = true := by
  unfold stateOf
  rw [if_neg (by simp [hidle]), hslot]
  simp only [hf]
  cases f.isFinished <;> cases f.delegate.isSome <;> cases f.isStarted <;> simp

/-- A generator that is not running delegates to the first of a list of generators, that one to the
second, and so on.  The one that is reached in the end delegates to no generator. -/
inductive Descends (w : World) : GeneratorRef → List GeneratorRef → GeneratorRef → Prop where
  | last {g : GeneratorRef} (hlast : ∀ i, w.delegateOf g ≠ some (.generator i)) : Descends w g [] g
  | link {g i h : GeneratorRef} {rest : List GeneratorRef} (hidle : (w.generator g).running = false)
      (hdelegate : w.delegateOf g = some (.generator i)) (hrest : Descends w i rest h) :
      Descends w g (i :: rest) h

namespace Descends

variable {h : GeneratorRef}

/-- There is one way down from a generator. -/
theorem unique {rest' : List GeneratorRef} {h' : GeneratorRef} (hdown : w.Descends g rest h)
    (hdown' : w.Descends g rest' h') : rest = rest' := by
  induction hdown generalizing rest' with
  | last hlast =>
      cases hdown' with
      | last => rfl
      | link _ hdelegate _ => exact absurd hdelegate (hlast _)
  | link _ hdelegate _ ih =>
      cases hdown' with
      | last hlast => exact absurd hdelegate (hlast _)
      | link _ hdelegate' hrest =>
          rw [hdelegate, Option.some.injEq, Value.generator.injEq] at hdelegate'
          subst hdelegate'
          rw [ih hrest]

/-- From each of the generators the way down is shorter. -/
theorem shorter (hdown : w.Descends g rest h) :
    ∀ i ∈ rest, ∃ rest', w.Descends i rest' h ∧ rest'.length < rest.length := by
  induction hdown with
  | last => simp
  | @link g i h rest _ _ hrest ih =>
      refine List.forall_mem_cons.2 ⟨⟨rest, hrest, Nat.lt_succ_self _⟩, fun j hj => ?_⟩
      obtain ⟨rest', hrest', hlength⟩ := ih j hj
      exact ⟨rest', hrest', Nat.lt_succ_of_lt hlength⟩

/-- No generator comes up twice. -/
theorem not_mem (hdown : w.Descends g rest h) : g ∉ rest := fun hg => by
  obtain ⟨rest', hrest', hlength⟩ := hdown.shorter g hg
  rw [hdown.unique hrest'] at hlength
  exact Nat.lt_irrefl _ hlength

end Descends

namespace Chain

theorem idle (h : w.Chain g rest) : (w.generator g).running = false := by
  cases h with
  | last _ hidle _ => exact hidle
  | link hstate _ _ => exact (frame_of_delegating hstate).1

theorem made (h : w.Chain g rest) : ∀ i ∈ g :: rest, i.index < w.generators.size := by
  induction h with
  | last hmade _ _ => simpa using hmade
  | link hstate _ _ ih =>
      obtain ⟨_, r, f, hr, _⟩ := frame_of_delegating hstate
      exact List.forall_mem_cons.2 ⟨made_of_frame hr, ih⟩

theorem descends (h : w.Chain g rest) : ∃ h, w.Descends g rest h := by
  induction h with
  | last _ _ hnone => exact ⟨_, .last fun i => by simp [hnone]⟩
  | link hstate hdelegate _ ih =>
      obtain ⟨h, ih⟩ := ih
      exact ⟨h, .link (frame_of_delegating hstate).1 hdelegate ih⟩

/-- No generator comes up twice. -/
theorem not_mem (h : w.Chain g rest) : g ∉ rest := by
  obtain ⟨_, hdescends⟩ := h.descends
  exact hdescends.not_mem

end Chain

/-- So many of the generators have not finished, the last first. -/
def unfinished (w : World) (gs : List GeneratorRef) : List Nat :=
  (gs.filter fun g => w.stateOf g ≠ .finished).reverse.map (·.index)

theorem unfinished_cons (w : World) (g : GeneratorRef) (gs : List GeneratorRef) :
    w.unfinished (g :: gs) =
      w.unfinished gs ++ if w.stateOf g ≠ .finished then [g.index] else [] := by
  unfold unfinished
  by_cases h : w.stateOf g = .finished <;> simp [h]

/-- These generators are the same, and so are all frames, all iterators and all code. -/
structure Same (w : World) (gs : List GeneratorRef) (t : World) : Prop where
  generator : ∀ g ∈ gs, t.generator g = w.generator g
  frame : ∀ r, t.frame? r = w.frame? r
  iterator : ∀ r, t.iterator? r = w.iterator? r
  size : w.generators.size ≤ t.generators.size
  codes : t.codes = w.codes

namespace Same

variable {gs : List GeneratorRef}

theorem delegateOf (h : w.Same gs t) (hg : g ∈ gs) : t.delegateOf g = w.delegateOf g := by
  unfold World.delegateOf
  rw [h.generator g hg]
  simp only [h.frame]

theorem stateOf (h : w.Same gs t) (hg : g ∈ gs) : t.stateOf g = w.stateOf g := by
  unfold World.stateOf
  rw [h.generator g hg]
  simp only [h.frame]

theorem le {gs' : List GeneratorRef} (h : w.Same gs' t) (hle : gs ⊆ gs') : w.Same gs t :=
  { h with generator := fun g hg => h.generator g (hle hg) }

theorem trans (h : w.Same gs t) (h' : t.Same gs u) : w.Same gs u where
  generator g hg := (h'.generator g hg).trans (h.generator g hg)
  frame r := (h'.frame r).trans (h.frame r)
  iterator r := (h'.iterator r).trans (h.iterator r)
  size := le_trans h.size h'.size
  codes := h'.codes.trans h.codes

/-- Adding owners. -/
theorem addOwners (w : World) (os : List Object) (gs : List GeneratorRef) :
    w.Same gs (w.addOwners os) where
  generator g _ := generator_addOwners w os g
  frame r := frame_addOwners w os r
  iterator r := w.iterator_addOwners os r
  size := by
    unfold World.addOwners
    induction os generalizing w with
    | nil => exact le_rfl
    | cons o os ih => exact le_trans (Zone.generators_size_setOwners_le w _ o) (ih _)
  codes := by
    unfold World.addOwners
    induction os generalizing w with
    | nil => rfl
    | cons o os ih =>
        exact (ih _).trans (congrArg World.Surroundings.codes (w.surroundings_setOwners _ o))

/-- Sharing a value. -/
theorem retain (w : World) (v : Value) (gs : List GeneratorRef) : w.Same gs (w.retain v) :=
  addOwners w v.objects gs

/-- Marking a generator that is none of these as running. -/
theorem setRunning (w : World) {g : GeneratorRef} (hg : g ∉ gs) (b : Bool) :
    w.Same gs (w.setRunning g b) where
  generator j hj := by
    have hne : g ≠ j := fun heq => hg (heq ▸ hj)
    rw [World.setRunning, World.generator_setGenerator, if_neg hne]
  frame _ := rfl
  iterator _ := rfl
  size := Store.size_set_le _ _ _
  codes := rfl

theorem unfinished (h : w.Same gs t) : t.unfinished gs = w.unfinished gs := by
  unfold World.unfinished
  congr 2
  exact List.filter_congr fun g hg => by rw [h.stateOf hg]

theorem descends {i : GeneratorRef} (h : w.Same (g :: rest) t) (hdown : w.Descends g rest i) :
    t.Descends g rest i := by
  induction hdown with
  | last hlast =>
      refine .last fun i => ?_
      rw [h.delegateOf List.mem_cons_self]
      exact hlast i
  | link hidle hdelegate _ ih =>
      exact .link (by rw [h.generator _ List.mem_cons_self, hidle])
        (by rw [h.delegateOf List.mem_cons_self, hdelegate])
        (ih { h with generator := fun j hj => h.generator j (List.mem_cons_of_mem _ hj) })

theorem isChain (h : w.Same (g :: rest) t) (hchain : w.Chain g rest) : t.Chain g rest := by
  induction hchain with
  | last hmade hidle hdelegate =>
      exact .last (lt_of_lt_of_le hmade h.size) (by rw [h.generator _ List.mem_cons_self, hidle])
        (by rw [h.delegateOf List.mem_cons_self, hdelegate])
  | link hstate hdelegate _ ih =>
      exact .link (by rw [h.stateOf List.mem_cons_self, hstate])
        (by rw [h.delegateOf List.mem_cons_self, hdelegate])
        (ih { h with generator := fun j hj => h.generator j (List.mem_cons_of_mem _ hj) })

end Same

end World

/-! ## What a call that returns has done -/

section Returning

variable {e : Engine}

theorem answerClose_eq_ok (h : e.answerClose g w = .ok v t) :
    (w.generator g).running = false ∧
      ((w.generator g).frame = none ∧ v = .none ∧ t = w ∨
        ∃ r u, (w.generator g).frame = some r ∧ e.closeWith g r (w.retain (.frame r)) = .ok v u ∧
          e.release (.frame r) u = .ok () t) := by
  unfold Engine.answerClose at h
  rw [Run.bind_apply] at h
  simp only [Run.get_apply] at h
  split at h
  · cases h
  · next hidle =>
      refine ⟨by simpa using hidle, ?_⟩
      cases hslot : (w.generator g).frame with
      | none =>
          rw [hslot] at h
          cases h
          exact Or.inl ⟨rfl, rfl, rfl⟩
      | some r =>
          rw [hslot] at h
          obtain ⟨u, hclosed, hforgotten⟩ := Run.ensuring_eq_ok.1 h
          exact Or.inr ⟨r, u, rfl, hclosed, hforgotten⟩

/-- The delegate was closed, and the body ended with an exception that says no more than that. -/
theorem closeWith_eq_ok (h : e.closeWith g r w = .ok v t) :
    ∃ x w₁ w₂ w₃, e.closeDelegate g r w = .ok () w₁ ∧
      e.leavePending r .generatorExit w₁ = .ok () w₂ ∧
      e.perform (.resume g .none) w₂ = .error (.raised x) w₃ ∧ x.EndsClosing ∧
      e.releaseException x w₃ = .ok () t ∧ v = .none := by
  obtain ⟨⟨⟩, w₁, hdelegate, h⟩ := Run.bind_eq_ok.1 h
  obtain ⟨⟨⟩, w₂, hpending, h⟩ := Run.bind_eq_ok.1 h
  obtain ⟨outcome, w₃, hresumed, h⟩ := Run.bind_eq_ok.1 h
  rcases Run.attempt_eq_ok.1 hresumed with ⟨v', rfl, _⟩ | ⟨x, rfl, hraised⟩
  · obtain ⟨_, h, _⟩ := Run.ensuring_eq_ok.1 h
    cases h
  · simp only at h
    split at h
    · next hx =>
        obtain ⟨⟨⟩, _, hforgotten, h⟩ := Run.bind_eq_ok.1 h
        cases h
        exact ⟨x, w₁, w₂, w₃, hdelegate, hpending, hraised, hx, hforgotten, rfl⟩
    · cases h

/-- There was no delegate, or it was closed and let go of. -/
theorem closeDelegate_eq_ok (h : e.closeDelegate g r w = .ok () t) :
    ∃ f, w.frame? r = some f ∧
      (f.delegate = none ∧ t = w ∨
        ∃ inner, f.delegate = some inner ∧
          ((∃ v w₁ w₂ w₃, World.whileRunning g (e.closeIter inner) (w.retain inner) = .ok v w₁ ∧
              e.dropDelegate r w₁ = .ok () w₂ ∧ e.release v w₂ = .ok () w₃ ∧
              e.release inner w₃ = .ok () t) ∨
            ∃ x w₁, World.whileRunning g (e.closeIter inner) (w.retain inner)
              = .error (.raised x) w₁ ∧ x.EndsClosing)) := by
  obtain ⟨f, w', hread, hrest⟩ := Run.bind_eq_ok.1 h
  obtain ⟨hf, rfl⟩ := World.readFrame_eq_ok.1 hread
  refine ⟨f, hf, ?_⟩
  cases hd : f.delegate with
  | none =>
      rw [hd] at hrest
      cases hrest
      exact Or.inl ⟨rfl, rfl⟩
  | some inner =>
      rw [hd] at hrest
      obtain ⟨u, hrest, hforgotten⟩ := Run.ensuring_eq_ok.1 hrest
      obtain ⟨outcome, w₁, hclosed, hrest⟩ := Run.bind_eq_ok.1 hrest
      refine Or.inr ⟨inner, rfl, ?_⟩
      rcases Run.attempt_eq_ok.1 hclosed with ⟨v, rfl, hgiven⟩ | ⟨x, rfl, hraised⟩
      · obtain ⟨w₂, hdropped, hreleased⟩ := Run.ensuring_eq_ok.1 hrest
        exact Or.inl ⟨v, w₁, w₂, u, hgiven, hdropped, hreleased, hforgotten⟩
      · simp only at hrest
        split at hrest
        · next hx => exact Or.inr ⟨x, w₁, hraised, hx⟩
        · obtain ⟨_, _, _, hgiven⟩ := Run.bind_eq_ok.1 hrest
          cases hgiven

end Returning

/-! ## Closing one generator of a chain -/

/-- Once the delegate is gone, the request to finish is raised in the body, if it has not finished, and
that is the end of the generator. -/
theorem Own.closeBody {f : Frame} {w₁ w₂ : World}
    (hpending : (Machine.observedEngine (Machine.exits chain) n).leavePending r .generatorExit w
      = .ok () w₁)
    (hresumed : Machine.observed (Machine.exits chain) n (.resume g .none) w₁
      = .error (.raised x) w₂)
    (hx : x.EndsClosing)
    (hforgotten : (Machine.observedEngine (Machine.exits chain) n).releaseException x w₂ = .ok () t)
    (h : Own chain seen dead [] g r Z F w) (hw : Z.Linked F w w) (hf : w.frame? r = some f) :
    (Z.decree (.closing chain 0 (seen ++ if f.isFinished = false then [g.index] else [])
      (g :: dead))).Linked F t t := by
  have hchanged := h.leavePending hpending (hw.le (by rw [holds_generatorExit, zero_add])) hf
  have hlimit : x ≠ .recursionError := by
    rintro rfl
    revert hx
    decide
  have hexit : (f.replacePending .generatorExit).1.exitOf g
      = if f.isFinished = false then [g.index] else [] := by
    have hsame : (f.replacePending .generatorExit).1.isFinished = f.isFinished := rfl
    have hkind : (f.replacePending .generatorExit).1.pending.map (·.kind) = some .generatorExit := rfl
    simp [Frame.exitOf, Frame.raisesExit, hsame, hkind]
  have hended := Own.resume hlimit hresumed (h.next hchanged.generator) hchanged.linked hchanged.frame
  rw [hexit] at hended
  have hreleased := releaseException_ends (exits_serves chain _ (g :: dead) n) (h.fit_finished _) hended
  rw [hforgotten] at hreleased
  obtain ⟨_, _, ht⟩ := hreleased.of_ok
  exact (ht.self (h.level_finished _)).le (by rw [holds_unit, zero_add])

/-- The zone in which the generators after it have been closed. -/
theorem Own.closed (h : Own chain seen dead rest g r Z F w) (seen' : List Nat)
    (ht : t.generator g = w.generator g) :
    Own chain seen' (rest ++ dead) [] g r (Z.decree (.closing chain 0 seen' (rest ++ dead))) F t where
  fit := by
    refine Zone.Fit.closing ⟨Zone.level_inherited _, h.level, h.fit.valid, h.fit.room⟩
      (fun j hbarred => absurd rfl (Law.barred_closing_iff.1 hbarred).1) Law.closing_disposes
      fun j hj => ?_
    rcases h.fit.property.settled j hj with hdead | hopened | hfixed
    · exact Or.inl (List.mem_append_right _ hdead)
    · rcases List.mem_cons.1 hopened with rfl | hrest
      · exact Or.inr (Or.inl List.mem_cons_self)
      · exact Or.inl (List.mem_append_left _ hrest)
    · exact Or.inr (Or.inr hfixed)
  law := rfl
  mem := h.mem
  held := h.held
  free := h.free
  cell := h.cell
  slot := by rw [ht, h.slot]
  program := by
    rw [ht]
    exact h.program

/-- What closing the first of these generators leaves. -/
def ClosesRest (chain : List GeneratorRef) (seen seen' : List Nat) (dead : List GeneratorRef)
    (i : GeneratorRef) (rest : List GeneratorRef) (w : World) (n : Nat) : Prop :=
  ∀ {Y : Zone} {H : Bag} {u u' : World} {v : Value},
    Y.Fit (Zone.Closing chain seen dead (i :: rest)) → Y.law = .closing chain 0 seen dead →
      Y.Held H i → Y.Linked H u u → w.Same (i :: rest) u →
        Machine.observed (Machine.exits chain) n (.close i) u = .ok v u' →
          v = .none ∧ (Y.decree (.closing chain 0 seen' (i :: rest ++ dead))).Linked H u' u'

/-- Closing the rest of the chain, while the generator is marked as running. -/
theorem Own.whileClosing {f : Frame} {seen' : List Nat}
    (hrun : World.whileRunning g
      ((Machine.observedEngine (Machine.exits chain) n).closeIter (.generator i)) w = .ok v t)
    (h : Own chain seen dead (i :: rest) g r Z F w) (hw : Z.Linked F w w) (hf : w.frame? r = some f)
    (hdelegates : f.delegate.isSome = true) (hi : holds (Value.generator i) ≤ F) (hg : g ∉ i :: rest)
    (hclose : ClosesRest chain seen seen' dead i rest w n) :
    v = .none ∧ (Z.decree (.closing chain 0 seen' (i :: rest ++ dead))).Linked F t t ∧
      t.generator g = w.generator g ∧ t.frame? r = some f := by
  obtain ⟨s, hclosed, rfl⟩ := World.whileRunning_eq_ok.1 hrun
  obtain ⟨B, H, hsplit, hfit, hstarted⟩ := Zone.Linked.startRunning (A := 0) h.fit h.held h.free
    (h.loose hw hf) h.slot (by rwa [zero_add])
  let x : Generator := { w.generator g with running := true }
  have hB : ∀ o, Z.sealed o → B o = 0 := hw.unsealed (by rw [← hsplit]; exact le_self_add)
  have hpinned : (((Z.lend B).fix g x).pin r (some f)).Linked H (w.setRunning g true)
      (w.setRunning g true) := by
    rw [zero_add] at hstarted
    exact hstarted.pin (by rw [frame_setRunning, hf])
  have hsame : w.Same (i :: rest) (w.setRunning g true) := .setRunning w hg true
  have hheld := held_lend (g := g) (r := r) h.fit.valid hw (A := 0) (B := B) (H := H) (d := i)
    (by rw [hsplit, zero_add]) (by rw [hsplit]; exact hi) x (some f)
  have hfit := hfit (some f) fun b hb => Option.some.inj hb ▸ hdelegates
  obtain ⟨rfl, hs⟩ := hclose (hfit.settle (by simp [Zone.fix, Zone.pin])) h.law hheld hpinned hsame
    hclosed
  refine ⟨rfl, ?_, ?_, ?_⟩
  · let Z' : Zone := Z.decree (.closing chain 0 seen' (i :: rest ++ dead))
    have hs : (((Z'.lend B).fix g x).pin r (some f)).Linked H s s := hs
    have hs : ((Z'.lend B).fix g x).Linked (0 + H) s s := by
      rw [zero_add]
      exact Zone.Linked.unpin hs (Zone.allows_of_free (h.loose hw hf) _) fun hsome => by cases hsome
    have hback := hs.stopRunning h.held.1 h.free hB
    rwa [hsplit, zero_add] at hback
  · exact generator_setRunning_false (hw.idle h.free)
      (hs.pinned.fixed g x (Function.update_self ..))
  · exact hs.pinned.cells r (some f) (by simp [Zone.pin, Zone.decree])

/-- Closing the delegate of a generator that is being closed, which closes the rest of the chain. -/
theorem Own.closeDelegate {f : Frame} {seen' : List Nat}
    (hrun : (Machine.observedEngine (Machine.exits chain) n).closeDelegate g r w = .ok () t)
    (h : Own chain seen dead (i :: rest) g r Z F w) (hw : Z.Linked F w w) (hf : w.frame? r = some f)
    (hdelegate : f.delegate = some (.generator i)) (hg : g ∉ i :: rest)
    (hclose : ClosesRest chain seen seen' dead i rest (w.retain (.generator i)) n) :
    ∃ b, b.isFinished = f.isFinished ∧
      (Z.decree (.closing chain 0 seen' (i :: rest ++ dead))).Linked F t t ∧
      t.generator g = w.generator g ∧ t.frame? r = some b := by
  obtain ⟨f', hf', ⟨hnone, _⟩ | ⟨inner, hinner, hclosed⟩⟩ := closeDelegate_eq_ok hrun
  · rw [hf, Option.some.injEq] at hf'
    rw [← hf', hdelegate] at hnone
    cases hnone
  obtain rfl : f = f' := Option.some.inj (hf.symm.trans hf')
  obtain rfl : Value.generator i = inner := Option.some.inj (hdelegate.symm.trans hinner)
  rcases hclosed with ⟨v, w₁, w₂, w₃, hran, hdropped, hforgotten, hreleased⟩ | ⟨x, w₁, hran, hx⟩
  · have hshared := hw.retain h.fit.valid (hw.covered_delegate (h.level.hidden _) hf hdelegate)
    have hretained : (w.retain (.generator i)).generator g = w.generator g := by simp [World.retain]
    have hbegun : Own chain seen dead (i :: rest) g r Z (holds (Value.generator i) + F)
        (w.retain (.generator i)) :=
      { h with
        held := h.held.le le_add_self
        slot := by rw [hretained, h.slot]
        program := by
          rw [hretained]
          exact h.program }
    obtain ⟨rfl, hw₁, hgenerator₁, hf₁⟩ := hbegun.whileClosing hran hshared
      (by simpa [World.retain] using hf) (by rw [hdelegate]; rfl) le_self_add hg hclose
    have hclosed := h.closed seen' (hgenerator₁.trans hretained)
    have hdropped := (hclosed.le le_add_self).dropDelegate hdropped hw₁ hf₁
    cases hforgotten
    have hlast := (hclosed.next hdropped.generator).releaseObjects _ hdropped.linked hreleased
    exact ⟨f.removeDelegate.1, rfl, hlast.1,
      hlast.2.1.trans (hdropped.generator.trans (hgenerator₁.trans hretained)),
      hlast.2.2.trans hdropped.frame⟩
  · obtain ⟨s, hraised, _⟩ := World.whileRunning_eq_raised.1 hran
    exact absurd hx (observed_close_raises hraised)

/-! ## Closing a chain -/

/-- Closing a generator that has a frame, given what closing its delegate leaves. -/
theorem Own.closeWith {seen' : List Nat} {f : Frame}
    (hrun : (Machine.observedEngine (Machine.exits chain) n).closeWith g r w = .ok v t)
    (h : Own chain seen dead rest g r Z F w)
    (hdelegate : ∀ {u}, (Machine.observedEngine (Machine.exits chain) n).closeDelegate g r w = .ok () u →
      ∃ b, b.isFinished = f.isFinished ∧
        (Z.decree (.closing chain 0 seen' (rest ++ dead))).Linked F u u ∧
        u.generator g = w.generator g ∧ u.frame? r = some b) :
    v = .none ∧ (Z.decree (.closing chain 0 (seen' ++ if f.isFinished = false then [g.index] else [])
      (g :: rest ++ dead))).Linked F t t := by
  obtain ⟨x, w₁, w₂, w₃, hclosed, hpending, hraised, hx, hforgotten, rfl⟩ := closeWith_eq_ok hrun
  obtain ⟨b, hb, hw₁, hgenerator, hframe⟩ := hdelegate hclosed
  rw [← hb]
  have hown := h.closed seen' hgenerator
  have hended := hown.closeBody hpending hraised hx hforgotten hw₁ hframe
  exact ⟨rfl, hended⟩

/-- A generator that is idle and whose frame is at rest may be closed. -/
theorem own_of_idle {f : Frame} (hfit : Z.Fit (Zone.Closing chain seen dead (g :: rest)))
    (hlaw : Z.law = .closing chain 0 seen dead) (hheld : Z.Held F g) (hw : Z.Linked F w w)
    (hmem : g ∈ chain) (hprogram : (w.generator g).RunsProgram w.codes)
    (hidle : (w.generator g).running = false) (hslot : (w.generator g).frame = some r)
    (hf : w.frame? r = some f) :
    Own chain seen dead rest g r Z (holds (Value.frame r) + F) (w.retain (.frame r)) := by
  have hadmits : Z.Admits g := Or.inr fun hbarred => by
    rw [hlaw] at hbarred
    exact (Law.barred_closing_iff.1 hbarred).1 rfl
  have hgenerator : (w.retain (.frame r)).generator g = w.generator g := generator_addOwners ..
  exact
    { fit := hfit
      law := hlaw
      mem := hmem
      held := hheld.le le_add_self
      free := hw.free hfit.valid hheld.1 hadmits hidle hslot hf
      cell := (hw.opened (G := .of [.frame r]) hfit.valid hheld.1 hadmits hidle hslot
        (by simp [Bag.of_singleton_self])).loose
      slot := by rw [hgenerator, hslot]
      program := by
        rw [hgenerator, ← hw.pinned.codes]
        exact hprogram }

/-- Closing the first generator of a chain, given what closing its delegate leaves. -/
theorem close_first (hrun : Machine.observed (Machine.exits chain) n (.close g) w = .ok v t)
    (hfit : Z.Fit (Zone.Closing chain seen dead (g :: rest)))
    (hlaw : Z.law = .closing chain 0 seen dead) (hheld : Z.Held F g) (hchain : w.Chain g rest)
    (hw : Z.Linked F w w) (hmem : g ∈ chain) (hprogram : (w.generator g).RunsProgram w.codes)
    (hdelegate : ∀ {m r f u}, (w.generator g).frame = some r → w.frame? r = some f →
      Own chain seen dead rest g r Z (holds (Value.frame r) + F) (w.retain (.frame r)) →
      (Machine.observedEngine (Machine.exits chain) m).closeDelegate g r (w.retain (.frame r))
        = .ok () u →
      ∃ b, b.isFinished = f.isFinished ∧
        (Z.decree (.closing chain 0 (seen ++ w.unfinished rest) (rest ++ dead))).Linked
          (holds (Value.frame r) + F) u u ∧
        u.generator g = (w.retain (.frame r)).generator g ∧ u.frame? r = some b) :
    v = .none ∧ (Z.decree (.closing chain 0 (seen ++ w.unfinished (g :: rest))
      (g :: rest ++ dead))).Linked F t t := by
  cases n with
  | zero => cases hrun
  | succ n =>
      obtain ⟨_, u, hanswer, hsee⟩ := observed_eq_ok.1 hrun
      obtain ⟨_, rfl⟩ := see_eq_ok.1 hsee
      have hrule := hw.pinned.law
      rw [hlaw] at hrule
      have hasked : (Machine.exits chain).note (.asked (.close g)) w = w.held := by
        simp [Machine.exits, hrule.1]
      rw [hasked, World.noted_held] at hanswer
      suffices hu : v = .none ∧ (Z.decree (.closing chain 0 (seen ++ w.unfinished (g :: rest))
          (g :: rest ++ dead))).Linked F u u by
        have hanswered : (Machine.exits chain).note (.answered (.close g)) u = u.held := by
          simp [Machine.exits, hu.2.pinned.law.1]
        rwa [hanswered, World.noted_held]
      obtain ⟨hidle, ⟨hslot, rfl, heq⟩ | ⟨r, u', hslot, hclosed, hforgotten⟩⟩ :=
        answerClose_eq_ok hanswer
      · -- there is no frame, so this is the last one, and nothing is done
        obtain rfl : rest = [] := by
          cases hchain with
          | last => rfl
          | link hstate _ _ =>
              obtain ⟨_, r, _, hr, _⟩ := World.frame_of_delegating hstate
              rw [hslot] at hr
              cases hr
        have hfinished : w.stateOf g = .finished := by simp [World.stateOf, hidle, hslot]
        rw [heq]
        refine ⟨rfl, hw.decree ⟨?_, hrule.2.1, ?_⟩ False.elim⟩
        · simp [World.unfinished, hfinished, hrule.1]
        · exact List.forall_mem_cons.2 ⟨⟨hrule.2.1 g hmem, hslot⟩, hrule.2.2⟩
      · obtain ⟨x, w₁, _, _, hdelegated, _⟩ := closeWith_eq_ok hclosed
        obtain ⟨f, hf, _⟩ := closeDelegate_eq_ok hdelegated
        rw [World.retain, frame_addOwners] at hf
        have hown := own_of_idle hfit hlaw hheld hw hmem hprogram hidle hslot hf
        have hended := hown.closeWith hclosed (hdelegate hslot hf hown)
        have hstate : (w.stateOf g ≠ .finished) = (f.isFinished = false) := by
          rw [ne_eq, World.stateOf_finished_iff hidle hslot hf, Bool.not_eq_true]
        rw [World.unfinished_cons, ← List.append_assoc]
        simp only [hstate]
        refine ⟨hended.1, ?_⟩
        have hrested := hown.closed (t := w.retain (.frame r)) (seen ++ w.unfinished rest) rfl
        have hreleased := release_ends (exits_serves chain _ (g :: (rest ++ dead)) n)
          (hrested.fit_finished _) (v := .frame r) hended.2
        rw [hforgotten] at hreleased
        obtain ⟨_, _, hu⟩ := hreleased.of_ok
        exact (hu.self (hrested.level_finished _)).le (by rw [holds_unit, zero_add])

/-- Closing the first generator of a chain. -/
theorem close_chain (hrun : Machine.observed (Machine.exits chain) n (.close g) w = .ok v t)
    (hfit : Z.Fit (Zone.Closing chain seen dead (g :: rest)))
    (hlaw : Z.law = .closing chain 0 seen dead) (hheld : Z.Held F g) (hchain : w.Chain g rest)
    (hw : Z.Linked F w w) (hmem : ∀ i ∈ g :: rest, i ∈ chain)
    (hprograms : ∀ i ∈ g :: rest, (w.generator i).RunsProgram w.codes) :
    v = .none ∧ (Z.decree (.closing chain 0 (seen ++ w.unfinished (g :: rest))
      (g :: rest ++ dead))).Linked F t t := by
  have hg := hmem g List.mem_cons_self
  have hprogram := hprograms g List.mem_cons_self
  induction rest generalizing g n v t w Z F with
  | nil =>
      refine close_first hrun hfit hlaw hheld hchain hw hg hprogram
        fun {m r f u} hslot hf hown hclosed => ?_
      obtain ⟨f', hf', ⟨_, rfl⟩ | ⟨inner, hinner, _⟩⟩ := closeDelegate_eq_ok hclosed
      · have hseen : seen ++ w.unfinished [] = seen := List.append_nil seen
        have hZ : Z.decree (.closing chain 0 seen ([] ++ dead)) = Z := by
          rw [List.nil_append, ← hlaw]
          rfl
        rw [hseen, hZ]
        exact ⟨f, rfl, shareFrame_linked hfit.valid hheld.1 hslot hw, rfl,
          by rw [World.retain, frame_addOwners, hf]⟩
      · cases hchain with
        | last _ _ hdelegate =>
            rw [World.retain, frame_addOwners, hf, Option.some.injEq] at hf'
            simp [World.delegateOf, hslot, hf, hf', hinner] at hdelegate
  | cons i rest ih =>
      have hnotin := hchain.not_mem
      cases hchain with
      | link hstate hdelegate hrest =>
          refine close_first hrun hfit hlaw hheld (.link hstate hdelegate hrest) hw hg hprogram
            fun {m r f u} hslot hf hown hclosed => ?_
          refine hown.closeDelegate hclosed (shareFrame_linked hfit.valid hheld.1 hslot hw)
            (by rw [World.retain, frame_addOwners, hf]) ?_ hnotin ?_
          · simpa [World.delegateOf, hslot, hf] using hdelegate
          · intro Y H s s' v hY hYlaw hYheld hYlinked hsame hrun
            have hsame : w.Same (i :: rest) s :=
              ((World.Same.retain w _ _).trans (World.Same.retain _ _ _)).trans hsame
            have hprograms : ∀ j ∈ i :: rest, (s.generator j).RunsProgram s.codes := fun j hj => by
              rw [hsame.generator j hj, hsame.codes]
              exact hprograms j (List.mem_cons_of_mem g hj)
            rw [← hsame.unfinished]
            exact ih hrun hY hYlaw hYheld (hsame.isChain hrest) hYlinked
              (fun j hj => hmem j (List.mem_cons_of_mem g hj)) hprograms
              (hmem i (List.mem_cons_of_mem g List.mem_cons_self)) (hprograms i List.mem_cons_self)

/-! ## Runs that are observed and runs that are not -/

/-- The law that says nothing, and by which runs may be broken off anywhere. -/
abbrev Law.lax : Law := Law.trivial.breaking fun _ => True

/-- Under that law every observer goes along. -/
theorem lax_attends (o : Observer) : Machine.Attends (Zone.Level .lax) o where
  breaks hZ _ _ _ := by
    rw [hZ.property.law]
    exact True.intro
  goesOn {Z request F w w'} hZ _ _ _ := by
    refine ⟨.lax, hZ.decree, True.intro, ?_, fun h => h, fun _ _ => ?_, fun _ => ?_, fun _ _ => ?_⟩
    · rw [hZ.property.law]
    all_goals
      rw [hZ.property.law]
      exact True.intro
  spares {Z o w} hZ ho := by
    have hbarred := hZ.valid.spared o ho w
    rw [hZ.property.law] at hbarred
    exact absurd hbarred (Law.Free.free _ w)

namespace Session

/-- A run that is observed and not broken off comes to the same end as the run that is not observed,
and the worlds agree on the generators. -/
theorem observed_agrees {request : Request} (h : Amid (.asked request) u) {o : Observer}
    {notes : List Nat} (hok : Machine.perform n request u = .ok v t)
    (hkept : ∀ s, Machine.observed o n request (u.noted notes) ≠ .error .outOfFuel s) :
    ∃ s, Machine.observed o n request (u.noted notes) = .ok v s ∧
      ∀ g, t.generator g = s.generator g := by
  obtain ⟨Z, F, w', hZ, hgranted, hlinked⟩ := h.moment
  have hfit : (Z.decree .lax).Fit (Zone.Level .lax) := hZ.decree
  have hself : (Z.decree .lax).Linked (holds (Event.asked request) + F) (u.noted notes) u :=
    Machine.linked_noted (hlinked.self hZ.property) True.intro False.elim
  have hends := (Machine.attended_serves (lax_attends o) (le_refl n)).answers hfit request
    (by cases request with
      | reclaim x => exact ⟨hgranted.1, by cases x <;> exact hgranted.2⟩
      | _ => exact hgranted) hself
  show ∃ s, (Machine.observedEngine o n).perform request (u.noted notes) = .ok v s ∧ _
  have hkept : ∀ s, (Machine.observedEngine o n).perform request (u.noted notes)
    ≠ .error .outOfFuel s := hkept
  rw [show (Machine.engine n).perform request u = .ok v t from hok] at hends
  generalize (Machine.observedEngine o n).perform request (u.noted notes) = y at hends hkept
  cases hends with
  | @ok _ s _ hlast => exact ⟨s, rfl, fun g => hlast.alike.generator g (hZ.property.hidden _)⟩
  | outOfFuel => exact absurd rfl (hkept _)

/-- A call that closes the first generator of a chain of delegations and returns has closed the whole
chain.

The generators of the chain are not running, and the body of each of them is a program.  While objects
are being disposed of in the course of the call, none of these generators is asked for anything: the
observer does not break the run off.  Then the value is `none`, none of the generators has a frame any
more, and in the body of each of them that had not finished before, the request to finish was raised
once, from the last of the chain to the first. -/
theorem chain_closed (h : Amid (.asked (.close g)) u) (hchain : u.Chain g rest)
    (hprograms : ∀ i ∈ g :: rest, (u.generator i).RunsProgram u.codes)
    (hclosed : Machine.perform n (.close g) u = .ok v t)
    (hapart : ∀ s, Machine.observed (Machine.exits (g :: rest)) n (.close g) (u.noted [0])
      ≠ .error .outOfFuel s) :
    v = .none ∧ (∀ i ∈ g :: rest, (t.generator i).frame = none) ∧
      ∃ s, Machine.observed (Machine.exits (g :: rest)) n (.close g) (u.noted [0]) = .ok .none s ∧
        s.held = 0 :: u.unfinished (g :: rest) := by
  obtain ⟨s, hrun, hsame⟩ := observed_agrees h hclosed hapart
  obtain ⟨Z, F, w', hZ, hgranted, hlinked⟩ := h.moment
  let L : Law := .closing (g :: rest) 0 [] []
  have hfit : (Z.decree L).Fit (Zone.Closing (g :: rest) [] [] (g :: rest)) :=
    Zone.Fit.closing hZ (fun i hbarred => absurd hbarred (Law.Free.not_barred .trivial i))
      (Law.Free.free (L := .trivial) <| .reclaim ·)
      fun i hi => Or.inr (Or.inl hi)
  have hnoted : (Z.decree L).Linked F (u.noted [0]) w' :=
    Machine.linked_noted (hlinked.le le_add_self) ⟨rfl, hchain.made, fun _ hi => nomatch hi⟩
      False.elim
  have hself := hnoted.self { hZ.property with law := rfl }
  have hsame₀ : u.Same (g :: rest) (u.noted [0]) := ⟨fun _ _ => rfl, fun _ => rfl, fun _ => rfl, le_rfl, rfl⟩
  obtain ⟨rfl, hs⟩ := close_chain hrun hfit rfl hgranted (hsame₀.isChain hchain) hself
    (fun _ hi => hi) hprograms
  have hrule := hs.pinned.law
  refine ⟨rfl, fun i hi => ?_, s, hrun, ?_⟩
  · rw [hsame]
    exact (hrule.2.2 i (List.mem_append_left _ hi)).2
  · rw [hrule.1, hsame₀.unfinished]
    rfl

/-! ### A session with a generator that delegates to another one -/

/-- The world after commands have been carried out one after the other. -/
def afterAll (w : World) : List Command → World
  | [] => w
  | c :: cs => afterAll (step 40 false w c).2 cs

/-- None of the commands runs out of fuel. -/
def allDone (w : World) : List Command → Bool
  | [] => true
  | c :: cs =>
      match (step 40 false w c).1.report with
      | .outOfFuel => false
      | _ => allDone (step 40 false w c).2 cs

theorem Reachable.afterAll {cs : List Command} (h : Reachable w) (hdone : allDone w cs = true) :
    Reachable (afterAll w cs) := by
  induction cs generalizing w with
  | nil => exact h
  | cons c cs ih =>
      rw [allDone] at hdone
      split at hdone
      · cases hdone
      · next hreport => exact ih (h.step 40 false c hreport) hdone

/-- The world that a run had come to when it was broken off. -/
def brokenOffAt {α : Type} : EStateM.Result Interruption World α → World
  | .ok _ t => t
  | .error _ t => { t with thread := { t.thread with id := t.thread.id - 1 } }

/-- Whether a run was broken off on the thread after this one. -/
def isBrokenOff {α : Type} (id : Nat) : EStateM.Result Interruption World α → Bool
  | .error .outOfFuel t => t.thread.id == id + 1
  | _ => false

theorem eq_of_isBrokenOff {α : Type} {id : Nat} {x : EStateM.Result Interruption World α}
    (h : isBrokenOff id x = true) :
    x = .error .outOfFuel (brokenOffAt x).elsewhere ∧ (brokenOffAt x).thread.id = id := by
  rcases x with ⟨a, t⟩ | ⟨_ | _ | _, t⟩ <;> try cases h
  have hid : t.thread.id = id + 1 := by simpa [isBrokenOff] using h
  obtain ⟨_, _, _, _, _, _, ⟨_, _, _, _⟩, _, _, _, _⟩ := t
  obtain rfl : _ = id + 1 := hid
  exact ⟨rfl, rfl⟩

/-- The commands, and one more up to the moment when it comes to an event. -/
def runUpTo (cs : List Command) (c : Command) (event : Event) :
    EStateM.Result Interruption World Report :=
  carryOut (Machine.observedEngine (.breaking (fun _ t => t.held) event fun _ => true) 60) false c
    (fresh (afterAll (.new 5 .collecting) cs))

theorem runUpTo_amid {cs : List Command} {c : Command} {event : Event}
    (hdone : allDone (.new 5 .collecting) cs = true)
    (hid : (fresh (afterAll (.new 5 .collecting) cs)).thread.id = 0)
    (hbroken : isBrokenOff 0 (runUpTo cs c event) = true) :
    Amid event (brokenOffAt (runUpTo cs c event)) := by
  obtain ⟨hrun, hthread⟩ := eq_of_isBrokenOff hbroken
  exact ⟨_, 60, false, c, (Reachable.start 5 .collecting).afterAll hdone, hthread.trans hid.symm,
    fun _ => true, hrun⟩

/-- The commands have made a generator in a variable, which is then closed, up to the moment when this
is asked for. -/
def closingRun (cs : List Command) (name : String) (g : GeneratorRef) :
    EStateM.Result Interruption World Report :=
  let closing := Observer.breaking (fun _ t => t.held) (.asked (.close g)) fun _ => true
  carryOut (Machine.observedEngine closing 60) false (.drive name .close none)
    (fresh (afterAll (.new 5 .collecting) cs))

theorem closingRun_amid {cs : List Command} {name : String}
    (hdone : allDone (.new 5 .collecting) cs = true)
    (hid : (fresh (afterAll (.new 5 .collecting) cs)).thread.id = 0)
    (hbroken : isBrokenOff 0 (closingRun cs name g) = true) :
    Amid (.asked (.close g)) (brokenOffAt (closingRun cs name g)) :=
  runUpTo_amid (c := .drive name .close none) hdone hid hbroken

/-- A body that yields twice. -/
def yieldingTwice : Code.Source :=
  ⟨"inner", [], "<bytecode>", 0,
    [.loadConst (.int 1), .emit .yieldValue, .emit .popTop, .loadConst (.int 2), .emit .yieldValue,
      .emit .returnValue]⟩

/-- A body that delegates to its argument. -/
def delegatingOnce : Code.Source :=
  ⟨"outer", ["it"], "<bytecode>", 0, [.loadFast "it", .emit .yieldFrom, .emit .returnValue]⟩

/-- What makes a generator that is suspended in its delegation to another one. -/
def delegatingCommands : List Command :=
  [.assemble "p1" yieldingTwice, .assemble "p0" delegatingOnce, .makeGenerator "g1" "p1" [] .none,
    .makeGenerator "g0" "p0" [.variable "g1"] .none, .drive "g0" .next none]

/-- The moment when that generator is to be closed. -/
def delegatingWorld : World := brokenOffAt (closingRun delegatingCommands "g0" ⟨1⟩)

/-- Closing the generator raises the request to finish in its delegate, and then in itself. -/
theorem chain_closed_delegatingOnce :
    ∃ t s, Machine.perform 60 (.close ⟨1⟩) delegatingWorld = .ok .none t ∧
      (∀ i ∈ [(⟨1⟩ : GeneratorRef), ⟨0⟩], (t.generator i).frame = none) ∧
      Machine.observed (Machine.exits [⟨1⟩, ⟨0⟩]) 60 (.close ⟨1⟩) (delegatingWorld.noted [0])
        = .ok .none s ∧ s.held = [0, 0, 1] := by
  have hamid : Amid (.asked (.close ⟨1⟩)) delegatingWorld :=
    closingRun_amid (by decide +kernel) (by decide +kernel) (by decide +kernel)
  have hchain : delegatingWorld.Chain ⟨1⟩ [⟨0⟩] :=
    .link (by decide +kernel) (by decide +kernel)
      (.last (by decide +kernel) (by decide +kernel) (by decide +kernel))
  obtain ⟨t, ht⟩ := Run.eq_ok_of_endingOf (a := Value.none)
    (x := Machine.perform 60 (.close ⟨1⟩) delegatingWorld) (by decide +kernel)
  obtain ⟨_, hs⟩ := Run.eq_ok_of_endingOf (a := Value.none) (x := Machine.observed
    (Machine.exits [⟨1⟩, ⟨0⟩]) 60 (.close ⟨1⟩) (delegatingWorld.noted [0])) (by decide +kernel)
  obtain ⟨_, hframes, s, hran, hheld⟩ := chain_closed hamid hchain (by decide +kernel) ht
    fun s h => by
      rw [hs] at h
      cases h
  have hunfinished : delegatingWorld.unfinished [⟨1⟩, ⟨0⟩] = [0, 1] := by decide +kernel
  exact ⟨t, s, ht, hframes, hran, by rw [hheld, hunfinished]⟩

/-! ### Finalizers that close a generator of the chain -/

/-- A body that delegates to each value of a list. -/
def delegatingToAll : Code.Source :=
  ⟨"h", ["l"], "<bytecode>", 2,
    [.loadFast "l", .emit .getIter, .bind 0, .forIter 1, .emit .yieldFrom, .emit .popTop, .jump 0,
      .bind 1, .loadConst .none, .emit .returnValue]⟩

/-- A body that delegates to its argument and lets go of it.  It makes a note of each request to
finish, and yields at the first one. -/
def yieldingAtExit : Code.Source :=
  ⟨"outer", ["it", "seen"], "<bytecode>", 2,
    [.setupExcept 0, .loadFast "it", .loadConst .none, .storeFast "it", .emit .yieldFrom,
      .emit .returnValue,
      .bind 0, .loadFast "seen", .loadConst (.int 1), .emit .listAppend, .setupExcept 1,
      .loadConst (.int 5), .emit .yieldValue, .emit .returnValue,
      .bind 1, .loadFast "seen", .loadConst (.int 2), .emit .listAppend, .loadConst .none,
      .emit .returnValue]⟩

/-- The delegate of a generator holds two generators that delegate to that generator, and nothing else
does. -/
def entangledCommands : List Command :=
  [.assemble "ph" delegatingToAll, .assemble "p1" yieldingTwice, .assemble "p0" yieldingAtExit,
    .bind "l" (.list []), .bind "seen" (.list []),
    .makeGenerator "h" "ph" [.variable "l"] .none, .makeGenerator "k" "ph" [.variable "l"] .none,
    .bind "c" (.list [.variable "h", .variable "k"]),
    .makeGenerator "g1" "p1" [] (.variable "c"),
    .makeGenerator "g0" "p0" [.variable "g1", .variable "seen"] .none,
    .listPush (.variable "l") (.variable "g0"), .drive "h" .next none, .drive "k" .next none,
    .unbind "h", .unbind "k", .unbind "c", .unbind "g1"]

/-- The moment when that generator is to be closed. -/
def entangledWorld : World := brokenOffAt (closingRun entangledCommands "g0" ⟨3⟩)

/-- When the delegate is closed it lets go of the two generators, and each of them is closed and closes
the generator that is being closed.  The request to finish is raised in it twice. -/
theorem exit_raised_twice :
    ∃ s, Amid (.asked (.close ⟨3⟩)) entangledWorld ∧ entangledWorld.Chain ⟨3⟩ [⟨2⟩] ∧
      (∀ i ∈ [(⟨3⟩ : GeneratorRef), ⟨2⟩],
        (entangledWorld.generator i).RunsProgram entangledWorld.codes) ∧
      Run.endingOf (Machine.perform 60 (.close ⟨3⟩) entangledWorld) = some (.result .none) ∧
      Machine.observed { Machine.exits [⟨3⟩, ⟨2⟩] with stops := fun _ _ => false } 60 (.close ⟨3⟩)
        (entangledWorld.noted [0]) = .ok .none s ∧
      s.held = [0, 2, 3, 3] ∧ entangledWorld.unfinished [⟨3⟩, ⟨2⟩] = [2, 3] := by
  have hamid : Amid (.asked (.close ⟨3⟩)) entangledWorld :=
    closingRun_amid (by decide +kernel) (by decide +kernel) (by decide +kernel)
  have hchain : entangledWorld.Chain ⟨3⟩ [⟨2⟩] :=
    .link (by decide +kernel) (by decide +kernel)
      (.last (by decide +kernel) (by decide +kernel) (by decide +kernel))
  let x := Machine.observed { Machine.exits [⟨3⟩, ⟨2⟩] with stops := fun _ _ => false } 60
    (.close ⟨3⟩) (entangledWorld.noted [0])
  obtain ⟨s, hs⟩ := Run.eq_ok_of_endingOf (a := Value.none) (x := x) (by decide +kernel)
  have hheld : (Run.stateOf x).held = [0, 2, 3, 3] := by decide +kernel
  rw [hs] at hheld
  exact ⟨s, hamid, hchain, by decide +kernel, by decide +kernel, hs, hheld, by decide +kernel⟩

end Session

end Resumable
