import Resumable.Proofs.Relays
import Resumable.Proofs.Seclusion
import Resumable.Proofs.Termination

set_option autoImplicit false

/-!
# Turns that pass an item on
-/

namespace Resumable

variable {v x it : Value} {w w' s t u : World} {g : GeneratorRef} {r : FrameRef} {c : CodeRef}
  {f b : Frame} {z : Exception} {given : Option Value} {n : Nat} {i : IteratorRef}

open Engine (Exhausted FailedWith Echoes)

/-! ## The end of a turn -/

theorem Run.attempt_silent {σ α : Type} (m : Run σ α) : Run.Silent (Run.attempt m) := by
  intro s y t h
  rw [Run.attempt_apply] at h
  rcases hm : m s with ⟨a, t'⟩ | ⟨_ | _ | _, t'⟩ <;> rw [hm] at h <;> cases h

theorem Run.RaisesOnly.imp {σ α : Type} {P Q : Exception → Prop}
    {ending : EStateM.Result Interruption σ α} (h : RaisesOnly P ending) (hPQ : ∀ z, P z → Q z) :
    RaisesOnly Q ending := by
  rcases ending with ⟨a, s⟩ | ⟨z | _ | _, s⟩
  · exact h
  · exact hPQ z h
  · exact h
  · exact h

/-- A body that came to an end on the frame of a generator at rest. -/
theorem body_of_started {e : Engine} {outcome : Except Exception Suspension} (hrest : w.AtRest g r f)
    (h : e.startBody g r .none (w.entered r) = .ok outcome t) :
    ∃ b u, t = u.settled g r b ∧
      e.bodyOf w g (f, w.underway g r) = Run.ofExcept outcome (b, u) := by
  rw [startBody_of_rest hrest] at h
  have hunderway : (((w.entered r).setFrame r (some f)).setRunning g true).setFrame r none =
      w.underway g r := w.underway_retain g r .none (some f)
  have hcell : (((w.entered r).setFrame r (some f)).setRunning g true).frame? r = some f := by
    simp [World.setRunning]
  rcases Run.attempt_eq_ok.1 h with ⟨a, rfl, hrun⟩ | ⟨z, rfl, hrun⟩
  · obtain ⟨s, hran, rfl⟩ := World.whileRunning_eq_ok.1 hrun
    obtain ⟨f', b, u, hf, hbody, rfl⟩ := World.withFrame_eq_ok.1 hran
    obtain rfl := Option.some.inj (hcell.symm.trans hf)
    exact ⟨b, u, rfl, by rw [← hunderway]; exact hbody⟩
  · obtain ⟨s, hran, rfl⟩ := World.whileRunning_eq_raised.1 hrun
    obtain ⟨f', b, u, hf, hbody, rfl⟩ := World.withFrame_eq_raised.1 hran
    obtain rfl := Option.some.inj (hcell.symm.trans hf)
    exact ⟨b, u, rfl, by rw [← hunderway]; exact hbody⟩

/-- A resume of a generator at rest, where it is known how the body ends and what follows. -/
theorem resume_raisesOnly {P : Exception → Prop} (hrest : w.AtRest g r f)
    (hroom : w.thread.depth < w.thread.limit)
    (hends : ∀ outcome b u, (Machine.engine n).startBody g r .none (w.entered r) =
        .ok outcome (u.settled g r b) →
      (Machine.engine n).bodyOf w g (f, w.underway g r) = Run.ofExcept outcome (b, u) →
      Run.RaisesOnly P ((Machine.engine n).resume g .none w)) :
    Run.RaisesOnly P ((Machine.engine n).resume g .none w) := by
  have he := Engine.machine_lenient n
  cases hstart : (Machine.engine n).startBody g r .none (w.entered r) with
  | ok outcome t =>
      obtain ⟨b, u, rfl, hbody⟩ := body_of_started hrest hstart
      exact hends outcome b u hstart hbody
  | error reason t =>
      -- the body was abandoned, or it ran out of fuel
      have hsilent : ∀ v : Value, Run.Silent ((Machine.engine n).release v) := fun v =>
        Engine.releaseObjects_silent he v.objects
      have hstarted : Run.RaisesOnly P ((Machine.engine n).startBody g r .none (w.entered r)) := by
        rw [hstart]
        cases reason with
        | raised y =>
            rw [startBody_of_rest hrest] at hstart
            exact (Run.attempt_silent _ _ _ _ hstart).elim
        | _ => exact True.intro
      rw [resume_of_room hrest.idle hrest.slot hroom]
      refine Run.RaisesOnly.ensuring (Run.RaisesOnly.bind ?_) (hsilent _)
      refine Run.RaisesOnly.onInterruption ?_ (Run.Silent.bind (fun _ _ _ h => nomatch h) fun _ => hsilent _)
      rw [resumeFrame_of_unfinished (by rw [World.frame_entered, hrest.frame]) hrest.unfinished]
      exact hstarted.bind

/-- A resume raises what settling its body raises. -/
theorem Ran.raisesOnly {P : Exception → Prop} {outcome : Except Exception Suspension}
    (h : Ran (Machine.engine n) g .none w r outcome t)
    (hsettled : Run.RaisesOnly P ((Machine.engine n).settleBody g r outcome t)) :
    Run.RaisesOnly P ((Machine.engine n).resume g .none w) := by
  have hsilent : ∀ v : Value, Run.Silent ((Machine.engine n).release v) := fun v =>
    Engine.releaseObjects_silent (Engine.machine_lenient n) v.objects
  obtain ⟨hresume, hframe⟩ := h.proceeds
  rw [hresume]
  refine Run.RaisesOnly.ensuring (Run.RaisesOnly.bind ?_) (hsilent _)
  refine Run.RaisesOnly.onInterruption ?_ (Run.Silent.bind (fun _ _ _ h => nomatch h) fun _ => hsilent _)
  rwa [hframe]

theorem Ran.raises (h : Ran (Machine.engine n) g .none w r (.error z) t) :
    Run.RaisesOnly (· = z) ((Machine.engine n).resume g .none w) :=
  h.raisesOnly (Run.RaisesOnly.after ((Engine.terminate_silent (Engine.machine_lenient n) g).onInterruption
    (Engine.releaseObjects_silent (Engine.machine_lenient n) _)) fun _ _ _ => rfl)

theorem Ran.returns (h : Ran (Machine.engine n) g .none w r (.ok (.returned v)) t) :
    Run.RaisesOnly (· = .stopIterationWith v) ((Machine.engine n).resume g .none w) :=
  h.raisesOnly (Run.RaisesOnly.after ((Engine.terminate_silent (Engine.machine_lenient n) g).onInterruption
    (Engine.releaseObjects_silent (Engine.machine_lenient n) v.objects)) fun _ _ _ => rfl)

/-- A body that is at its end: it returns, or it raises. -/
theorem resume_of_final {E : Prop} {P : Exception → Prop} (hrest : w.AtRest g r f)
    (hroom : w.thread.depth < w.thread.limit)
    (hbody : Run.Meets (fun b _ => b = .returned .none ∧ E) (fun z _ => P z) (fun _ => True)
      (fun _ => True) ((Machine.engine n).bodyOf w g) (f, w.underway g r)) :
    Run.RaisesOnly (fun z => (E ∧ z = .stopIteration ∨ P z) ∧ BodyEnds g .none (n + 1) w)
      ((Machine.engine n).resume g .none w) := by
  refine resume_raisesOnly hrest hroom fun outcome b u hstart hended => ?_
  have hran : Ran (Machine.engine n) g .none w r outcome (u.settled g r b) :=
    ⟨hrest.idle, hrest.slot, hroom, ⟨f, hrest.frame, hrest.unfinished⟩, hstart⟩
  unfold Run.Meets at hbody
  rw [hended] at hbody
  cases outcome with
  | error z => exact hran.raises.imp fun y hy => ⟨.inr (hy ▸ hbody), .final hran True.intro⟩
  | ok a =>
      obtain ⟨rfl, hE⟩ := hbody
      exact hran.returns.imp fun y hy => ⟨.inl ⟨hE, hy⟩, .final hran True.intro⟩

/-! ## Between two turns -/

/-- A way to pass on the items of an argument: the body, the frame that it has to begin with and after an
item of an iterator, and the levels that it needs to come to its end. -/
structure Relay where
  program : Code.Program
  frame : CodeRef → Value → Option Value → Frame
  levels : Nat

/-- An iterator over a value: a generator is its own. -/
def World.Iterates (w : World) (x it : Value) : Prop :=
  (∃ j, x = .generator j ∧ it = .generator j) ∨
    ∃ l i k, x = .list l ∧ it = .iterator i ∧ w.iterator? i = some (.list l k)

namespace Relay

/-- Looping over the argument. -/
def looping : Relay := ⟨.looping, .looping, 1⟩

/-- Delegating to the argument. -/
def delegating : Relay := ⟨.delegating, .delegating, 2⟩

/-- The frames of such a body are suspended, nothing waits in them, and they hold the argument and the
iterator. -/
structure Framed (R : Relay) : Prop where
  first : ∀ c x, R.frame c x none = .new c [x]
  pending : ∀ c x given, (R.frame c x given).pending = none
  input : ∀ c x given, (R.frame c x given).input = none
  unfinished : ∀ c x given, (R.frame c x given).isFinished = false
  holds : ∀ c x given, Holder.holds (R.frame c x given) = Holder.holds x + Holder.holds given

theorem framed_looping : looping.Framed where
  first _ _ := rfl
  pending _ _ given := by cases given <;> rfl
  input _ _ given := by cases given <;> rfl
  unfinished _ _ given := by cases given <;> rfl
  holds c x given := by
    cases given <;> simp [looping, Frame.looping, holds_frame, Frame.new]

theorem framed_delegating : delegating.Framed where
  first _ _ := rfl
  pending _ _ given := by cases given <;> rfl
  input _ _ given := by cases given <;> rfl
  unfinished _ _ given := by cases given <;> rfl
  holds c x given := by
    cases given <;> simp [delegating, Frame.delegating, holds_frame, Frame.new]

/-- A generator of such a body stands between two turns, in a sound world, with one holder, and nobody else holds the iterator
that it has made. -/
structure Poised (R : Relay) (w : World) (F : Bag) (g : GeneratorRef) (r : FrameRef) (c : CodeRef) (x : Value)
    (given : Option Value) : Prop where
  record : w.generator g = ⟨c, .none, some r, false⟩
  frame : w.frame? r = some (R.frame c x given)
  body : (w.code c).body = .program R.program
  generators : w.owners (.generator g) = 1
  frames : w.owners (.frame r) = 1
  sound : w.Sound .trivial (F + holds (Value.generator g))
  source : ∀ i, x ≠ .iterator i
  iterates : ∀ it, given = some it → w.Iterates x it
  iterators : ∀ i, given = some (.iterator i) → w.owners (.iterator i) = 1

namespace Poised

variable {R : Relay} {F : Bag} (h : R.Poised w F g r c x given) (hR : R.Framed)

include h

omit hR in
theorem rests : w.Rests .trivial w.thread.id (F + holds (Value.generator g)) := ⟨h.sound, rfl⟩

include hR

theorem atRest : w.AtRest g r (R.frame c x given) where
  idle := by rw [h.record]
  slot := by rw [h.record]
  frame := h.frame
  pending := hR.pending c x given
  input := hR.input c x given
  unfinished := hR.unfinished c x given

omit hR in
theorem alone : w.Alone g r (R.frame c x given) where
  slot := by rw [h.record]
  frame := h.frame
  generators := h.generators
  frames := h.frames

omit hR in
/-- The frame does not hold the generator and itself, nor does anybody else. -/
theorem unheld {o : Object} (ho : World.Own g r o) : F o = 0 ∧ holds (R.frame c x given) o = 0 :=
  (h.alone.unheld h.rests ho).2

omit hR in
/-- The generator and its frame are secluded. -/
theorem secludes : w.Secludes (World.Own g r) (F + holds (R.frame c x given)) :=
  h.alone.secludes h.rests

end Poised

end Relay

/-! ## Turns without an item -/

namespace World

/-- While the body of a generator runs, and nothing else does, what runs has a frame. -/
theorem runsOnFrames_underway (hidle : ∀ j, (w.generator j).running = false)
    (hslot : (w.generator g).frame = some r) : (w.underway g r).RunsOnFrames := by
  intro j hj
  rw [generator_underway] at hj ⊢
  split at hj
  · simp [hslot] at hj
  · next hne => simpa [hne] using hidle j

theorem RunsOnFrames.retain (h : w.RunsOnFrames) (v : Value) : (w.retain v).RunsOnFrames := by
  intro j hj
  rw [World.retain, generator_addOwners] at hj ⊢
  exact h j hj

theorem iterator_underway (w : World) (g : GeneratorRef) (r : FrameRef) (i : IteratorRef) :
    (w.underway g r).iterator? i = w.iterator? i := rfl

theorem items_underway (w : World) (g : GeneratorRef) (r : FrameRef) (l : ListRef) :
    (w.underway g r).items l = w.items l := rfl

/-- A new iterator over a list. -/
theorem iteratorOf_list (l : ListRef) (w : World) :
    iteratorOf (.list l) none w =
      .ok (.iterator ((w.retain (.list l)).newIterator (.list l 0)).1)
        ((w.retain (.list l)).newIterator (.list l 0)).2 := rfl

theorem Iterates.pullable (h : w.Iterates x it) (hruns : w.RunsOnFrames) :
    (w.retain it).Pullable it := by
  rcases h with ⟨j, -, rfl⟩ | ⟨l, i, k, -, rfl, hit⟩
  · exact hruns.retain _
  · exact ⟨l, k, by rw [iterator_retain, hit]⟩

/-- An iterator that has given an item. -/
theorem Iterates.of_pull {e : Engine} {given : Option Value} (h : w.Iterates x it)
    (hpull : e.pull it (w.retain it) = .ok given t) : t.Iterates x it := by
  rcases h with ⟨j, hx, rfl⟩ | ⟨l, i, k, hx, rfl, hit⟩
  · exact .inl ⟨j, hx, rfl⟩
  · rw [Engine.pull_list (by rw [iterator_retain, hit])] at hpull
    cases hpull
    exact .inr ⟨l, i, _, hx, rfl, (answers_stepped _ _ _ _).position⟩

/-- An iterator over a list that has given an item has no more holders for that, unless the item holds it. -/
theorem Iterates.owners_of_pull {e : Engine} (h : w.Iterates x (.iterator i))
    (hpull : e.pull (.iterator i) (w.retain (.iterator i)) = .ok (some v) t)
    (hitems : ∀ l, holds ((w.retain (.iterator i)).items l) (.iterator i) = 0) :
    t.owners (.iterator i) = w.owners (.iterator i) + 1 := by
  rcases h with ⟨j, -, hj⟩ | ⟨l, i', k, -, hi, hit⟩
  · cases hj
  · obtain rfl := Value.iterator.inj hi
    rw [Engine.pull_list (by rw [iterator_retain, hit])] at hpull
    obtain ⟨hgiven, rfl⟩ := EStateM.Result.ok.inj hpull
    have hnot := Nat.le_zero.1 (hitems l ▸ Bag.apply_le (holds_le_of_getElem? hgiven) (.iterator i))
    have hnot : Bag.of v.objects (.iterator i) = 0 := hnot
    unfold stepped
    rw [hgiven, owners_setIterator, owners_retain, owners_setIterator, owners_retain, hnot,
      Value.objects, Bag.of_singleton_self]

/-- This exception says that there are not as many levels left. -/
def RunsShort (w : World) (levels : Nat) (z : Exception) : Prop :=
  z.kind = .recursionError ∧ w.thread.limit < w.thread.depth + levels

end World

namespace Relay

/-- The iterator that the body asks is one over its argument. -/
theorem Poised.iterates_of_iterator {R : Relay} {F : Bag} (h : R.Poised w F g r c x given)
    (hiter : World.iteratorOf x given (w.underway g r) = .ok it s) :
    s.Iterates x it ∧ s.RunsOnFrames ∧ ∀ i, it = .iterator i → s.owners (.iterator i) = 1 := by
  have hruns := World.runsOnFrames_underway (r := r) h.sound.idle (by rw [h.record])
  cases given with
  | some inner =>
      cases hiter
      refine ⟨(h.iterates it rfl).imp_right fun ⟨l, i, k, hx, hi, hit⟩ => ⟨l, i, k, hx, hi, ?_⟩, hruns,
        fun i hi => ?_⟩
      · rw [World.owners_underway, if_neg nofun, h.iterators i (hi ▸ rfl)]
      · rw [World.iterator_underway, hit]
  | none =>
      rcases Value.iterable_cases h.source with ⟨j, rfl⟩ | ⟨l, rfl⟩ | ⟨y, hx⟩
      · cases hiter
        exact ⟨.inl ⟨j, rfl, rfl⟩, hruns.retain _, nofun⟩
      · rw [World.iteratorOf_list] at hiter
        cases hiter
        refine ⟨.inr ⟨l, _, 0, rfl, rfl, ?_⟩, hruns.retain (.list l), fun i hi => ?_⟩
        · rw [World.iterator_newIterator, if_pos rfl]
        · cases hi
          rw [World.owners_newIterator, if_pos rfl]
      · rw [show World.iteratorOf x none (w.underway g r) = _ from hx.raises _] at hiter
        cases hiter

theorem Poised.askable {R : Relay} {F : Bag} (h : R.Poised w F g r c x given) :
    (w.underway g r).Askable x given := by
  cases hiter : World.iteratorOf x given (w.underway g r) with
  | ok it s =>
      obtain ⟨hs, hruns, -⟩ := h.iterates_of_iterator hiter
      exact .inl ⟨it, s, hiter, hs.pullable hruns⟩
  | error reason s =>
      cases given with
      | some it => cases hiter
      | none =>
          rcases Value.iterable_cases h.source with ⟨j, rfl⟩ | ⟨l, rfl⟩ | ⟨y, hx⟩
          · cases hiter
          · cases hiter
          · exact .inr ⟨rfl, y, hx⟩

/-- A turn without an item: the generator is at its end, unless there was no level left. -/
def Fails (R : Relay) : Prop :=
  ∀ {n : Nat} {w : World} {F : Bag} {g : GeneratorRef} {r : FrameRef} {c : CodeRef} {x : Value}
    {given : Option Value}, R.Poised w F g r c x given →
    (∀ v t, (Machine.engine (n + 5)).ask x given (w.underway g r) ≠ .ok (some v) t) →
    Run.RaisesOnly (fun z => w.RunsShort R.levels z ∨
        Echoes ((Machine.engine (n + 5)).ask x given (w.underway g r)) z ∧ BodyEnds g .none (n + 6) w)
      ((Machine.engine (n + 5)).resume g .none w)

/-- There is no level for the turn. -/
theorem Poised.refused {R : Relay} {F : Bag} (h : R.Poised w F g r c x given)
    (hfull : w.thread.limit ≤ w.thread.depth) :
    Run.RaisesOnly (w.RunsShort 1) ((Machine.engine n).resume g .none w) := by
  have hexhausted := Run.onlyRaises_iff.1 (resume_exhausted (g := g) (v := .none) (u := w)
    (Engine.machine_lenient n) (by simp [World.isExhausted, h.record, hfull]))
  refine hexhausted.imp fun z hz => ?_
  subst hz
  exact ⟨rfl, by omega⟩

theorem Poised.bodyOf {R : Relay} {F : Bag} (h : R.Poised w F g r c x given) (e : Engine) :
    e.bodyOf w g = R.program.resume e .none none := by
  unfold Engine.bodyOf
  rw [h.record, CodeObject.resume_of_program h.body]

theorem fails_looping : looping.Fails := by
  intro n w F g r c x given h hnot
  by_cases hroom : w.thread.depth < w.thread.limit
  · refine (resume_of_final (h.atRest framed_looping) hroom ?_).imp fun z hz => .inr hz
    rw [h.bodyOf]
    exact Code.Program.looping_meets (Engine.machine_lenient _) h.askable (by simp [Machine.engine]) hnot
  · exact (h.refused (Nat.le_of_not_lt hroom)).imp fun z hz => .inl hz

/-! ## The delegate has run out -/

section Told

variable {F : Bag} {result : Value}

/-- The body leaves its generator and its frame alone. -/
theorem Poised.keeps {R : Relay} (h : R.Poised w F g r c x given) {a : Suspension}
    (hbody : (Machine.engine n).bodyOf w g (R.frame c x given, w.underway g r) = .ok a (f, u)) :
    (w.underway g r).Keeps (World.Own g r) u ∧ u.Secludes (World.Own g r) (holds f) ∧
      ∀ o, World.Own g r o → holds f o = 0 := by
  have hg : World.Own g r (.generator g) := Or.inl rfl
  have hr : World.Own g r (.frame r) := World.own_frame
  have hslot : (w.generator g).frame = some r := by rw [h.record]
  have hsecluded : (w.underway g r).Secludes (World.Own g r) (holds (R.frame c x given) + 0) := by
    rw [add_zero]
    exact (h.secludes.underway hg hr hslot).le le_add_self
  have hlinked := Zone.apart_linked hsecluded (fun o ho => (h.unheld ho).2) (.refl _ _)
  have hclosure : (Zone.apart (World.Own g r) 0 (w.underway g r) (w.underway g r)).Secures
      (holds (w.generator g).closure) := fun _ o ho => by
    rw [h.record] at ho
    exact absurd ho (by simp)
  have hends := codeResume_ends (Zone.serves_apart (le_refl n)) (Zone.apart_fit hsecluded 0 _)
    (c := w.code (w.generator g).code) False.elim hclosure False.elim
    (hlinked.le (le_of_eq (by rw [holds_none (α := Exception), zero_add, add_zero])))
  rw [show (w.code (w.generator g).code).resume (Machine.engine n) (w.generator g).closure none
    (R.frame c x given, w.underway g r) = _ from hbody] at hends
  cases hends with
  | ok hafter =>
      have hafter := hafter.2
      have hheld := hafter.secludes hsecluded
      refine ⟨hafter.keeps_left, hheld.le ?_, fun o ho => ?_⟩
      · rw [add_zero]
        exact le_self_add
      · have hnone := hafter.accounted.unseen o ho
        simp only [Pi.add_apply] at hnone
        omega

/-- The frame is told that the delegate has run out: it goes on from where the delegation is, and nothing else
changes about it. -/
theorem finishDelegation_of_delegating {e : Engine}
    (h : e.finishDelegation r result t = .ok () u)
    (hf : t.frame? r = some (.delegating c x (some it))) :
    ∃ s, e.releaseAll [it] (t.setFrame r none) = .ok () s ∧
      u = s.setFrame r (some (.undelegated c x result)) := by
  obtain ⟨f, b, s, hf', hrun, rfl⟩ := World.withFrame_eq_ok.1 (Engine.withFrameFor_eq_ok.1 h)
  obtain rfl := Option.some.inj (hf.symm.trans hf')
  obtain ⟨_, ⟨b₂, s₂⟩, hstepped, hput⟩ := Run.bind_eq_ok.1 hrun
  obtain ⟨_, ⟨b₁, s₁⟩, hdropped, hstep⟩ := Run.bind_eq_ok.1 (Run.onInterruption_eq_ok.1 hstepped)
  obtain ⟨rfl, hreleased⟩ := Engine.replace_eq_ok.1 hdropped
  obtain ⟨rfl, rfl⟩ := World.stepOn_eq_ok hstep
  obtain ⟨rfl, hnothing⟩ := Engine.replace_eq_ok.1 hput
  cases hnothing
  exact ⟨_, hreleased, rfl⟩

/-- The generator is at rest again, one level deeper. -/
theorem Poised.told (h : delegating.Poised w F g r c x given) {a : Suspension}
    (hbody : (Machine.engine n).bodyOf w g (delegating.frame c x given, w.underway g r) =
      .ok a (.delegating c x (some it), u))
    (htold : (Machine.engine n).finishDelegation r result
      (u.settled g r (.delegating c x (some it))) = .ok () t) :
    t.AtRest g r (.undelegated c x result) ∧ t.generator g = w.generator g ∧
      t.thread = (w.underway g r).thread ∧ t.code c = w.code c := by
  have hg : World.Own g r (.generator g) := Or.inl rfl
  have hr : World.Own g r (.frame r) := World.own_frame
  obtain ⟨s, hreleased, rfl⟩ := finishDelegation_of_delegating htold
    (by rw [World.frame_settled, if_pos rfl])
  obtain ⟨hkeeps, hsecludes, hunheld⟩ := h.keeps hbody
  -- the delegate is dropped while the frame is out of its cell
  have hsecluded := (hsecludes.settled hg hr (.delegating c x (some it))).setFrame hr none
  have hle : holds [it] + 0 ≤ holds (Frame.delegating c x (some it)) := by
    rw [show Frame.delegating c x (some it) = delegating.frame c x (some it) from rfl,
      framed_delegating.holds, holds_some, holds_values_cons, holds_values_nil, add_zero, add_zero]
    exact le_add_self
  have hlinked := Zone.apart_linked (hsecluded.le hle) (fun o ho => by
    have := Bag.apply_le hle o
    have := hunheld o ho
    simp only [add_zero] at *
    omega) (.refl _ _)
  have hends := releaseAll_ends (Zone.serves_apart (le_refl n)) (Zone.apart_fit (hsecluded.le hle) 0 _)
    (F := 0) (hlinked.le (by rw [add_zero]))
  rw [hreleased] at hends
  cases hends with
  | ok hafter =>
      have hdropped := hafter.keeps_left
      have hrecord : (s.setFrame r (some (.undelegated c x result))).generator g = w.generator g := by
        rw [World.generator_setFrame, hdropped.generator hg, World.generator_setFrame,
          World.generator_settled, if_pos rfl, hkeeps.generator hg, World.generator_underway,
          if_pos rfl, h.record]
      refine ⟨⟨?_, ?_, ?_, rfl, rfl, rfl⟩, hrecord, ?_, ?_⟩
      · rw [hrecord, h.record]
      · rw [hrecord, h.record]
      · rw [World.frame_setFrame, if_pos rfl]
      · exact hdropped.thread.trans hkeeps.thread
      · exact (hdropped.code c).trans (hkeeps.code c)

end Told

/-- The body that delegates: at the end, its delegate has run out, and it is run again. -/
theorem fails_delegating : delegating.Fails := by
  intro n w F g r c x given h hnot
  by_cases hroom : w.thread.depth < w.thread.limit
  · refine resume_raisesOnly (h.atRest framed_delegating) hroom fun outcome b u hstart hended => ?_
    have hrest := h.atRest framed_delegating
    have hran : Ran (Machine.engine (n + 5)) g .none w r outcome (u.settled g r b) :=
      ⟨hrest.idle, hrest.slot, hroom, ⟨_, hrest.frame, hrest.unfinished⟩, hstart⟩
    have hbody := Code.Program.delegating_meets (n := n + 2) (c := c) .none h.askable hnot
    unfold Run.Meets at hbody
    rw [show Code.Program.delegating.resume (Machine.engine (n + 2 + 3)) .none none
      (.delegating c x given, w.underway g r) = _ from (congrFun (h.bodyOf _) _).symm.trans hended]
      at hbody
    cases outcome with
    | error z => exact hran.raises.imp fun y hy => .inr ⟨.inr (hy ▸ hbody), .final hran True.intro⟩
    | ok a =>
        obtain ⟨⟨⟨result, rfl⟩, it, rfl⟩, hexhausted⟩ := hbody
        cases htold : (Machine.engine (n + 5)).finishDelegation r result
            (u.settled g r (.delegating c x (some it))) with
        | error reason s =>
            refine hran.raisesOnly ?_
            have hsettled : (Machine.engine (n + 5)).settleBody g r (.ok (.delegateExhausted result))
                (u.settled g r (.delegating c x (some it))) = .error reason s := Run.bind_error htold
            rw [hsettled]
            cases reason with
            | raised y => exact (Engine.finishDelegation_silent (Engine.machine_lenient _) _ _ _ _ _ htold).elim
            | _ => exact True.intro
        | ok _ t =>
            obtain ⟨hagain, hrecord, hthread, hcode⟩ := h.told hended htold
            have hdepth : t.thread.depth = w.thread.depth + 1 ∧ t.thread.limit = w.thread.limit := by
              rw [hthread]
              exact ⟨rfl, rfl⟩
            show Run.RaisesOnly _ (Machine.perform (n + 6) (.resume g .none) w)
            rw [hran.again htold]
            refine Run.RaisesOnly.ensuring (Run.RaisesOnly.ensuring ?_ (fun _ _ _ h => nomatch h))
              (Engine.releaseObjects_silent (Engine.machine_lenient _) _)
            show Run.RaisesOnly _ ((Machine.engine (n + 4)).resume g .none t)
            by_cases hroom' : t.thread.depth < t.thread.limit
            · refine (resume_of_final (E := True) (P := fun _ => False) hagain hroom' ?_).imp
                fun z ⟨hz, hends⟩ => .inr ⟨.inl ⟨hexhausted, ?_⟩, .again hran htold hends⟩
              · unfold Engine.bodyOf
                rw [hrecord, h.record, CodeObject.resume_of_program (hcode ▸ h.body)]
                exact (Code.Program.undelegated_meets (Engine.machine_lenient _)
                  (by simp [Machine.engine]) result).imp fun _ _ hb => ⟨hb, True.intro⟩
              · exact hz.elim And.right False.elim
            · -- there is no level to run the body again
              have hexhausted := Run.onlyRaises_iff.1 (resume_exhausted (g := g) (v := .none) (u := t)
                (Engine.machine_lenient (n + 4))
                (by simp [World.isExhausted, hrecord, h.record, Nat.le_of_not_lt hroom']))
              refine hexhausted.imp fun z hz => .inl ?_
              subst hz
              exact ⟨rfl, show w.thread.limit < w.thread.depth + 2 by omega⟩
  · exact (h.refused (Nat.le_of_not_lt hroom)).imp fun z hz => .inl ⟨hz.1, Nat.lt_succ_of_lt hz.2⟩

end Relay

/-! ## Turns with an item -/

section Pulling

variable {C : Zone → Prop} {Z : Zone} {B : Bag} {e e' : Engine} (hs : Serves C e e') (hZ : Z.Fit C)

include hs hZ

/-- Asking an iterator that the caller holds. -/
theorem pull_ends (hv : holds v ≤ B) (h : Z.Linked B w w') :
    Ends Z.bond B holds (e.pull v w) (e'.pull v w') := by
  cases v with
  | generator j => exact (next_ends hs hZ (generator_held hZ.valid h hv) h).map some fun _ => rfl
  | iterator i => exact nextItem_ends hs hZ hv h
  | _ => exact notAnIterator_ends hZ.valid (h.covered hv) h

omit hs in
theorem iteratorOf_ends (hx : Z.Covered w (holds x)) (h : Z.Linked (holds given) w w') :
    Ends Z.bond 0 holds (World.iteratorOf x given w) (World.iteratorOf x given w') := by
  cases given with
  | none => exact getIter_ends hZ.valid hx (h.le (by rw [holds_none]))
  | some it => exact .ok (h.le (by rw [add_zero]; rfl))

/-- Asking an iterator that was found, and is shared meanwhile. -/
theorem shared_pull_ends (h : Z.Linked (holds it) w w') :
    Ends Z.bond (holds it + holds it) holds (e.pull it (w.retain it)) (e'.pull it (w'.retain it)) :=
  pull_ends hs hZ le_self_add (h.retain hZ.valid (h.covered le_rfl))

theorem ask_ends (hx : Z.Covered w (holds x)) (h : Z.Linked (holds given) w w') :
    Ends Z.bond 0 holds (e.ask x given w) (e'.ask x given w') :=
  (iteratorOf_ends hZ hx h).bind le_rfl fun it s s' hss =>
    (shared_pull_ends hs hZ (hss.le (by rw [add_zero]))).mono bot_le fun a =>
      add_le_add_right bot_le (holds a)

end Pulling

/-- An iterator was asked in the course of a turn, in a world in which it is shared meanwhile. -/
structure World.Asked (w t : World) (g : GeneratorRef) (r : FrameRef) (x it : Value) : Prop where
  keeps : w.Keeps (Own g r) t
  iterates : t.Iterates x it
  shared : ∀ o ∈ it.objects, 2 ≤ t.owners o
  iterators : ∀ i, it = .iterator i → t.owners (.iterator i) = 2

/-- The world in which a turn is over that passed an item on. -/
def World.relayed (t : World) (o : Object) (g : GeneratorRef) (r : FrameRef) (f : Frame) : World :=
  (((t.setOwners (t.owners o - 1) o).settled g r f).left).setOwners (t.owners (.frame r) - 1) (.frame r)

namespace World

variable {o u : Object}

theorem generator_relayed : (t.relayed o g r f).generator g = { t.generator g with running := false } := by
  simp [relayed, generator_settled]

theorem frame_relayed : (t.relayed o g r f).frame? r = some f := by
  simp [relayed, frame_settled]

theorem iterator_relayed : (t.relayed o g r f).iterator? i = t.iterator? i := by
  rw [relayed, iterator_setOwners]
  exact iterator_setOwners ..

theorem code_relayed : (t.relayed o g r f).code c = t.code c := by
  cases o <;> rfl

theorem thread_relayed : (t.relayed o g r f).thread = t.thread.leave := by
  rw [relayed, thread_setOwners, thread_left]
  exact congrArg Thread.leave (thread_setOwners ..)

theorem owners_relayed : (t.relayed o g r f).owners u =
    if .frame r = u then t.owners (.frame r) - 1 else if o = u then t.owners o - 1 else t.owners u := by
  simp [relayed]

end World

theorem World.Iterates.objects (h : w.Iterates x it) : ∃ o, it.objects = [o] := by
  rcases h with ⟨j, -, rfl⟩ | ⟨l, i, k, -, rfl, -⟩
  · exact ⟨_, rfl⟩
  · exact ⟨_, rfl⟩

namespace Relay

/-- A body of this kind yields the item that its iterator gives. -/
def Yields (R : Relay) : Prop :=
  ∀ {n : Nat} {w s t : World} {c : CodeRef} {x it v : Value} {given : Option Value} {o : Object},
    World.iteratorOf x given w = .ok it s → (s.retain it).Pullable it →
    (Machine.engine (n + 5)).ask x given w = .ok (some v) t → it.objects = [o] → 2 ≤ t.owners o →
    R.program.resume (Machine.engine (n + 5)) .none none (R.frame c x given, w) =
      .ok (.yielded v) (R.frame c x (some it), t.setOwners (t.owners o - 1) o)

theorem yields_looping : looping.Yields := fun hiter _ hask hobjects htwo =>
  Code.Program.looping_item hiter hask (by simp [Machine.engine]) hobjects htwo

theorem yields_delegating : delegating.Yields := fun {n} _ _ _ _ _ _ _ _ _ hiter hit hask hobjects htwo =>
  Code.Program.delegating_item (n := n + 2) hiter hit hask hobjects htwo

/-- What is known of the two kinds of bodies. -/
structure Faithful (R : Relay) : Prop where
  levels : 1 ≤ R.levels
  framed : R.Framed
  yields : R.Yields
  fails : R.Fails

theorem faithful_looping : looping.Faithful := ⟨le_rfl, framed_looping, yields_looping, fails_looping⟩

theorem faithful_delegating : delegating.Faithful :=
  ⟨Nat.le_succ 1, framed_delegating, yields_delegating, fails_delegating⟩

section Item

variable {R : Relay} {F : Bag} {o : Object}

variable (h : R.Poised w F g r c x given) (hR : R.Faithful)

include h hR

/-- The generator is not the iterator that it asks. -/
theorem Poised.distinct (hiter : t.Iterates x it) (hobjects : it.objects = [o]) :
    ¬ World.Own g r o := by
  intro ho
  have hnone := (h.unheld ho).2
  rcases hiter with ⟨j, rfl, rfl⟩ | ⟨l, i, k, -, rfl, -⟩
  · obtain rfl : Object.generator j = o := List.singleton_inj.1 hobjects
    rw [hR.framed.holds, Pi.add_apply, holds_generator, Bag.of_singleton_self] at hnone
    omega
  · obtain rfl : Object.iterator i = o := List.singleton_inj.1 hobjects
    rcases ho with ho | ho <;> cases ho

variable (hasked : (w.underway g r).Asked t g r x it) (hobjects : it.objects = [o])

include hasked hobjects

/-- The turn yields the item. -/
theorem Poised.resume_of_item (hroom : w.thread.depth < w.thread.limit)
    (hiter : World.iteratorOf x given (w.underway g r) = .ok it s) (hit : (s.retain it).Pullable it)
    (hask : (Machine.engine (n + 5)).ask x given (w.underway g r) = .ok (some v) t) :
    (Machine.engine (n + 5)).resume g .none w = .ok v (t.relayed o g r (R.frame c x (some it))) := by
  have hrest := h.atRest hR.framed
  have htwo : 2 ≤ t.owners o := hasked.shared o (by rw [hobjects]; exact List.mem_singleton_self o)
  have hbody : (Machine.engine (n + 5)).bodyOf w g (R.frame c x given, w.underway g r) =
      .ok (.yielded v) (R.frame c x (some it), t.setOwners (t.owners o - 1) o) := by
    rw [h.bodyOf]
    exact hR.yields hiter hit hask hobjects htwo
  have hturn : (Machine.engine (n + 5)).TurnsOut g .none w (.ok v)
      ((t.setOwners (t.owners o - 1) o).settled g r (R.frame c x (some it))).left :=
    .yielded hrest.idle hrest.slot hroom (resumeFrame_of_yielded hrest hbody)
  -- the frame is shared while its generator is resumed
  have hframes : t.owners (.frame r) = 2 := by
    rw [hasked.keeps.owners World.own_frame, World.owners_underway, if_pos rfl, h.frames]
  have hother : o ≠ .frame r := fun heq =>
    h.distinct hR hasked.iterates hobjects (heq ▸ World.own_frame)
  have hreleased := Engine.release_of_shared (e := Machine.engine (n + 5)) (v := .frame r) rfl
    (w := ((t.setOwners (t.owners o - 1) o).settled g r (R.frame c x (some it))).left)
    (o := .frame r) (by simp [hother, hframes])
  have hforgotten : (Machine.engine (n + 5)).releaseAll (w.forgottenAfter g .none)
      ((t.setOwners (t.owners o - 1) o).settled g r (R.frame c x (some it))).left =
        .ok () (t.relayed o g r (R.frame c x (some it))) := by
    rw [World.forgottenAfter, h.record]
    refine Eq.trans (hreleased : _) ?_
    rw [World.owners_left, World.owners_settled, World.owners_setOwners, if_neg hother]
    rfl
  rw [resume_of_turnsOut hturn]
  exact Run.ensuring_ok rfl hforgotten

/-- After the turn, the generator stands between two turns again. -/
theorem Poised.of_item
    (hnext : (Machine.engine (n + 5)).resume g .none w = .ok v (t.relayed o g r (R.frame c x (some it)))) :
    R.Poised (t.relayed o g r (R.frame c x (some it))) (holds v + F) g r c x (some it) where
  record := by
    rw [World.generator_relayed, hasked.keeps.generator (Or.inl rfl), World.generator_underway,
      if_pos rfl, h.record]
  frame := World.frame_relayed
  body := by
    rw [World.code_relayed, hasked.keeps.code]
    exact h.body
  generators := by
    have hne : ¬ o = .generator g := fun heq =>
      h.distinct hR hasked.iterates hobjects (Or.inl heq)
    rw [World.owners_relayed, if_neg nofun, if_neg hne, hasked.keeps.owners (Or.inl rfl),
      World.owners_underway, if_neg nofun, h.generators]
  frames := by
    rw [World.owners_relayed, if_pos rfl, hasked.keeps.owners World.own_frame,
      World.owners_underway, if_pos rfl, h.frames]
  sound := by
    have hsettles : Settles .trivial w.thread.id (F + holds (Value.generator g)) holds
        ((Machine.engine (n + 6)).next g) w :=
      Settles.of_ends h.rests fun hw => next_ends (serves_free (n + 6)) h.rests.fit
        ⟨fun ho => ho, Or.inr (by
          rw [Pi.add_apply, holds_generator, Bag.of_singleton_self]
          omega)⟩ hw
    unfold Settles at hsettles
    rw [show (Machine.engine (n + 6)).next g w = _ from hnext] at hsettles
    cases hsettles with
    | ok hafter => exact add_assoc (holds v) F _ ▸ hafter.2.sound
  source := h.source
  iterates inner hinner := by
    obtain rfl := Option.some.inj hinner
    refine hasked.iterates.imp_right fun ⟨l, i, k, hx, hi, hk⟩ => ⟨l, i, k, hx, hi, ?_⟩
    rw [World.iterator_relayed, hk]
  iterators i hi := by
    obtain rfl := Option.some.inj hi
    obtain rfl : Object.iterator i = o := List.singleton_inj.1 hobjects
    rw [World.owners_relayed, if_neg nofun, if_pos rfl, hasked.iterators i rfl]

end Item

/-! ## Asking in two worlds -/

section Alike

variable {R : Relay} {F : Bag}

/-- The worlds in which a generator that passes items on asks, in two worlds that agree but for it. -/
theorem Poised.underway_linked (h : R.Poised w F g r c x given) (hR : R.Framed)
    (hagree : w.AgreeBut (World.Own g r) w') :
    (w.underway g r).Secludes (World.Own g r) (holds given + holds x) ∧
      (w.underway g r).AgreeBut (World.Own g r) (w'.underway g r) ∧
      (Zone.apart (World.Own g r) (holds x) (w.underway g r) (w'.underway g r)).Linked (holds given)
        (w.underway g r) (w'.underway g r) ∧
      (Zone.apart (World.Own g r) (holds x) (w.underway g r) (w'.underway g r)).Covered (w.underway g r)
        (holds x) := by
  have hsecludes : (w.underway g r).Secludes (World.Own g r) (holds given + holds x) := by
    refine (h.secludes.underway World.own_generator World.own_frame (by rw [h.record])).le ?_
    rw [hR.holds, add_comm (holds given)]
    exact le_add_self
  have hunheld : ∀ o, World.Own g r o → holds x o = 0 ∧ holds given o = 0 := fun o ho => by
    have := (h.unheld ho).2
    rw [hR.holds, Pi.add_apply] at this
    omega
  have hunderway := hagree.underway World.own_generator World.own_frame
  refine ⟨hsecludes, hunderway,
    Zone.apart_linked hsecludes (fun o ho => (hunheld o ho).2) hunderway, fun o ho => ?_⟩
  have hown : ¬ World.Own g r o := fun hh => by
    have := (hunheld o hh).1
    omega
  refine ⟨hown, ?_⟩
  have := hsecludes.owned o hown
  simp only [Pi.add_apply] at this
  omega

/-- An iterator that gives an item in the one world gives it in the other. -/
theorem Poised.asked {P Q : Relay} {G : Bag} {c' : CodeRef} (hp : P.Poised w F g r c x given)
    (hP : P.Framed) (hq : Q.Poised w' G g r c' x given) (hagree : w.AgreeBut (World.Own g r) w')
    (hask : (Machine.engine n).ask x given (w.underway g r) = .ok (some v) t) :
    ∃ it s s' t', World.iteratorOf x given (w.underway g r) = .ok it s ∧
      World.iteratorOf x given (w'.underway g r) = .ok it s' ∧
      (Machine.engine n).ask x given (w'.underway g r) = .ok (some v) t' ∧
      (s.retain it).Pullable it ∧ (s'.retain it).Pullable it ∧
      (w.underway g r).Asked t g r x it ∧ (w'.underway g r).Asked t' g r x it ∧
      t.AgreeBut (World.Own g r) t' := by
  obtain ⟨hsecludes, hunderway, hlinked, hcovered⟩ := hp.underway_linked hP hagree
  have hserves := Zone.serves_apart (le_refl n)
  have hfit := Zone.apart_fit hsecludes (holds x) (w'.underway g r)
  obtain ⟨it, s, hiter, hpull⟩ := Run.bind_eq_ok.1 hask
  have hpull : (Machine.engine n).pull it (s.retain it) = .ok (some v) t := hpull
  have hiterators := iteratorOf_ends hfit hcovered hlinked
  rw [hiter] at hiterators
  cases hiter' : World.iteratorOf x given (w'.underway g r) with
  | error reason s' => rw [hiter'] at hiterators; cases hiterators
  | ok it' s' =>
      rw [hiter'] at hiterators
      cases hiterators with
      | ok hs =>
          have hshared := hs.retain hfit.valid (hs.covered (B := holds it) le_self_add)
          rw [add_zero] at hshared
          have hitems := pull_ends hserves hfit le_self_add hshared
          rw [hpull] at hitems
          cases hpull' : (Machine.engine n).pull it (s'.retain it) with
          | error reason t' => rw [hpull'] at hitems; cases hitems
          | ok given' t' =>
              rw [hpull'] at hitems
              cases hitems with
              | ok ht =>
                  obtain ⟨hi, hruns, hone⟩ := hp.iterates_of_iterator hiter
                  obtain ⟨hi', hruns', -⟩ := hq.iterates_of_iterator hiter'
                  have hagrees := ht.agrees
                  have hown : ∀ o ∈ it.objects, ¬ World.Own g r o ∧ 2 ≤ t.owners o := fun o ho => by
                    have hone : 1 ≤ holds it o := Bag.one_le_of_mem ho
                    have hne : ¬ World.Own g r o := fun hh => by
                      have := ht.accounted.unseen o hh
                      simp only [Pi.add_apply] at this
                      omega
                    have := ht.owned_apart hne
                    simp only [Pi.add_apply] at this
                    exact ⟨hne, by omega⟩
                  have htwo : ∀ i, it = .iterator i → t.owners (.iterator i) = 2 := fun i hit => by
                    subst hit
                    have hnot : (s.retain (.iterator i)).references (World.Own g r) (.iterator i) = 0 := by
                      have howned := hshared.owned_apart (o := .iterator i) fun hh =>
                        by rcases hh with hh | hh <;> cases hh
                      rw [World.owners_retain, hone i rfl, Value.objects, Bag.of_singleton_self] at howned
                      simp only [Pi.add_apply, holds_iterator, Bag.of_singleton_self] at howned
                      omega
                    rw [hi.owners_of_pull hpull fun l => Nat.le_zero.1 (hnot ▸ Bag.apply_le
                      (World.holds_items_le fun hh => by rcases hh with hh | hh <;> cases hh) _), hone i rfl]
                  refine ⟨it, s, s', t', hiter, rfl, Run.bind_ok hiter' |>.trans hpull',
                    hi.pullable hruns, hi'.pullable hruns', ?_, ?_, hagrees⟩
                  · exact ⟨ht.keeps_left, hi.of_pull hpull, fun o ho => (hown o ho).2, htwo⟩
                  · refine ⟨ht.keeps_right hunderway, hi'.of_pull hpull', fun o ho => ?_, fun i hit => ?_⟩
                    · rw [hagrees.owners (hown o ho).1]
                      exact (hown o ho).2
                    · rw [hagrees.owners (by rintro (ho | ho) <;> cases ho), htwo i hit]

/-- A turn that raises: the generator is at its end, unless there was no level left. -/
theorem Poised.echoes (h : R.Poised w F g r c x given) (hR : R.Faithful)
    (hnext : (Machine.engine (n + 5)).resume g .none w = .error (.raised z) t) :
    w.RunsShort R.levels z ∨
      Echoes ((Machine.engine (n + 5)).ask x given (w.underway g r)) z ∧ BodyEnds g .none (n + 6) w := by
  by_cases hroom : w.thread.depth < w.thread.limit
  · have hnone : ∀ y s, (Machine.engine (n + 5)).ask x given (w.underway g r) ≠ .ok (some y) s := by
      intro y s hask
      obtain ⟨it, u, _, _, hiter, -, -, hit, -, hasked, -, -⟩ :=
        h.asked hR.framed h (.refl _ w) hask
      obtain ⟨o, hobjects⟩ := hasked.iterates.objects
      cases hnext.symm.trans (h.resume_of_item hR hasked hobjects hroom hiter hit hask)
    have hraises := hR.fails h hnone
    rwa [hnext] at hraises
  · have hraises := h.refused (n := n + 5) (Nat.le_of_not_lt hroom)
    rw [hnext] at hraises
    exact .inl ⟨hraises.1, lt_of_lt_of_le hraises.2 (Nat.add_le_add_left hR.levels _)⟩

/-- Of two generators that pass on the items of one argument, each in its own way, the second one yields what
the first one yields. -/
theorem Poised.round {P Q : Relay} {G : Bag} {c' : CodeRef} (hp : P.Poised w F g r c x given)
    (hP : P.Faithful) (hq : Q.Poised w' G g r c' x given) (hQ : Q.Faithful)
    (hagree : w.AgreeBut (World.Own g r) w')
    (hnext : (Machine.engine (n + 5)).resume g .none w = .ok v t) :
    ∃ it t', (Machine.engine (n + 5)).resume g .none w' = .ok v t' ∧
      P.Poised t (holds v + F) g r c x (some it) ∧ Q.Poised t' (holds v + G) g r c' x (some it) ∧
      t.AgreeBut (World.Own g r) t' ∧ t.thread = w.thread := by
  have hyielded : ∀ {S : Exception → Prop},
      ¬ Run.RaisesOnly S ((Machine.engine (n + 5)).resume g .none w) := fun hraises => by
    rw [hnext] at hraises
    exact hraises
  have hroom : w.thread.depth < w.thread.limit := by
    by_contra hfull
    exact hyielded (hp.refused (Nat.le_of_not_lt hfull))
  obtain ⟨y, s, hask⟩ : ∃ y s,
      (Machine.engine (n + 5)).ask x given (w.underway g r) = .ok (some y) s := by
    by_contra hnone
    exact hyielded (hP.fails hp fun y s hask => hnone ⟨y, s, hask⟩)
  obtain ⟨it, u, u', s', hiter, hiter', hask', hit, hit', hasked, hasked', hafter⟩ :=
    hp.asked hP.framed hq hagree hask
  obtain ⟨o, hobjects⟩ := hasked.iterates.objects
  have hturn := hp.resume_of_item hP hasked hobjects hroom hiter hit hask
  have hturn' := hq.resume_of_item hQ hasked' hobjects (by rw [hagree.thread]; exact hroom) hiter' hit'
    hask'
  cases hnext.symm.trans hturn
  refine ⟨it, _, hturn', hp.of_item hP hasked hobjects hturn, hq.of_item hQ hasked' hobjects hturn', ?_,
    by rw [World.thread_relayed, hasked.keeps.thread, World.leave_underway]⟩
  have hgiven : (s.setOwners (s.owners o - 1) o).AgreeBut (World.Own g r)
      (s'.setOwners (s'.owners o - 1) o) := hafter.setOwners fun ho => congrArg (· - 1) (hafter.owners ho)
  exact (hgiven.settled World.own_generator World.own_frame _ _).left.setOwners fun ho =>
    absurd World.own_frame ho

/-! ## Forgetting what was yielded -/

/-- The objects of a generator that passes items on: itself, its frame, and the iterator that it has made. -/
def Objects (g : GeneratorRef) (r : FrameRef) (given : Option Value) (o : Object) : Prop :=
  World.Own g r o ∨ ∃ i, given = some (.iterator i) ∧ o = .iterator i

/-- A computation that leaves the objects of such a generator as they are. -/
theorem Poised.of_keeps {B : Bag} (h : R.Poised w F g r c x given) (hkeeps : w.Keeps (Objects g r given) t)
    (hsound : t.Sound .trivial (B + holds (Value.generator g))) : R.Poised t B g r c x given where
  record := (hkeeps.generator (Or.inl World.own_generator)).trans h.record
  frame := (hkeeps.frame (Or.inl World.own_frame)).trans h.frame
  body := by
    rw [hkeeps.code]
    exact h.body
  generators := (hkeeps.owners (Or.inl World.own_generator)).trans h.generators
  frames := (hkeeps.owners (Or.inl World.own_frame)).trans h.frames
  sound := hsound
  source := h.source
  iterates it hit := by
    refine (h.iterates it hit).imp_right fun ⟨l, i, k, hx, hi, hk⟩ => ⟨l, i, k, hx, hi, ?_⟩
    have hsame := (hkeeps.same (.iterator i) (Or.inr ⟨i, hi ▸ hit, rfl⟩)).content
    exact (World.Content.iterator.inj hsame).trans hk
  iterators i hi := (hkeeps.owners (Or.inr ⟨i, hi, rfl⟩)).trans (h.iterators i hi)

/-- Its objects are secluded. -/
theorem Poised.secludes_objects (h : R.Poised w F g r c x given) (hR : R.Framed) :
    w.Secludes (Objects g r given) (F + holds (R.frame c x given)) ∧
      ∀ o, Objects g r given o → F o = 0 := by
  by_cases hmade : ∃ i, given = some (.iterator i)
  · obtain ⟨i, rfl⟩ := hmade
    have hone := h.iterators i rfl
    have hheld : 1 ≤ holds (R.frame c x (some (.iterator i))) (.iterator i) := by
      have := Bag.of_singleton_self (.iterator i)
      rw [hR.holds, Pi.add_apply, holds_some, holds_iterator, this]
      omega
    have hi : ¬ World.Own g r (.iterator i) := fun ho => by rcases ho with ho | ho <;> cases ho
    have hsame : Objects g r (some (.iterator i)) = fun o => World.Own g r o ∨ o = .iterator i := by
      funext o
      simp [Objects]
    rw [hsame]
    have hsecludes := h.secludes
    refine ⟨hsecludes.conceal hi ?_ hone.ge, fun o ho => ?_⟩
    · simp only [Pi.add_apply]
      omega
    · rcases ho with ho | rfl
      · exact (h.unheld ho).1
      · have := hsecludes.owned _ hi
        simp only [Pi.add_apply] at this
        omega
  · have hsame : Objects g r given = World.Own g r := by
      funext o
      exact propext ⟨fun ho => ho.resolve_right fun ⟨i, hi, _⟩ => hmade ⟨i, hi⟩, Or.inl⟩
    rw [hsame]
    exact ⟨h.secludes, fun o ho => (h.unheld ho).1⟩

/-- A sound world in which a value is forgotten stays sound. -/
theorem Poised.sound_of_release (h : R.Poised w (holds v + F) g r c x given)
    (hreleased : (Machine.engine n).release v w = .ok () t) :
    t.Sound .trivial (F + holds (Value.generator g)) := by
  have hsettles := Settles.release (serves_free n) (h.rests.le (le_of_eq (add_assoc ..).symm))
  unfold Settles at hsettles
  rw [hreleased] at hsettles
  cases hsettles with
  | ok hafter => exact hafter.2.sound.le (by rw [holds_unit, zero_add])

/-- What is yielded is forgotten between two turns. -/
theorem Poised.release {P Q : Relay} {G : Bag} {c' : CodeRef}
    (hp : P.Poised w (holds v + F) g r c x given) (hP : P.Framed)
    (hq : Q.Poised w' (holds v + G) g r c' x given) (hagree : w.AgreeBut (World.Own g r) w')
    (hreleased : (Machine.engine n).release v w = .ok () t) :
    ∃ t', (Machine.engine n).release v w' = .ok () t' ∧ P.Poised t F g r c x given ∧
      Q.Poised t' G g r c' x given ∧ t.AgreeBut (World.Own g r) t' ∧ t.thread = w.thread := by
  obtain ⟨hsecludes, hnone⟩ := hp.secludes_objects hP
  have hsecludes : w.Secludes (Objects g r given) (holds v + holds (P.frame c x given)) :=
    hsecludes.le (add_le_add_left le_self_add _)
  have hbut : w.AgreeBut (Objects g r given) w' := hagree.mono fun o ho => Or.inl ho
  have hlinked := Zone.apart_linked hsecludes (fun o ho => by
    have := hnone o ho
    simp only [Pi.add_apply] at this
    omega) hbut
  have hends := release_ends (Zone.serves_apart (le_refl n)) (Zone.apart_fit hsecludes _ w')
    (F := 0) (hlinked.le (by rw [add_zero]))
  rw [hreleased] at hends
  cases hreleased' : (Machine.engine n).release v w' with
  | error reason t' => rw [hreleased'] at hends; cases hends
  | ok _ t' =>
      rw [hreleased'] at hends
      cases hends with
      | ok hafter =>
          have hleft := hafter.keeps_left
          have hright := hafter.keeps_right hbut
          refine ⟨t', rfl, hp.of_keeps hleft (hp.sound_of_release hreleased),
            hq.of_keeps hright (hq.sound_of_release hreleased'), ?_, hleft.thread⟩
          refine { hafter.agrees with same := fun o ho => ?_ }
          by_cases hobject : Objects g r given o
          · -- the iterator was the same before
            have hbefore := hagree.same o ho
            have hkept := hleft.same o hobject
            have hkept' := hright.same o hobject
            exact ⟨hkept'.owners.trans (hbefore.owners.trans hkept.owners.symm),
              hkept'.content.trans (hbefore.content.trans hkept.content.symm)⟩
          · exact hafter.agrees.same o hobject

end Alike

end Relay

end Resumable
