import Resumable.Proofs.Alignment

set_option autoImplicit false

/-!
# Where frames rest

The frame of a generator that is not running rests at one of five points, which its position, the
instruction there and its delegate tell apart.  The mark of a frame that has not started is also the
position of the first instruction; a delegation never rests there, because the first instruction finds
no value to delegate to.

A program that runs such a frame, or a frame in which an exception is to be raised, comes to rest again
at such a point (`Code.Program.resume_rests`).
-/

namespace Resumable

/-- Where the frame of a generator that is not running rests. -/
inductive RestPoint where
  | finished
  | created
  /-- after an instruction that yields -/
  | yielded
  /-- at an instruction that delegates -/
  | delegating
  /-- after an instruction that delegates, whose delegate has run out -/
  | delegated
  deriving DecidableEq, Repr, Inhabited

/-- The state that is reported of a generator whose frame rests at a point. -/
def RestPoint.state : RestPoint → GeneratorState
  | finished => .finished
  | created => .created
  | yielded => .suspended
  | delegating => .delegating
  | delegated => .suspended

/-- Whether a value can be delegated to. -/
def Value.isIterator : Value → Bool
  | .generator _ => true
  | .iterator _ => true
  | _ => false

namespace Frame

variable {p : Code.Program} {f : Frame} {point point' : RestPoint}

/-- The frame of a program rests at a point. -/
def RestsAt (p : Code.Program) (f : Frame) : RestPoint → Prop
  | .finished => f.position = finished ∧ f.delegate = none
  | .created => f.position = notStarted ∧ f.stack = [] ∧ f.blocks = [] ∧ f.delegate = none
  | .yielded => ∃ n : Nat, f.position = n + 1 ∧ p.instructions[n]? = some .yieldValue ∧
      f.delegate = none
  | .delegating => ∃ n : Nat, 0 < n ∧ f.position = n ∧ p.instructions[n]? = some .yieldFrom ∧
      ∃ v, f.delegate = some v ∧ v.isIterator = true
  | .delegated => ∃ n : Nat, f.position = n + 1 ∧ p.instructions[n]? = some .yieldFrom ∧
      f.delegate = none ∧ f.delegationResult.isSome = true

/-- A frame rests at one point only. -/
theorem RestsAt.unique (h : f.RestsAt p point) (h' : f.RestsAt p point') : point = point' := by
  cases point <;> cases point' <;>
    simp only [RestsAt, finished, notStarted] at h h' <;> try rfl
  all_goals grind

/-- The state that is reported of a generator says where its frame rests. -/
theorem RestsAt.stateOf {w : World} {g : GeneratorRef} {r : FrameRef}
    (h : f.RestsAt p point) (hidle : (w.generator g).running = false)
    (hslot : (w.generator g).frame = some r) (hf : w.frame? r = some f) :
    w.stateOf g = point.state := by
  have hstate : w.stateOf g =
      if f.isFinished then .finished
      else if f.delegate.isSome then .delegating
      else if f.isStarted then .suspended
      else .created := by
    simp [World.stateOf, hidle, hslot, hf]
  rw [hstate]
  cases point with
  | finished =>
      have hposition : f.position = finished := h.1
      simp [isFinished, hposition, RestPoint.state]
  | created =>
      obtain ⟨hposition, -, -, hdelegate⟩ := h
      simp [isFinished, isStarted, hposition, hdelegate, notStarted, finished, RestPoint.state]
  | yielded =>
      obtain ⟨n, hposition, -, hdelegate⟩ := h
      have hstarted : (n : Int) + 1 ≠ 0 := by omega
      have hgoing : (n : Int) + 1 ≠ -1 := by omega
      simp [isFinished, isStarted, hposition, hdelegate, notStarted, finished, hstarted, hgoing,
        RestPoint.state]
  | delegating =>
      obtain ⟨n, -, hposition, -, v, hdelegate, -⟩ := h
      have hgoing : (n : Int) ≠ -1 := by omega
      simp [isFinished, hposition, hdelegate, finished, hgoing, RestPoint.state]
  | delegated =>
      obtain ⟨n, hposition, -, hdelegate, -⟩ := h
      have hstarted : (n : Int) + 1 ≠ 0 := by omega
      have hgoing : (n : Int) + 1 ≠ -1 := by omega
      simp [isFinished, isStarted, hposition, hdelegate, notStarted, finished, hstarted, hgoing,
        RestPoint.state]

/-- Nothing waits in the frame for the next resume. -/
structure Unladen (f : Frame) : Prop where
  pending : f.pending = none
  input : f.input = none

/-- The frame may be resumed.  It has finished, or no instruction has been carried out, or it is past the
first instruction, and that does not delegate; where it has a delegate, it is at an instruction that
delegates. -/
structure Prepared (p : Code.Program) (f : Frame) : Prop where
  start : f.position = finished ∨ (f.position = notStarted ∧ f.stack = [] ∧ f.blocks = []) ∨
    (0 < f.position ∧ p.instructions[0]? ≠ some .yieldFrom)
  delegate : f.delegate ≠ none → f.RestsAt p .delegating

/-- What a suspension says of where the frame of a program rests. -/
def Suspended (p : Code.Program) (f : Frame) : Suspension → Prop
  | .yielded _ => p.instructions[0]? ≠ some .yieldFrom ∧ (f.RestsAt p .yielded ∨ f.RestsAt p .delegating)
  | .returned _ => f.RestsAt p .finished
  | .delegateExhausted _ => p.instructions[0]? ≠ some .yieldFrom ∧ f.RestsAt p .delegating

theorem RestsAt.delegate_eq_none (h : f.RestsAt p point) (hne : point ≠ .delegating) :
    f.delegate = none := by
  cases point with
  | finished => exact h.2
  | created => exact h.2.2.2
  | yielded => exact h.choose_spec.2.2
  | delegating => exact absurd rfl hne
  | delegated => exact h.choose_spec.2.2.1

/-- A frame that rests may be resumed, if the first instruction does not delegate where others have been
carried out. -/
theorem RestsAt.prepared (h : f.RestsAt p point)
    (hfirst : point ≠ .finished → point ≠ .created → p.instructions[0]? ≠ some .yieldFrom) :
    f.Prepared p where
  start := by
    cases point with
    | finished => exact Or.inl h.1
    | created => exact Or.inr (Or.inl ⟨h.1, h.2.1, h.2.2.1⟩)
    | _ =>
        obtain ⟨n, hn⟩ := h
        exact Or.inr (Or.inr ⟨by omega, hfirst nofun nofun⟩)
  delegate hdelegate := by
    by_cases hdelegating : point = .delegating
    · exact hdelegating ▸ h
    · exact absurd (h.delegate_eq_none hdelegating) hdelegate

theorem RestsAt.started (h : f.RestsAt p point) (hne : point ≠ .created) : f.position ≠ notStarted := by
  cases point with
  | created => exact absurd rfl hne
  | finished =>
      rw [h.1]
      decide
  | _ =>
      obtain ⟨n, hn⟩ := h
      rw [notStarted]
      omega

/-- A suspended frame rests, and may be resumed.  Instructions have been carried out. -/
theorem Suspended.rests {suspension : Suspension} (h : f.Suspended p suspension) :
    f.Prepared p ∧ ∃ point, f.RestsAt p point ∧ point ≠ .created := by
  cases suspension with
  | yielded v =>
      obtain ⟨hfirst, hyielded | hdelegating⟩ := h
      · exact ⟨hyielded.prepared fun _ _ => hfirst, _, hyielded, nofun⟩
      · exact ⟨hdelegating.prepared fun _ _ => hfirst, _, hdelegating, nofun⟩
  | returned v =>
      have hfinished : f.RestsAt p .finished := h
      exact ⟨hfinished.prepared fun hne => absurd rfl hne, _, hfinished, nofun⟩
  | delegateExhausted v => exact ⟨h.2.prepared fun _ _ => h.1, _, h.2, nofun⟩

end Frame

namespace Exec

open Run (Leaves Meets)

variable {e : Engine} {p : Code.Program} {closure : Value} {a : Activation}

/-- The frame has no delegate, and nothing waits in it. -/
structure Free (a : Activation) : Prop where
  delegate : a.frame.delegate = none
  unladen : a.frame.Unladen

theorem stable_free : Stable Free where
  frame _ _ _ _ h := ⟨h.delegate, h.unladen.pending, h.unladen.input⟩
  sent _ h := ⟨h.delegate, h.unladen⟩
  counter _ _ _ h := ⟨h.delegate, h.unladen⟩

theorem Free.moved (h : Free a) (n : Int) :
    Free { a with frame := { a.frame with position := n } } :=
  ⟨h.delegate, h.unladen.pending, h.unladen.input⟩

/-- The frame has no delegate, or the next instruction goes on with the delegation. -/
def GoesOn (p : Code.Program) (a : Activation) : Prop :=
  Free a ∨ a.frame.Unladen ∧ 0 < a.counter ∧ p.instructions[a.counter]? = some .yieldFrom ∧
    ∃ v, a.frame.delegate = some v ∧ v.isIterator = true

/-- Where no delegation goes on next, there is no delegate. -/
theorem GoesOn.free (h : GoesOn p a) (hdelegating : isDelegating p a ≠ true) : Free a := by
  refine h.resolve_right ?_
  rintro ⟨_, _, hi, v, hv, _⟩
  exact hdelegating (by simp [isDelegating, hi, hv])

/-- The first instruction does not delegate, or it comes next and there is nothing to delegate to. -/
def Entered (p : Code.Program) (a : Activation) : Prop :=
  p.instructions[0]? ≠ some .yieldFrom ∨
    a.counter = 0 ∧ a.frame.stack = [] ∧ a.frame.blocks = []

theorem getIter_meets (v : Value) (w : World) :
    Meets (fun inner _ => inner.isIterator = true) (fun _ _ => True) (fun _ => True) (fun _ => True)
      (World.getIter v) w := by
  unfold World.getIter
  cases v with
  | list r => exact Meets.trivial.bind fun _ _ _ => rfl
  | generator g => exact Meets.trivial.bind fun _ _ _ => rfl
  | iterator r => exact Meets.trivial.bind fun _ _ _ => rfl
  | _ => exact Meets.trivial.bind fun _ _ _ => True.intro

/-- The iterator to delegate to is in the frame, and the counter does not move. -/
theorem delegate_rests (h : a.frame.Unladen)
    (hdelegate : ∀ v, a.frame.delegate = some v → v.isIterator = true) :
    Leaves (fun _ b => b.counter = a.counter ∧ b.frame.Unladen ∧
        ∃ v, b.frame.delegate = some v ∧ v.isIterator = true)
      Free (fun _ => True) (delegate e) a := by
  unfold delegate
  refine leaves_activation_bind ?_
  split
  · next v hv => exact fun w => ⟨rfl, h, v, hv, hdelegate v hv⟩
  · next hnone =>
    have hpopped : Leaves (fun _ b => Free b ∧ b.counter = a.counter) Free (fun _ => True) pop a := by
      intro w
      unfold Meets pop
      simp only
      cases a.frame.stack with
      | nil => exact ⟨hnone, h⟩
      | cons v rest => exact ⟨⟨hnone, h.pending, h.input⟩, rfl⟩
    refine hpopped.bind fun iterable b hb => ?_
    have hiter : Leaves (fun inner d => d = b ∧ inner.isIterator = true) (· = b) (· = b)
        (owning e iterable (Run.shared (World.getIter iterable))) b := by
      have hasked : Leaves (fun inner d => d = b ∧ inner.isIterator = true) (· = b) (· = b)
          (Run.shared (World.getIter iterable) : Exec Value) b := fun w =>
        (getIter_meets iterable w).shared.mono (fun _ _ hs => hs) (fun _ _ hs => hs.1)
          (fun _ hs => hs.1) fun _ hs => hs.1
      exact hasked.ensuring_shared (fun _ _ hd => ⟨hd.1, hd.1⟩) (fun _ hd => hd) fun _ hd => hd
    replace hiter : Leaves (fun inner d => d = b ∧ inner.isIterator = true) Free (fun _ => True)
        (owning e iterable (Run.shared (World.getIter iterable))) b :=
      hiter.mono (fun _ _ hd => hd) (fun d hd => hd ▸ hb.1) fun _ _ => True.intro
    refine hiter.bind fun inner d hd => ?_
    obtain ⟨rfl, hinner⟩ := hd
    exact fun w => ⟨hb.2, ⟨hb.1.unladen.pending, hb.1.unladen.input⟩, inner, rfl, hinner⟩

/-- A delegation is suspended at its instruction, and an exception ends it. -/
theorem yieldFrom_rests (he : e.Lenient) {n : Nat} (hfirst : p.instructions[0]? ≠ some .yieldFrom)
    (hcounter : a.counter = n + 1) (hn : 0 < n) (hi : p.instructions[n]? = some .yieldFrom)
    (h : a.frame.Unladen)
    (hdelegate : ∀ v, a.frame.delegate = some v → v.isIterator = true) :
    Leaves (fun suspension b => b.frame.Unladen ∧ b.frame.Suspended p suspension) Free (fun _ => True)
      (yieldFrom e) a := by
  rw [yieldFrom_eq]
  refine (delegate_rests h hdelegate).bind fun inner b hb => ?_
  -- from here on the frame rests at the instruction
  let P : Activation → Prop := fun d => d.frame.Unladen ∧ d.frame.RestsAt p .delegating
  have hasked : ∀ sent, Leaves (fun _ => P) (fun _ => False) (fun _ => True)
      (Run.attempt (Run.shared (e.sendInto inner sent)) : Exec (Except Exception Engine.Delegated))
      { b with frame := { b.frame with position := (b.counter : Int) - 1 }, sent := .none } := by
    intro sent w
    have hstart : P { b with frame := { b.frame with position := (b.counter : Int) - 1 }, sent := .none } := by
      refine ⟨⟨hb.2.1.pending, hb.2.1.input⟩, n, hn, ?_, hi, hb.2.2⟩
      show (b.counter : Int) - 1 = n
      omega
    unfold Meets Run.attempt Run.shared
    simp only
    rcases e.sendInto inner sent w with ⟨v, t⟩ | ⟨_ | _ | _, t⟩
    · exact hstart
    · exact hstart
    · exact True.intro
    · exact True.intro
  have hsettled : ∀ outcome d, P d →
      Leaves (fun suspension d => d.frame.Unladen ∧ d.frame.Suspended p suspension) Free (fun _ => True)
        (settleDelegation e outcome) d := by
    intro outcome d hd
    rcases outcome with x | v | v
    · refine Leaves.bind (Q := fun _ => Free) (fun w => ?_) fun _ _ hu => Leaves.raise hu
      have hremoved : Free { d with frame := d.frame.removeDelegate.1 } :=
        ⟨rfl, hd.1.pending, hd.1.input⟩
      exact Leaves.shared (Q := fun _ => Free) (E := Free) (A := fun _ => True)
        (m := e.releaseAll d.frame.delegate.toList) (fun _ => hremoved) hremoved True.intro w
    · exact Leaves.pure ⟨hd.1, hfirst, Or.inr hd.2⟩
    · exact Leaves.pure ⟨hd.1, hfirst, hd.2⟩
  have hrest : Leaves (fun suspension d => d.frame.Unladen ∧ d.frame.Suspended p suspension) Free
      (fun _ => True) (delegateTo e inner) b :=
    ((hasked b.sent).mono (fun _ _ hd => hd) (fun d hd => (hd.elim : Free d)) fun _ hd => hd).bind hsettled
  exact hrest.ensuring_silent (Engine.releaseObjects_silent he _) (fun _ _ _ => True.intro)
    fun _ _ => True.intro

/-- Forgetting values leaves the frame as it is, and raises nothing. -/
theorem releaseAll_keeps (he : e.Lenient) {P E : Activation → Prop} (vs : List Value) (h : P a) :
    Leaves (fun _ => P) E (fun _ => True) (Run.shared (e.releaseAll vs)) a :=
  Leaves.shared_silent (Engine.releaseObjects_silent he _) (fun _ => h) True.intro

theorem release_keeps (he : e.Lenient) {P E : Activation → Prop} (v : Value) (h : P a) :
    Leaves (fun _ => P) E (fun _ => True) (release e v) a :=
  Leaves.shared_silent (Engine.releaseObjects_silent he _) (fun _ => h) True.intro

theorem clearStack_keeps (he : e.Lenient) {P E : Activation → Prop} (hP : Steady P) (h : P a) :
    Leaves (fun _ => P) E (fun _ => True) (clearStack e) a := by
  refine Leaves.bind (Q := fun _ => P) (fun w => h) fun top b hb => ?_
  refine Leaves.bind (Q := fun _ => P) (fun w => hP.frame b (b.frame.stack.drop _) b.frame.blocks hb)
    fun _ d hd => ?_
  exact releaseAll_keeps he _ hd

/-- The end of a body finishes the frame. -/
theorem finish_suspends (he : e.Lenient) {E : Activation → Prop} (v : Value) (h : Free a) :
    Leaves (fun suspension b => b.frame.Unladen ∧ b.frame.Suspended p suspension) E (fun _ => True)
      (finish e v) a := by
  let P : Activation → Prop := fun b => Free b ∧ b.frame.position = Frame.finished
  have hP : Stable P :=
    ⟨fun b locals stack blocks hb => ⟨stable_free.frame b locals stack blocks hb.1, hb.2⟩,
      fun b hb => ⟨stable_free.sent b hb.1, hb.2⟩, fun b n hn hb => ⟨stable_free.counter b n hn hb.1, hb.2⟩⟩
  have hmarked : P { a with frame := { a.frame.markFinished with blocks := [] } } :=
    ⟨⟨h.delegate, h.unladen.pending, h.unladen.input⟩, rfl⟩
  unfold finish
  refine Leaves.bind (Q := fun _ => P) (fun w => hmarked) fun _ b hb => ?_
  refine Leaves.bind (Q := fun _ => P) ?_ fun _ d hd =>
    Leaves.pure ⟨hd.1.unladen, hd.2, hd.1.delegate⟩
  exact (clearStack_keeps he hP.steady hb).onInterruption
    (fun _ hd => release_keeps he v hd) fun _ _ => release_keeps he v True.intro

/-- One instruction.  Unless it suspends the frame, there is no delegate afterwards. -/
theorem execute_rests (he : e.Lenient) {n : Nat} {i : Code.Instruction}
    (hfirst : p.instructions[0]? ≠ some .yieldFrom) (hcounter : a.counter = n + 1)
    (hi : p.instructions[n]? = some i) (h : a.frame.Unladen)
    (hstart : a.frame.delegate = none ∨
      i = .yieldFrom ∧ ∃ v, a.frame.delegate = some v ∧ v.isIterator = true) :
    Leaves (fun outcome b => match outcome with
        | none => Free b
        | some suspension => b.frame.Unladen ∧ b.frame.Suspended p suspension)
      Free (fun _ => True) (execute e p closure i) a := by
  by_cases hdelegates : i = .yieldFrom
  · subst hdelegates
    have hpositive : 0 < n := by
      rcases n with _ | n
      · exact absurd hi hfirst
      · exact Nat.succ_pos n
    have hiterator : ∀ v, a.frame.delegate = some v → v.isIterator = true := by
      intro v hv
      rcases hstart with hnone | ⟨_, u, hu, hiterator⟩
      · rw [hnone] at hv
        cases hv
      · rw [hu] at hv
        cases hv
        exact hiterator
    exact (yieldFrom_rests he hfirst hcounter hpositive hi h hiterator).map fun _ _ hb => hb
  · have hfree : Free a := ⟨hstart.resolve_right fun hrest => hdelegates hrest.1, h⟩
    by_cases hyields : i = .yieldValue
    · subst hyields
      let P : Activation → Prop := fun b => Free b ∧ b.counter = n + 1
      have hpopped : Leaves (fun _ => P) Free (fun _ => True) pop a := by
        intro w
        unfold Meets pop
        simp only
        cases a.frame.stack with
        | nil => exact hfree
        | cons v rest => exact ⟨stable_free.frame a a.frame.locals rest a.frame.blocks hfree, hcounter⟩
      refine hpopped.bind fun v b hb w => ?_
      have hposition : ((b.counter : Nat) : Int) = (n : Int) + 1 := by
        have := hb.2
        omega
      exact ⟨⟨hb.1.unladen.pending, hb.1.unladen.input⟩, hfirst,
        Or.inl ⟨n, hposition, hi, hb.1.delegate⟩⟩
    · by_cases hreturns : i = .returnValue
      · subst hreturns
        have hpopped : Leaves (fun _ => Free) Free (fun _ => True) pop a :=
          (Leaves.of_maintains (maintains_pop stable_free.steady) hfree).mono (fun _ _ hb => hb)
            (fun _ hb => hb) fun _ _ => True.intro
        refine hpopped.bind fun v b hb => ?_
        exact (finish_suspends he v hb).map fun _ _ hd => hd
      · have hkept : Leaves (fun _ => Free) Free Free (execute e p closure i) a :=
          Leaves.of_maintains (maintains_execute stable_free hyields hdelegates hreturns) hfree
        intro w
        refine ((hkept w).and (execute_goesOn hyields hdelegates hreturns (a, w))).mono ?_ ?_ ?_ ?_
        · rintro outcome s ⟨hs, rfl⟩
          exact hs
        · exact fun _ _ hs => hs.1
        · exact fun _ _ => True.intro
        · exact fun _ _ => True.intro

/-- An exception goes to a handler if there is one, and otherwise it finishes the frame. -/
theorem unwind_rests (he : e.Lenient) (x : Exception) (h : Free a) :
    Leaves (fun _ b => Free b ∧ a.frame.blocks ≠ [])
      (fun b => b.frame.Unladen ∧ b.frame.RestsAt p .finished) (fun _ => True) (unwind e x) a := by
  let E : Activation → Prop := fun b => b.frame.Unladen ∧ b.frame.RestsAt p .finished
  have hforgets : ∀ (P : Activation → Prop) b, P b →
      Leaves (fun _ => P) E (fun _ => True) (release e x.toValue) b :=
    fun P b hb => release_keeps he x.toValue hb
  unfold unwind
  refine leaves_activation_bind ?_
  split
  · next block rest hblocks =>
    have hhandled : a.frame.blocks ≠ [] := by simp [hblocks]
    refine Leaves.bind (Q := fun _ => Free) (fun w => ⟨h.delegate, h.unladen.pending, h.unladen.input⟩)
      fun _ b hb => ?_
    refine Leaves.bind (Q := fun _ => Free) ?_ fun _ d hd => ?_
    · exact (releaseAll_keeps he _ hb).onInterruption (hforgets E) (hforgets fun _ => True)
    · exact fun w => ⟨⟨hd.delegate, hd.unladen.pending, hd.unladen.input⟩, hhandled⟩
  · refine Leaves.bind (Q := fun _ => Free) (fun w => ⟨h.delegate, h.unladen.pending, h.unladen.input⟩)
      fun _ b hb => ?_
    refine Leaves.bind (Q := fun _ => Free) (fun w => hb) fun s c hc => ?_
    refine Leaves.bind (Q := fun _ => Free) (fun w => hc) fun entry d hd => ?_
    have hcleared : Leaves (fun _ => Free) E (fun _ => True) (clearStack e) d :=
      clearStack_keeps he stable_free.steady hd
    refine (hcleared.onInterruption (hforgets E) (hforgets fun _ => True)).bind fun _ k hk w => ?_
    exact ⟨⟨hk.unladen.pending, hk.unladen.input⟩, rfl, hk.delegate⟩

/-- Where the first instruction delegates, there is nothing to delegate to, and the frame is finished. -/
theorem first_rests (he : e.Lenient) {n : Nat} (h : Free a) (hstack : a.frame.stack = [])
    (hblocks : a.frame.blocks = []) :
    Leaves (fun suspension b => b.frame.Unladen ∧ b.frame.Suspended p suspension)
      (fun b => b.frame.Unladen ∧ b.frame.RestsAt p .finished) (fun _ => True)
      (Run.attempt (execute e p closure .yieldFrom) >>= afterStep e p closure n) a := by
  have hfailed : Leaves (fun outcome b => outcome = .error (.systemError "pop from an empty value stack") ∧
        b = a)
      (fun b => b.frame.Unladen ∧ b.frame.RestsAt p .finished) (fun _ => True)
      (Run.attempt (execute e p closure .yieldFrom)) a := by
    intro w
    have hdelegate : delegate e (a, w) =
        .error (.raised (.systemError "pop from an empty value stack")) (a, w) := by
      simp [delegate, Run.bind_apply, activation, h.delegate, pop, hstack]
    have hrun : Run.attempt (execute e p closure .yieldFrom) (a, w) =
        .ok (.error (.systemError "pop from an empty value stack")) (a, w) := by
      unfold Run.attempt
      rw [execute, map_eq_pure_bind, yieldFrom_eq, Run.bind_error (Run.bind_error hdelegate)]
    unfold Meets
    rw [hrun]
    exact ⟨rfl, rfl⟩
  refine hfailed.bind ?_
  rintro _ _ ⟨rfl, rfl⟩
  refine (unwind_rests he _ h).bind fun _ b hb => absurd hblocks hb.2

/-- A run, by induction on the instructions that it may carry out. -/
theorem run_rests (he : e.Lenient) (n : Nat) (h : GoesOn p a) (hentered : Entered p a) :
    Leaves (fun suspension b => b.frame.Unladen ∧ b.frame.Suspended p suspension)
      (fun b => b.frame.Unladen ∧ b.frame.RestsAt p .finished) (fun _ => True)
      (run e p closure n) a := by
  induction n generalizing a with
  | zero => exact Leaves.outOfFuel True.intro
  | succ n ih =>
      rw [run]
      refine leaves_activation_bind ?_
      cases hi : p.instructions[a.counter]? with
      | none =>
          have hfree : Free a := h.free (by simp [isDelegating, hi])
          exact finish_suspends he .none hfree
      | some i =>
          let next : Activation := { a with counter := a.counter + 1 }
          have hunladen : a.frame.Unladen := h.elim (fun hfree => hfree.unladen) fun hrest => hrest.1
          have hgoes : Leaves (fun suspension b => b.frame.Unladen ∧ b.frame.Suspended p suspension)
              (fun b => b.frame.Unladen ∧ b.frame.RestsAt p .finished) (fun _ => True)
              (Run.attempt (execute e p closure i) >>= afterStep e p closure n) next := by
            by_cases hfirst : p.instructions[0]? = some .yieldFrom
            · -- the first instruction comes next, and it has nothing to delegate to
              obtain ⟨hzero, hstack, hblocks⟩ := hentered.resolve_left fun hne => hne hfirst
              have hfree : Free a := h.resolve_right fun hrest => by omega
              rw [hzero, hfirst, Option.some.injEq] at hi
              subst hi
              exact first_rests he (a := next) ⟨hfree.delegate, hfree.unladen⟩ hstack hblocks
            · have hstart : next.frame.delegate = none ∨
                  i = .yieldFrom ∧ ∃ v, next.frame.delegate = some v ∧ v.isIterator = true :=
                h.imp (fun hfree => hfree.delegate) fun hrest => by
                  refine ⟨?_, hrest.2.2.2⟩
                  simpa [hi] using hrest.2.2.1
              refine (execute_rests he hfirst (a := next) rfl hi hunladen hstart).attempt.bind
                fun outcome b hb => ?_
              rcases outcome with x | _ | suspension
              · exact (unwind_rests he x hb).bind fun _ d hd => ih (Or.inl hd.1) (Or.inl hfirst)
              · exact ih (Or.inl hb) (Or.inl hfirst)
              · exact Leaves.pure hb
          exact hgoes

/-- A frame that goes on with a delegation is not given a value first. -/
theorem pushResumeValue_goesOn (h : GoesOn p a) (hentered : Entered p a) :
    Leaves (fun _ b => GoesOn p b ∧ Entered p b)
      (fun b => b.frame.Unladen ∧ b.frame.RestsAt p .finished) (fun _ => True) (pushResumeValue p) a := by
  by_cases hskips : a.counter = 0 ∨ isDelegating p a = true
  · intro w
    have hskipped : pushResumeValue p (a, w) = .ok () (a, w) := by
      unfold pushResumeValue
      rcases hskips with hzero | hdelegating
      · simp [Run.bind_apply, activation, hzero]
      · simp [Run.bind_apply, activation, hdelegating]
    unfold Meets
    rw [hskipped]
    exact ⟨h, hentered⟩
  · obtain ⟨hcounter, hdelegating⟩ := not_or.1 hskips
    have hfirst : p.instructions[0]? ≠ some .yieldFrom := hentered.resolve_right fun hrest => hcounter hrest.1
    have hfree : Free a := h.free hdelegating
    intro w
    have hended : Meets (fun _ s => Free s.1) (fun _ _ => False) (fun _ => False) (fun _ => False)
        (pushResumeValue p) (a, w) := by
      unfold Meets pushResumeValue
      rw [Run.bind_ok (rfl : activation (a, w) = .ok a (a, w))]
      rw [if_neg (by simp [hcounter, hdelegating])]
      generalize p.instructions[a.counter - 1]? = i
      rcases i with _ | i
      · exact hfree
      · cases i with
        | yieldValue => exact ⟨hfree.delegate, hfree.unladen.pending, hfree.unladen.input⟩
        | yieldFrom => exact ⟨hfree.delegate, hfree.unladen.pending, hfree.unladen.input⟩
        | _ => exact hfree
    exact hended.mono (fun _ _ hs => ⟨Or.inl hs, Or.inl hfirst⟩) (fun _ _ hs => hs.elim)
      (fun _ hs => hs.elim) fun _ hs => hs.elim

/-- A resume comes to rest again. -/
theorem resume_rests (he : e.Lenient) (pending : Option Exception) (h : GoesOn p a)
    (hentered : Entered p a) (hpending : pending.isSome = true → a.frame.delegate = none) :
    Leaves (fun suspension b => b.frame.Unladen ∧ b.frame.Suspended p suspension)
      (fun b => b.frame.Unladen ∧ b.frame.RestsAt p .finished) (fun _ => True)
      (resume e p closure pending) a := by
  unfold resume
  cases pending with
  | none => exact (pushResumeValue_goesOn h hentered).bind fun _ b hb => run_rests he _ hb.1 hb.2
  | some x =>
      have hfree : Free a := h.free (by simp [isDelegating, hpending rfl])
      refine (unwind_rests he x hfree).bind fun _ b hb => run_rests he _ (Or.inl hb.1) (Or.inl fun hfirst => ?_)
      rcases hentered with hne | ⟨_, _, hblocks⟩
      · exact hne hfirst
      · exact hb.2 hblocks

end Exec

open Run (Leaves) in
/-- A program that runs a frame comes to rest again: where the suspension says, or at the end if an exception
leaves the frame.  Nothing waits in the frame then. -/
theorem Code.Program.resume_rests {p : Code.Program} {e : Engine} (he : e.Lenient) (closure : Value)
    (pending : Option Exception) {f : Frame} (h : f.Prepared p) (hunfinished : f.isFinished = false)
    (htaken : f.pending = none) (hpending : pending.isSome = true → f.delegate = none) :
    Leaves (fun suspension b => b.Unladen ∧ b.Suspended p suspension)
      (fun b => b.Unladen ∧ b.RestsAt p .finished) (fun _ => True) (p.resume e closure pending) f := by
  have hgoing : f.position ≠ -1 := by simpa [Frame.isFinished, Frame.finished] using hunfinished
  have hposition : ¬ f.position < 0 := by
    rcases h.start with hfinished | ⟨hstart, _, _⟩ | ⟨hpositive, _⟩
    · exact absurd hfinished hgoing
    · simp [hstart, Frame.notStarted]
    · omega
  let a : Activation := ⟨{ f with input := none }, f.position.toNat, f.input.getD .none⟩
  have hgoes : Exec.GoesOn p a := by
    by_cases hdelegate : f.delegate = none
    · exact Or.inl ⟨hdelegate, htaken, rfl⟩
    · obtain ⟨n, hn, hat, hi, v, hv, hiterator⟩ := h.delegate hdelegate
      have hcounter : f.position.toNat = n := by omega
      have hi : p.instructions[a.counter]? = some .yieldFrom := by
        show p.instructions[f.position.toNat]? = _
        rw [hcounter, hi]
      refine Or.inr ⟨⟨htaken, rfl⟩, ?_, hi, v, hv, hiterator⟩
      show 0 < f.position.toNat
      omega
  have hentered : Exec.Entered p a := by
    rcases h.start with hfinished | ⟨hstart, hstack, hblocks⟩ | ⟨_, hfirst⟩
    · exact absurd hfinished hgoing
    · refine Or.inr ⟨?_, hstack, hblocks⟩
      show f.position.toNat = 0
      rw [hstart]
      rfl
    · exact Or.inl hfirst
  have hforgets : ∀ (P E : Activation → Prop) (b : Activation), P b → (∀ d, P d → P { d with sent := .none }) →
      Leaves (fun _ => P) E (fun _ => True) (do Exec.release e (← Exec.takeSent)) b := by
    intro P E b hb hP
    refine Leaves.bind (Q := fun _ => P) (fun w => hP b hb) fun v d hd => ?_
    exact Exec.release_keeps he v hd
  intro w
  have hresumed : Leaves _ _ _ (Exec.resume e p closure pending) a :=
    Exec.resume_rests he pending hgoes hentered hpending
  have hran := (hresumed.ensuring
    (fun suspension b hb => hforgets _ _ b hb fun _ hd => hd) (fun b hb => hforgets _ _ b hb fun _ hd => hd)
    fun b hb => hforgets (fun _ => True) _ b True.intro fun _ hd => hd) w
  unfold Run.Meets at hran ⊢
  unfold Code.Program.resume
  dsimp only
  rw [if_neg hposition]
  generalize ((Exec.resume e p closure pending).ensuring
    (do Exec.release e (← Exec.takeSent))) (a, w) = y at hran ⊢
  rcases y with ⟨s, b, u⟩ | ⟨_ | _ | _, b, u⟩ <;> exact hran

end Resumable
