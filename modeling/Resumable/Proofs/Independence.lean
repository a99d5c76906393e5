import Resumable.Proofs.Levels
import Resumable.Proofs.Results
import Resumable.Proofs.Solo

set_option autoImplicit false

/-!
# Generators that have nothing in common

Two generators of one code object whose closures and arguments refer to no object have nothing in
common but the code object, which never changes, and the levels of the thread, which every call gives
back.  So calls on the two of them, in any order, come to what the calls on each of them come to
without the other (`generators_independent`).
-/

namespace Resumable

/-! ## Calls from outside -/

/-- A call on a generator, with its arguments. -/
structure Ask where
  target : GeneratorRef
  method : Method
  args : List Value
  deriving DecidableEq, Repr, Inhabited

namespace Engine

/-- What comes of a call that is made from outside of all bodies: an abandonment ends with it. -/
def outcome (e : Engine) (a : Ask) : Run World (Run.Ending Value) := do
  let ending ← Run.contain (e.call a.target a.method a.args)
  modify (World.mark false)
  return ending

/-- What comes of calls that are made one after the other, each with its target. -/
def outcomes (e : Engine) : List Ask → Run World (List (GeneratorRef × Run.Ending Value))
  | [] => pure []
  | a :: asks => do
      let ending ← e.outcome a
      let rest ← e.outcomes asks
      return (a.target, ending) :: rest

theorem outcomes_cons {e : Engine} {a : Ask} {asks : List Ask} {w t : World}
    {xs : List (GeneratorRef × Run.Ending Value)} :
    e.outcomes (a :: asks) w = .ok xs t ↔ ∃ ending u rest, e.outcome a w = .ok ending u ∧
      e.outcomes asks u = .ok rest t ∧ xs = (a.target, ending) :: rest := by
  rw [outcomes, Run.bind_eq_ok]
  constructor
  · rintro ⟨ending, u, hending, hrest⟩
    obtain ⟨rest, t', hrest, hxs⟩ := Run.bind_eq_ok.1 hrest
    cases hxs
    exact ⟨ending, u, rest, hending, hrest, rfl⟩
  · rintro ⟨ending, u, rest, hending, hrest, rfl⟩
    exact ⟨ending, u, hending, Run.bind_eq_ok.2 ⟨rest, t, hrest, rfl⟩⟩

end Engine

/-! ## Two generators side by side -/

namespace World

/-- The generator, its frame, the thread and the mark of a world. -/
def solo (w : World) (g : GeneratorRef) (r : FrameRef) : Solo where
  generator := w.generator g
  cell := w.frames.get r.index
  thread := w.thread
  unwinding := w.unwinding

theorem seat_solo {w : World} {g : GeneratorRef} {r : FrameRef} (hg : g.index < w.generators.size)
    (hr : r.index < w.frames.size) : w.seat g r (w.solo g r) = w := by
  have hgenerators : w.generators.setContent g.index (w.generator g) = w.generators :=
    Store.setContent_self hg
  have hframes : w.frames.set r.index (w.frames.get r.index) = w.frames := Store.set_get hr
  simp only [seat, solo, hgenerators, hframes]

/-- Two generators with frames of their own are put into a world in any order. -/
theorem seat_comm {g g' : GeneratorRef} {r r' : FrameRef} {s s' : Solo} (hg : g ≠ g') (hr : r ≠ r')
    (hthread : s.thread = s'.thread) (hmark : s.unwinding = s'.unwinding) (w : World) :
    (w.seat g r s).seat g' r' s' = (w.seat g' r' s').seat g r s := by
  have hg : g.index ≠ g'.index := fun h => hg (GeneratorRef.ext h)
  have hr : r.index ≠ r'.index := fun h => hr (FrameRef.ext h)
  simp only [seat, Store.setContent, Store.get_set_ne _ _ hg, Store.get_set_ne _ _ hg.symm,
    Store.set_comm _ _ _ hg, Store.set_comm _ _ _ hr, hthread, hmark]

end World

/-- A generator of this code and closure between two calls. -/
def Solo.Waits (code : CodeRef) (closure : Value) (r : FrameRef) (thread : Thread) (s : Solo) : Prop :=
  s.Of code closure r thread ∧ s.unwinding = false

section Waiting

variable {codes : List CodeObject} {g g₁ g₂ : GeneratorRef} {r r₁ r₂ : FrameRef} {code : CodeRef}
  {closure closure₁ closure₂ : Value} {thread : Thread} {n : Nat}

theorem outcome_apart (hbody : RunsProgram codes code) (hclosure : Bare closure) {a : Ask}
    (hargs : Bare a.args) (htarget : a.target = g) :
    Apart codes (fun s (w : World) => w.seat g r s) (Solo.Waits code closure r thread)
      (Solo.Waits code closure r thread) Any Any ((Machine.engine n).outcome a) := by
  have hcall : Apart codes (fun s (w : World) => w.seat g r s) (Solo.Waits code closure r thread)
      (Solo.Of code closure r thread) Any Any
      (Run.contain ((Machine.engine n).call a.target a.method a.args)) := by
    rw [htarget]
    exact (call_alone hbody hclosure a.method hargs).contain.mono (fun _ h => h.1) (fun _ => id)
      (fun _ => id) fun _ => id
  refine hcall.bind fun ending _ => ?_
  have hcalm : Apart codes (fun s (w : World) => w.seat g r s) (Solo.Of code closure r thread)
      (Solo.Waits code closure r thread) Any Any (modify (World.mark false) : Run World PUnit) :=
    Apart.step (g := fun s => .ok () { s with unwinding := false })
      (fun s hs => ⟨True.intro, { hs with }, rfl⟩) fun s w _ => by
        simp only [Run.modify_apply, World.mark_seat, within]
  exact hcalm.bind fun _ _ => Apart.pure True.intro

/-- A call that ends in one world ends in the same way in every world that has the generator in it. -/
theorem outcome_eq_ok (hbody : RunsProgram codes code) (hclosure : Bare closure) {a : Ask}
    (hargs : Bare a.args) (htarget : a.target = g) {s : Solo} (hs : s.Waits code closure r thread)
    {w v : World} (hcodes : w.codes = codes) {ending : Run.Ending Value}
    (hending : (Machine.engine n).outcome a (w.seat g r s) = .ok ending v) :
    ∃ t : Solo, t.Waits code closure r thread ∧ v = w.seat g r t ∧ ∀ u : World, u.codes = codes →
      (Machine.engine n).outcome a (u.seat g r s) = .ok ending (u.seat g r t) := by
  obtain ⟨x, hx, hmx⟩ := outcome_apart (n := n) hbody hclosure hargs htarget s hs
  have hw := hmx w hcodes
  rw [hending] at hw
  rcases x with ⟨y, t⟩ | ⟨reason, t⟩
  · cases hw
    exact ⟨t, hx.2, rfl, hmx⟩
  · cases hw

/-- Calls on two generators: the first of the two comes from one state to another as it does in any
other world without the second. -/
theorem outcomes_apart (hg : g₁ ≠ g₂) (hr : r₁ ≠ r₂) (hbody : RunsProgram codes code)
    (hclosure₁ : Bare closure₁) (hclosure₂ : Bare closure₂) {asks : List Ask}
    (htargets : ∀ a ∈ asks, a.target = g₁ ∨ a.target = g₂) (hargs : ∀ a ∈ asks, Bare a.args)
    {s₁ s₂ : Solo} (hs₁ : s₁.Waits code closure₁ r₁ thread) (hs₂ : s₂.Waits code closure₂ r₂ thread)
    {w t : World} (hcodes : w.codes = codes) {xs : List (GeneratorRef × Run.Ending Value)}
    (hrun : (Machine.engine n).outcomes asks ((w.seat g₂ r₂ s₂).seat g₁ r₁ s₁) = .ok xs t) :
    ∃ t₁ t₂ : Solo, t = (w.seat g₂ r₂ t₂).seat g₁ r₁ t₁ ∧ ∀ u : World, u.codes = codes →
      (Machine.engine n).outcomes (asks.filter (·.target = g₁)) (u.seat g₁ r₁ s₁)
        = .ok (xs.filter (·.1 = g₁)) (u.seat g₁ r₁ t₁) := by
  have hswap {s₁ s₂ : Solo} (hs₁ : s₁.Waits code closure₁ r₁ thread)
      (hs₂ : s₂.Waits code closure₂ r₂ thread) :
      (w.seat g₂ r₂ s₂).seat g₁ r₁ s₁ = (w.seat g₁ r₁ s₁).seat g₂ r₂ s₂ :=
    World.seat_comm hg.symm hr.symm (hs₂.1.thread_eq.trans hs₁.1.thread_eq.symm)
      (hs₂.2.trans hs₁.2.symm) w
  induction asks generalizing s₁ s₂ xs with
  | nil =>
      cases hrun
      exact ⟨s₁, s₂, rfl, fun _ _ => rfl⟩
  | cons a asks ih =>
      obtain ⟨htarget, htargets⟩ := List.forall_mem_cons.1 htargets
      obtain ⟨ha, hargs⟩ := List.forall_mem_cons.1 hargs
      obtain ⟨ending, v, rest, hending, hrest, rfl⟩ := Engine.outcomes_cons.1 hrun
      rcases htarget with htarget | htarget
      · -- A call on the first generator is made in both runs.
        obtain ⟨u₁, hu₁, rfl, hcall⟩ := outcome_eq_ok hbody hclosure₁ ha htarget hs₁
          (World.codes_seat.trans hcodes) hending
        obtain ⟨t₁, t₂, ht, halone⟩ := ih htargets hargs hu₁ hs₂ hrest
        refine ⟨t₁, t₂, ht, fun u hu => ?_⟩
        rw [List.filter_cons_of_pos (by simpa using htarget),
          List.filter_cons_of_pos (by simpa using htarget)]
        exact Engine.outcomes_cons.2 ⟨ending, _, _, hcall u hu, halone u hu, rfl⟩
      · -- A call on the second one is made in one of them, and leaves the first one alone.
        have hne : a.target ≠ g₁ := htarget ▸ hg.symm
        rw [hswap hs₁ hs₂] at hending
        obtain ⟨u₂, hu₂, rfl, -⟩ := outcome_eq_ok hbody hclosure₂ ha htarget hs₂
          (World.codes_seat.trans hcodes) hending
        rw [← hswap hs₁ hu₂] at hrest
        obtain ⟨t₁, t₂, ht, halone⟩ := ih htargets hargs hs₁ hu₂ hrest
        refine ⟨t₁, t₂, ht, fun u hu => ?_⟩
        rw [List.filter_cons_of_neg (by simpa using hne), List.filter_cons_of_neg (by simpa using hne)]
        exact halone u hu

end Waiting

/-! ## Generators of one code object -/

section Independent

variable {w w₁ w₂ : World} {code : CodeRef} {args args₁ args₂ : List Value}
  {closure closure₁ closure₂ : Value} {g g₁ g₂ : GeneratorRef} {n : Nat}

/-- A generator that was just made. -/
theorem solo_newGenerator (h : w.newGenerator code args closure = (g, w₁)) :
    w₁.solo g ⟨w.frames.size⟩ = ⟨⟨code, closure, some ⟨w.frames.size⟩, false⟩,
      ⟨1, some (.new code args)⟩, w.thread, w.unwinding⟩ := by
  cases h
  have hgenerator := Store.content_alloc w.generators
    ⟨code, closure, some ⟨w.frames.size⟩, false⟩ w.generators.size
  rw [if_pos rfl] at hgenerator
  have hcell := Store.get_alloc_self w.frames (some (Frame.new code args))
  exact congrArg₂ (fun G c => (⟨G, c, w.thread, w.unwinding⟩ : Solo)) hgenerator hcell

/-- Making a generator leaves the others alone. -/
theorem solo_newGenerator_ne (h : w.newGenerator code args closure = (g, w₁)) {g' : GeneratorRef}
    {r' : FrameRef} (hg : g'.index < w.generators.size) (hr : r'.index < w.frames.size) :
    w₁.solo g' r' = w.solo g' r' := by
  cases h
  have hgenerator := Store.content_alloc w.generators
    ⟨code, closure, some ⟨w.frames.size⟩, false⟩ g'.index
  rw [if_neg hg.ne] at hgenerator
  have hcell := Store.get_alloc_ne w.frames (some (Frame.new code args)) hr.ne
  exact congrArg₂ (fun G c => (⟨G, c, w.thread, w.unwinding⟩ : Solo)) hgenerator hcell

theorem newGenerator_index (h : w.newGenerator code args closure = (g, w₁)) :
    g.index = w.generators.size := by
  cases h
  rfl

theorem sizes_newGenerator (h : w.newGenerator code args closure = (g, w₁)) :
    w₁.generators.size = w.generators.size + 1 ∧ w₁.frames.size = w.frames.size + 1 := by
  cases h
  exact ⟨Store.size_alloc _ _, Store.size_alloc _ _⟩

theorem codes_newGenerator (h : w.newGenerator code args closure = (g, w₁)) :
    w₁.codes = w.codes := by
  cases h
  rfl

/-- A generator that was just made waits for its first call. -/
theorem waits_newGenerator (hcalm : w.unwinding = false) (hargs : Bare args)
    (h : w.newGenerator code args closure = (g, w₁)) :
    (w₁.solo g ⟨w.frames.size⟩).Waits code closure ⟨w.frames.size⟩ w.thread := by
  rw [solo_newGenerator h]
  exact ⟨⟨rfl, rfl, fun _ hq => (Option.some.inj hq).symm, bare_new hargs, rfl⟩, hcalm⟩

/-- Two generators of one code object, with frames of their own, that wait for their first call. -/
structure World.Pair (w : World) (code : CodeRef) (closure₁ closure₂ : Value)
    (g₁ g₂ : GeneratorRef) (r₁ r₂ : FrameRef) : Prop where
  generators_ne : g₁ ≠ g₂
  frames_ne : r₁ ≠ r₂
  made₁ : w.seat g₁ r₁ (w.solo g₁ r₁) = w
  made₂ : w.seat g₂ r₂ (w.solo g₂ r₂) = w
  waits₁ : (w.solo g₁ r₁).Waits code closure₁ r₁ w.thread
  waits₂ : (w.solo g₂ r₂).Waits code closure₂ r₂ w.thread

theorem World.Pair.symm {r₁ r₂ : FrameRef} (h : w.Pair code closure₁ closure₂ g₁ g₂ r₁ r₂) :
    w.Pair code closure₂ closure₁ g₂ g₁ r₂ r₁ :=
  ⟨h.generators_ne.symm, h.frames_ne.symm, h.made₂, h.made₁, h.waits₂, h.waits₁⟩

theorem pair_newGenerator (hcalm : w.unwinding = false) (hargs₁ : Bare args₁) (hargs₂ : Bare args₂)
    (hnew₁ : w.newGenerator code args₁ closure₁ = (g₁, w₁))
    (hnew₂ : w₁.newGenerator code args₂ closure₂ = (g₂, w₂)) :
    w₂.Pair code closure₁ closure₂ g₁ g₂ ⟨w.frames.size⟩ ⟨w₁.frames.size⟩ := by
  have hindex₁ := newGenerator_index hnew₁
  have hindex₂ := newGenerator_index hnew₂
  obtain ⟨hgenerators₁, hframes₁⟩ := sizes_newGenerator hnew₁
  obtain ⟨hgenerators₂, hframes₂⟩ := sizes_newGenerator hnew₂
  have hfirst := waits_newGenerator hcalm hargs₁ hnew₁
  have hsecond := waits_newGenerator hfirst.2 hargs₂ hnew₂
  have hthread : w₂.thread = w₁.thread := hsecond.1.thread_eq
  have hthread₁ : w₁.thread = w.thread := hfirst.1.thread_eq
  have hkept : w₂.solo g₁ ⟨w.frames.size⟩ = w₁.solo g₁ ⟨w.frames.size⟩ :=
    solo_newGenerator_ne hnew₂ (by omega) (by simp only; omega)
  exact {
    generators_ne := fun h => by
      rw [h] at hindex₁
      omega
    frames_ne := fun h => by
      have := congrArg FrameRef.index h
      simp only at this
      omega
    made₁ := World.seat_solo (by omega) (by simp only; omega)
    made₂ := World.seat_solo (by omega) (by simp only; omega)
    waits₁ := by
      rw [hkept, hthread, hthread₁]
      exact hfirst
    waits₂ := by
      rw [hthread]
      exact hsecond }

theorem World.Pair.first_alone {r₁ r₂ : FrameRef} (h : w.Pair code closure₁ closure₂ g₁ g₂ r₁ r₂)
    (hbody : RunsProgram w.codes code) (hclosure₁ : Bare closure₁) (hclosure₂ : Bare closure₂)
    {asks : List Ask} (htargets : ∀ a ∈ asks, a.target = g₁ ∨ a.target = g₂)
    (hargs : ∀ a ∈ asks, Bare a.args) {xs : List (GeneratorRef × Run.Ending Value)} {t : World}
    (hrun : (Machine.engine n).outcomes asks w = .ok xs t) :
    ∃ u, (Machine.engine n).outcomes (asks.filter (·.target = g₁)) w
        = .ok (xs.filter (·.1 = g₁)) u ∧
      u.generator g₁ = t.generator g₁ ∧ u.frame? r₁ = t.frame? r₁ := by
  have hseated : (w.seat g₂ r₂ (w.solo g₂ r₂)).seat g₁ r₁ (w.solo g₁ r₁) = w := by
    rw [h.made₂, h.made₁]
  rw [← hseated] at hrun
  obtain ⟨t₁, t₂, rfl, halone⟩ := outcomes_apart h.generators_ne h.frames_ne hbody hclosure₁
    hclosure₂ htargets hargs h.waits₁ h.waits₂ rfl hrun
  have hrun₁ := halone w rfl
  rw [h.made₁] at hrun₁
  refine ⟨_, hrun₁, ?_, ?_⟩
  · rw [World.generator_seat, World.generator_seat]
  · rw [World.frame_seat, World.frame_seat]

/-- Calls on two generators of one code object, whose arguments and closures refer to no object, nor do
the arguments of the calls: what the calls on each of the two come to, and what becomes of it and of its
frame, is what the calls on it come to when the calls on the other one are left out. -/
theorem generators_independent (hcalm : w.unwinding = false)
    (hbody : ∃ p, (w.code code).body = .program p)
    (hargs₁ : holds args₁ = 0) (hclosure₁ : holds closure₁ = 0)
    (hargs₂ : holds args₂ = 0) (hclosure₂ : holds closure₂ = 0)
    (hnew₁ : w.newGenerator code args₁ closure₁ = (g₁, w₁))
    (hnew₂ : w₁.newGenerator code args₂ closure₂ = (g₂, w₂))
    {asks : List Ask} (htargets : ∀ a ∈ asks, a.target = g₁ ∨ a.target = g₂)
    (hargs : ∀ a ∈ asks, holds a.args = 0) {xs : List (GeneratorRef × Run.Ending Value)} {t : World}
    (hrun : (Machine.engine n).outcomes asks w₂ = .ok xs t) (hg : g = g₁ ∨ g = g₂) :
    ∃ u, (Machine.engine n).outcomes (asks.filter (·.target = g)) w₂ = .ok (xs.filter (·.1 = g)) u ∧
      u.generator g = t.generator g ∧
      ∀ r, (w₂.generator g).frame = some r → u.frame? r = t.frame? r := by
  have hcodes : w₂.codes = w.codes := (codes_newGenerator hnew₂).trans (codes_newGenerator hnew₁)
  have hprogram : RunsProgram w₂.codes code := by
    rw [hcodes]
    exact hbody
  have hpair := pair_newGenerator hcalm hargs₁ hargs₂ hnew₁ hnew₂
  rcases hg with rfl | rfl
  · obtain ⟨u, hu, hgenerator, hframe⟩ :=
      hpair.first_alone hprogram hclosure₁ hclosure₂ htargets hargs hrun
    refine ⟨u, hu, hgenerator, fun r hr => ?_⟩
    rw [hpair.waits₁.1.frame_eq r hr]
    exact hframe
  · obtain ⟨u, hu, hgenerator, hframe⟩ := hpair.symm.first_alone hprogram hclosure₂ hclosure₁
      (fun a ha => (htargets a ha).symm) hargs hrun
    refine ⟨u, hu, hgenerator, fun r hr => ?_⟩
    rw [hpair.waits₂.1.frame_eq r hr]
    exact hframe

/-- A body that yields its argument, and then over and over what was sent last. -/
def echoing : Code.Program where
  instructions := [.loadFast 0, .yieldValue, .storeFast 0, .jump (-4)]
  localNames := ["x"]
  argCount := 1
  constants := []

/-- A world with the code object of that body. -/
def echoingCode : World :=
  { World.new 10 .collecting with codes := [⟨"echo", "echo.py", .program echoing⟩] }

/-- That world with a generator for the argument `1`. -/
def echoingFirst : World := (echoingCode.newGenerator ⟨0⟩ [.int 1] .none).2

/-- That world with another generator for the argument `2`. -/
def echoingBoth : World := (echoingFirst.newGenerator ⟨0⟩ [.int 2] .none).2

theorem generators_independent_echoing :
    ∃ u, (Machine.engine 20).outcomes
        [⟨⟨0⟩, .next, []⟩, ⟨⟨0⟩, .send, [.int 3]⟩, ⟨⟨0⟩, .throw, [.exceptionType .valueError]⟩]
        echoingBoth =
      .ok [(⟨0⟩, .result (.int 1)), (⟨0⟩, .result (.int 3)),
        (⟨0⟩, .raised ⟨.valueError, [], some ⟨[⟨"echo", "echo.py", 1⟩]⟩⟩)] u := by
  obtain ⟨t, hrun⟩ := Run.eq_ok_of_endingOf (x := (Machine.engine 20).outcomes
      [⟨⟨0⟩, .next, []⟩, ⟨⟨1⟩, .next, []⟩, ⟨⟨0⟩, .send, [.int 3]⟩, ⟨⟨1⟩, .close, []⟩,
        ⟨⟨0⟩, .throw, [.exceptionType .valueError]⟩, ⟨⟨1⟩, .next, []⟩] echoingBoth)
    (a := [(⟨0⟩, .result (.int 1)), (⟨1⟩, .result (.int 2)), (⟨0⟩, .result (.int 3)),
      (⟨1⟩, .result .none), (⟨0⟩, .raised ⟨.valueError, [], some ⟨[⟨"echo", "echo.py", 1⟩]⟩⟩),
      (⟨1⟩, .raised .stopIteration)]) (by decide +kernel)
  have hnew₁ : echoingCode.newGenerator ⟨0⟩ [.int 1] .none = (⟨0⟩, echoingFirst) := rfl
  have hnew₂ : echoingFirst.newGenerator ⟨0⟩ [.int 2] .none = (⟨1⟩, echoingBoth) := rfl
  obtain ⟨u, hu, -⟩ := generators_independent rfl ⟨echoing, rfl⟩ rfl rfl rfl rfl hnew₁ hnew₂
    (by decide) (by simp) hrun (Or.inl rfl)
  exact ⟨u, hu⟩

end Independent

end Resumable
