import Resumable.Proofs.Onward
import Resumable.Proofs.RestPoints

set_option autoImplicit false

/-!
# Generators come to rest

While code runs, the frame of a generator is in its cell only if it may be resumed
(`Frame.Sits`), and whatever is done to the generator by way of requests, in the end the frame is at rest
if it was at rest before (`World.After`).  There is one moment in between at which it is not: closing a
generator takes its delegate away first and leaves the exception second.  What is called in the meantime
finds the frame forsaken (`Frame.Forsaken`).

An operation on a generator may fail the frame only by being abandoned in the middle of the body.
-/

namespace Resumable

open Run (Keeps Leaves Marked Meets Sustains)

/-- What is said of an exception does not matter where none is raised. -/
theorem Run.Meets.of_silent {σ α : Type} {Q : α → σ → Prop} {E E' : Exception → σ → Prop}
    {A B : σ → Prop} {m : Run σ α} {s : σ} (h : Meets Q E A B m s) (hm : Run.Silent m) :
    Meets Q E' A B m s := by
  unfold Meets at h ⊢
  rcases hx : m s with ⟨a, t⟩ | ⟨x | _ | _, t⟩ <;> rw [hx] at h
  case error.raised => exact absurd hx (hm s x t)
  all_goals exact h

theorem Run.Meets.congr {σ α : Type} {Q : α → σ → Prop} {E : Exception → σ → Prop} {A B : σ → Prop}
    {m m' : Run σ α} {s s' : σ} (h : Meets Q E A B m' s') (heq : m s = m' s') : Meets Q E A B m s := by
  unfold Meets at h ⊢
  rwa [heq]

/-! ## Frames in their cells -/

namespace Frame

variable {p : Code.Program} {f b : Frame} {point : RestPoint}

/-- A frame at an instruction that delegates, without a delegate: it has been taken away. -/
def Forsaken (p : Code.Program) (f : Frame) : Prop :=
  f.delegate = none ∧ ∃ n : Nat, 0 < n ∧ f.position = n ∧ p.instructions[n]? = some .yieldFrom

/-- A frame of a program that is in its cell.  No value waits in it.  It is at rest, or its delegate has
been taken away. -/
structure Sits (p : Code.Program) (f : Frame) : Prop where
  input : f.input = none
  prepared : f.Prepared p
  point : (∃ point, f.RestsAt p point) ∨ f.Forsaken p

/-- Unless an exception waits in the frame, it is at rest. -/
def Rests (p : Code.Program) (f : Frame) : Prop := f.pending = none → ∃ point, f.RestsAt p point

/-- The frame is the same as another one, except for an exception that waits in it. -/
def Alike (b f : Frame) : Prop := { b with pending := none } = { f with pending := none }

/-- A frame that has not started has not been touched. -/
def Unbegun (b f : Frame) : Prop := b.position = notStarted → b.Alike f

theorem RestsAt.congr (h : f.RestsAt p point) (hposition : b.position = f.position)
    (hstack : b.stack = f.stack) (hblocks : b.blocks = f.blocks) (hdelegate : b.delegate = f.delegate)
    (hresult : b.delegationResult = f.delegationResult) : b.RestsAt p point := by
  cases point <;> simpa only [RestsAt, hposition, hstack, hblocks, hdelegate, hresult] using h

theorem Prepared.removeDelegate (h : f.Prepared p) : f.removeDelegate.1.Prepared p :=
  ⟨h.start, fun hsome => absurd rfl hsome⟩

/-- A frame that has not started has no delegate. -/
theorem Prepared.unbegun_removeDelegate (h : f.Prepared p) : f.removeDelegate.1.Unbegun f := by
  intro hstart
  have hdelegate : f.delegate = none := by
    by_contra hdelegate
    obtain ⟨n, hn, hposition, _⟩ := h.delegate hdelegate
    have hstart : f.position = notStarted := hstart
    rw [hposition, notStarted] at hstart
    omega
  show { f with delegate := none, pending := none } = { f with pending := none }
  rw [← hdelegate]

theorem Forsaken.congr (h : f.Forsaken p) (hposition : b.position = f.position)
    (hdelegate : b.delegate = f.delegate) : b.Forsaken p := by
  simpa only [Forsaken, hposition, hdelegate] using h

theorem Sits.removeDelegate (h : f.Sits p) : f.removeDelegate.1.Sits p := by
  refine ⟨h.input, h.prepared.removeDelegate, ?_⟩
  rcases h.point with ⟨point, hpoint⟩ | hforsaken
  · by_cases hdelegating : point = .delegating
    · subst hdelegating
      obtain ⟨n, hn, hposition, hi, _⟩ := hpoint
      exact Or.inr ⟨rfl, n, hn, hposition, hi⟩
    · exact Or.inl ⟨point, hpoint.congr rfl rfl rfl
        (hpoint.delegate_eq_none hdelegating).symm rfl⟩
  · exact Or.inr (hforsaken.congr rfl hforsaken.1.symm)

/-- It does not matter whether an exception waits in the frame. -/
theorem Sits.setPending (h : f.Sits p) (pending : Option Exception) :
    { f with pending := pending }.Sits p where
  input := h.input
  prepared := ⟨h.prepared.start, fun hdelegate =>
    (h.prepared.delegate hdelegate).congr rfl rfl rfl rfl rfl⟩
  point := h.point.imp (fun ⟨point, hpoint⟩ => ⟨point, hpoint.congr rfl rfl rfl rfl rfl⟩)
    fun hforsaken => hforsaken.congr rfl rfl

theorem rests_replacePending (f : Frame) (x : Exception) : (f.replacePending x).1.Rests p := nofun

/-- A frame whose delegate ran out goes on after the instruction that delegates. -/
theorem RestsAt.finishDelegation (h : f.RestsAt p .delegating) (hsits : f.Sits p) (v : Value) :
    (f.finishDelegation v).Sits p ∧ (f.finishDelegation v).Rests p ∧
      (f.finishDelegation v).position ≠ notStarted := by
  obtain ⟨n, hn, hposition, hi, _⟩ := h
  have hmoved : (f.finishDelegation v).position = n + 1 := congrArg (· + 1) hposition
  have hrests : (f.finishDelegation v).RestsAt p .delegated := ⟨n, hmoved, hi, rfl, rfl⟩
  have hfirst : p.instructions[0]? ≠ some .yieldFrom := by
    rcases hsits.prepared.start with hfinished | ⟨hstart, _⟩ | ⟨_, hfirst⟩
    · rw [hposition, finished] at hfinished
      omega
    · rw [hposition, notStarted] at hstart
      omega
    · exact hfirst
  refine ⟨⟨hsits.input, ⟨Or.inr (Or.inr ⟨?_, hfirst⟩), fun hsome => absurd rfl hsome⟩,
    Or.inl ⟨_, hrests⟩⟩, fun _ => ⟨_, hrests⟩, ?_⟩
  · rw [hmoved]
    omega
  · rw [hmoved, notStarted]
    omega

end Frame

/-! ## Worlds that come after a world -/

variable {α : Type} {g i : GeneratorRef} {r : FrameRef} {w t u : World} {e : Engine}

namespace World

/-- The frame of a generator is nobody else's, and while it is in its cell it may be resumed. -/
structure Sits (w : World) (g : GeneratorRef) : Prop where
  made : ∀ i r, (w.generator i).frame = some r → r.index < w.frames.size
  alone : ∀ i r, (w.generator g).frame = some r → (w.generator i).frame = some r → i = g
  frame : ∀ p, w.bodyOf g = .program p → ∀ r f, (w.generator g).frame = some r →
    w.frame? r = some f → f.Sits p

/-- The frame of a generator is at rest while it is in its cell. -/
def Calm (w : World) (g : GeneratorRef) : Prop :=
  ∀ p, w.bodyOf g = .program p → ∀ r f, (w.generator g).frame = some r → w.frame? r = some f →
    f.Rests p

/-- A world that another one may lead to, as far as a generator is concerned, if only the run goes on long
enough. -/
structure Follows (g : GeneratorRef) (w t : World) : Prop where
  sits : t.Sits g
  count : w.generators.size ≤ t.generators.size
  body : t.bodyOf g = w.bodyOf g
  slot : ∀ r, (t.generator g).frame = some r → (w.generator g).frame = some r
  fresh : ∀ p, w.bodyOf g = .program p → ∀ r f, (t.generator g).frame = some r → t.frame? r = some f →
    f.position = Frame.notStarted → ∃ b, w.frame? r = some b ∧ f.Alike b

/-- A world that a computation leads to.  It may be asked that a frame that is at rest is at rest again, and
that the frame of a generator that is running is not touched. -/
structure After (g : GeneratorRef) (calms still : Prop) (w t : World) : Prop extends Follows g w t where
  idle : (w.generator g).running = false → (t.generator g).running = false
  calm : calms → w.Calm g → t.Calm g
  still : still → (w.generator g).running = true → ∀ r, (t.generator g).frame = some r →
    (t.generator g).running = true ∧ ∀ f, t.frame? r = some f → w.frame? r = some f

variable {ρ ρ' σ σ' : Prop}

theorem Follows.trans (h : Follows g w t) (h' : Follows g t u) : Follows g w u where
  sits := h'.sits
  count := h.count.trans h'.count
  body := h'.body.trans h.body
  slot r hr := h.slot r (h'.slot r hr)
  fresh p hp r f hr hf hstart := by
    obtain ⟨b, hb, halike⟩ := h'.fresh p (h.body.trans hp) r f hr hf hstart
    have hposition : b.position = Frame.notStarted :=
      (congrArg Frame.position halike).symm.trans hstart
    obtain ⟨d, hd, halike'⟩ := h.fresh p hp r b (h'.slot r hr) hb hposition
    exact ⟨d, hd, halike.trans halike'⟩

theorem After.mono (h : After g ρ σ w t) (hρ : ρ' → ρ) (hσ : σ' → σ) : After g ρ' σ' w t where
  toFollows := h.toFollows
  idle := h.idle
  calm hr := h.calm (hρ hr)
  still hs := h.still (hσ hs)

theorem After.trans (h : After g ρ σ w t) (h' : After g ρ σ t u) : After g ρ σ w u where
  toFollows := h.toFollows.trans h'.toFollows
  idle hidle := h'.idle (h.idle hidle)
  calm hρ hw := h'.calm hρ (h.calm hρ hw)
  still hσ hrunning r hr := by
    obtain ⟨ht, hbefore⟩ := h.still hσ hrunning r (h'.slot r hr)
    obtain ⟨hu, hsame⟩ := h'.still hσ ht r hr
    exact ⟨hu, fun f hf => hbefore f (hsame f hf)⟩

/-- What is done next changes nothing for the worse. -/
theorem After.next (h : After g ρ σ w t) (h' : After g True True t u) : After g ρ σ w u :=
  h.trans (h'.mono (fun _ => True.intro) fun _ => True.intro)

section Changes

variable (h : w.Sits g) (hbody : t.bodyOf g = w.bodyOf g) (hsize : w.frames.size ≤ t.frames.size)
  (hcount : w.generators.size ≤ t.generators.size)
  (hslot : ∀ i r, (t.generator i).frame = some r → (w.generator i).frame = some r)
  (hframe : ∀ r f, (t.generator g).frame = some r → t.frame? r = some f → w.frame? r = some f)

include h hbody hsize hcount hslot hframe

/-- A change after which no generator has another frame, and the frames that are in their cells were there
before. -/
theorem Sits.follows : Follows g w t where
  sits := by
    refine ⟨fun i r hr => (h.made i r (hslot i r hr)).trans_le hsize, fun i r hg hi =>
      h.alone i r (hslot g r hg) (hslot i r hi), fun p hp r f hr hf => ?_⟩
    exact h.frame p (hbody.symm.trans hp) r f (hslot g r hr) (hframe r f hr hf)
  count := hcount
  body := hbody
  slot r hr := hslot g r hr
  fresh p hp r f hr hf _ := ⟨f, hframe r f hr hf, rfl⟩

theorem Sits.after
    (hrunning : ∀ r, (t.generator g).frame = some r → (t.generator g).running = (w.generator g).running)
    (hidle : (w.generator g).running = false → (t.generator g).running = false) :
    After g True True w t where
  toFollows := h.follows hbody hsize hcount hslot hframe
  idle := hidle
  calm _ hw p hp r f hr hf := hw p (hbody.symm.trans hp) r f (hslot g r hr) (hframe r f hr hf)
  still _ hrun r hr := ⟨(hrunning r hr).trans hrun, fun f hf => hframe r f hr hf⟩

end Changes

theorem Sits.after_self (h : w.Sits g) : After g True True w w :=
  h.after rfl le_rfl le_rfl (fun _ _ hr => hr) (fun _ _ _ hf => hf) (fun _ _ => rfl) id

theorem bodyOf_congr (hcodes : t.codes = w.codes) (hcode : (t.generator g).code = (w.generator g).code) :
    t.bodyOf g = w.bodyOf g := by
  unfold bodyOf code
  rw [hcodes, hcode]

theorem Sits.quiet (h : w.Sits g) (hq : w.Quiet t) : After g True True w t := by
  refine h.after (bodyOf_congr hq.codes (congrArg Generator.code (hq.generator g))) hq.size hq.count
    (fun i r hr => ?_) (fun r f _ hf => (hq.frame r).symm.trans hf)
    (fun _ _ => congrArg Generator.running (hq.generator g)) fun hidle => ?_
  · exact (congrArg Generator.frame (hq.generator i)).symm.trans hr
  · exact (congrArg Generator.running (hq.generator g)).trans hidle

/-- A generator lets go of its frame. -/
theorem Sits.frameless (h : w.Sits g) {x : Generator} (hcode : x.code = (w.generator i).code)
    (hrunning : x.running = (w.generator i).running) (hslot : x.frame = none) :
    After g True True w (w.setGenerator i x) := by
  have hgenerator : ∀ j, (w.setGenerator i x).generator j = if i = j then x else w.generator j :=
    fun j => generator_setGenerator w i j x
  refine h.after ?_ le_rfl (Store.size_set_le _ _ _) (fun j s hs => ?_) (fun s f _ hf => ?_) (fun s hs => ?_) fun hidle => ?_
  · refine bodyOf_congr rfl ?_
    rw [hgenerator]
    split
    · next heq => rw [hcode, heq]
    · rfl
  · rw [hgenerator] at hs
    split at hs
    · rw [hslot] at hs
      cases hs
    · exact hs
  · simpa using hf
  · rw [hgenerator]
    split
    · next heq => rw [hrunning, heq]
    · rfl
  · rw [hgenerator]
    split
    · next heq => rw [hrunning, heq, hidle]
    · exact hidle

/-- A frame is taken out of its cell. -/
theorem Sits.takeFrame (h : w.Sits g) (r : FrameRef) : After g True True w (w.setFrame r none) := by
  refine h.after rfl (Store.size_set_le _ _ _) le_rfl (fun i s hs => by simpa using hs) (fun s f _ hf => ?_)
    (fun _ _ => by simp) fun hidle => by simpa using hidle
  rw [frame_setFrame] at hf
  split at hf
  · cases hf
  · exact hf

/-- The cell of a frame that is not that of the generator. -/
theorem Sits.setFrame (h : w.Sits g) (hr : (w.generator g).frame ≠ some r) (x : Option Frame) :
    After g True True w (w.setFrame r x) := by
  refine h.after rfl (Store.size_set_le _ _ _) le_rfl (fun i s hs => by simpa using hs) (fun s f hs hf => ?_)
    (fun _ _ => by simp) fun hidle => by simpa using hidle
  rwa [frame_setFrame, if_neg (fun heq => hr (by simpa [heq] using hs))] at hf

theorem frame_of_setRunning (w : World) (i j : GeneratorRef) (b : Bool) :
    ((w.setRunning i b).generator j).frame = (w.generator j).frame := by
  unfold setRunning
  rw [generator_setGenerator]
  split
  · next heq => rw [heq]
  · rfl

theorem bodyOf_setRunning (w : World) (i : GeneratorRef) (b : Bool) :
    (w.setRunning i b).bodyOf g = w.bodyOf g := by
  refine bodyOf_congr rfl ?_
  unfold setRunning
  rw [generator_setGenerator]
  split
  · next heq => rw [heq]
  · rfl

/-- A generator is marked as running, or as not running. -/
theorem Sits.setRunning (h : w.Sits g) (i : GeneratorRef) (b : Bool) : Follows g w (w.setRunning i b) :=
  h.follows (w.bodyOf_setRunning i b) le_rfl (Store.size_set_le _ _ _) (fun j _ hs => (w.frame_of_setRunning i j b).symm.trans hs)
    fun _ _ _ hf => hf

theorem Calm.setRunning (h : w.Calm g) (i : GeneratorRef) (b : Bool) : (w.setRunning i b).Calm g :=
  fun p hp r f hr hf => h p ((w.bodyOf_setRunning i b).symm.trans hp) r f
    ((w.frame_of_setRunning i g b).symm.trans hr) hf

section PutFrame

variable {f b : Frame} (hb : w.frame? r = some b)
  (hf : ∀ p, w.bodyOf g = .program p → (w.generator g).frame = some r → f.Sits p ∧ f.Unbegun b)

include hb hf

/-- A frame is put back into its cell. -/
theorem Follows.putFrame (h : Follows g (w.setFrame r none) t) : Follows g w (t.setFrame r (some f)) where
  sits := by
    refine ⟨fun j s hs => ?_, fun j s hs hj => ?_, fun p hp s d hs hd => ?_⟩
    · exact (h.sits.made j s (by simpa using hs)).trans_le (Store.size_set_le _ _ _)
    · exact h.sits.alone j s (by simpa using hs) (by simpa using hj)
    · have hs : (t.generator g).frame = some s := by simpa using hs
      rw [frame_setFrame] at hd
      split at hd
      · next heq =>
        cases hd
        subst heq
        exact (hf p (h.body.symm.trans hp) (by simpa using h.slot r hs)).1
      · exact h.sits.frame p hp s d hs hd
  count := h.count
  body := h.body
  slot s hs := by simpa using h.slot s (by simpa using hs)
  fresh p hp s d hs hd hstart := by
    have hs : (t.generator g).frame = some s := by simpa using hs
    rw [frame_setFrame] at hd
    split at hd
    · next heq =>
      cases hd
      subst heq
      exact ⟨b, hb, (hf p hp (by simpa using h.slot r hs)).2 hstart⟩
    · next hne =>
      obtain ⟨k, hk, halike⟩ := h.fresh p hp s d hs hd hstart
      rw [frame_setFrame, if_neg hne] at hk
      exact ⟨k, hk, halike⟩

theorem After.putFrame (h : After g True True (w.setFrame r none) t)
    (hrests : ρ → ∀ p, w.bodyOf g = .program p → (w.generator g).frame = some r → f.Rests p)
    (hstill : σ → (w.generator g).frame ≠ some r) : After g ρ σ w (t.setFrame r (some f)) where
  toFollows := h.toFollows.putFrame hb hf
  idle hidle := by simpa using h.idle (by simpa using hidle)
  calm hρ hw p hp s d hs hd := by
    have hs : (t.generator g).frame = some s := by simpa using hs
    have htaken : (w.setFrame r none).Calm g := by
      intro p hp s d hs hd
      rw [frame_setFrame] at hd
      split at hd
      · cases hd
      · exact hw p hp s d (by simpa using hs) hd
    rw [frame_setFrame] at hd
    split at hd
    · next heq =>
      cases hd
      subst heq
      exact hrests hρ p (h.body.symm.trans hp) (by simpa using h.slot r hs)
    · exact h.calm True.intro htaken p hp s d hs hd
  still hσ hrunning s hs := by
    have hs : (t.generator g).frame = some s := by simpa using hs
    have hne : r ≠ s := by
      rintro rfl
      exact hstill hσ (by simpa using h.slot r hs)
    obtain ⟨hrun, hsame⟩ := h.still True.intro (by simpa using hrunning) s hs
    refine ⟨by simpa using hrun, fun d hd => ?_⟩
    rw [frame_setFrame, if_neg hne] at hd
    have hd := hsame d hd
    rwa [frame_setFrame, if_neg hne] at hd

end PutFrame

end World

/-! ## Engines -/

/-- A computation is being abandoned. -/
def World.Unwinding (w : World) : Prop := w.unwinding = true

/-- What is left of a world where the run is broken off. -/
def World.Broken (g : GeneratorRef) (w t : World) : Prop := World.Follows g w t ∨ t.Unwinding

/-- The requests bring the frame of a generator to rest, and none is made while a computation is being
abandoned. -/
structure Engine.Guards (e : Engine) (g : GeneratorRef) : Prop where
  lenient : e.Lenient
  requests : ∀ {w : World}, w.Sits g → ∀ request,
    Meets (fun _ => World.After g True True w) (fun _ => World.After g True True w) (fun _ => False)
      (World.Broken g w) (e.perform request) w
  unwinding : ∀ {w : World}, w.Unwinding → ∀ request,
    Meets (fun _ _ => False) (fun _ _ => False) (fun _ => False) World.Unwinding (e.perform request) w

namespace Engine.Guards

open World (After Broken Unwinding)

variable (he : e.Guards g) {ρ ρ' σ σ' : Prop}

include he

/-- What is kept where a world comes after another one is kept by requests. -/
theorem upholds {X B : World → Prop} (hsits : ∀ t, X t → t.Sits g)
    (hX : ∀ t u, X t → After g True True t u → X u) (hB : ∀ t u, X t → World.Follows g t u → B u)
    (hU : ∀ u, Unwinding u → B u) : e.Upholds X Unwinding B where
  quiet {b t u} hq ht := ⟨hX t u ht.1 ((hsits t ht.1).quiet hq), fun hb => hq.unwinding (ht.2 hb)⟩
  marks _ _ := rfl
  spent t ht := hB t t ht (hsits t ht).after_self.toFollows
  requests request b t ht := by
    cases b with
    | true =>
        exact (he.unwinding (ht.2 rfl) request).mono (fun _ _ h => h.elim) (fun _ _ h => h.elim)
          (fun _ h => h.elim) hU
    | false =>
        exact (he.requests (hsits t ht.1) request).mono (fun _ u hu => .unmarked (hX t u ht.1 hu))
          (fun _ u hu => .unmarked (hX t u ht.1 hu)) (fun _ h => h.elim)
          fun u hu => hu.elim (hB t u ht.1) (hU u)

theorem after (w : World) (ρ σ : Prop) : e.Upholds (After g ρ σ w) Unwinding (Broken g w) :=
  he.upholds (fun _ ht => ht.sits) (fun _ _ ht hu => ht.next hu)
    (fun _ _ ht hu => Or.inl (ht.toFollows.trans hu)) fun _ hu => Or.inr hu

/-- Cleaning up while a computation is being abandoned. -/
theorem abandoning (w : World) : e.Upholds Unwinding Unwinding (Broken g w) where
  quiet hq ht := ⟨hq.unwinding ht.1, fun hb => hq.unwinding (ht.2 hb)⟩
  marks _ _ := rfl
  spent _ ht := Or.inr ht
  requests request _ _ ht := (he.unwinding ht.1 request).mono (fun _ _ h => h.elim) (fun _ _ h => h.elim)
    (fun _ h => h.elim) fun _ h => Or.inr h

end Engine.Guards

/-! ## Work on frames -/

section Operations

open World (After Broken Unwinding)

variable (he : e.Guards g) {ρ σ : Prop}

/-- Where a frame is looked for and is not in its cell, nothing happens. -/
theorem World.Sits.abort (h : t.Sits g) {X : α → World → Prop} {E : Exception → World → Prop} :
    Meets X E (Marked (After g σ σ t) Unwinding true) (Broken g t) (World.abort : Run World α) t :=
  ⟨(h.quiet t.quiet_setUnwinding).mono (fun _ => True.intro) fun _ => True.intro, fun _ => rfl⟩

section WithFrame

variable {m : Run (Frame × World) α} {Q : Frame → α → Frame → Prop} {A : Frame → Frame → Prop}
  (ht : t.Sits g)
  (hm : Sustains (After g True True (t.setFrame r none)) Unwinding (Broken g (t.setFrame r none)) m)
  (hprivate : ∀ f, Leaves (Q f) (fun _ => False) (A f) m f)
  (hQ : ∀ p f a b, t.bodyOf g = .program p → (t.generator g).frame = some r → t.frame? r = some f →
    f.Sits p → Q f a b → b.Sits p ∧ b.Unbegun f ∧ (ρ → b.Rests p))
  (hA : ∀ p f b, t.bodyOf g = .program p → (t.generator g).frame = some r → t.frame? r = some f →
    f.Sits p → A f b → b.Sits p ∧ b.Unbegun f)
  (hσ : σ → (t.generator g).frame ≠ some r)

include ht hm hprivate hQ hA hσ

/-- Work on a frame that raises nothing.  It is known what becomes of the frame. -/
theorem withFrame_after :
    Meets (fun _ u => After g ρ σ t u ∧ (ρ → (t.generator g).frame = some r → u.Calm g)) (fun _ _ => False)
      (Marked (After g σ σ t) Unwinding true) (Broken g t) (World.withFrame r m) t := by
  cases hf : t.frame? r with
  | none =>
      have hvacant : World.withFrame r m t = World.abort t := by
        unfold World.withFrame
        rw [hf]
      exact ht.abort.congr hvacant
  | some f =>
      have hsits : ∀ p, t.bodyOf g = .program p → (t.generator g).frame = some r → f.Sits p :=
        fun p hp hr => ht.frame p hp r f hr hf
      have htaken := ht.takeFrame r
      have hboth := (hm false (f, t.setFrame r none) (.unmarked htaken.sits.after_self)).and
        (hprivate f (t.setFrame r none))
      unfold Meets at hboth ⊢
      unfold World.withFrame
      rw [hf]
      simp only [Run.withPrivate]
      generalize m (f, t.setFrame r none) = x at hboth
      rcases x with ⟨a, b, s⟩ | ⟨_ | _ | _, b, s⟩
      case ok =>
        obtain ⟨⟨hs, _⟩, hb⟩ := hboth
        have hkept := fun p hp hr => hQ p f a b hp hr hf (hsits p hp hr) hb
        have hback : After g ρ σ t (s.setFrame r (some b)) :=
          hs.putFrame hf (fun p hp hr => ⟨(hkept p hp hr).1, (hkept p hp hr).2.1⟩)
            (fun hρ p hp hr => (hkept p hp hr).2.2 hρ) hσ
        refine ⟨hback, fun hρ hr p hp k d hk hd => ?_⟩
        obtain rfl : r = k := Option.some.inj (hr.symm.trans (hback.slot k hk))
        have hd : (s.setFrame r (some b)).frame? r = some d := hd
        rw [World.frame_setFrame, if_pos rfl] at hd
        cases hd
        exact (hkept p (hback.body.symm.trans hp) hr).2.2 hρ
      case error.raised => exact hboth.2
      case error.aborted =>
        obtain ⟨⟨hs, hmarked⟩, hb⟩ := hboth
        exact ⟨hs.putFrame hf (fun p hp hr => hA p f b hp hr hf (hsits p hp hr) hb)
          (fun hne p _ hr => absurd hr (hσ hne)) hσ, hmarked⟩
      case error.outOfFuel => exact hboth.1.imp_left htaken.toFollows.trans

include he

/-- The same for work that puts values into the frame. -/
theorem withFrameFor_after (vs : List Value) :
    Meets (fun _ u => After g ρ σ t u ∧ (ρ → (t.generator g).frame = some r → u.Calm g)) (fun _ _ => False)
      (Marked (After g σ σ t) Unwinding true) (Broken g t) (e.withFrameFor vs r m) t := by
  cases hf : t.frame? r with
  | none =>
      have hvacant : World.readFrame r t = World.abort t := by
        unfold World.readFrame
        rw [hf]
      refine Meets.bind (Q := fun _ _ => False) ?_ fun _ _ h => h.elim
      refine Meets.onInterruption (E := fun _ _ => False) (A := Marked (After g σ σ t) Unwinding true) ?_
        (fun _ _ h => h.elim) fun u hu => ?_
      · exact ht.abort.congr hvacant
      · exact ((he.after t σ σ).releaseAll vs true u hu).of_silent
          (Engine.releaseObjects_silent he.lenient _)
  | some f =>
      have hread : World.readFrame r t = .ok f t := by
        unfold World.readFrame
        rw [hf]
      exact (withFrame_after ht hm hprivate hQ hA hσ).congr (Run.bind_ok (Run.onInterruption_ok hread))

end WithFrame

include he

/-- A change of a frame that is out of its cell. -/
theorem replace_private (c : Frame → Frame × List Value) {E : Frame → Prop} (f : Frame) :
    Leaves (fun _ b => b = (c f).1) E (· = (c f).1) (e.replace c) f := fun w =>
  Leaves.shared_silent (Q := fun _ b => b = (c f).1) (E := E) (A := (· = (c f).1)) (b := (c f).1)
    (m := e.releaseAll (c f).2) (Engine.releaseObjects_silent he.lenient _) (fun _ => rfl) rfl w

/-- Forgetting something does nothing to a frame that is out of its cell. -/
theorem release_private (os : List Object) {P E : Frame → Prop} {f : Frame} (h : P f) :
    Leaves (fun _ => P) E P (Run.shared (e.releaseObjects os) : Run (Frame × World) Unit) f :=
  Leaves.shared_silent (Engine.releaseObjects_silent he.lenient _) (fun _ => h) h

omit he in
/-- Moving on from where a frame is. -/
theorem stepOn_private (f : Frame) :
    Leaves (fun _ b => b = f.stepOn) (fun _ => False) (· = f) World.stepOn f := by
  intro w
  show Meets _ _ _ _ ((if f.hasNext = true then _ else _ : Run (Frame × World) Unit)) (f, w)
  split
  · exact rfl
  · exact rfl

/-- What telling a frame that its delegate ran out does to it. -/
theorem finishDelegation_private (v : Value) (f : Frame) :
    Leaves (fun _ b => b = f.finishDelegation v) (fun _ => False)
      (fun b => b = f.removeDelegate.1 ∨ b = f.finishDelegation v) (do
        Run.onInterruption
          (do
            e.replace Frame.removeDelegate
            World.stepOn)
          (Run.shared (e.release v))
        e.replace (·.replaceDelegationResult v) : Run (Frame × World) Unit) f := by
  let A : Frame → Prop := fun b => b = f.removeDelegate.1 ∨ b = f.finishDelegation v
  have hmoved : Leaves (fun _ b => b = f.removeDelegate.1.stepOn) (fun _ => False) A
      (do e.replace Frame.removeDelegate; World.stepOn : Run (Frame × World) Unit) f := by
    refine ((replace_private he Frame.removeDelegate f).mono (fun _ _ hb => hb) (fun _ hb => hb)
      fun _ hb => Or.inl hb).bind ?_
    rintro _ _ rfl
    exact (stepOn_private _).mono (fun _ _ hb => hb) (fun _ hb => hb) fun _ hb => Or.inl hb
  refine (hmoved.onInterruption (fun _ hb => hb.elim) fun _ hb => release_private he v.objects hb).bind ?_
  rintro _ _ rfl
  exact (replace_private he (·.replaceDelegationResult v) _).mono (fun _ _ hb => hb) (fun _ hb => hb)
    fun _ hb => Or.inr hb

/-- The delegate of a frame is taken away: it may be forsaken then. -/
theorem dropDelegate_after (ht : t.Sits g) (hσ : σ → (t.generator g).frame ≠ some r) :
    Meets (fun _ => After g σ σ t) (fun _ _ => False) (Marked (After g σ σ t) Unwinding true) (Broken g t)
      (e.dropDelegate r) t := by
  refine (withFrame_after (ρ := σ) (Q := fun f _ b => b = f.removeDelegate.1) (A := fun f b => b = f.removeDelegate.1)
    ht ((he.after _ True True).replace _) (fun f => replace_private he Frame.removeDelegate f) ?_ ?_ hσ).imp
    fun _ _ h => h.1
  · rintro p f _ _ hp hr hf hsits rfl
    exact ⟨hsits.removeDelegate, hsits.prepared.unbegun_removeDelegate, fun hne => absurd hr (hσ hne)⟩
  · rintro p f _ hp hr hf hsits rfl
    exact ⟨hsits.removeDelegate, hsits.prepared.unbegun_removeDelegate⟩

/-- An exception is left in a frame, which is at rest then. -/
theorem leavePending_after (ht : t.Sits g) (hσ : σ → (t.generator g).frame ≠ some r) (x : Exception) :
    Meets (fun _ u => After g True σ t u ∧ ((t.generator g).frame = some r → u.Calm g)) (fun _ _ => False)
      (Marked (After g σ σ t) Unwinding true) (Broken g t) (e.leavePending r x) t := by
  refine (withFrameFor_after he (ρ := True) (Q := fun f _ b => b = (f.replacePending x).1)
    (A := fun f b => b = (f.replacePending x).1) ht ((he.after _ True True).replace _)
    (fun f => replace_private he (·.replacePending x) f) ?_ ?_ hσ x.args).imp
    fun _ _ h => ⟨h.1, h.2 True.intro⟩
  · rintro p f _ _ hp hr hf hsits rfl
    exact ⟨hsits.setPending (some x), fun _ => rfl, fun _ => f.rests_replacePending x⟩
  · rintro p f _ hp hr hf hsits rfl
    exact ⟨hsits.setPending (some x), fun _ => rfl⟩

/-- A frame that delegates is told that its delegate ran out. -/
theorem finishDelegation_after (ht : t.Sits g) (hσ : σ → (t.generator g).frame ≠ some r) (v : Value)
    (hdelegating : ∀ p, t.bodyOf g = .program p → (t.generator g).frame = some r →
      ∀ f, t.frame? r = some f → f.RestsAt p .delegating) :
    Meets (fun _ => After g True σ t) (fun _ _ => False) (Marked (After g σ σ t) Unwinding true)
      (Broken g t) (e.finishDelegation r v) t := by
  have h := he.after (t.setFrame r none) True True
  have hkept : Sustains (After g True True (t.setFrame r none)) Unwinding (Broken g (t.setFrame r none)) (do
      Run.onInterruption
        (do
          e.replace Frame.removeDelegate
          World.stepOn)
        (Run.shared (e.release v))
      e.replace (·.replaceDelegationResult v) : Run (Frame × World) Unit) :=
    (((h.replace _).bind fun _ => h.stepOn).onInterruption (h.release v).beside).bind fun _ => h.replace _
  refine (withFrameFor_after he (ρ := True) ht hkept (finishDelegation_private he v) ?_ ?_ hσ [v]).imp
    fun _ _ h => h.1
  · rintro p f _ _ hp hr hf hsits rfl
    obtain ⟨hsits', hrests, hstarted⟩ := (hdelegating p hp hr f hf).finishDelegation hsits v
    exact ⟨hsits', fun hstart => absurd hstart hstarted, fun _ => hrests⟩
  · rintro p f b hp hr hf hsits (rfl | rfl)
    · exact ⟨hsits.removeDelegate, hsits.prepared.unbegun_removeDelegate⟩
    · obtain ⟨hsits', _, hstarted⟩ := (hdelegating p hp hr f hf).finishDelegation hsits v
      exact ⟨hsits', fun hstart => absurd hstart hstarted⟩

end Operations

end Resumable
