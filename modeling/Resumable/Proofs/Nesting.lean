import Resumable.Proofs.Zone

set_option autoImplicit false

/-!
# The zones of nested computations

Before a computation starts another one it may take a frame out of its cell, mark a generator as
running, take a level, or turn to a generator that has lost its last owner.  Each of these leads to
a zone that says more.  For each there is a lemma on the worlds (going in and coming out), and one
that the zone stays valid.
-/

namespace Resumable

namespace Zone

variable {Z Z' : Zone} {F G : Bag} {w w' t t' : World} {o : Object} {g : GeneratorRef}
  {r : FrameRef}

/-- A zone that says no less about what does not change, and in which the worlds do not differ any
further. -/
structure Extends (Z Z' : Zone) : Prop where
  hidden : Z'.hidden = Z.hidden
  holders : Z.left = Z.right → Z'.left = Z'.right
  thread : Z.leftThread = Z.rightThread → Z'.leftThread = Z'.rightThread
  fixed : ∀ g x, Z.fixed g = some x → Z'.fixed g = some x
  law : Z'.law = Z.law
  cells : ∀ r c, Z.cells r = some c → Z'.cells r = some c
  level : Z.leftThread.depth ≤ Z.leftThread.limit → Z'.leftThread.depth ≤ Z'.leftThread.limit

/-- A property of zones that holds on in the zones of nested computations. -/
def Inherited (C : Zone → Prop) : Prop := ∀ Z Z', C Z → Z.Extends Z' → C Z'

/-- What a zone of a sort has to satisfy for a computation to go on in it. -/
structure Fit (C : Zone → Prop) (Z : Zone) : Prop where
  inherited : Inherited C
  property : C Z
  valid : Z.Valid
  room : Z.Room

theorem Fit.extend {C : Zone → Prop} (h : Fit C Z) (hext : Z.Extends Z')
    (hvalid : Z'.Valid) (hroom : Z'.Room) : Fit C Z' :=
  ⟨h.inherited, h.inherited Z Z' h.property hext, hvalid, hroom⟩

/-! ## A cell that does not change -/

/-- The zone in which, moreover, the cell of a frame does not change. -/
def pin (Z : Zone) (r : FrameRef) (c : Option Frame) : Zone :=
  { Z with cells := Function.update Z.cells r (some c) }

theorem Linked.pin (h : Z.Linked F w w') {c : Option Frame} (hc : w.frame? r = c) :
    (Z.pin r c).Linked F w w' where
  pinned := { h.pinned with
    cells := fun s d hs => by
      by_cases heq : s = r
      · subst heq
        have hcd : c = d := by simpa [Zone.pin] using hs
        rw [hc, hcd]
      · exact h.pinned.cells s d (by simpa [Zone.pin, heq] using hs) }
  alike := { h.alike with }
  accounted := { h.accounted with
    seated := fun o ho hone => by
      have hold := h.accounted.seated o ho hone
      cases o with
      | frame s =>
          intro hs
          by_cases heq : s = r
          · subst heq
            simp [Zone.pin, ← hc, hs]
          · simpa [Zone.pin, heq] using hold hs
      | iterator s => exact hold
      | _ => trivial }
  tame := h.tame

/-- The cell of a frame may be this one. -/
def Allows (Z : Zone) (r : FrameRef) (c : Option Frame) : Prop := ∀ d, Z.cells r = some d → d = c

theorem allows_of_free (hfree : Z.cells r = none) (c : Option Frame) : Z.Allows r c := by
  intro d hd
  rw [hfree] at hd
  cases hd

theorem Linked.allows (h : Z.Linked F w w') (r : FrameRef) : Z.Allows r (w.frame? r) :=
  fun d hd => (h.pinned.cells r d hd).symm

theorem Linked.unpin {c : Option Frame} (h : (Z.pin r c).Linked F t t') (hcell : Z.Allows r c)
    (hvacant : c = none → Z.cells r = some none) : Z.Linked F t t' where
  pinned := { h.pinned with
    cells := fun s d hs => by
      by_cases heq : s = r
      · rw [heq] at hs ⊢
        rw [hcell d hs]
        exact h.pinned.cells r c (by simp [Zone.pin])
      · exact h.pinned.cells s d (by simpa [Zone.pin, heq] using hs) }
  alike := { h.alike with }
  accounted := { h.accounted with
    seated := fun o ho hone => by
      have hold := h.accounted.seated o ho hone
      cases o with
      | frame s =>
          intro hs
          by_cases heq : s = r
          · rw [heq] at hs ⊢
            exact hvacant ((h.pinned.cells r c (by simp [Zone.pin])).symm.trans hs)
          · simpa [Zone.pin, heq] using hold hs
      | iterator s => exact hold
      | _ => trivial }
  tame := h.tame

theorem extends_pin {c : Option Frame} (hcell : Z.Allows r c) : Z.Extends (Z.pin r c) where
  hidden := rfl
  holders := id
  thread := id
  fixed := fun _ _ => id
  law := rfl
  cells := fun s d hs => by
    by_cases heq : s = r
    · rw [heq] at hs ⊢
      simp [Zone.pin, hcell d hs]
    · simpa [Zone.pin, heq] using hs
  level := id

/-- A frame in use. -/
theorem Valid.pin_none (h : Z.Valid) (r : FrameRef) : (Z.pin r none).Valid := { h with
  locked := fun g x hx => by
    rcases h.locked g x hx with hh | hr | hb | ⟨s, hs, hc⟩
    · exact Or.inl hh
    · exact Or.inr (Or.inl hr)
    · exact Or.inr (Or.inr (Or.inl hb))
    · refine Or.inr (Or.inr (Or.inr ⟨s, hs, ?_⟩))
      by_cases heq : s = r
      · simp [Zone.pin, heq]
      · simpa [Zone.pin, heq] using hc
  slot := fun g x hx hrunning => by
    obtain ⟨s, c, hs, hc⟩ := h.slot g x hx hrunning
    by_cases heq : s = r
    · exact ⟨s, none, hs, by simp [Zone.pin, heq]⟩
    · exact ⟨s, c, hs, by simpa [Zone.pin, heq] using hc⟩
  cell := fun s f hs => by
    by_cases heq : s = r
    · simp [Zone.pin, heq] at hs
    · exact h.cell s f (by simpa [Zone.pin, heq] using hs) }

/-! ## Taking a frame out of its cell -/

theorem Linked.takeFrame (h : Z.Linked F w w') {f : Frame} (hr : ¬ Z.hidden (.frame r))
    (hf : w.frame? r = some f) :
    (Z.pin r none).Linked (holds f + F) (w.setFrame r none) (w'.setFrame r none) := by
  refine h.recell (x := none) hr (fun s hs => Function.update_of_ne hs _ _) (fun c hc => ?_)
    (fun _ _ => Function.update_self r _ _) (fun _ _ hx => nomatch hx) ?_
  · simpa using hc.symm
  · rw [hf, holds_none, holds_some, add_zero, add_comm]

theorem Linked.putFrame {f : Frame} (h : (Z.pin r none).Linked (holds f + F) t t')
    (hr : ¬ Z.hidden (.frame r)) (hfree : Z.cells r = none) (htame : Z.law.tame → f.Tame) :
    Z.Linked F (t.setFrame r (some f)) (t'.setFrame r (some f)) := by
  have hempty : t.frame? r = none := h.pinned.cells r none (by simp [Zone.pin])
  have hput : ({ Z.pin r none with cells := Z.cells } : Zone).Linked F (t.setFrame r (some f))
      (t'.setFrame r (some f)) := by
    refine h.recell hr (fun s hs => (Function.update_of_ne hs _ _).symm) (fun c hc => ?_) nofun
      (fun hlaw _ hf => Option.some.inj hf ▸ htame hlaw) ?_
    · rw [hfree] at hc
      cases hc
    · rw [hempty, holds_none, holds_some, add_zero, add_comm]
  exact hput

/-! ## A generator that does not change -/

/-- The zone in which, moreover, a generator does not change. -/
def fix (Z : Zone) (g : GeneratorRef) (x : Generator) : Zone :=
  { Z with fixed := Function.update Z.fixed g (some x) }

/-- A generator that may change is not running. -/
theorem Linked.idle (h : Z.Linked F w w') (hfree : Z.fixed g = none) :
    (w.generator g).running = false := by
  by_contra hrunning
  have := h.pinned.running g (by simpa using hrunning)
  simp [hfree] at this

theorem extends_fix {x : Generator} (hfree : Z.fixed g = none) : Z.Extends (Z.fix g x) where
  hidden := rfl
  holders := id
  thread := id
  fixed := fun i y hi => by
    have hne : i ≠ g := fun heq => by simp [heq, hfree] at hi
    simpa [Zone.fix, hne] using hi
  law := rfl
  cells := fun _ _ => id
  level := id

/-- A generator that is not running, while its frame is in use. -/
theorem Valid.fix_idle (h : Z.Valid) {x : Generator}
    (hkept : Z.sealed (.generator g) ∨ 1 ≤ Z.left (.generator g)) (hidle : x.running = false)
    (hslot : x.frame = some r) (hcell : Z.cells r = some none) (hfree : Z.fixed g = none) :
    (Z.fix g x).Valid := { h with
  kept := fun i y hi => by
    by_cases heq : i = g
    · rw [heq]
      exact hkept
    · exact h.kept i y (by simpa [Zone.fix, heq] using hi)
  locked := fun i y hi => by
    by_cases heq : i = g
    · have hxy : x = y := by simpa [Zone.fix, heq] using hi
      rw [← hxy]
      exact Or.inr (Or.inr (Or.inr ⟨r, hslot, hcell⟩))
    · exact h.locked i y (by simpa [Zone.fix, heq] using hi)
  slot := fun i y hi hrunning => by
    by_cases heq : i = g
    · have hxy : x = y := by simpa [Zone.fix, heq] using hi
      rw [← hxy, hidle] at hrunning
      cases hrunning
    · exact h.slot i y (by simpa [Zone.fix, heq] using hi) hrunning
  cell := fun s f hs => by
    rcases h.cell s f hs with hh | ⟨i, y, hi, hfixed, hrest⟩
    · exact Or.inl hh
    · refine Or.inr ⟨i, y, hi, ?_, hrest⟩
      have hne : i ≠ g := fun heq => by simp [heq, hfree] at hfixed
      simpa [Zone.fix, hne] using hfixed }

/-- A generator that is running or barred, with its frame in use or not.  While it is running, a frame
that is not in use has a delegate. -/
theorem Valid.lock (h : Z.Valid) {x : Generator} {c : Option Frame}
    (hkept : Z.sealed (.generator g) ∨ 1 ≤ Z.left (.generator g)) (hg : ¬ Z.hidden (.generator g))
    (hlocked : (x.running = true ∧ ∀ f, c = some f → f.delegate.isSome = true) ∨ Z.law.Barred g)
    (hslot : x.frame = some r) (hfree : Z.fixed g = none) (hcell : Z.Allows r c) :
    ((Z.fix g x).pin r c).Valid := { h with
  kept := fun i y hi => by
    by_cases heq : i = g
    · rw [heq]
      exact hkept
    · exact h.kept i y (by simpa [Zone.fix, Zone.pin, heq] using hi)
  locked := fun i y hi => by
    by_cases heq : i = g
    · have hxy : x = y := by simpa [Zone.fix, Zone.pin, heq] using hi
      rw [← hxy, heq]
      exact Or.inr (hlocked.imp And.left Or.inl)
    · rcases h.locked i y (by simpa [Zone.fix, Zone.pin, heq] using hi) with
        hh | hr | hb | ⟨s, hs, hc⟩
      · exact Or.inl hh
      · exact Or.inr (Or.inl hr)
      · exact Or.inr (Or.inr (Or.inl hb))
      · refine Or.inr (Or.inr (Or.inr ⟨s, hs, ?_⟩))
        by_cases heq : s = r
        · rw [heq] at hc ⊢
          simp [Zone.pin, hcell none hc]
        · simpa [Zone.fix, Zone.pin, heq] using hc
  slot := fun i y hi hr => by
    by_cases heq : i = g
    · have hxy : x = y := by simpa [Zone.fix, Zone.pin, heq] using hi
      rw [← hxy]
      exact ⟨r, c, hslot, by simp [Zone.pin]⟩
    · obtain ⟨s, d, hs, hd⟩ := h.slot i y (by simpa [Zone.fix, Zone.pin, heq] using hi) hr
      by_cases heq : s = r
      · exact ⟨s, c, hs, by simp [Zone.pin, heq]⟩
      · exact ⟨s, d, hs, by simpa [Zone.fix, Zone.pin, heq] using hd⟩
  cell := fun s f hs => by
    by_cases heq : s = r
    · have hc : c = some f := by simpa [Zone.fix, Zone.pin, heq] using hs
      rw [heq]
      exact Or.inr ⟨g, x, hg, by simp [Zone.fix, Zone.pin],
        hlocked.imp_left fun ⟨hrunning, hdelegates⟩ => ⟨hrunning, hdelegates f hc⟩, hslot⟩
    · rcases h.cell s f (by simpa [Zone.fix, Zone.pin, heq] using hs) with hh | ⟨i, y, hi, hy, hrest⟩
      · exact Or.inl hh
      · refine Or.inr ⟨i, y, hi, ?_, hrest⟩
        have hne : i ≠ g := fun heq => by simp [heq, hfree] at hy
        simpa [Zone.fix, Zone.pin, hne] using hy }

theorem Linked.fix (h : Z.Linked F w w') (hfree : Z.fixed g = none) :
    (Z.fix g (w.generator g)).Linked F w w' where
  pinned := { h.pinned with
    fixed := fun i x hi => by
      by_cases heq : i = g
      · subst heq
        simpa [Zone.fix] using hi
      · exact h.pinned.fixed i x (by simpa [Zone.fix, heq] using hi)
    running := fun i hi => by
      by_cases heq : i = g
      · simp [Zone.fix, heq]
      · simpa [Zone.fix, heq] using h.pinned.running i hi }
  alike := { h.alike with }
  accounted := { h.accounted with }
  tame := h.tame

theorem Linked.unfix {x : Generator} (h : (Z.fix g x).Linked F t t') (hfree : Z.fixed g = none)
    (hidle : x.running = false) : Z.Linked F t t' where
  pinned := { h.pinned with
    fixed := fun i y hi => by
      have hne : i ≠ g := fun heq => by simp [heq, hfree] at hi
      exact h.pinned.fixed i y (by simpa [Zone.fix, hne] using hi)
    running := fun i hi => by
      by_cases heq : i = g
      · have hx : t.generator i = x := h.pinned.fixed i x (by simp [Zone.fix, heq])
        rw [hx, hidle] at hi
        cases hi
      · simpa [Zone.fix, heq] using h.pinned.running i hi }
  alike := { h.alike with }
  accounted := { h.accounted with }
  tame := h.tame

/-- Marking a generator as running or not, in both worlds. -/
theorem Linked.setRunning {x : Generator} (h : (Z.fix g x).Linked F w w')
    (hg : ¬ Z.hidden (.generator g)) (b : Bool) :
    (Z.fix g { x with running := b }).Linked F (w.setRunning g b) (w'.setRunning g b) := by
  have hx : w.generator g = x := h.pinned.fixed g x (by simp [Zone.fix])
  have hx' : w'.generator g = x := (h.alike.generator g hg).trans hx
  have hset : w.setRunning g b = w.setGenerator g { x with running := b } := by
    rw [World.setRunning, hx]
  have hset' : w'.setRunning g b = w'.setGenerator g { x with running := b } := by
    rw [World.setRunning, hx']
  rw [hset, hset']
  refine ⟨?_, ?_, ?_, fun htame => (h.tame htame).setGenerator g _⟩
  · exact { h.pinned with
      fixed := fun i y hi => by
        by_cases heq : i = g
        · subst heq
          simpa [Zone.fix] using hi
        · have := h.pinned.fixed i y (by simpa [Zone.fix, heq] using hi)
          simpa [Ne.symm heq] using this
      law := by
        refine Z.law.keeps h.pinned.law ⟨rfl, Store.size_set_le _ _ _, fun i _ hi => ?_⟩
        rw [World.generator_setGenerator]
        split
        · next heq => rw [← heq, hx] at hi; exact hi
        · exact hi
      running := fun i hi => by
        by_cases heq : i = g
        · simp [Zone.fix, heq]
        · rw [World.generator_setGenerator, if_neg (Ne.symm heq)] at hi
          simpa [Zone.fix, heq] using h.pinned.running i hi
      stash := fun u hu => (h.pinned.stash u hu).setGenerator fun heq => hg (heq ▸ hu)
      spared := fun u hu => by simpa [Zone.fix] using h.pinned.spared u hu
      vacant := fun u hu hh => by simpa [Zone.fix] using h.pinned.vacant u hu hh }
  · exact { h.alike with
      sizes := sizes_setGenerator g _ h.alike.sizes
      generator := fun i hi => by
        rw [World.generator_setGenerator, World.generator_setGenerator]
        split
        · rfl
        · exact h.alike.generator i hi
      owners := fun u hu => by simpa [Zone.fix] using h.alike.owners u hu
      beyond := fun u hu => (h.alike.beyond u hu).setGenerator fun heq => hg (heq ▸ hu) }
  · have hholds : holds ({ x with running := b } : Generator) = holds (w.generator g) := by
      rw [hx]
      rfl
    have hslots : ∀ i s, ((w.setGenerator g { x with running := b }).generator i).frame = some s →
        (w.generator i).frame = some s := by
      intro i s hs
      rw [World.generator_setGenerator] at hs
      split at hs
      · next heq =>
          rw [← heq, hx]
          exact hs
      · exact hs
    have haccounted := h.accounted.exchange (G := F) (World.references_setGenerator hg _) (by simp)
      (World.holds_generator_le hg) (by rw [hholds]) hslots
      (h.accounted.seated_of_same (by simp) (by simp) (by simp))
    exact { haccounted with }

/-! ## An iterator in use -/

/-- The zone in which, moreover, an iterator may be in use. -/
def use (Z : Zone) (r : IteratorRef) : Zone := { Z with used := fun s => s = r ∨ Z.used s }

theorem extends_use (r : IteratorRef) : Z.Extends (Z.use r) where
  hidden := rfl
  holders := id
  thread := id
  fixed := fun _ _ => id
  law := rfl
  cells := fun _ _ => id
  level := id

theorem Valid.use (h : Z.Valid) (r : IteratorRef) : (Z.use r).Valid := { h with }

theorem Linked.use (h : Z.Linked F w w') (r : IteratorRef) : (Z.use r).Linked F w w' where
  pinned := { h.pinned with }
  alike := { h.alike with }
  accounted := { h.accounted with
    seated := fun o ho hone => by
      have hold := h.accounted.seated o ho hone
      cases o with
      | iterator s => exact fun hs => Or.inr (hold hs)
      | frame s => exact hold
      | _ => trivial }
  tame := h.tame

/-- Taking an iterator out of its cell. -/
theorem Linked.takeIterator {i : IteratorRef} (h : Z.Linked F w w') {x : Iterator}
    (hi : ¬ Z.hidden (.iterator i)) (hx : w.iterator? i = some x) :
    (Z.use i).Linked (holds x + F) (w.setIterator i none) (w'.setIterator i none) := by
  refine (h.use i).setIterator hi (fun _ _ => Or.inl rfl) (fun _ _ hx => nomatch hx) ?_
  rw [hx, holds_none, holds_some, add_zero, add_comm]

/-- Putting an iterator back into its cell. -/
theorem Linked.putIterator {i : IteratorRef} {x : Iterator}
    (h : (Z.use i).Linked (holds x + F) t t') (hi : ¬ Z.hidden (.iterator i))
    (htame : Z.law.tame → x.Tame) :
    Z.Linked F (t.setIterator i (some x)) (t'.setIterator i (some x)) := by
  have hput : (Z.use i).Linked F (t.setIterator i (some x)) (t'.setIterator i (some x)) := by
    refine h.setIterator hi (fun hx => nomatch hx)
      (fun hlaw _ hx => Option.some.inj hx ▸ htame hlaw) ?_
    rw [holds_some]
    exact le_trans (add_comm _ _).le le_self_add
  exact {
    pinned := { hput.pinned with }
    alike := { hput.alike with }
    accounted := { hput.accounted with
      seated := fun o ho hone => by
        have hold := hput.accounted.seated o ho hone
        cases o with
        | iterator s =>
            intro hs
            refine (hold hs).resolve_left fun heq => ?_
            rw [heq, World.iterator_setIterator, if_pos rfl] at hs
            cases hs
        | frame s => exact hold
        | _ => trivial }
    tame := hput.tame }

/-! ## Holders outside -/

/-- The zone in which others hold more. -/
def lend (Z : Zone) (B : Bag) : Zone := { Z with left := Z.left + B, right := Z.right + B }

theorem extends_lend (B : Bag) : Z.Extends (Z.lend B) where
  hidden := rfl
  holders := fun h => by simp [Zone.lend, h]
  thread := id
  fixed := fun _ _ => id
  law := rfl
  cells := fun _ _ => id
  level := id

theorem Valid.lend (h : Z.Valid) (B : Bag) : (Z.lend B).Valid := { h with
  holders := fun o => by
    simp only [Zone.lend, Pi.add_apply]
    rcases h.holders o with hsame | hboth | ⟨hspared, hle⟩
    · exact .inl (congrArg (· + B o) hsame)
    · exact .inr (.inl (by omega))
    · exact .inr (.inr ⟨hspared, Nat.add_le_add_right hle _⟩)
  kept := fun g x hg => (h.kept g x hg).imp_right fun hleft => by
    simp only [Zone.lend, Pi.add_apply]
    omega }

theorem Linked.lend {B : Bag} (h : Z.Linked (B + F) w w') : (Z.lend B).Linked F w w' where
  tame := h.tame
  pinned := { h.pinned with }
  alike := { h.alike with
    owners := fun o ho => by
      have := h.alike.owners o ho
      simp only [Zone.lend, Pi.add_apply]
      omega }
  accounted :=
    { h.accounted with
      owned := fun o ho => by
        have := h.accounted.owned o ho
        simp only [Zone.lend, Pi.add_apply] at this ⊢
        omega
      unseen := fun o ho => by
        have := h.accounted.unseen o ho
        simp only [Zone.lend, Pi.add_apply] at this ⊢
        omega }

/-- The holder of a generator can be counted among those outside. -/
theorem Held.split (h : Z.Held F g) :
    ∃ B H : Bag, B + H = F ∧ (Z.sealed (.generator g) ∨ 1 ≤ (Z.lend B).left (.generator g)) := by
  rcases h.2 with hsealed | hone
  · exact ⟨0, F, zero_add F, Or.inl hsealed⟩
  · by_cases hF : 1 ≤ F (.generator g)
    · refine ⟨.of [.generator g], F - .of [.generator g], ?_, Or.inr ?_⟩
      · funext o
        by_cases ho : .generator g = o
        · subst ho
          simp only [Pi.add_apply, Pi.sub_apply, Bag.of_singleton_self]
          omega
        · simp [Bag.of_singleton_ne ho]
      · simp [Zone.lend, Bag.of_singleton_self]
    · refine ⟨0, F, zero_add F, Or.inr ?_⟩
      simp only [Zone.lend, Pi.add_apply, Pi.zero_apply]
      omega

/-- What is held may be counted among what others hold. -/
theorem Held.lend {B H : Bag} (h : Z.Held (B + H) g) : (Z.lend B).Held H g := by
  refine ⟨h.1, h.2.imp_right fun hone => ?_⟩
  simp only [Zone.lend, Pi.add_apply] at hone ⊢
  omega

/-- What others hold is covered. -/
theorem secures_of_left {B : Bag} (hle : B ≤ Z.left) (hB : ∀ o, Z.sealed o → B o = 0) :
    Z.Secures B := by
  intro F w w' h o ho
  have hsealed : ¬ Z.sealed o := fun hs => by
    have := hB o hs
    omega
  have := h.accounted.owned o hsealed
  have := Bag.apply_le hle o
  exact ⟨hsealed, by omega⟩

theorem Linked.unlend {B : Bag} (h : (Z.lend B).Linked F t t')
    (hB : ∀ o, Z.sealed o → B o = 0) : Z.Linked (B + F) t t' where
  tame := h.tame
  pinned := { h.pinned with }
  alike := { h.alike with
    owners := fun o ho => by
      have := h.alike.owners o ho
      simp only [Zone.lend, Pi.add_apply] at this
      omega }
  accounted :=
    { h.accounted with
      owned := fun o ho => by
        have := h.accounted.owned o ho
        simp only [Zone.lend, Pi.add_apply] at this ⊢
        omega
      unseen := fun o ho => by
        have := h.accounted.unseen o ho
        have := hB o ho
        simp only [Zone.lend, Pi.add_apply] at *
        omega }

/-! ## An object without owners -/

/-- The zone in which, moreover, nothing refers to an object. -/
def orphan (Z : Zone) (o : Object) : Zone := { Z with sealed := fun u => u = o ∨ Z.sealed u }

theorem extends_orphan (o : Object) : Z.Extends (Z.orphan o) where
  hidden := rfl
  holders := id
  thread := id
  fixed := fun _ _ => id
  law := rfl
  cells := fun _ _ => id
  level := id

theorem Valid.orphan (h : Z.Valid) (o : Object) : (Z.orphan o).Valid := { h with
  sealed_of_hidden := fun u hu => Or.inr (h.sealed_of_hidden u hu)
  kept := fun g x hg => (h.kept g x hg).imp_left Or.inr }

/-- A generator that has lost its last owner. -/
theorem Linked.orphan (h : Z.Linked F w w') (hg : ¬ Z.sealed (.generator g))
    (howners : w.owners (.generator g) = 0) : (Z.orphan (.generator g)).Linked F w w' where
  tame := h.tame
  pinned := { h.pinned with
    vacant := fun u hu hh => hu.elim (fun heq => heq ▸ howners) fun hs => h.pinned.vacant u hs hh
    lists := fun l hl => h.pinned.lists l (hl.resolve_left (by simp))
    iterators := fun i hi => h.pinned.iterators i (hi.resolve_left (by simp)) }
  alike := { h.alike with }
  accounted :=
    { h.accounted with
      owned := fun o ho => h.accounted.owned o fun hs => ho (Or.inr hs)
      unseen := fun o ho => by
        rcases ho with rfl | ho
        · have := h.accounted.owned _ hg
          show w.references Z.hidden _ + _ = 0
          omega
        · exact h.accounted.unseen o ho }

theorem Linked.unorphan (h : (Z.orphan o).Linked F t t') (hleft : Z.left o = 0) : Z.Linked F t t' where
  tame := h.tame
  pinned := { h.pinned with
    vacant := fun u hu hh => h.pinned.vacant u (Or.inr hu) hh
    lists := fun l hl => h.pinned.lists l (Or.inr hl)
    iterators := fun i hi => h.pinned.iterators i (Or.inr hi) }
  alike := { h.alike with }
  accounted :=
    { h.accounted with
      owned := fun u hu => by
        by_cases heq : u = o
        · have := h.accounted.unseen u (Or.inl heq)
          have hnone : Z.left u = 0 := by rw [heq, hleft]
          show t.references (Z.orphan o).hidden u + F u + Z.left u ≤ _
          omega
        · exact h.accounted.owned u fun hs => hs.elim heq hu
      unseen := fun u hu => h.accounted.unseen u (Or.inr hu) }

/-! ## One level deeper -/

/-- The zone in which one more level is taken. -/
def deeper (Z : Zone) : Zone := { Z with
  leftThread := { Z.leftThread with depth := Z.leftThread.depth + 1 }
  rightThread := { Z.rightThread with depth := Z.rightThread.depth + 1 } }

theorem extends_deeper (hlevel : Z.leftThread.depth < Z.leftThread.limit) :
    Z.Extends Z.deeper where
  hidden := rfl
  holders := id
  thread := fun h => by simp [Zone.deeper, h]
  fixed := fun _ _ => id
  law := rfl
  cells := fun _ _ => id
  level := fun _ => hlevel

theorem Valid.deeper (h : Z.Valid) : Z.deeper.Valid := { h with }

theorem Room.deeper (h : Z.Room) : Z.deeper.Room := by
  rcases h with h | ⟨hguarded, hle⟩
  · exact Or.inl (by simp [Zone.deeper, h])
  · refine Or.inr ⟨hguarded, ?_⟩
    show Z.leftThread.limit + (Z.rightThread.depth + 1) ≤
      Z.rightThread.limit + (Z.leftThread.depth + 1)
    omega

theorem Linked.setThread (h : Z.Linked F w w') (u u' : Thread) :
    ({ Z with leftThread := u, rightThread := u' } : Zone).Linked F
      { w with thread := u } { w' with thread := u' } where
  tame := fun htame => (h.tame htame).congr rfl (fun _ => rfl) fun _ => rfl
  pinned := { h.pinned with
    thread := rfl
    law := Z.law.keeps h.pinned.law ⟨rfl, le_rfl, fun _ _ hg => hg⟩
    stash := fun o ho => { h.pinned.stash o ho with } }
  alike := { h.alike with
    thread := rfl
    owners := h.alike.owners
    beyond := fun o ho => { h.alike.beyond o ho with } }
  accounted := { h.accounted with }

/-! ## Under another law -/

/-- The same zone under another law. -/
def decree (Z : Zone) (L : Law) : Zone := { Z with law := L }

/-- Another law has to bar the generators that can be relied on for being barred, and the disposal of
the objects that are spared. -/
theorem Valid.decree {L : Law} (h : Z.Valid) (hbars : ∀ g, Z.law.Barred g → L.Barred g)
    (hspares : ∀ o, Z.spared o → ∀ w, L.bars (.reclaim o) w) : (Z.decree L).Valid := { h with
  spared := hspares
  locked := fun g x hx => (h.locked g x hx).imp_right fun h => h.imp_right fun h =>
    h.imp_left (hbars g)
  cell := fun r f hc => (h.cell r f hc).imp_right fun ⟨g, x, hg, hx, hlocked, hslot⟩ =>
    ⟨g, x, hg, hx, hlocked.imp_right (hbars g), hslot⟩ }

theorem Linked.decree {L : Law} (h : Z.Linked F w w') (hlaw : L.rule w)
    (htame : L.tame → Z.law.tame) : (Z.decree L).Linked F w w' where
  pinned := { h.pinned with law := hlaw }
  alike := { h.alike with }
  accounted := { h.accounted with }
  tame := fun h' => h.tame (htame h')

/-- A frame that may be worked on may be so under another law. -/
theorem Open.decree {L : Law} {r : FrameRef} (h : Z.Open F r) (htame : L.tame → Z.law.tame) :
    (Z.decree L).Open F r :=
  { h with vacant := fun hvacant hL => h.vacant hvacant (htame hL) }

/-! ## When a computation may be abandoned -/

/-- A computation may be abandoned where it may be abandoned while a generator does not change. -/
theorem Breaks.unfix {x : Generator} (h : (Z.fix g x).Breaks) (hfree : Z.fixed g = none) :
    Z.Breaks := fun htame hclear => h htame ⟨hclear.1, fun r hr => by
  obtain ⟨i, y, hi, hfixed, hrest⟩ := hclear.2 r hr
  refine ⟨i, y, hi, ?_, hrest⟩
  have hne : i ≠ g := fun heq => by simp [heq, hfree] at hfixed
  simpa [Zone.fix, hne] using hfixed⟩

/-- A computation may be abandoned where it may be abandoned while the frame of a generator that is
running is in use. -/
theorem Breaks.unpin_running {x : Generator} (h : (Z.pin r none).Breaks)
    (hg : ¬ Z.hidden (.generator g)) (hfixed : Z.fixed g = some x) (hrunning : x.running = true)
    (hslot : x.frame = some r) : Z.Breaks := fun htame hclear => h htame ⟨hclear.1, fun s hs => by
  by_cases heq : s = r
  · exact ⟨g, x, hg, hfixed, hrunning, heq ▸ hslot⟩
  · exact hclear.2 s (by simpa [Zone.pin, heq] using hs)⟩

/-- A computation may be abandoned where it may be abandoned while a frame at rest does not change. -/
theorem Breaks.unpin_some {f : Frame} (h : (Z.pin r (some f)).Breaks) : Z.Breaks :=
  fun htame hclear => h htame ⟨hclear.1, fun s hs => by
    by_cases heq : s = r
    · simp [Zone.pin, heq] at hs
    · exact hclear.2 s (by simpa [Zone.pin, heq] using hs)⟩

/-! ## Fit zones of nested computations -/

section Fit

variable {C : Zone → Prop}

theorem Fit.lend (h : Z.Fit C) (B : Bag) : (Z.lend B).Fit C :=
  h.extend (extends_lend B) (h.valid.lend B) h.room

theorem Fit.pin_none (h : Z.Fit C) (hfree : Z.cells r = none) : (Z.pin r none).Fit C :=
  h.extend (extends_pin (allows_of_free hfree none)) (h.valid.pin_none r) h.room

theorem Fit.use (h : Z.Fit C) (r : IteratorRef) : (Z.use r).Fit C :=
  h.extend (extends_use r) (h.valid.use r) h.room

theorem Fit.fix_idle (h : Z.Fit C) {x : Generator}
    (hkept : Z.sealed (.generator g) ∨ 1 ≤ Z.left (.generator g)) (hidle : x.running = false)
    (hslot : x.frame = some r) (hcell : Z.cells r = some none) (hfree : Z.fixed g = none) :
    (Z.fix g x).Fit C :=
  h.extend (extends_fix hfree) (h.valid.fix_idle hkept hidle hslot hcell hfree) h.room

theorem Fit.lock (h : Z.Fit C) {x : Generator} {c : Option Frame}
    (hkept : Z.sealed (.generator g) ∨ 1 ≤ Z.left (.generator g)) (hg : ¬ Z.hidden (.generator g))
    (hlocked : (x.running = true ∧ ∀ f, c = some f → f.delegate.isSome = true) ∨ Z.law.Barred g)
    (hslot : x.frame = some r) (hfree : Z.fixed g = none) (hcell : Z.Allows r c) :
    ((Z.fix g x).pin r c).Fit C := by
  have hfixed : C (Z.fix g x) := h.inherited _ _ h.property (extends_fix hfree)
  exact ⟨h.inherited, h.inherited _ _ hfixed (extends_pin hcell),
    h.valid.lock hkept hg hlocked hslot hfree hcell, h.room⟩

theorem Fit.orphan (h : Z.Fit C) (o : Object) : (Z.orphan o).Fit C :=
  h.extend (extends_orphan o) (h.valid.orphan o) h.room

theorem Fit.deeper (h : Z.Fit C) (hlevel : Z.leftThread.depth < Z.leftThread.limit) :
    Z.deeper.Fit C :=
  h.extend (extends_deeper hlevel) h.valid.deeper h.room.deeper

end Fit

end Zone

end Resumable
