import Resumable.Proofs.Ends

set_option autoImplicit false

/-!
# Engines that serve alike

Two engines serve alike if every request that may be made in linked worlds comes to the same end
with both of them (`Serves`).  From here on there is one lemma for each function of the model: it
does the same with two engines that serve alike.  This module has those on ownership and on access.

A generator may be resumed, thrown into or closed if it has a holder; an object may be reclaimed if
it has no owner left.
-/

namespace Resumable

instance : Holder Throw := ⟨fun t => holds t.type + holds t.value + holds t.traceback⟩

instance : Holder Request where
  holds
    | .resume _ input => holds input
    | .throw _ thrown => holds thrown
    | .close _ => 0
    | .reclaim _ => 0

theorem holds_throw (t : Throw) : holds t = holds t.type + holds t.value + holds t.traceback := rfl

@[simp] theorem holds_request_resume (g : GeneratorRef) (v : Value) :
    holds (Request.resume g v) = holds v := rfl

@[simp] theorem holds_request_throw (g : GeneratorRef) (t : Throw) :
    holds (Request.throw g t) = holds t := rfl

@[simp] theorem holds_request_close (g : GeneratorRef) : holds (Request.close g) = 0 := rfl

@[simp] theorem holds_request_reclaim (o : Object) : holds (Request.reclaim o) = 0 := rfl

/-- Whether a request may be made. -/
def Request.Granted (Z : Zone) (F : Bag) (w : World) : Request → Prop
  | .resume g _ => Z.Held F g
  | .throw g _ => Z.Held F g
  | .close g => Z.Held F g
  | .reclaim o => ¬ Z.sealed o ∧ w.owners o = 0

/-- When the answer to a request may be abandoned.  Objects are disposed of quietly. -/
def Request.Breaks (Z : Zone) : Request → Prop
  | .reclaim _ => Z.Busy
  | _ => Z.Breaks

/-- Every request comes to the same end, in every zone of a sort.  An object that is spared is not
disposed of. -/
structure Serves (C : Zone → Prop) (e e' : Engine) : Prop where
  fuel : e.fuel ≤ e'.fuel
  answers : ∀ {Z : Zone}, Z.Fit C → ∀ (request : Request) {F : Bag} {w w' : World},
    request.Granted Z F w → Z.Linked (holds request + F) w w' →
      Ends (Z.bondIf (request.Breaks Z)) F holds (e.perform request w) (e'.perform request w')
  spares : ∀ {Z : Zone}, Z.Fit C → ∀ {o : Object} {w : World}, Z.spared o → Z.Calm w →
    ∃ t, e.perform (.reclaim o) w = .error .outOfFuel t ∧ Z.Calm t

variable {C : Zone → Prop} {Z : Zone} {F G : Bag} {e e' : Engine} {w w' : World} {α β : Type}

/-! ## Ownership -/

section Ownership

variable (hs : Serves C e e') (hZ : Z.Fit C)

include hs hZ

/-- Giving up an owner of an object.  It can only be abandoned where that is the last owner. -/
theorem releaseObject_ends {A : Prop} {o : Object} (hA : F o + Z.left o = 0 → Z.Busy → A)
    (h : Z.Linked (.of [o] + F) w w') :
    Ends (Z.bondIf A) F holds (e.releaseObject o w) (e'.releaseObject o w') := by
  have hsealed : ¬ Z.sealed o := h.not_sealed (by simp [Bag.of_singleton_self])
  have hhidden : ¬ Z.hidden o := fun hh => hsealed (hZ.valid.sealed_of_hidden o hh)
  have howned := h.accounted.owned o hsealed
  have hsame := h.alike.owners o hhidden
  simp only [Pi.add_apply, Bag.of_singleton_self] at howned
  unfold Engine.releaseObject
  obtain ⟨n, hn⟩ : ∃ n, w.owners o = n + 1 := ⟨w.owners o - 1, by omega⟩
  by_cases hlast : n = 0 ∧ Z.spared o
  · -- the last owner of an object that is spared
    obtain ⟨t, ht, hcalm⟩ := hs.spares hZ hlast.2 (w := w.setOwners 0 o)
      (Or.inl (by rw [World.thread_setOwners, h.pinned.thread]))
    rw [hn, hlast.1]
    simp only [ht]
    exact .outOfFuel hcalm
  have hholders : Z.left o = Z.right o ∨ (1 ≤ Z.left o ∧ 1 ≤ Z.right o) ∨
      1 ≤ n ∧ Z.left o ≤ Z.right o := by
    rcases hZ.valid.holders o with hsame | hboth | ⟨hspared, hle⟩
    · exact .inl hsame
    · exact .inr (.inl hboth)
    · refine .inr (.inr ⟨Nat.pos_of_ne_zero fun hzero => hlast ⟨hzero, hspared⟩, hle⟩)
  obtain ⟨n', hn'⟩ : ∃ n', w'.owners o = n' + 1 := ⟨w'.owners o - 1, by omega⟩
  have hdropped := h.dropOwner hZ.valid hn hn' fun hspared =>
    Nat.pos_of_ne_zero fun hzero => hlast ⟨hzero, hspared⟩
  rw [hn, hn']
  cases n with
  | zero =>
      obtain rfl : n' = 0 := by omega
      have hgranted : (Request.reclaim o).Granted Z F (w.setOwners 0 o) := ⟨hsealed, by simp⟩
      have hend := hs.answers hZ (.reclaim o) hgranted (by rwa [holds_request_reclaim, zero_add])
      generalize e.perform (.reclaim o) (w.setOwners 0 o) = x at hend ⊢
      generalize e'.perform (.reclaim o) (w'.setOwners 0 o) = x' at hend ⊢
      cases hend with
      | ok h => exact .ok (h.le (by simp))
      | raised h => exact .raised h
      | aborted h ha => exact .aborted h (hA (by omega) ha)
      | outOfFuel h => exact .outOfFuel h
  | succ n =>
      obtain ⟨n', rfl⟩ : ∃ k, n' = k + 1 := ⟨n' - 1, by omega⟩
      exact .ok (hdropped.le (by simp))

theorem releaseObjects_ends {A : Prop} (os : List Object)
    (hA : ¬ Bag.of os ≤ F + Z.left → Z.Busy → A) (h : Z.Linked (.of os + F) w w') :
    Ends (Z.bondIf A) F holds (e.releaseObjects os w) (e'.releaseObjects os w') := by
  induction os generalizing F w w' with
  | nil => exact .ok (h.le (by simp))
  | cons o os ih =>
      have hfirst : Ends (Z.bondIf A) (.of os + F) holds (e.releaseObject o w)
          (e'.releaseObject o w') := by
        refine releaseObject_ends hs hZ (fun hlast hbusy => hA (fun hle => ?_) hbusy)
          (h.le (by rw [Bag.of_cons o os, add_assoc]))
        have hone := Bag.apply_le hle o
        rw [Bag.of_cons o os] at hone
        simp only [Pi.add_apply, Bag.of_singleton_self] at hone hlast
        omega
      refine hfirst.ensuring fun G t t' hG ht => ih (fun hnot hbusy => hA (fun hle => hnot ?_) hbusy) ht
      have hrest : Bag.of os ≤ F + Z.left :=
        le_trans (by rw [Bag.of_cons o os]; exact le_add_self) hle
      exact le_trans hrest (add_le_add_left hG _)

theorem releaseObjects_quiet (os : List Object) (h : Z.Linked (.of os + F) w w') :
    Ends Z.quiet F holds (e.releaseObjects os w) (e'.releaseObjects os w') :=
  releaseObjects_ends hs hZ os (fun _ => id) h

/-- A value that others hold as well is not disposed of. -/
theorem release_spare {A : Prop} {v : Value} (hv : holds v ≤ F + Z.left)
    (h : Z.Linked (holds v + F) w w') :
    Ends (Z.bondIf A) F holds (e.release v w) (e'.release v w') :=
  releaseObjects_ends hs hZ v.objects (fun hnot => absurd hv hnot) h

theorem release_quiet {v : Value} (h : Z.Linked (holds v + F) w w') :
    Ends Z.quiet F holds (e.release v w) (e'.release v w') :=
  releaseObjects_quiet hs hZ v.objects h

theorem releaseAll_quiet {vs : List Value} (h : Z.Linked (holds vs + F) w w') :
    Ends Z.quiet F holds (e.releaseAll vs w) (e'.releaseAll vs w') :=
  releaseObjects_quiet hs hZ (Value.objectsOfAll vs) h

theorem releaseException_quiet {x : Exception} (h : Z.Linked (holds x + F) w w') :
    Ends Z.quiet F holds (e.releaseException x w) (e'.releaseException x w') :=
  releaseAll_quiet hs hZ h

theorem releasePending_quiet {x : Option Exception} (h : Z.Linked (holds x + F) w w') :
    Ends Z.quiet F holds (e.releasePending x w) (e'.releasePending x w') := by
  cases x with
  | none => exact .ok (h.le (by simp))
  | some x => exact releaseException_quiet hs hZ h

theorem owning_quiet {v : Value} {q : α → Bag} {m m' : Run World α}
    (hm : Ends Z.quiet (holds v + F) q (m w) (m' w')) :
    Ends Z.quiet F q (e.owning v m w) (e'.owning v m' w') :=
  hm.ensuring fun _ _ _ _ h => release_quiet hs hZ h

theorem release_ends {v : Value} (h : Z.Linked (holds v + F) w w') :
    Ends Z.bond F holds (e.release v w) (e'.release v w') :=
  (release_quiet hs hZ h).loud

theorem releaseAll_ends {vs : List Value} (h : Z.Linked (holds vs + F) w w') :
    Ends Z.bond F holds (e.releaseAll vs w) (e'.releaseAll vs w') :=
  (releaseAll_quiet hs hZ h).loud

theorem releaseException_ends {x : Exception} (h : Z.Linked (holds x + F) w w') :
    Ends Z.bond F holds (e.releaseException x w) (e'.releaseException x w') :=
  (releaseException_quiet hs hZ h).loud

theorem releasePending_ends {x : Option Exception} (h : Z.Linked (holds x + F) w w') :
    Ends Z.bond F holds (e.releasePending x w) (e'.releasePending x w') :=
  (releasePending_quiet hs hZ h).loud

theorem owning_ends {v : Value} {q : α → Bag} {m m' : Run World α}
    (hm : Ends Z.bond (holds v + F) q (m w) (m' w')) :
    Ends Z.bond F q (e.owning v m w) (e'.owning v m' w') :=
  hm.ensuring fun _ _ _ _ h => release_ends hs hZ h

end Ownership

/-! ## Access -/

/-- Marking both worlds as being abandoned or not. -/
theorem Zone.Linked.setUnwinding (h : Z.Linked F w w') (b : Bool) :
    Z.Linked F { w with unwinding := b } { w' with unwinding := b } := by
  have hlinked := h.journal w.diagnostics w.log b
  have hsame := h.alike.surroundings
  simp only [World.surroundings, World.Surroundings.mk.injEq] at hsame
  obtain ⟨_, _, hdiagnostics, hlog, _⟩ := hsame
  have hw' : ({ w' with unwinding := b } : World)
      = { w' with diagnostics := w.diagnostics, log := w.log, unwinding := b } := by
    rw [← hdiagnostics, ← hlog]
  rw [hw']
  exact hlinked

theorem abort_ends {A : Prop} {q : α → Bag} (ha : A) (h : Z.Linked F w w') :
    Ends (Z.bondIf A) F q (World.abort w) (World.abort w') :=
  .aborted (h.setUnwinding true) ha

/-- Sharing a value that is covered. -/
theorem share_ends {A : Prop} (hZ : Z.Valid) {v : Value} (hv : Z.Covered w (holds v))
    (h : Z.Linked F w w') :
    Ends (Z.bondIf A) F (fun _ => holds v) (World.share v w) (World.share v w') :=
  .ok (h.retain hZ hv)

theorem shareAll_ends {A : Prop} (hZ : Z.Valid) {v : List Value} (hv : Z.Covered w (holds v))
    (h : Z.Linked F w w') :
    Ends (Z.bondIf A) F (fun _ => holds v) (World.shareAll v w) (World.shareAll v w') :=
  .ok (h.retainAll hZ hv)

/-- Working on a frame that is out of its cell meanwhile.  A frame in use is in use in both
worlds. -/
theorem withFrame_ends {A D : Prop} {r : FrameRef} {q : α → Bag} {m m' : Run (Frame × World) α}
    (hr : ¬ Z.hidden (.frame r)) (hfree : ∀ f, Z.cells r ≠ some (some f))
    (hvacant : w.frame? r = none → A) (haborts : D → A)
    (htame : Z.law.tame → ∀ f, w.frame? r = some f → f.Tame →
      Run.Leaves (fun _ => Frame.Tame) Frame.Tame Frame.Tame m f)
    (h : Z.Linked G w w') (hle : F ≤ G)
    (hm : ∀ f, Z.cells r = none → w.frame? r = some f →
      (Z.pin r none).Linked (holds f + G) (w.setFrame r none) (w'.setFrame r none) →
        Ends ((Z.pin r none).bondWithIf Frame D) F q (m (f, w.setFrame r none))
          (m' (f, w'.setFrame r none))) :
    Ends (Z.bondIf A) F q (World.withFrame r m w) (World.withFrame r m' w') := by
  have hsame : w'.frame? r = w.frame? r := h.alike.frame r hr
  unfold World.withFrame
  rw [hsame]
  cases hf : w.frame? r with
  | none => exact abort_ends (hvacant hf) (h.le hle)
  | some f =>
      have hcells : Z.cells r = none := by
        cases hc : Z.cells r with
        | none => rfl
        | some c =>
            have := h.pinned.cells r c hc
            rw [hf] at this
            rw [← this] at hc
            exact absurd hc (hfree f)
      refine Ends.withPrivate (hm f hcells hf (h.takeFrame hr hf)) (fun _ h => h) haborts
        fun G b t t' hend ht => ⟨_, _, rfl, rfl, ht.putFrame hr hcells fun hlaw => ?_⟩
      exact (htame hlaw f hf ((h.tame hlaw).frames r f hf)).of_endsIn hend

/-- Working on an iterator that is out of its cell meanwhile. -/
theorem withIterator_ends {A D : Prop} (hZ : Z.Valid) {r : IteratorRef} {q : α → Bag}
    {m m' : Run (Iterator × World) α} (hr : ¬ Z.sealed (.iterator r))
    (hvacant : w.iterator? r = none → A) (haborts : D → A)
    (htame : Z.law.tame → ∀ i, i.Tame →
      Run.Leaves (fun _ => Iterator.Tame) Iterator.Tame Iterator.Tame m i)
    (h : Z.Linked G w w') (hle : F ≤ G)
    (hm : ∀ i, w.iterator? r = some i →
      (Z.use r).Linked (holds i + G) (w.setIterator r none) (w'.setIterator r none) →
        Ends ((Z.use r).bondWithIf Iterator D) F q (m (i, w.setIterator r none))
          (m' (i, w'.setIterator r none))) :
    Ends (Z.bondIf A) F q (World.withIterator r m w) (World.withIterator r m' w') := by
  have hhidden : ¬ Z.hidden (.iterator r) := fun hh => hr (hZ.sealed_of_hidden _ hh)
  have hsame : w'.iterator? r = w.iterator? r := h.alike.iterator r hhidden
  unfold World.withIterator
  rw [hsame]
  cases hi : w.iterator? r with
  | none => exact abort_ends (hvacant hi) (h.le hle)
  | some i =>
      refine Ends.withPrivate (hm i hi (h.takeIterator hhidden hi)) (fun _ h => h) haborts
        fun G b t t' hend ht => ⟨_, _, rfl, rfl, ht.putIterator hhidden fun hlaw => ?_⟩
      exact (htame hlaw i ((h.tame hlaw).iterators r i hi)).of_endsIn hend

section Running

variable {A : Bag} {g : GeneratorRef} {r : FrameRef} {t t' : World}

/-- Marking an idle generator as running, while its frame is in use or has a delegate.  Its holder is
counted among those outside meanwhile. -/
theorem Zone.Linked.startRunning (hZ : Z.Fit C) (hheld : Z.Held F g) (hfree : Z.fixed g = none)
    (hcell : Z.cells r = none) (hslot : (w.generator g).frame = some r)
    (h : Z.Linked (A + F) w w') :
    ∃ B H, B + H = F ∧
      (∀ c : Option Frame, (∀ f, c = some f → f.delegate.isSome = true) →
        (((Z.lend B).fix g { w.generator g with running := true }).pin r c).Fit C) ∧
      ((Z.lend B).fix g { w.generator g with running := true }).Linked (A + H)
        (w.setRunning g true) (w'.setRunning g true) := by
  obtain ⟨B, H, hsplit, hkept⟩ := hheld.split
  have hlent : (Z.lend B).Linked (A + H) w w' := by
    refine Zone.Linked.lend (h.le ?_)
    rw [← hsplit]
    exact (add_left_comm _ _ _).le
  have hhidden : ¬ (Z.lend B).hidden (.generator g) := hheld.1
  exact ⟨B, H, hsplit,
    fun c hc => (hZ.lend B).lock hkept hhidden (Or.inl ⟨rfl, hc⟩) hslot hfree
      (Zone.allows_of_free (Z := Z.lend B) hcell c),
    (hlent.fix (g := g) hfree).setRunning hhidden true⟩

/-- Marking a generator as idle again. -/
theorem Zone.Linked.stopRunning {B H : Bag} {x : Generator}
    (h : ((Z.lend B).fix g x).Linked (G + H) t t') (hg : ¬ Z.hidden (.generator g))
    (hfree : Z.fixed g = none) (hB : ∀ o, Z.sealed o → B o = 0) :
    Z.Linked (G + (B + H)) (t.setRunning g false) (t'.setRunning g false) := by
  have hhidden : ¬ (Z.lend B).hidden (.generator g) := hg
  have hstopped : (Z.lend B).Linked (G + H) _ _ :=
    (Zone.Linked.setRunning h hhidden false).unfix hfree rfl
  exact (hstopped.unlend hB).le (add_left_comm _ _ _).le

/-- A generator that is marked as idle is what it was before it was marked as running. -/
theorem generator_setRunning_false {x : Generator} (hidle : x.running = false)
    (ht : t.generator g = { x with running := true }) :
    (t.setRunning g false).generator g = x := by
  unfold World.setRunning
  rw [World.generator_setGenerator, if_pos rfl, ht, ← hidle]

/-- Marking a generator as running for the time of a computation leaves it as it is. -/
theorem whileRunning_keeps {q : α → Bag} {m m' : Run World α} (hZ : Z.Fit C) (hheld : Z.Held F g)
    (hfree : Z.fixed g = none) (hcell : Z.cells r = none)
    (hslot : (w.generator g).frame = some r) (h : Z.Linked (A + F) w w')
    (hm : ∀ (B H : Bag) (x : Generator), B + H = F → x = { w.generator g with running := true } →
      (∀ c : Option Frame, (∀ f, c = some f → f.delegate.isSome = true) →
        (((Z.lend B).fix g x).pin r c).Fit C) →
        ((Z.lend B).fix g x).Linked (A + H) (w.setRunning g true) (w'.setRunning g true) →
          Ends ((Z.lend B).fix g x).bond H q (m (w.setRunning g true))
            (m' (w'.setRunning g true))) :
    Ends (Z.bondAt g (w.generator g)) F q (World.whileRunning g m w)
      (World.whileRunning g m' w') := by
  obtain ⟨B, H, hsplit, hfit, hstarted⟩ := h.startRunning hZ hheld hfree hcell hslot
  have hbody := hm B H _ hsplit rfl hfit hstarted
  have hB : ∀ o, Z.sealed o → B o = 0 :=
    h.unsealed (by rw [← hsplit]; exact le_add_left le_self_add)
  show Ends (Z.bondAt g (w.generator g)) F q
    (m.ensuring (modify (·.setRunning g false)) (w.setRunning g true))
    (m'.ensuring (modify (·.setRunning g false)) (w'.setRunning g true))
  refine Ends.bracket hbody (fun _ h => h) (fun hbreaks => Zone.Breaks.unfix hbreaks hfree)
    fun G t t' ht => ⟨?_, ?_⟩
  · rw [← hsplit]
    exact ht.stopRunning hheld.1 hfree hB
  · exact generator_setRunning_false (h.idle hfree) (ht.pinned.fixed g _ (by simp [Zone.fix]))

theorem whileRunning_ends {q : α → Bag} {m m' : Run World α} (hZ : Z.Fit C) (hheld : Z.Held F g)
    (hfree : Z.fixed g = none) (hcell : Z.cells r = none)
    (hslot : (w.generator g).frame = some r) (h : Z.Linked (A + F) w w')
    (hm : ∀ (B H : Bag) (x : Generator), B + H = F → x = { w.generator g with running := true } →
      (∀ c : Option Frame, (∀ f, c = some f → f.delegate.isSome = true) →
        (((Z.lend B).fix g x).pin r c).Fit C) →
        ((Z.lend B).fix g x).Linked (A + H) (w.setRunning g true) (w'.setRunning g true) →
          Ends ((Z.lend B).fix g x).bond H q (m (w.setRunning g true))
            (m' (w'.setRunning g true))) :
    Ends Z.bond F q (World.whileRunning g m w) (World.whileRunning g m' w') :=
  (whileRunning_keeps hZ hheld hfree hcell hslot h hm).imp (fun _ h => h) id fun _ _ _ h => h.1

end Running

end Resumable
