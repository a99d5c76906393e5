import Resumable.Proofs.Rest
import Resumable.Proofs.Sharing

set_option autoImplicit false

/-!
# Letting go early or late

Objects that are let go of may lose their last owner, and then let go of others in turn.  Where no
generator among them has a frame left, no code runs in the course of this (`World.Fades`), and it makes
no difference to a computation whether it happens before or afterwards.

The computation is carried out in both worlds: in the left one the objects have been let go of, in the
right one they are still there (`Zone.shadow`).  The objects that fade are out of reach, and of the
others the right world has more owners.  These must not lose their last owner in the left world
meanwhile.  When the objects are let go of in the right world as well, the worlds are the same
(`Ends.settle`).
-/

namespace Resumable

variable {α : Type} {F G : Bag} {w w' s s' t t' : World} {o u : Object} {os : List Object} {k n : Nat}

namespace World

/-! ## Disposing of an object without running code -/

namespace Content

/-- What an object lets go of when it is disposed of, in order. -/
def released : Content → List Object
  | .items vs => Value.objectsOfAll vs
  | .iterator (some (.list source _)) => [.list source]
  | .iterator _ => []
  | .generator g => g.closure.objects
  | .frame f => Value.objectsOfAll ((f.map Frame.owned).getD [])

/-- What is left of it. -/
def cleared : Content → Content
  | .items _ => .items []
  | .iterator _ => .iterator none
  | .generator g => .generator { g with frame := none, closure := .none }
  | .frame _ => .frame none

/-- Whether nothing has to be closed before the object goes away. -/
def IsInert : Content → Prop
  | .generator g => g.frame = none
  | _ => True

end Content

/-- Takes away all that an object holds. -/
def clear (w : World) : Object → World
  | .list r => w.setItems r []
  | .iterator r => w.setIterator r none
  | .generator g => w.setGenerator g { w.generator g with frame := none, closure := .none }
  | .frame r => w.setFrame r none

/-- Takes the last owner of an object away, and all that it holds. -/
def discard (w : World) (o : Object) : World := (w.setOwners 0 o).clear o

@[simp] theorem content_discard (w : World) (o u : Object) :
    (w.discard o).content u = if u = o then (w.content o).cleared else w.content u := by
  cases o with
  | generator g =>
      simp only [discard, clear, content_setGenerator, content_setOwners, generator_setOwners]
      rfl
  | _ =>
      simp only [discard, clear, content_setItems, content_setIterator, content_setFrame,
        content_setOwners]
      rfl

@[simp] theorem owners_discard (w : World) (o u : Object) :
    (w.discard o).owners u = if o = u then 0 else w.owners u := by
  cases o <;> simp [discard, clear]

/-- What does not change when objects are let go of. -/
structure SameAround (w t : World) : Prop where
  thread : t.thread = w.thread
  held : t.held = w.held
  surroundings : t.surroundings = w.surroundings
  sizes : t.sizes = w.sizes

theorem SameAround.trans (h : SameAround w s) (h' : SameAround s t) : SameAround w t :=
  ⟨h'.thread.trans h.thread, h'.held.trans h.held, h'.surroundings.trans h.surroundings,
    h'.sizes.trans h.sizes⟩

/-- Writing the number of owners of an object that has one makes no new objects. -/
theorem sizes_setOwners (n : Nat) (h : 1 ≤ w.owners o) : (w.setOwners n o).sizes = w.sizes := by
  cases o with
  | list r =>
      have hmade : r.index < w.lists.size := Store.made_of_owned h
      simp only [sizes, setOwners, Store.size_setOwners, max_eq_left (Nat.succ_le_of_lt hmade)]
  | iterator r =>
      have hmade : r.index < w.iterators.size := Store.made_of_owned h
      simp only [sizes, setOwners, Store.size_setOwners, max_eq_left (Nat.succ_le_of_lt hmade)]
  | generator r =>
      have hmade : r.index < w.generators.size := Store.made_of_owned h
      simp only [sizes, setOwners, Store.size_setOwners, max_eq_left (Nat.succ_le_of_lt hmade)]
  | frame r =>
      have hmade : r.index < w.frames.size := Store.made_of_owned h
      simp only [sizes, setOwners, Store.size_setOwners, max_eq_left (Nat.succ_le_of_lt hmade)]

theorem sameAround_setOwners (n : Nat) (h : 1 ≤ w.owners o) : SameAround w (w.setOwners n o) :=
  ⟨w.thread_setOwners n o, w.held_setOwners n o, w.surroundings_setOwners n o, sizes_setOwners n h⟩

theorem sizes_discard (h : 1 ≤ w.owners o) : (w.discard o).sizes = w.sizes := by
  rw [← sizes_setOwners 0 h]
  cases o with
  | list r => simp [discard, clear, sizes, setItems, setOwners]
  | iterator r => simp [discard, clear, sizes, setIterator, setOwners]
  | generator g => simp [discard, clear, sizes, setGenerator, setOwners]
  | frame r => simp [discard, clear, sizes, setFrame, setOwners]

theorem sameAround_discard (h : 1 ≤ w.owners o) : SameAround w (w.discard o) :=
  ⟨by cases o <;> rfl, by cases o <;> rfl, by cases o <;> rfl, sizes_discard h⟩

/-! ## Objects that fade -/

/-- Objects are let go of one after the other, those without owners with all that they hold, and no code
runs.  The number bounds how deep objects are disposed of within each other. -/
inductive Fades : Nat → List Object → World → World → Prop where
  | nil {k : Nat} {w : World} : Fades k [] w w
  | kept {k n : Nat} {o : Object} {os : List Object} {w t : World} (howners : w.owners o = n + 2)
      (rest : Fades k os (w.setOwners (n + 1) o) t) : Fades k (o :: os) w t
  | gone {k : Nat} {o : Object} {os : List Object} {w s t : World} (howners : w.owners o = 1)
      (hinert : (w.content o).IsInert) (inside : Fades k (w.content o).released (w.discard o) s)
      (rest : Fades (k + 1) os s t) : Fades (k + 1) (o :: os) w t

/-- An object that has lost its last owner between two worlds. -/
def Faded (w t : World) (o : Object) : Prop := 1 ≤ w.owners o ∧ t.owners o = 0

/-- Worlds with the same objects and the same around them are the same. -/
theorem ext_sameAt (haround : SameAround w t) (h : ∀ o, SameAt o w t) : t = w := by
  have hsizes := haround.sizes
  simp only [sizes, Prod.mk.injEq] at hsizes
  have hcell : ∀ {β : Type} [Inhabited β] {a b : Store β} {i : Nat},
      b.owners i = a.owners i → b.content i = a.content i → b.get i = a.get i := by
    intro β _ a b i ho hc
    unfold Store.owners at ho
    unfold Store.content at hc
    cases ha : a.get i
    cases hb : b.get i
    simp_all
  have hl : t.lists = w.lists := Store.ext_get hsizes.1 fun i =>
    hcell (h (.list ⟨i⟩)).owners (Content.items.inj (h (.list ⟨i⟩)).content)
  have hi : t.iterators = w.iterators := Store.ext_get hsizes.2.1 fun i =>
    hcell (h (.iterator ⟨i⟩)).owners (Content.iterator.inj (h (.iterator ⟨i⟩)).content)
  have hg : t.generators = w.generators := Store.ext_get hsizes.2.2.1 fun i =>
    hcell (h (.generator ⟨i⟩)).owners (Content.generator.inj (h (.generator ⟨i⟩)).content)
  have hf : t.frames = w.frames := Store.ext_get hsizes.2.2.2 fun i =>
    hcell (h (.frame ⟨i⟩)).owners (Content.frame.inj (h (.frame ⟨i⟩)).content)
  have hsurroundings := haround.surroundings
  simp only [surroundings, Surroundings.mk.injEq] at hsurroundings
  have hthread := haround.thread
  have hheld := haround.held
  cases w
  cases t
  simp_all

/-- Nothing but owners and what they held has changed between two worlds. -/
structure Shrinks (w t : World) : Prop where
  around : SameAround w t
  owners : ∀ o, t.owners o ≤ w.owners o
  content : ∀ o, ¬ Faded w t o → t.content o = w.content o

theorem Shrinks.trans (h : Shrinks w s) (h' : Shrinks s t) : Shrinks w t where
  around := h.around.trans h'.around
  owners o := (h'.owners o).trans (h.owners o)
  content o ho := by
    have := h.owners o
    have := h'.owners o
    rw [h'.content o fun hf => ho ⟨by have := hf.1; omega, hf.2⟩,
      h.content o fun hf => ho ⟨hf.1, by have := hf.2; omega⟩]

theorem shrinks_setOwners (h : w.owners o = n + 2) : Shrinks w (w.setOwners (n + 1) o) where
  around := sameAround_setOwners _ (by omega)
  owners u := by
    rw [owners_setOwners]
    split
    · next heq => rw [← heq]; omega
    · exact le_rfl
  content u _ := w.content_setOwners _ o u

theorem shrinks_discard (h : w.owners o = 1) : Shrinks w (w.discard o) where
  around := sameAround_discard h.ge
  owners u := by
    rw [owners_discard]
    split
    · exact Nat.zero_le _
    · exact le_rfl
  content u hu := by
    rw [content_discard, if_neg]
    rintro rfl
    exact hu ⟨h.ge, by rw [owners_discard, if_pos rfl]⟩

theorem Fades.shrinks (h : Fades k os w t) : Shrinks w t := by
  induction h with
  | nil => exact ⟨⟨rfl, rfl, rfl, rfl⟩, fun _ => le_rfl, fun _ _ => rfl⟩
  | kept howners _ ih => exact (shrinks_setOwners howners).trans ih
  | gone howners _ _ _ ihinside ihrest =>
      exact ((shrinks_discard howners).trans ihinside).trans ihrest

/-! ## Fading in another world -/

/-- A world in which the objects that fade are what they are in the first world, and the others have
owners enough to outlast it. -/
structure Covers (w t w' : World) : Prop where
  same : ∀ o, Faded w t o → SameAt o w w'
  enough : ∀ o, t.owners o < w.owners o → 1 ≤ t.owners o →
    w.owners o + 1 ≤ w'.owners o + t.owners o

/-- What has become of such a world: the same objects have faded, and the others have lost as many
owners. -/
structure Covered (w t w' t' : World) : Prop where
  same : ∀ o, Faded w t o → SameAt o t t'
  owners : ∀ o, ¬ Faded w t o → t'.owners o + w.owners o = w'.owners o + t.owners o

/-- One owner less of an object that has another one. -/
theorem Covers.setOwners (h : Covers w t w') (howners : w.owners o = n + 2)
    (hshrinks : Shrinks (w.setOwners (n + 1) o) t) :
    ∃ n', w'.owners o = n' + 2 ∧ Covers (w.setOwners (n + 1) o) t (w'.setOwners (n' + 1) o) := by
  have hle := hshrinks.owners o
  rw [owners_setOwners, if_pos rfl] at hle
  have htwo : 2 ≤ w'.owners o ∧ (t.owners o = 0 → w'.owners o = n + 2) := by
    by_cases hgone : t.owners o = 0
    · have := (h.same o ⟨by omega, hgone⟩).owners
      omega
    · have := h.enough o (by omega) (by omega)
      omega
  obtain ⟨n', hn'⟩ : ∃ n', w'.owners o = n' + 2 := ⟨_, (Nat.sub_add_cancel htwo.1).symm⟩
  refine ⟨n', hn', fun u hu => ?_, fun u hless hleft => ?_⟩
  · by_cases heq : o = u
    · subst heq
      have hsame := h.same o ⟨by omega, hu.2⟩
      have := htwo.2 hu.2
      refine ⟨?_, by rw [content_setOwners, content_setOwners, hsame.content]⟩
      rw [owners_setOwners, owners_setOwners, if_pos rfl, if_pos rfl]
      omega
    · have hfaded : Faded w t u := ⟨by simpa [heq] using hu.1, hu.2⟩
      have hsame := h.same u hfaded
      exact ⟨by simp [heq, hsame.owners], by simp [hsame.content]⟩
  · by_cases heq : o = u
    · subst heq
      have := h.enough o (by omega) hleft
      rw [owners_setOwners, owners_setOwners, if_pos rfl, if_pos rfl]
      omega
    · simpa [heq] using h.enough u (by simpa [heq] using hless) hleft

/-- An object goes away. -/
theorem Covers.discard (h : Covers w t w') (howners : w.owners o = 1)
    (hshrinks : Shrinks (w.discard o) t) :
    SameAt o w w' ∧ Covers (w.discard o) t (w'.discard o) := by
  have hgone := hshrinks.owners o
  rw [owners_discard, if_pos rfl] at hgone
  have hne : ∀ u, 1 ≤ (w.discard o).owners u → o ≠ u := fun u hu heq => by simp [heq] at hu
  refine ⟨h.same o ⟨howners.ge, Nat.le_zero.1 hgone⟩, fun u hu => ?_, fun u hless hleft => ?_⟩
  · have hu' := hne u hu.1
    have hsame := h.same u ⟨by simpa [hu'] using hu.1, hu.2⟩
    exact ⟨by simp [hu', hsame.owners], by simp [Ne.symm hu', hsame.content]⟩
  · have hu' := hne u (by omega)
    simpa [hu'] using h.enough u (by simpa [hu'] using hless) hleft

/-- Less is asked of a world for a part of the objects. -/
theorem Covers.before (h : Covers w t w') (hrest : Shrinks s t) : Covers w s w' where
  same u hu := h.same u ⟨hu.1, Nat.le_zero.1 (hu.2 ▸ hrest.owners u)⟩
  enough u hless hleft := by
    have hle := hrest.owners u
    by_cases hgone : t.owners u = 0
    · have := (h.same u ⟨by omega, hgone⟩).owners
      omega
    · have := h.enough u (by omega) (by omega)
      omega

/-- What holds of a world after a part of the objects has been let go of. -/
theorem Covers.rest (h : Covers w t w') (hinside : Shrinks w s) (hinside' : Shrinks w' t')
    (hcovered : Covered w s w' t') : Covers s t t' := by
  have hlasts : ∀ u, 1 ≤ s.owners u → ¬ Faded w s u := fun u hu hf => by
    have := hf.2
    omega
  refine ⟨fun u hu => ?_, fun u hless hleft => ?_⟩
  · have hlast := hlasts u hu.1
    have hsame := h.same u ⟨hu.1.trans (hinside.owners u), hu.2⟩
    have howners := hcovered.owners u hlast
    rw [hsame.owners] at howners
    have howners : t'.owners u = s.owners u := by omega
    refine ⟨howners, ?_⟩
    have hlast' : ¬ Faded w' t' u := fun hf => by
      have := hf.2
      have := hu.1
      omega
    rw [hinside'.content u hlast', hinside.content u hlast, hsame.content]
  · have := hcovered.owners u (hlasts u (by omega))
    have := hinside.owners u
    have := h.enough u (by omega) hleft
    omega

/-- Putting two parts together. -/
theorem Covered.trans (h : Covered w s w' s') (h' : Covered s t s' t')
    (hinside : Shrinks w s) (hrest : Shrinks s t) (hrest' : Shrinks s' t') : Covered w t w' t' where
  same u hu := by
    by_cases hfaded : Faded w s u
    · have hsame := h.same u hfaded
      have hs := hfaded.2
      have hs' : s'.owners u = 0 := by rw [hsame.owners, hs]
      have := hrest'.owners u
      refine ⟨by have := hu.2; omega, ?_⟩
      rw [hrest'.content u fun hf => by have := hf.1; omega,
        hrest.content u fun hf => by have := hf.1; omega, hsame.content]
    · refine h'.same u ⟨?_, hu.2⟩
      by_contra hnone
      exact hfaded ⟨hu.1, by omega⟩
  owners u hu := by
    have hle := hrest.owners u
    have := h.owners u fun hf => hu ⟨hf.1, by have := hf.2; omega⟩
    have := h'.owners u fun hf => hu ⟨hf.1.trans (hinside.owners u), hf.2⟩
    omega

/-- What has become of a world where an object went away first. -/
theorem Covered.of_discard (h : Covered (w.discard o) t (w'.discard o) t') (hsame : SameAt o w w')
    (howners : w.owners o = 1) (hshrinks : Shrinks (w.discard o) t)
    (hshrinks' : Shrinks (w'.discard o) t') : Covered w t w' t' where
  same u hu := by
    by_cases heq : o = u
    · subst heq
      have hgone' := hshrinks'.owners o
      rw [owners_discard, if_pos rfl] at hgone'
      refine ⟨by have := hu.2; omega, ?_⟩
      rw [hshrinks'.content o fun hf => by simpa using hf.1,
        hshrinks.content o fun hf => by simpa using hf.1, content_discard, content_discard,
        if_pos rfl, if_pos rfl, hsame.content]
    · exact h.same u ⟨by simpa [heq] using hu.1, hu.2⟩
  owners u hu := by
    have hne : o ≠ u := by
      rintro rfl
      have hgone := hshrinks.owners o
      rw [owners_discard, if_pos rfl] at hgone
      exact hu ⟨howners.ge, Nat.le_zero.1 hgone⟩
    simpa [hne] using h.owners u fun hf => hu ⟨by simpa [hne] using hf.1, hf.2⟩

/-- Objects fade in another world as they do in this one. -/
theorem Fades.transport (h : Fades k os w t) (hcovers : Covers w t w') :
    ∃ t', Fades k os w' t' ∧ Covered w t w' t' := by
  induction h generalizing w' with
  | nil =>
      refine ⟨w', .nil, fun u hu => ?_, fun _ _ => rfl⟩
      have := hu.1
      have := hu.2
      omega
  | @kept k n o os w t howners rest ih =>
      obtain ⟨n', howners', hcovers'⟩ := hcovers.setOwners howners rest.shrinks
      obtain ⟨t', hfades, hcovered⟩ := ih hcovers'
      refine ⟨t', .kept howners' hfades, fun u hu => hcovered.same u ⟨?_, hu.2⟩, fun u hu => ?_⟩
      · rw [owners_setOwners]
        split
        · omega
        · exact hu.1
      · have hstays := hcovered.owners u fun hf => hu ⟨?_, hf.2⟩
        · rw [owners_setOwners, owners_setOwners] at hstays
          split at hstays
          · next heq => subst heq; omega
          · exact hstays
        · have hone := hf.1
          rw [owners_setOwners] at hone
          split at hone
          · next heq => rw [← heq]; omega
          · exact hone
  | @gone k o os w s t howners hinert inside rest ihinside ihrest =>
      have hshrinks := inside.shrinks.trans rest.shrinks
      obtain ⟨hsame, hdiscarded⟩ := hcovers.discard howners hshrinks
      obtain ⟨s', hinside', hcovered⟩ := ihinside (hdiscarded.before rest.shrinks)
      obtain ⟨t', hrest', hcovered'⟩ :=
        ihrest (hdiscarded.rest inside.shrinks hinside'.shrinks hcovered)
      refine ⟨t', .gone (hsame.owners.trans howners) (hsame.content ▸ hinert)
        (hsame.content ▸ hinside') hrest', ?_⟩
      exact (hcovered.trans hcovered' inside.shrinks rest.shrinks hrest'.shrinks).of_discard hsame
        howners hshrinks (hinside'.shrinks.trans hrest'.shrinks)

end World

/-! ## The machine lets go of objects that fade -/

namespace Engine

variable {e : Engine}

/-- Disposing of an object where nothing has to be closed. -/
theorem reclaim_of_inert (hinert : (w.content o).IsInert)
    (h : e.releaseObjects (w.content o).released (w.clear o) = .ok () t) :
    e.reclaim o w = .ok () t := by
  cases o with
  | list r => exact h
  | frame r => exact h
  | iterator r =>
      unfold reclaim
      simp only [Run.bind_apply, Run.get_apply, Run.modify_apply]
      simp only [World.content] at h
      cases hi : w.iterator? r with
      | none => rw [hi] at h; exact h
      | some i =>
          rw [hi] at h
          cases i with
          | list source index => exact h
          | scripted i => exact h
  | generator g =>
      have hframe : (w.generator g).frame = none := hinert
      have hfinalized : e.finalize g w = .ok () w := by
        unfold finalize
        simp only [Run.bind_apply, Run.get_apply, hframe]
        rfl
      refine Run.ensuring_ok hfinalized ?_
      simp only [Run.bind_apply, Run.get_apply, Run.modify_apply, hframe]
      rw [← h]
      simp [releaseAll, Value.objectsOfAll, World.content, World.Content.released, World.clear]

end Engine

theorem World.Fades.releaseObjects (h : Fades k os w t) (hk : k ≤ n) :
    (Machine.engine n).releaseObjects os w = .ok () t := by
  induction h generalizing n with
  | nil => rfl
  | kept howners _ ih => exact Run.ensuring_ok (Engine.releaseObject_of_two_le _ howners) (ih hk)
  | @gone k o os w s t howners hinert _ _ ihinside ihrest =>
      obtain ⟨m, rfl⟩ : ∃ m, n = m + 1 := ⟨n - 1, by omega⟩
      have hdisposed : (Machine.engine m).reclaim o (w.setOwners 0 o) = .ok () s := by
        refine Engine.reclaim_of_inert ?_ ?_
        · rwa [World.content_setOwners]
        · rw [World.content_setOwners]
          exact ihinside (by omega)
      refine Run.ensuring_ok ?_ (ihrest hk)
      unfold Engine.releaseObject
      rw [howners]
      have hasked : (Machine.engine (m + 1)).perform (.reclaim o) (w.setOwners 0 o) = .ok .none s :=
        Run.bind_ok hdisposed
      simp only [hasked]

/-! ## The worlds before and after -/

namespace Zone

variable {Z : Zone}

open World (Faded SameAt)

/-- How many owners an object loses, apart from those that fade. -/
def loss (w t : World) : Bag := fun o => if t.owners o = 0 then 0 else w.owners o - t.owners o

/-- The zone of a computation that goes on after objects have been let go of in the left world, and
before this happens in the right one. -/
def shadow (Z : Zone) (w t : World) : Zone := { Z with
  hidden := Faded w t
  sealed := fun o => Faded w t o ∨ Z.sealed o
  right := Z.right + loss w t
  stash := t
  beyond := w }

/-- The objects that lose owners and do not fade have a holder outside or are spared. -/
def Lasting (Z : Zone) (w t : World) : Prop :=
  ∀ o, t.owners o < w.owners o → 1 ≤ t.owners o → 1 ≤ Z.left o ∨ Z.spared o

/-- A zone in which nothing is hidden, and the worlds do not differ from outside. -/
structure Even (Z : Zone) : Prop where
  hidden : ∀ o, ¬ Z.hidden o
  thread : Z.leftThread = Z.rightThread
  holders : Z.left = Z.right

theorem Level.even {L : Law} (h : Level L Z) : Z.Even := ⟨h.hidden, h.thread, h.holders⟩

theorem Linked.not_faded_of_left (h : Z.Linked F t t') (hZ : Z.Even) {o : Object}
    (ho : Z.sealed o ∨ 1 ≤ Z.left o) (hw : Z.Linked G w w') : ¬ Faded w t o := by
  rintro ⟨hw', ht⟩
  by_cases hsealed : Z.sealed o
  · have := hw.pinned.vacant o hsealed (hZ.hidden o)
    omega
  · have := h.accounted.owned o hsealed
    have := ho.resolve_left hsealed
    omega

theorem Valid.shadow (h : Z.Valid) (hZ : Z.Even) (hlasting : Z.Lasting w t) (hw : Z.Linked F w w')
    (ht : Z.Linked G t t') : (Z.shadow w t).Valid := { h with
  sealed_of_hidden := fun o ho => Or.inl ho
  holders := fun o => by
    show Z.left o = (Z.right + loss w t) o ∨ 1 ≤ Z.left o ∧ 1 ≤ (Z.right + loss w t) o ∨
      Z.spared o ∧ Z.left o ≤ (Z.right + loss w t) o
    rw [Pi.add_apply, ← hZ.holders]
    by_cases hloss : loss w t o = 0
    · exact .inl (by rw [hloss, Nat.add_zero])
    · have hlost : t.owners o < w.owners o ∧ 1 ≤ t.owners o := by
        unfold loss at hloss
        split at hloss <;> omega
      rcases hlasting o hlost.1 hlost.2 with hleft | hspared
      · exact .inr (.inl ⟨hleft, by omega⟩)
      · exact .inr (.inr ⟨hspared, Nat.le_add_right _ _⟩)
  kept := fun g x hg => (h.kept g x hg).imp_left Or.inr
  locked := fun g x hg => (h.locked g x hg).imp_left fun hh => absurd hh (hZ.hidden _)
  cell := fun r f hr => by
    rcases h.cell r f hr with hh | ⟨g, x, _, hg, hlocked, hslot⟩
    · exact absurd hh (hZ.hidden _)
    · exact Or.inr ⟨g, x, ht.not_faded_of_left hZ (h.kept g x hg) hw, hg, hlocked, hslot⟩ }

/-- More is out of reach in the shadow, and so less has to be accounted for. -/
theorem Linked.shadow (hZ : Z.Even) (hshrinks : World.Shrinks w t) (hw : Z.Linked F w w)
    (ht : Z.Linked G t t) : (Z.shadow w t).Linked G t w where
  pinned := { ht.pinned with
    stash := fun o _ => .refl o t
    vacant := fun o ho hh => ht.pinned.vacant o (ho.resolve_left hh) (hZ.hidden o)
    lists := fun r hr => by
      rcases hr with hfaded | hsealed
      · have hmade : r.index < w.lists.size := Store.made_of_owned hfaded.1
        have hsizes := hshrinks.around.sizes
        simp only [World.sizes, Prod.mk.injEq] at hsizes
        omega
      · exact ht.pinned.lists r hsealed
    iterators := fun r hr => by
      rcases hr with hfaded | hsealed
      · have hmade : r.index < w.iterators.size := Store.made_of_owned hfaded.1
        have hsizes := hshrinks.around.sizes
        simp only [World.sizes, Prod.mk.injEq] at hsizes
        omega
      · exact ht.pinned.iterators r hsealed }
  alike :=
    { thread := hw.alike.thread
      surroundings := hshrinks.around.surroundings.symm
      sizes := hshrinks.around.sizes.symm
      items := fun r hr => by simpa [World.content] using (hshrinks.content _ hr).symm
      iterator := fun r hr => by simpa [World.content] using (hshrinks.content _ hr).symm
      generator := fun g hg => by simpa [World.content] using (hshrinks.content _ hg).symm
      frame := fun r hr => by simpa [World.content] using (hshrinks.content _ hr).symm
      owners := fun o ho => by
        have hle := hshrinks.owners o
        have hkept : t.owners o = 0 → w.owners o = 0 := fun ht => by
          by_contra hw
          exact ho ⟨Nat.one_le_iff_ne_zero.2 hw, ht⟩
        show w.owners o + Z.left o = t.owners o + (Z.right + loss w t) o
        rw [hZ.holders, Pi.add_apply]
        unfold loss
        split <;> omega
      beyond := fun o _ => .refl o w }
  accounted :=
    { owned := fun o ho => by
        have hle : t.references (Faded w t) o ≤ t.references Z.hidden o :=
          Bag.apply_le (World.references_mono fun u hu => absurd hu (hZ.hidden u)) o
        have := ht.accounted.owned o fun hs => ho (Or.inr hs)
        show t.references (Faded w t) o + G o + Z.left o ≤ t.owners o
        omega
      unseen := fun o ho => by
        have hle : t.references (Faded w t) o ≤ t.references Z.hidden o :=
          Bag.apply_le (World.references_mono fun u hu => absurd hu (hZ.hidden u)) o
        show t.references (Faded w t) o + G o = 0
        by_cases hsealed : Z.sealed o
        · have := ht.accounted.unseen o hsealed
          omega
        · have := ht.accounted.owned o hsealed
          have := (ho.resolve_right hsealed).2
          omega
      slots := fun g h r _ _ => ht.accounted.slots g h r (hZ.hidden _) (hZ.hidden _)
      seated := fun o _ hone => by
        have hseated := ht.accounted.seated o (hZ.hidden o) hone
        cases o <;> exact hseated }
  tame := ht.tame

/-- Whatever has happened meanwhile, the objects fade in the right world as they did in the left one,
and then the worlds are the same. -/
theorem Linked.fades (h : (Z.shadow w t).Linked G s w') (hZ : Z.Even) (hw : Z.Linked F w w)
    (hlasting : Z.Lasting w t) (hfades : World.Fades k os w t) (hheld : w'.held = s.held) :
    World.Fades k os w' s := by
  have howners : ∀ o, ¬ Faded w t o → w'.owners o = s.owners o + loss w t o := fun o ho => by
    have hsame := h.alike.owners o ho
    have hright : (Z.shadow w t).right o = Z.left o + loss w t o := by
      rw [hZ.holders]
      rfl
    have hleft : (Z.shadow w t).left o = Z.left o := rfl
    omega
  have hlasts : ∀ o, t.owners o < w.owners o → 1 ≤ t.owners o → 1 ≤ s.owners o :=
    fun o hless hleft => by
      have hfaded : ¬ Faded w t o := fun hf => by
        have := hf.2
        omega
      have hsealed : ¬ (Z.shadow w t).sealed o := fun hs => by
        have := hw.pinned.vacant o (hs.resolve_left hfaded) (hZ.hidden o)
        omega
      rcases hlasting o hless hleft with hholder | hspared
      · have howned := h.accounted.owned o hsealed
        have hleft : (Z.shadow w t).left o = Z.left o := rfl
        omega
      · exact h.pinned.spared o hspared
  have hloss : ∀ o, 1 ≤ t.owners o → loss w t o = w.owners o - t.owners o := fun o ho =>
    if_neg (by omega)
  obtain ⟨s', hfades', hcovered⟩ := hfades.transport
    (show World.Covers w t w' from ⟨h.alike.beyond, fun o hless hleft => by
      have := howners o fun hf => by have := hf.2; omega
      have := hlasts o hless hleft
      have := hloss o hleft
      omega⟩)
  suffices hsame : s' = s by rwa [hsame] at hfades'
  have hshrinks := hfades'.shrinks
  refine World.ext_sameAt ⟨?_, hshrinks.around.held.trans hheld, ?_, ?_⟩ fun o => ?_
  · rw [hshrinks.around.thread, h.alike.thread, h.pinned.thread]
    exact hZ.thread.symm
  · exact hshrinks.around.surroundings.trans h.alike.surroundings
  · exact hshrinks.around.sizes.trans h.alike.sizes
  · by_cases hfaded : Faded w t o
    · have hleft := h.pinned.stash o hfaded
      have hright := hcovered.same o hfaded
      exact ⟨hright.owners.trans hleft.owners.symm, hright.content.trans hleft.content.symm⟩
    · have hle := hfades.shrinks.owners o
      have hmany := howners o hfaded
      have hkept := hcovered.owners o hfaded
      have hcount : s'.owners o = s.owners o := by
        by_cases hnone : t.owners o = 0
        · have hw : w.owners o = 0 := by
            by_contra hw
            exact hfaded ⟨Nat.one_le_iff_ne_zero.2 hw, hnone⟩
          have : loss w t o = 0 := if_pos hnone
          omega
        · have := hloss o (Nat.one_le_iff_ne_zero.2 hnone)
          omega
      refine ⟨hcount, ?_⟩
      have hlast : ¬ Faded w' s' o := fun hf => by
        have hnone := hf.2
        have hone := hf.1
        by_cases hless : t.owners o < w.owners o
        · have := hlasts o hless (by
            by_contra hgone
            exact hfaded ⟨by omega, by omega⟩)
          omega
        · omega
      rw [hshrinks.content o hlast]
      cases o with
      | list r => exact congrArg World.Content.items (h.alike.items r hfaded)
      | iterator r => exact congrArg World.Content.iterator (h.alike.iterator r hfaded)
      | generator g => exact congrArg World.Content.generator (h.alike.generator g hfaded)
      | frame r => exact congrArg World.Content.frame (h.alike.frame r hfaded)

end Zone

/-! ## Letting go afterwards -/

theorem Run.ensuring_aborted {σ : Type} {m : Run σ α} {c : Run σ Unit} {x y z : σ}
    (h : m x = .error .aborted y) (hc : c y = .ok () z) : m.ensuring c x = .error .aborted z := by
  unfold Run.ensuring
  rw [Run.bind_apply]
  unfold Run.onInterruption
  simp only [h, hc]

/-- A computation in the right world after which objects are let go of comes to the same end as in the
left world, where this has happened before. -/
theorem Ends.settle {Z : Zone} {q : α → Bag} {m m' : Run World α} (hZ : Z.Even)
    (hw : Z.Linked F w w) (hlasting : Z.Lasting w t) (hfades : World.Fades k os w t) (hk : k ≤ n)
    (hrule : ∀ s, Z.law.rule s → s.held = w.held) (hheld : ∀ s, m'.EndsIn w s → s.held = w.held)
    (h : Ends (Z.shadow w t).bond G q (m t) (m' w)) (hfuel : ∀ s, m t ≠ .error .outOfFuel s) :
    m'.ensuring ((Machine.engine n).releaseObjects os) w = m t := by
  have hback : ∀ {K : Bag} {s s' : World}, (Z.shadow w t).Linked K s s' → m'.EndsIn w s' →
      (Machine.engine n).releaseObjects os s' = .ok () s := fun hlinked hends =>
    (hlinked.fades hZ hw hlasting hfades
      ((hheld _ hends).trans (hrule _ hlinked.pinned.law).symm)).releaseObjects hk
  generalize hm : m t = x at h hfuel ⊢
  generalize hm' : m' w = x' at h
  cases h with
  | outOfFuel => exact absurd rfl (hfuel _)
  | ok h => exact Run.ensuring_ok hm' (hback h (Or.inl ⟨_, hm'⟩))
  | raised h => exact Run.ensuring_raised hm' (hback h (Or.inr ⟨.raised _, nofun, hm'⟩))
  | aborted h _ => exact Run.ensuring_aborted hm' (hback h (Or.inr ⟨.aborted, nofun, hm'⟩))

/-! ## Objects that are spared -/

/-- What is held from outside stays as it is. -/
def Law.holding (notes : List Nat) : Law where
  rule w := w.held = notes
  keeps h hw := hw.held.trans h
  broken _ := False
  bars _ _ := False

instance (notes : List Nat) : (Law.holding notes).Free := ⟨fun _ _ h => h⟩

namespace World

/-- An object that loses owners between two worlds, but not the last one. -/
def Outlasts (w t : World) (o : Object) : Prop := t.owners o < w.owners o ∧ 1 ≤ t.owners o

instance (w t : World) (o : Object) : Decidable (Outlasts w t o) :=
  inferInstanceAs (Decidable (_ ∧ _))

end World

/-- Runs are broken off before an object is disposed of that has lost some owners between two worlds, but
not the last one. -/
def Law.sparing (w t : World) : Law where
  rule s := s.held = w.held
  keeps h hs := hs.held.trans h
  broken _ := True
  bars request _ := ∃ o, request = .reclaim o ∧ World.Outlasts w t o

/-- The observer that breaks such runs off. -/
def Machine.sparing (w t : World) : Observer where
  note _ s := s.held
  stops
    | .asked (.reclaim o), _ => decide (World.Outlasts w t o)
    | _, _ => false

namespace Zone

/-- The zones under a law. -/
def Under (L : Law) (Z : Zone) : Prop := Z.law = L

theorem under_inherited (L : Law) : Inherited (Under L) := fun _ _ h hext => hext.law.trans h

theorem Under.free {L : Law} [h : L.Free] {Z : Zone} (hZ : Under L Z) : Z.law.Free := by
  rwa [show Z.law = L from hZ]

end Zone

/-- A run under the observer is broken off where the law says so, and else goes on as it would. -/
theorem Machine.sparing_attends (w t : World) :
    Attends (Zone.Under (.sparing w t)) (sparing w t) where
  breaks {Z _ _ _ _} hZ _ _ _ := by
    rw [show Z.law = _ from hZ.property]
    trivial
  goesOn {Z request F s s'} hZ hgranted hs hgoes := by
    have hlaw : Z.law = .sparing w t := hZ.property
    have hrule : ∀ {x : World}, Z.law.rule x → Z.law.rule (x.noted x.held) := fun h => h
    refine ⟨Z.law, hZ, hrule hs.pinned.law, Iff.rfl, fun hbarred => ?_, fun _ h => h,
      fun ht => hrule ht.pinned.law, fun _ hstops => ?_⟩
    · rw [hlaw] at hbarred
      obtain ⟨o, rfl, ho⟩ := hbarred
      exact absurd ho (of_decide_eq_false hgoes)
    · cases hstops
  spares {Z o s} hZ ho := by
    have hlaw : Z.law = .sparing w t := hZ.property
    have hbarred := hZ.valid.spared o ho s
    rw [hlaw] at hbarred ⊢
    obtain ⟨u, hu, hlasts⟩ := hbarred
    obtain rfl := Request.reclaim.inj hu
    exact ⟨decide_eq_true hlasts, trivial⟩

namespace Zone

variable {Z : Zone}

/-- The zone in which the objects are spared that lose some owners, but not the last one. -/
def spare (Z : Zone) (w t : World) : Zone := { Z.decree (.sparing w t) with
  spared := World.Outlasts w t }

theorem Linked.spare (h : Z.Linked F s s') (hheld : s.held = w.held)
    (howned : ∀ o, World.Outlasts w t o → 1 ≤ s.owners o) : (Z.spare w t).Linked F s s' where
  pinned := { h.pinned with
    law := hheld
    spared := howned }
  alike := { h.alike with }
  accounted := { h.accounted with }
  tame := False.elim

theorem Fit.spare {L : Law} [L.Free] (h : Z.Fit (Level L)) (w t : World) :
    (Z.spare w t).Fit (Under (.sparing w t)) where
  inherited := under_inherited _
  property := rfl
  valid :=
    { h.decree (L := .sparing w t) |>.valid with
      holders := fun o => Or.inl (congrFun h.property.holders o)
      spared := fun o ho _ => ⟨o, rfl, ho⟩ }
  room := Or.inl h.property.thread

theorem Fit.under {L : Law} (h : Z.Fit (Level L)) : Z.Fit (Under L) :=
  ⟨under_inherited L, h.property.law, h.valid, h.room⟩

theorem even_spare {L : Law} (h : Level L Z) (w t : World) : (Z.spare w t).Even :=
  ⟨h.hidden, h.thread, h.holders⟩

theorem lasting_spare (Z : Zone) (w t : World) : (Z.spare w t).Lasting w t :=
  fun _ hless hleft => Or.inr ⟨hless, hleft⟩

theorem Open.spare {r : FrameRef} (h : Z.Open F r) (w t : World) : (Z.spare w t).Open F r :=
  { h with vacant := fun _ htame => htame.elim }

theorem Held.shadow {g : GeneratorRef} (h : Z.Held G g) (hZ : Z.Even) (hw : Z.Linked F w w')
    (ht : Z.Linked G t t') : (Z.shadow w t).Held G g := by
  by_cases hsealed : Z.sealed (.generator g)
  · exact ⟨ht.not_faded_of_left hZ (Or.inl hsealed) hw, Or.inl (Or.inr hsealed)⟩
  · have hone := h.2.resolve_left hsealed
    have := ht.accounted.owned _ hsealed
    exact ⟨fun hfaded => by have := hfaded.2; omega, Or.inr hone⟩

theorem Open.shadow {r : FrameRef} (h : Z.Open G r) (hZ : Z.Even) (ht : Z.Linked G t t')
    (hheld : 1 ≤ G (.frame r)) : (Z.shadow w t).Open G r where
  unsealed hs := by
    have := ht.accounted.owned _ h.unsealed
    exact hs.elim (fun hfaded => by have := hfaded.2; omega) h.unsealed
  loose := h.loose
  vacant hvacant htame hclear := h.vacant hvacant htame ⟨hclear.1, fun s hs => by
    obtain ⟨g, x, _, hrest⟩ := hclear.2 s hs
    exact ⟨g, x, hZ.hidden _, hrest⟩⟩
  held := Nat.le_add_right_of_le hheld

theorem Fit.shadow {L : Law} (h : Z.Fit (Under L)) (hZ : Z.Even) (hlasting : Z.Lasting w t)
    (hw : Z.Linked F w w') (ht : Z.Linked G t t') : (Z.shadow w t).Fit (Under L) :=
  ⟨h.inherited, h.property, h.valid.shadow hZ hlasting hw ht, h.room⟩

end Zone

/-! ## What somebody else keeps -/

/-- Owners that are added to objects that have one fade without a trace. -/
theorem World.fades_addOwners (h : ∀ o ∈ os, 1 ≤ w.owners o) : Fades k os (w.addOwners os) w := by
  induction os with
  | nil => exact .nil
  | cons o os ih =>
      have hlast : w.addOwners (o :: os) = (w.addOwners os).addOwners [o] := by
        rw [← addOwners_append]
        exact addOwners_perm (List.perm_append_singleton o os).symm w
      have hone : 1 ≤ (w.addOwners os).owners o :=
        le_of_le_of_eq (Nat.le_add_right_of_le (h o List.mem_cons_self))
          (w.owners_addOwners os o).symm
      obtain ⟨m, hm⟩ : ∃ m, (w.addOwners os).owners o = m + 1 := ⟨_, (Nat.sub_add_cancel hone).symm⟩
      have hback : ((w.addOwners os).addOwners [o]).setOwners (m + 1) o = w.addOwners os := by
        show ((w.addOwners os).setOwners ((w.addOwners os).owners o + 1) o).setOwners (m + 1) o = _
        rw [setOwners_setOwners, ← hm, setOwners_self hone]
      rw [hlast]
      refine .kept (n := m) ?_ ?_
      · show ((w.addOwners os).setOwners ((w.addOwners os).owners o + 1) o).owners o = m + 2
        rw [owners_setOwners, if_pos rfl, hm]
      · rw [hback]
        exact ih fun u hu => h u (List.mem_cons_of_mem o hu)

/-- What a computation may rely on, in another world and zone: no less is held, and nothing is different
about the generators, the frames and the thread. -/
structure Zone.Keeping (Z : Zone) (F : Bag) (w : World) (L : Law) (Y : Zone) (G : Bag) (t : World) :
    Prop where
  fit : Y.Fit (Under L)
  held : ∀ {g : GeneratorRef}, Z.Held F g → Y.Held G g
  more : F ≤ G
  generator : ∀ g, t.generator g = w.generator g
  frame : ∀ r, t.frame? r = w.frame? r
  thread : t.thread = w.thread

/-- It makes no difference to a computation whether somebody else keeps a value meanwhile, and lets go
of it afterwards.  The computation may be carried out with more fuel then. -/
theorem ensuring_release_of_kept {L : Law} [L.Free] {Z : Zone} {v : Value} {q : α → Bag}
    {m m' : Run World α} (hZ : Z.Fit (Zone.Level L)) (h : Z.Linked (holds v + F) w w)
    (hm : ∀ {Y : Zone} {G : Bag} {t t' : World}, Z.Keeping F w (.holding w.held) Y G t →
      holds v + F ≤ G + Y.left → Y.Linked G t t' →
        (∃ H, Ends Y.bond H q (m t) (m' t')) ∧ ∃ H, Ends Y.bond H q (m' t) (m' t'))
    (hfuel : ∀ s, m w ≠ .error .outOfFuel s) :
    m'.ensuring ((Machine.engine n).release v) (w.retain v) = m w := by
  have hcovered : Z.Covered w (holds v) := h.covered le_self_add
  have howned : ∀ o ∈ v.objects, 1 ≤ w.owners o := fun o ho => (hcovered o (Bag.one_le_of_mem ho)).2
  let Z' := (Z.decree (.holding w.held)).lend (holds v)
  have hfit : Z'.Fit (Zone.Level (.holding w.held)) := hZ.decree.lend _
  have heven := hfit.property.even
  have hafter : Z'.Linked F w w := (h.decree rfl False.elim).lend
  have hbefore : Z'.Linked (holds v + F) (w.retain v) (w.retain v) := hafter.retain hfit.valid hcovered
  have hheld : ∀ {g : GeneratorRef}, Z.Held F g → Z'.Held F g := fun hg =>
    ⟨hg.1, hg.2.imp_right fun hone => by
      show 1 ≤ F _ + (Z.left + holds v) _
      rw [Pi.add_apply]
      omega⟩
  have hlasting : Z'.Lasting (w.retain v) w := fun o hless _ => Or.inl <| by
    rw [World.retain, World.owners_addOwners, ← holds_value] at hless
    show 1 ≤ (Z.left + holds v) o
    rw [Pi.add_apply]
    omega
  have hfades : World.Fades n v.objects (w.retain v) w := World.fades_addOwners howned
  have hkept : holds v + F ≤ F + (Z.left + holds v) := fun o => by
    simp only [Pi.add_apply]
    omega
  have hnotes : (w.retain v).held = w.held := hfades.shrinks.around.held.symm
  obtain ⟨⟨H, hends⟩, -⟩ := hm ⟨hfit.under.shadow heven hlasting hbefore hafter,
    fun hg => (hheld hg).shadow heven hbefore hafter, le_rfl, fun _ => rfl, fun _ => rfl, rfl⟩
    hkept (Zone.Linked.shadow heven hfades.shrinks hbefore hafter)
  refine Ends.settle heven hbefore hlasting hfades le_rfl (fun s hs => ?_) (fun s hs => ?_) hends hfuel
  · exact Eq.trans hs hnotes.symm
  · obtain ⟨-, K, hends⟩ := hm ⟨hfit.under, fun hg => (hheld hg).le le_add_self, le_add_self,
      generator_addOwners w _, frame_addOwners w _, thread_addOwners w _⟩
      (le_trans hkept (add_le_add_left le_add_self _)) hbefore
    obtain ⟨s', hrelated⟩ := hends.related hs
    exact Eq.trans hrelated.pinned.law hnotes.symm

/-! ## What outlasts a computation -/

/-- The observer that breaks a run off before one of the objects is disposed of. -/
def Machine.keeping (os : List Object) : Observer where
  note _ s := s.held
  stops
    | .asked (.reclaim o), _ => decide (o ∈ os)
    | _, _ => false

/-- To guard what a value refers to is to spare what loses an owner when the value is let go of. -/
theorem Machine.keeping_eq_sparing {v : Value} (howned : ∀ o ∈ v.objects, 1 ≤ w.owners o) :
    keeping v.objects = sparing (w.retain v) w := by
  have hstops : ∀ o, o ∈ v.objects ↔ World.Outlasts (w.retain v) w o := fun o => by
    have howners : (w.retain v).owners o = w.owners o + Bag.of v.objects o := World.owners_addOwners ..
    constructor
    · intro ho
      have := Bag.one_le_of_mem ho
      exact ⟨by omega, howned o ho⟩
    · rintro ⟨hless, -⟩
      exact List.count_pos_iff.1 (show 0 < Bag.of v.objects o by omega)
  unfold keeping sparing
  congr 1
  funext event s
  rcases event with (_ | _ | _ | o) | _
  case asked.reclaim => exact decide_eq_decide.2 (hstops o)
  all_goals rfl

/-- In zones in which these objects are spared, the machine comes to the same end under the observer. -/
theorem Machine.keeping_serves {v : Value} {m : Nat} (howned : ∀ o ∈ v.objects, 1 ≤ w.owners o)
    (h : n ≤ m) :
    Serves (Zone.Under (.sparing (w.retain v) w)) (observedEngine (keeping v.objects) n) (engine m) := by
  rw [keeping_eq_sparing howned]
  exact attended_serves (sparing_attends _ w) h

/-- It makes no difference to a computation whether somebody else keeps a value meanwhile, and lets go
of it afterwards, if none of the objects is disposed of that the value refers to. -/
theorem ensuring_release_of_lasting {L : Law} [L.Free] {Z : Zone} {v : Value} {q : α → Bag}
    {m m' : Run World α} (hZ : Z.Fit (Zone.Level L)) (h : Z.Linked F w w)
    (hcovered : Z.Covered w (holds v))
    (hm : ∀ {Y : Zone} {G : Bag} {t t' : World}, Z.Keeping F w (.sparing (w.retain v) w) Y G t →
      Y.Linked G t t' → ∃ H, Ends Y.bond H q (m t) (m' t'))
    (hm' : ∀ {Y : Zone} {G : Bag} {t t' : World}, Z.Keeping F w (.holding w.held) Y G t →
      Y.Linked G t t' → ∃ H, Ends Y.bond H q (m' t) (m' t'))
    (hfuel : ∀ s, m w ≠ .error .outOfFuel s) :
    m'.ensuring ((Machine.engine n).release v) (w.retain v) = m w ∧ m' w = m w := by
  have howned : ∀ o ∈ v.objects, 1 ≤ w.owners o := fun o ho => (hcovered o (Bag.one_le_of_mem ho)).2
  have hfades : World.Fades n v.objects (w.retain v) w := World.fades_addOwners howned
  have hnotes : (w.retain v).held = w.held := hfades.shrinks.around.held.symm
  have hfit := hZ.spare (w.retain v) w
  have heven := Zone.even_spare hZ.property (w.retain v) w
  have hshared := h.retain hZ.valid hcovered
  have hafter := h.spare (w := w.retain v) (t := w) hnotes.symm fun o ho => ho.2
  have hbefore := hshared.spare (w := w.retain v) (t := w) rfl fun o ho => ho.2.trans ho.1.le
  -- what is held from outside stays as it is, in either world
  have hheld : ∀ {G : Bag} {t : World}, Z.Keeping F w (.holding w.held) (Z.decree (.holding w.held)) G t →
      (Z.decree (.holding w.held)).Linked G t t → ∀ s, m'.EndsIn t s → s.held = w.held := by
    intro G t hkeeping ht s hs
    obtain ⟨H, hends⟩ := hm' hkeeping ht
    obtain ⟨s', hrelated⟩ := hends.related hs
    exact hrelated.pinned.law
  have hlater : ∀ {t : World}, t.held = w.held → Z.Linked F t t →
      (Z.decree (.holding w.held)).Linked F t t := fun hnote ht => ht.decree hnote False.elim
  constructor
  · have hlasting := Zone.lasting_spare Z (w.retain v) w
    obtain ⟨H, hends⟩ := hm ⟨hfit.shadow heven hlasting hbefore hafter,
      fun hg => Zone.Held.shadow hg heven hbefore hafter, le_rfl, fun _ => rfl, fun _ => rfl, rfl⟩
      (Zone.Linked.shadow heven hfades.shrinks hbefore hafter)
    refine Ends.settle heven hbefore hlasting hfades le_rfl (fun _ hs => hs) (fun s hs => ?_) hends hfuel
    exact (hheld ⟨hZ.decree.under, id, le_rfl, generator_addOwners w _, frame_addOwners w _,
      thread_addOwners w _⟩ (hlater hnotes (hshared.le le_add_self)) s hs).trans hnotes.symm
  · have hnone : World.Fades n [] w w := .nil
    have hlasting : (Z.spare (w.retain v) w).Lasting w w := fun _ hless _ =>
      absurd hless (Nat.lt_irrefl _)
    obtain ⟨H, hends⟩ := hm ⟨hfit.shadow heven hlasting hafter hafter,
      fun hg => Zone.Held.shadow hg heven hafter hafter, le_rfl, fun _ => rfl, fun _ => rfl, rfl⟩
      (Zone.Linked.shadow heven hnone.shrinks hafter hafter)
    have hsame := Ends.settle (n := n) heven hafter hlasting hnone le_rfl
      (fun _ hs => Eq.trans hs hnotes) (fun s hs => hheld ⟨hZ.decree.under, id, le_rfl, fun _ => rfl,
        fun _ => rfl, rfl⟩ (hlater rfl h) s hs) hends hfuel
    have hnothing : m'.ensuring ((Machine.engine n).releaseObjects []) = m' := Machine.ensuring_pure m'
    rwa [hnothing] at hsame

end Resumable
