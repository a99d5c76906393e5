import Resumable.Proofs.Rest
import Resumable.Proofs.Turns

set_option autoImplicit false

/-!
# Secluded objects

Some objects of a world are secluded if nothing refers to them but each other: what runs elsewhere does
not get hold of them (`World.Secludes`).  A computation that has not got hold of them either comes to the
same end in every world that differs in these objects only (`World.AgreeBut`), and leaves them alone.

What the secluded objects themselves refer to stays alive: its owners are counted among those that the
computation does not know of.
-/

namespace Resumable

variable {S : Object → Prop} {A B F : Bag} {w w' t t' : World} {g : GeneratorRef} {r : FrameRef}
  {o : Object} {v : Value}

/-! ## References from hidden objects -/

/-- Only what is in sight counts. -/
theorem Store.contents_congr {α : Type} [Inhabited α] [Holder α] [HoldsNothing α]
    {s s' : Store α} {inSight : Nat → Prop} (h : ∀ i, inSight i → s'.content i = s.content i) :
    s'.contents inSight = s.contents inSight := by
  funext o
  classical
  rw [contents_apply (le_max_left s'.size s.size), contents_apply (le_max_right s'.size s.size)]
  refine Finset.sum_congr rfl fun j _ => ?_
  by_cases hj : inSight j
  · rw [h j hj]
  · rw [if_neg hj, if_neg hj]

theorem Store.contents_setContent_of_hidden {α : Type} [Inhabited α] [Holder α] [HoldsNothing α]
    {s : Store α} {inSight : Nat → Prop} {i : Nat} (hi : ¬ inSight i) (a : α) :
    (s.setContent i a).contents inSight = s.contents inSight :=
  contents_congr fun j hj => by
    have hne : i ≠ j := fun heq => hi (heq ▸ hj)
    rw [content_setContent, if_neg hne]

namespace World

theorem references_setGenerator_of_hidden (hg : S (.generator g)) (x : Generator) :
    (w.setGenerator g x).references S = w.references S := by
  have hgenerators : (w.generators.setContent g.index x).contents (fun i => ¬ S (.generator ⟨i⟩)) =
      w.generators.contents fun i => ¬ S (.generator ⟨i⟩) :=
    Store.contents_setContent_of_hidden (not_not.2 hg) x
  simp only [references, setGenerator, hgenerators]

theorem references_setFrame_of_hidden (hr : S (.frame r)) (x : Option Frame) :
    (w.setFrame r x).references S = w.references S := by
  have hframes : (w.frames.setContent r.index x).contents (fun i => ¬ S (.frame ⟨i⟩)) =
      w.frames.contents fun i => ¬ S (.frame ⟨i⟩) :=
    Store.contents_setContent_of_hidden (not_not.2 hr) x
  simp only [references, setFrame, hframes]

/-- The references of a generator and of a frame that are hidden come on top of the others. -/
theorem references_add_hidden_le (hg : S (.generator g)) (hr : S (.frame r)) :
    w.references S + (holds (w.generator g) + holds (w.frame? r)) ≤
      w.references fun _ => False := by
  let s := w.setGenerator g default
  have hgenerator : s.references (fun _ => False) + holds (w.generator g) =
      w.references (fun _ => False) + holds default := references_setGenerator id default
  have hframe : (s.setFrame r none).references (fun _ => False) + holds (s.frame? r) =
      s.references (fun _ => False) + holds none := references_setFrame id none
  have hsame : (s.setFrame r none).references S = w.references S :=
    (references_setFrame_of_hidden hr none).trans (references_setGenerator_of_hidden hg default)
  have hmono : (s.setFrame r none).references S ≤ (s.setFrame r none).references fun _ => False :=
    references_mono fun _ ho => ho.elim
  intro o
  have := congrFun hgenerator o
  have := congrFun hframe o
  have := Bag.apply_le hmono o
  have hnothing : holds (default : Generator) o = 0 := congrFun HoldsNothing.holds_default o
  simp only [hsame, Pi.add_apply, holds_none, Pi.zero_apply, s, frame_setGenerator] at *
  omega

/-- To begin a body makes no difference for what refers to others, if its generator is hidden. -/
theorem references_underway (hg : S (.generator g)) (hr : S (.frame r)) :
    (w.underway g r).references S = w.references S := by
  have hentered : (w.entered r).references S = w.references S := by
    show (w.retain (.frame r)).references S = _
    exact references_setOwners (w := w) (w.owners (.frame r) + 1) (.frame r)
  rw [underway, references_setFrame_of_hidden hr, setRunning, references_setGenerator_of_hidden hg,
    hentered]

/-! ## Worlds that agree but for some objects -/

/-- Two worlds are the same apart from some objects. -/
structure AgreeBut (S : Object → Prop) (w w' : World) : Prop where
  thread : w'.thread = w.thread
  surroundings : w'.surroundings = w.surroundings
  sizes : w'.sizes = w.sizes
  same : ∀ o, ¬ S o → SameAt o w w'

namespace AgreeBut

theorem refl (S : Object → Prop) (w : World) : AgreeBut S w w :=
  ⟨rfl, rfl, rfl, fun o _ => .refl o w⟩

theorem symm (h : AgreeBut S w w') : AgreeBut S w' w :=
  ⟨h.thread.symm, h.surroundings.symm, h.sizes.symm, fun o ho =>
    ⟨(h.same o ho).owners.symm, (h.same o ho).content.symm⟩⟩

theorem trans {u : World} (h : AgreeBut S w w') (hu : AgreeBut S w' u) : AgreeBut S w u :=
  ⟨hu.thread.trans h.thread, hu.surroundings.trans h.surroundings, hu.sizes.trans h.sizes, fun o ho =>
    ⟨(hu.same o ho).owners.trans (h.same o ho).owners, (hu.same o ho).content.trans (h.same o ho).content⟩⟩

theorem mono {S' : Object → Prop} (h : AgreeBut S w w') (hle : ∀ o, S o → S' o) :
    AgreeBut S' w w' :=
  { h with same := fun o ho => h.same o fun hs => ho (hle o hs) }

theorem codes (h : AgreeBut S w w') : w'.codes = w.codes :=
  congrArg Surroundings.codes h.surroundings

theorem code (h : AgreeBut S w w') (c : CodeRef) : w'.code c = w.code c := by
  rw [World.code, h.codes]
  rfl

theorem owners (h : AgreeBut S w w') (ho : ¬ S o) : w'.owners o = w.owners o := (h.same o ho).owners

theorem items (h : AgreeBut S w w') {l : ListRef} (hl : ¬ S (.list l)) : w'.items l = w.items l :=
  Content.items.inj (h.same _ hl).content

theorem setGenerator (h : AgreeBut S w w') (hg : S (.generator g)) (x x' : Generator) :
    AgreeBut S (w.setGenerator g x) (w'.setGenerator g x') where
  thread := h.thread
  surroundings := h.surroundings
  sizes := by
    have hsizes := h.sizes
    simp only [World.sizes, World.setGenerator, Prod.mk.injEq, Store.size_setContent] at hsizes ⊢
    simp [hsizes]
  same o ho := by
    have hne : o ≠ .generator g := fun heq => ho (heq ▸ hg)
    have hsame := h.same o ho
    exact ⟨by simpa using hsame.owners,
      by rw [content_setGenerator, content_setGenerator, if_neg hne, if_neg hne, hsame.content]⟩

theorem setFrame (h : AgreeBut S w w') (hr : S (.frame r)) (x x' : Option Frame) :
    AgreeBut S (w.setFrame r x) (w'.setFrame r x') where
  thread := h.thread
  surroundings := h.surroundings
  sizes := by
    have hsizes := h.sizes
    simp only [World.sizes, World.setFrame, Prod.mk.injEq, Store.size_setContent] at hsizes ⊢
    simp [hsizes]
  same o ho := by
    have hne : o ≠ .frame r := fun heq => ho (heq ▸ hr)
    have hsame := h.same o ho
    exact ⟨by simpa using hsame.owners,
      by rw [content_setFrame, content_setFrame, if_neg hne, if_neg hne, hsame.content]⟩

/-- The cell of a hidden frame that exists may have changed, -/
theorem of_setFrame (hr : S (.frame r)) (hone : 1 ≤ w.owners (.frame r)) (x : Option Frame) :
    AgreeBut S w (w.setFrame r x) where
  thread := rfl
  surroundings := rfl
  sizes := by
    have hsize : r.index < w.frames.size := by
      by_contra hnot
      have : w.owners (.frame r) = 0 := Store.owners_of_size_le (Nat.le_of_not_lt hnot)
      omega
    simp only [World.sizes, World.setFrame, Store.size_setContent, Nat.max_eq_left hsize]
  same o ho := by
    have hne : o ≠ .frame r := fun heq => ho (heq ▸ hr)
    exact ⟨owners_setFrame .., by rw [content_setFrame, if_neg hne]⟩

/-- and so may the number of its owners, -/
theorem of_setOwners (hr : S (.frame r)) (hone : 1 ≤ w.owners (.frame r)) (n : Nat) :
    AgreeBut S w (w.setOwners n (.frame r)) where
  thread := rfl
  surroundings := rfl
  sizes := by
    have hsize : r.index < w.frames.size := by
      by_contra hnot
      have : w.owners (.frame r) = 0 := Store.owners_of_size_le (Nat.le_of_not_lt hnot)
      omega
    simp only [World.sizes, World.setOwners, Store.size_setOwners, Nat.max_eq_left hsize]
  same o ho := by
    have hne : o ≠ .frame r := fun heq => ho (heq ▸ hr)
    exact ⟨by rw [owners_setOwners, if_neg hne.symm], by simp⟩

/-- and a hidden generator. -/
theorem of_setGenerator (hg : S (.generator g)) (hone : 1 ≤ w.owners (.generator g)) (x : Generator) :
    AgreeBut S w (w.setGenerator g x) where
  thread := rfl
  surroundings := rfl
  sizes := by
    have hsize : g.index < w.generators.size := by
      by_contra hnot
      have : w.owners (.generator g) = 0 := Store.owners_of_size_le (Nat.le_of_not_lt hnot)
      omega
    simp only [World.sizes, World.setGenerator, Store.size_setContent, Nat.max_eq_left hsize]
  same o ho := by
    have hne : o ≠ .generator g := fun heq => ho (heq ▸ hg)
    exact ⟨owners_setGenerator .., by rw [content_setGenerator, if_neg hne]⟩

theorem setIterator (h : AgreeBut S w w') (i : IteratorRef) (x : Option Iterator) :
    AgreeBut S (w.setIterator i x) (w'.setIterator i x) where
  thread := h.thread
  surroundings := h.surroundings
  sizes := Zone.sizes_setIterator i x h.sizes
  same o ho := by
    have hsame := h.same o ho
    refine ⟨by simpa using hsame.owners, ?_⟩
    rw [content_setIterator, content_setIterator, hsame.content]

theorem setOwners (h : AgreeBut S w w') {n n' : Nat} (hn : ¬ S o → n' = n) :
    AgreeBut S (w.setOwners n o) (w'.setOwners n' o) where
  thread := by simpa using h.thread
  surroundings := by simpa using h.surroundings
  sizes := Zone.sizes_setOwners n n' o h.sizes
  same u hu := by
    have hsame := h.same u hu
    refine ⟨?_, by simpa using hsame.content⟩
    rw [owners_setOwners, owners_setOwners]
    split
    · next heq => exact hn (heq ▸ hu)
    · exact hsame.owners

theorem addOwners (os : List Object) (h : AgreeBut S w w') :
    AgreeBut S (w.addOwners os) (w'.addOwners os) := by
  induction os generalizing w w' with
  | nil => exact h
  | cons o os ih =>
      exact ih (h.setOwners fun ho => congrArg (· + 1) (h.owners ho))

theorem retain (h : AgreeBut S w w') (v : Value) : AgreeBut S (w.retain v) (w'.retain v) :=
  h.addOwners v.objects

theorem setThread (h : AgreeBut S w w') (u : Thread) :
    AgreeBut S { w with thread := u } { w' with thread := u } where
  thread := rfl
  surroundings := h.surroundings
  sizes := h.sizes
  same o ho := { h.same o ho with }

theorem left (h : AgreeBut S w w') : AgreeBut S w.left w'.left := by
  unfold World.left
  rw [h.thread]
  exact h.setThread _

theorem newIterator (h : AgreeBut S w w') (x : Iterator) :
    (w'.newIterator x).1 = (w.newIterator x).1 ∧
      AgreeBut S (w.newIterator x).2 (w'.newIterator x).2 := by
  have hsizes := h.sizes
  simp only [World.sizes, Prod.mk.injEq] at hsizes
  have hfst : (w'.newIterator x).1 = (w.newIterator x).1 := by
    simp only [newIterator_fst, hsizes.2.1]
  refine ⟨hfst, h.thread, h.surroundings, ?_, fun o ho => ⟨?_, ?_⟩⟩
  · simp [World.sizes, World.newIterator, hsizes]
  · rw [owners_newIterator, owners_newIterator, hfst, (h.same o ho).owners]
  · rw [content_newIterator, content_newIterator, hfst, (h.same o ho).content]

theorem underway (h : AgreeBut S w w') (hg : S (.generator g)) (hr : S (.frame r)) :
    AgreeBut S (w.underway g r) (w'.underway g r) := by
  have hentered : AgreeBut S (w.entered r) (w'.entered r) := by
    unfold World.entered
    have hshared := h.retain (.frame r)
    rw [hshared.thread]
    exact hshared.setThread _
  exact (hentered.setGenerator hg _ _).setFrame hr _ _

theorem settled (h : AgreeBut S w w') (hg : S (.generator g)) (hr : S (.frame r)) (f f' : Frame) :
    AgreeBut S (w.settled g r f) (w'.settled g r f') :=
  (h.setFrame hr _ _).setGenerator hg _ _

/-- What the other objects and the variables refer to. -/
theorem references (h : AgreeBut S w w') : w'.references S = w.references S := by
  have hlists : w'.lists.contents (fun i => ¬ S (.list ⟨i⟩)) = w.lists.contents fun i => ¬ S (.list ⟨i⟩) :=
    Store.contents_congr fun i hi => Content.items.inj (h.same (.list ⟨i⟩) hi).content
  have hiterators : w'.iterators.contents (fun i => ¬ S (.iterator ⟨i⟩)) =
      w.iterators.contents fun i => ¬ S (.iterator ⟨i⟩) :=
    Store.contents_congr fun i hi => Content.iterator.inj (h.same (.iterator ⟨i⟩) hi).content
  have hgenerators : w'.generators.contents (fun i => ¬ S (.generator ⟨i⟩)) =
      w.generators.contents fun i => ¬ S (.generator ⟨i⟩) :=
    Store.contents_congr fun i hi => Content.generator.inj (h.same (.generator ⟨i⟩) hi).content
  have hframes : w'.frames.contents (fun i => ¬ S (.frame ⟨i⟩)) =
      w.frames.contents fun i => ¬ S (.frame ⟨i⟩) :=
    Store.contents_congr fun i hi => Content.frame.inj (h.same (.frame ⟨i⟩) hi).content
  have hnames : w'.names = w.names := congrArg Surroundings.names h.surroundings
  unfold World.references
  rw [hlists, hiterators, hgenerators, hframes, hnames]

end AgreeBut

/-- A computation leaves some objects as they are, and the thread and the code. -/
structure Keeps (S : Object → Prop) (w t : World) : Prop where
  same : ∀ o, S o → SameAt o w t
  thread : t.thread = w.thread
  codes : t.codes = w.codes

namespace Keeps

theorem refl (S : Object → Prop) (w : World) : w.Keeps S w := ⟨fun o _ => .refl o w, rfl, rfl⟩

variable (h : w.Keeps S t)

include h

theorem generator (hg : S (.generator g)) : t.generator g = w.generator g :=
  Content.generator.inj (h.same _ hg).content

theorem frame (hr : S (.frame r)) : t.frame? r = w.frame? r := Content.frame.inj (h.same _ hr).content

theorem owners (ho : S o) : t.owners o = w.owners o := (h.same o ho).owners

theorem code (c : CodeRef) : t.code c = w.code c := by
  rw [World.code, h.codes]
  rfl

theorem trans {u : World} (hu : t.Keeps S u) : w.Keeps S u :=
  ⟨fun o ho => ⟨(hu.owners ho).trans (h.owners ho), ((hu.same o ho).content).trans (h.same o ho).content⟩,
    hu.thread.trans h.thread, hu.codes.trans h.codes⟩

end Keeps

/-! ## Worlds in which objects are secluded -/

/-- Nothing refers to some objects but each other, no one of the others is in use, and there are owners
for all references from outside and for a bag.  A frame in use or of a generator that is running belongs to
them if the generator does. -/
structure Secludes (w : World) (S : Object → Prop) (B : Bag) : Prop where
  idle : ∀ j, ¬ S (.generator j) → (w.generator j).running = false
  slot : ∀ j, S (.generator j) → (w.generator j).running = true →
    ∃ q, (w.generator j).frame = some q ∧ S (.frame q)
  owned : ∀ o, ¬ S o → w.references S o + B o ≤ w.owners o
  unseen : ∀ o, S o → w.references S o = 0
  slots : ∀ i j q, ¬ S (.generator i) → ¬ S (.generator j) → (w.generator i).frame = some q →
    (w.generator j).frame = some q → i = j
  seated : ∀ o, ¬ S o → 1 ≤ w.owners o → w.InCell o
  lists : ∀ l, S (.list l) → l.index < w.lists.size
  iterators : ∀ i, S (.iterator i) → i.index < w.iterators.size

namespace Secludes

theorem le (h : w.Secludes S B) (hle : A ≤ B) : w.Secludes S A :=
  { h with
    owned := fun o ho => by
      have := h.owned o ho
      have := Bag.apply_le hle o
      omega }

theorem setOwners (h : w.Secludes S A) {n : Nat} (hlive : ¬ S o → 1 ≤ n → 1 ≤ w.owners o)
    (howned : ¬ S o → w.references S o + B o ≤ n) (hle : ∀ u, o ≠ u → B u ≤ A u) :
    (w.setOwners n o).Secludes S B where
  idle j hj := by simpa using h.idle j hj
  slot j hj hrunning := by simpa using h.slot j hj (by simpa using hrunning)
  owned u hu := by
    rw [references_setOwners, owners_setOwners]
    split
    · next heq => exact heq ▸ howned (heq ▸ hu)
    · next hne =>
        have := h.owned u hu
        have := hle u hne
        omega
  unseen u hu := by simpa using h.unseen u hu
  slots i j q hi hj hqi hqj := h.slots i j q hi hj (by simpa using hqi) (by simpa using hqj)
  seated u hu hone := by
    have hlived : 1 ≤ w.owners u := by
      rw [owners_setOwners] at hone
      split at hone
      · next heq => exact heq ▸ hlive (heq ▸ hu) hone
      · exact hone
    have hin := h.seated u hu hlived
    cases u with
    | frame q => simpa [InCell] using hin
    | iterator i => simpa [InCell] using hin
    | _ => trivial
  lists l hl := lt_of_lt_of_le (h.lists l hl) (Zone.lists_size_setOwners_le w n o)
  iterators i hi := lt_of_lt_of_le (h.iterators i hi) (Zone.iterators_size_setOwners_le w n o)

theorem addOwners (os : List Object) (h : w.Secludes S B) (hos : ∀ o ∈ os, 1 ≤ w.owners o) :
    (w.addOwners os).Secludes S (.of os + B) := by
  induction os generalizing w B with
  | nil => simpa [World.addOwners] using h
  | cons o os ih =>
      have hlive := hos o List.mem_cons_self
      have hone : (w.setOwners (w.owners o + 1) o).Secludes S (.of [o] + B) := by
        refine h.setOwners (fun _ _ => hlive) (fun ho => ?_) fun u hu => ?_
        · have := h.owned o ho
          simp only [Pi.add_apply, Bag.of_singleton_self]
          omega
        · simp [Bag.of_singleton_ne hu]
      rw [Bag.of_cons, add_assoc, add_left_comm]
      refine ih hone fun u hu => ?_
      have := hos u (List.mem_cons_of_mem o hu)
      rw [owners_setOwners]
      split <;> omega

/-- A value is shared. -/
theorem retain (h : w.Secludes S B) (hv : ∀ o ∈ v.objects, 1 ≤ w.owners o) :
    (w.retain v).Secludes S (holds v + B) :=
  h.addOwners v.objects hv

/-- The body of a secluded generator is run. -/
theorem underway (h : w.Secludes S B) (hg : S (.generator g)) (hr : S (.frame r))
    (hslot : (w.generator g).frame = some r) : (w.underway g r).Secludes S B where
  idle j hj := by
    have hne : g ≠ j := fun heq => hj (heq ▸ hg)
    rw [generator_underway, if_neg hne]
    exact h.idle j hj
  slot j hj hrunning := by
    rw [generator_underway] at hrunning ⊢
    split
    · exact ⟨r, hslot, hr⟩
    · next hne => exact h.slot j hj (by simpa [hne] using hrunning)
  owned o ho := by
    have hne : ¬ .frame r = o := fun heq => ho (heq ▸ hr)
    rw [references_underway hg hr, owners_underway, if_neg hne]
    exact h.owned o ho
  unseen o ho := by
    rw [references_underway hg hr]
    exact h.unseen o ho
  slots i j q hi hj := by
    have hne : ∀ {k}, ¬ S (.generator k) → g ≠ k := fun hk heq => hk (heq ▸ hg)
    rw [generator_underway, generator_underway, if_neg (hne hi), if_neg (hne hj)]
    exact h.slots i j q hi hj
  seated o ho hone := by
    have hne : ¬ .frame r = o := fun heq => ho (heq ▸ hr)
    rw [owners_underway, if_neg hne] at hone
    have hin := h.seated o ho hone
    cases o with
    | frame q =>
        have hother : r ≠ q := fun heq => hne (heq ▸ rfl)
        simpa [InCell, frame_underway, hother] using hin
    | iterator i => exact hin
    | _ => trivial
  lists := h.lists
  iterators := h.iterators

/-- What a secluded frame holds does not matter. -/
theorem setFrame (h : w.Secludes S B) (hr : S (.frame r)) (x : Option Frame) :
    (w.setFrame r x).Secludes S B where
  idle := h.idle
  slot := h.slot
  owned o ho := by
    rw [references_setFrame_of_hidden hr, owners_setFrame]
    exact h.owned o ho
  unseen o ho := by
    rw [references_setFrame_of_hidden hr]
    exact h.unseen o ho
  slots := h.slots
  seated o ho hone := by
    have hin := h.seated o ho (by simpa using hone)
    cases o with
    | frame q =>
        have hne : r ≠ q := fun heq => ho (heq ▸ hr)
        simpa [InCell, hne] using hin
    | iterator i => exact hin
    | _ => trivial
  lists := h.lists
  iterators := h.iterators

/-- A secluded generator is not running any more. -/
theorem stopRunning (h : w.Secludes S B) (hg : S (.generator g)) :
    (w.setRunning g false).Secludes S B where
  idle j hj := by
    have hne : g ≠ j := fun heq => hj (heq ▸ hg)
    simpa [setRunning, hne] using h.idle j hj
  slot j hj hrunning := by
    simp only [setRunning, generator_setGenerator] at hrunning ⊢
    split at hrunning
    · cases hrunning
    · next hne => simpa [hne] using h.slot j hj hrunning
  owned o ho := by
    rw [setRunning, references_setGenerator_of_hidden hg, owners_setGenerator]
    exact h.owned o ho
  unseen o ho := by
    rw [setRunning, references_setGenerator_of_hidden hg]
    exact h.unseen o ho
  slots i j q hi hj := by
    have hne : ∀ {k}, ¬ S (.generator k) → g ≠ k := fun hk heq => hk (heq ▸ hg)
    simp only [setRunning, generator_setGenerator, if_neg (hne hi), if_neg (hne hj)]
    exact h.slots i j q hi hj
  seated o ho hone := by
    have hin := h.seated o ho (by simpa [setRunning] using hone)
    cases o <;> exact hin
  lists := h.lists
  iterators := h.iterators

theorem settled (h : w.Secludes S B) (hg : S (.generator g)) (hr : S (.frame r)) (f : Frame) :
    (w.settled g r f).Secludes S B :=
  (h.setFrame hr _).stopRunning hg

/-- What is secluded may differ, if no secluded generator is running. -/
theorem congr (h : w.Secludes S B) (hagree : w.AgreeBut S w')
    (hidle : ∀ j, S (.generator j) → (w'.generator j).running = false) : w'.Secludes S B where
  idle j hj := by
    rw [Content.generator.inj (hagree.same _ hj).content]
    exact h.idle j hj
  slot j hj hrunning := by
    rw [hidle j hj] at hrunning
    cases hrunning
  owned o ho := by
    rw [hagree.references, hagree.owners ho]
    exact h.owned o ho
  unseen o ho := by
    rw [hagree.references]
    exact h.unseen o ho
  slots i j q hi hj := by
    rw [Content.generator.inj (hagree.same _ hi).content, Content.generator.inj (hagree.same _ hj).content]
    exact h.slots i j q hi hj
  seated o ho hone := by
    rw [hagree.owners ho] at hone
    have hin := h.seated o ho hone
    have hsame := (hagree.same o ho).content
    cases o with
    | frame q =>
        show w'.frame? q ≠ none
        rw [Content.frame.inj hsame]
        exact hin
    | iterator i =>
        show w'.iterator? i ≠ none
        rw [Content.iterator.inj hsame]
        exact hin
    | _ => trivial
  lists l hl := by
    have hsizes := congrArg Prod.fst hagree.sizes
    exact lt_of_lt_of_eq (h.lists l hl) hsizes.symm
  iterators i hi := by
    have hsizes := congrArg (·.2.1) hagree.sizes
    exact lt_of_lt_of_eq (h.iterators i hi) hsizes.symm

/-- An iterator is secluded too if all its owners are accounted for. -/
theorem conceal (h : w.Secludes S B) {i : IteratorRef} (hi : ¬ S (.iterator i))
    (howned : w.owners (.iterator i) ≤ B (.iterator i)) (hone : 1 ≤ w.owners (.iterator i)) :
    w.Secludes (fun o => S o ∨ o = .iterator i) B where
  idle j hj := h.idle j fun hs => hj (Or.inl hs)
  slot j hj hrunning := by
    obtain ⟨q, hq, hs⟩ := h.slot j (hj.resolve_right nofun) hrunning
    exact ⟨q, hq, Or.inl hs⟩
  owned o ho := by
    have := h.owned o fun hs => ho (Or.inl hs)
    have := Bag.apply_le (references_mono (w := w) fun u (hu : S u) => Or.inl (b := u = .iterator i) hu) o
    omega
  unseen o ho := by
    have hle := Bag.apply_le (references_mono (w := w) fun u (hu : S u) => Or.inl (b := u = .iterator i) hu) o
    rcases ho with ho | rfl
    · have := h.unseen o ho
      omega
    · have := h.owned _ hi
      omega
  slots j k q hj hk := h.slots j k q (fun hs => hj (Or.inl hs)) fun hs => hk (Or.inl hs)
  seated o ho := h.seated o fun hs => ho (Or.inl hs)
  lists l hl := h.lists l (hl.resolve_right nofun)
  iterators j hj := by
    rcases hj with hj | hj
    · exact h.iterators j hj
    · obtain rfl : j = i := by simpa using hj
      by_contra hsize
      have hzero : w.owners (.iterator j) = 0 := Store.owners_of_size_le (Nat.le_of_not_lt hsize)
      omega

end Secludes

end World

/-! ## Computations elsewhere -/

namespace Zone

open scoped Classical in
/-- The zone of a computation in two worlds that agree but for secluded objects, which it has not got hold
of.  What these refer to has owners that it does not know of. -/
noncomputable def apart (S : Object → Prop) (A : Bag) (w w' : World) : Zone where
  hidden := S
  sealed := S
  left := A
  right := A
  stash := w
  beyond := w'
  spared _ := False
  leftThread := w.thread
  rightThread := w.thread
  codes := w.codes
  names := w.names
  fixed j := if S (.generator j) then some (w.generator j) else none
  law := .trivial
  cells q := if S (.frame q) then some (w.frame? q) else none
  used _ := False

/-- A zone whose law says nothing. -/
def Lawless (Z : Zone) : Prop := Z.law = .trivial

theorem lawless_inherited : Inherited Lawless := fun _ _ h hext => hext.law.trans h

section Apart

variable (h : w.Secludes S B)

include h

theorem apart_valid (A : Bag) (w' : World) : (apart S A w w').Valid where
  sealed_of_hidden _ ho := ho
  holders _ := Or.inl rfl
  spared _ ho := ho.elim
  sink := rfl
  kept j x hx := by
    by_cases hj : S (.generator j)
    · exact Or.inl hj
    · simp [apart, hj] at hx
  locked j x hx := by
    by_cases hj : S (.generator j)
    · exact Or.inl hj
    · simp [apart, hj] at hx
  slot j x hx hrunning := by
    by_cases hj : S (.generator j)
    · obtain rfl : w.generator j = x := by simpa [apart, hj] using hx
      obtain ⟨q, hq, hs⟩ := h.slot j hj hrunning
      exact ⟨q, w.frame? q, hq, if_pos hs⟩
    · simp [apart, hj] at hx
  cell q f hq := by
    by_cases hs : S (.frame q)
    · exact Or.inl hs
    · simp [apart, hs] at hq

theorem apart_fit (A : Bag) (w' : World) : (apart S A w w').Fit Lawless :=
  ⟨lawless_inherited, rfl, apart_valid h A w', Or.inl rfl⟩

end Apart

/-- Worlds that agree but for secluded objects are linked. -/
theorem apart_linked (h : w.Secludes S (F + A)) (hF : ∀ o, S o → F o = 0) (hagree : w.AgreeBut S w') :
    (apart S A w w').Linked F w w' where
  pinned :=
    { thread := rfl
      codes := rfl
      names := rfl
      fixed := fun j x hx => by
        by_cases hj : S (.generator j)
        · simpa [apart, hj] using hx
        · simp [apart, hj] at hx
      law := True.intro
      cells := fun q c hq => by
        by_cases hs : S (.frame q)
        · simpa [apart, hs] using hq
        · simp [apart, hs] at hq
      running := fun j hrunning => by
        by_cases hj : S (.generator j)
        · simp [apart, hj]
        · rw [h.idle j hj] at hrunning
          cases hrunning
      stash := fun o _ => .refl o w
      spared := fun _ ho => ho.elim
      vacant := fun _ ho hh => absurd ho hh
      lists := h.lists
      iterators := h.iterators }
  alike :=
    { thread := hagree.thread
      surroundings := hagree.surroundings
      sizes := hagree.sizes
      items := fun _ => hagree.items
      iterator := fun i hi => World.Content.iterator.inj (hagree.same _ hi).content
      generator := fun j hj => World.Content.generator.inj (hagree.same _ hj).content
      frame := fun q hq => World.Content.frame.inj (hagree.same _ hq).content
      owners := fun o ho => by
        show w'.owners o + A o = w.owners o + A o
        rw [hagree.owners ho]
      beyond := fun o _ => .refl o w' }
  accounted :=
    { owned := fun o ho => by
        have := h.owned o ho
        simp only [Pi.add_apply] at this
        show w.references S o + F o + A o ≤ _
        omega
      unseen := fun o ho => by
        show w.references S o + F o = 0
        rw [h.unseen o ho, hF o ho]
      slots := fun i j q hi hj => h.slots i j q hi hj
      seated := fun o ho hone => by
        have hin := h.seated o ho hone
        cases o with
        | frame q => exact fun hq => absurd hq hin
        | iterator i => exact fun hi => absurd hi hin
        | _ => trivial }
  tame := False.elim

section Linked

variable (h : (apart S A w w').Linked F t t')

include h

/-- The worlds go on to agree, -/
theorem Linked.agrees : t.AgreeBut S t' where
  thread := h.alike.thread.trans h.pinned.thread.symm
  surroundings := h.alike.surroundings
  sizes := h.alike.sizes
  same o ho := by
    refine ⟨Nat.add_right_cancel (h.alike.owners o ho), ?_⟩
    cases o with
    | list l => exact congrArg _ (h.alike.items l ho)
    | iterator i => exact congrArg _ (h.alike.iterator i ho)
    | generator j => exact congrArg _ (h.alike.generator j ho)
    | frame q => exact congrArg _ (h.alike.frame q ho)

/-- what is held and what the secluded objects refer to has owners, -/
theorem Linked.owned_apart (ho : ¬ S o) : t.references S o + F o + A o ≤ t.owners o :=
  h.accounted.owned o ho

/-- what is secluded stays as it is, in the one world -/
theorem Linked.keeps_left : w.Keeps S t :=
  ⟨fun o ho => h.pinned.stash o ho, h.pinned.thread, h.pinned.codes⟩

/-- and in the other, -/
theorem Linked.keeps_right (hagree : w.AgreeBut S w') : w'.Keeps S t' where
  same o ho := h.alike.beyond o ho
  thread := h.alike.thread.trans hagree.thread.symm
  codes := (congrArg World.Surroundings.codes h.alike.surroundings).trans (h.pinned.codes.trans hagree.codes.symm)

/-- and secluded. -/
theorem Linked.secludes (hw : w.Secludes S B) : t.Secludes S (F + A) where
  idle j hj := by
    by_contra hrunning
    have hfixed := h.pinned.running j (by simpa using hrunning)
    simp [apart, hj] at hfixed
  slot j hj hrunning := by
    have hkept := h.pinned.fixed j (w.generator j) (if_pos hj)
    rw [hkept] at hrunning ⊢
    exact hw.slot j hj hrunning
  owned o ho := by
    have := h.accounted.owned o ho
    rw [Pi.add_apply, ← add_assoc]
    exact this
  unseen o ho := by
    have : t.references S o + F o = 0 := h.accounted.unseen o ho
    omega
  slots i j q hi hj := h.accounted.slots i j q hi hj
  seated o ho hone := by
    have hin := h.accounted.seated o ho hone
    cases o with
    | frame q =>
        intro hq
        have hcell : (apart S A w w').cells q = some none := hin hq
        rw [show (apart S A w w').cells q = none from if_neg ho] at hcell
        cases hcell
    | iterator i => exact fun hi => (hin hi).elim
    | _ => trivial
  lists := h.pinned.lists
  iterators := h.pinned.iterators

end Linked

theorem serves_apart {n m : Nat} (hle : n ≤ m) :
    Serves Lawless (Machine.engine n) (Machine.engine m) :=
  Machine.machine_serves (fun Z hZ => by
    rw [show Z.law = .trivial from hZ]
    infer_instance) hle

end Zone

/-- What is forgotten in a world in which objects are secluded is forgotten in every world that differs in them
only, and it leaves them alone. -/
theorem World.Secludes.release {n : Nat} (h : w.Secludes S (holds v + B)) (hv : ∀ o, S o → holds v o = 0)
    (hagree : w.AgreeBut S w') (hreleased : (Machine.engine n).release v w = .ok () t) :
    ∃ t', (Machine.engine n).release v w' = .ok () t' ∧ t.AgreeBut S t' ∧ w.Keeps S t ∧ w'.Keeps S t' ∧
      t.Secludes S B := by
  have hlinked := Zone.apart_linked h hv hagree
  have hends := release_ends (Zone.serves_apart (le_refl n)) (Zone.apart_fit h B w') (F := 0)
    (hlinked.le (by rw [add_zero]))
  rw [hreleased] at hends
  cases hreleased' : (Machine.engine n).release v w' with
  | error reason t' => rw [hreleased'] at hends; cases hends
  | ok _ t' =>
      rw [hreleased'] at hends
      cases hends with
      | ok hafter =>
          exact ⟨t', rfl, hafter.agrees, hafter.keeps_left, hafter.keeps_right hagree,
            (hafter.secludes h).le le_add_self⟩

/-! ## Between two calls -/

namespace World

/-- A generator and its frame. -/
def Own (g : GeneratorRef) (r : FrameRef) (o : Object) : Prop := o = .generator g ∨ o = .frame r

theorem own_generator : Own g r (.generator g) := Or.inl rfl

theorem own_frame : Own g r (.frame r) := Or.inr rfl

/-- A generator is all by itself: one holder, and nobody else refers to its frame. -/
structure Alone (w : World) (g : GeneratorRef) (r : FrameRef) (f : Frame) : Prop where
  slot : (w.generator g).frame = some r
  frame : w.frame? r = some f
  generators : w.owners (.generator g) = 1
  frames : w.owners (.frame r) = 1

variable {f : Frame} {i : Nat}

section Rest

variable (h : w.Alone g r f) (hrests : w.Rests .trivial i (F + holds (Value.generator g)))

include h hrests

/-- The references of the generator and of its frame come on top of all others. -/
theorem Alone.owned (o : Object) : w.references (Own g r) o + (holds (w.generator g) o + holds f o) +
    (F o + holds (Value.generator g) o) ≤ w.owners o := by
  have hhidden := references_add_hidden_le (w := w) (S := Own g r) own_generator own_frame
  rw [h.frame, holds_some] at hhidden
  have := hrests.sound.owned o
  have := Bag.apply_le hhidden o
  simp only [Pi.add_apply] at *
  omega

/-- Nobody holds the generator and its frame but the one holder and the generator. -/
theorem Alone.unheld (ho : Own g r o) : w.references (Own g r) o = 0 ∧ F o = 0 ∧ holds f o = 0 := by
  have howned := h.owned hrests o
  rcases ho with rfl | rfl
  · rw [h.generators, holds_generator, Bag.of_singleton_self] at howned
    omega
  · have hone : 1 ≤ holds (w.generator g) (.frame r) := by
      rw [holds_generatorObject, h.slot]
      simp [Bag.of_singleton_self]
    rw [h.frames] at howned
    omega

/-- At rest, a generator that is all by itself is secluded, with its frame. -/
theorem Alone.secludes : w.Secludes (Own g r) (F + holds f) where
  idle j _ := hrests.sound.idle j
  slot j _ hrunning := by
    rw [hrests.sound.idle j] at hrunning
    cases hrunning
  owned o _ := by
    have := h.owned hrests o
    simp only [Pi.add_apply]
    omega
  unseen o ho := (h.unheld hrests ho).1
  slots j k q _ _ := hrests.sound.slots j k q
  seated o _ := hrests.sound.seated o
  lists l hl := by rcases hl with hl | hl <;> cases hl
  iterators j hj := by rcases hj with hj | hj <;> cases hj

end Rest

end World

end Resumable
