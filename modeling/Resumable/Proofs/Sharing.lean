import Resumable.Proofs.Refusal

set_option autoImplicit false

/-!
# Sharing and forgetting again

Adding owners to objects that exist, and taking them away again in any order, leaves the world as it
was: no object loses its last owner meanwhile, so nothing is disposed of (`release_addOwners`).  The
same goes for taking an object out of its cell and putting it back, and for marking a generator as
running and as idle again.
-/

namespace Resumable

namespace Store

variable {α : Type} [Inhabited α]

/-- Writing to two cells can be done in any order. -/
theorem set_comm (s : Store α) {i j : Nat} (c d : Cell α) (h : i ≠ j) :
    (s.set i c).set j d = (s.set j d).set i c := by
  refine ext_get ?_ fun k => ?_
  · simp only [size_set]
    exact max_right_comm _ _ _
  · simp only [get_set]
    by_cases hi : i = k
    · subst hi
      simp [h.symm]
    · simp [hi]

/-- Writing back the content of a cell changes nothing. -/
theorem setContent_self {s : Store α} {i : Nat} (h : i < s.size) :
    s.setContent i (s.content i) = s := set_get h

/-- Writing back the number of owners changes nothing. -/
theorem setOwners_self {s : Store α} {i : Nat} (h : i < s.size) :
    s.setOwners i (s.owners i) = s := set_get h

/-- An object that has an owner was made. -/
theorem made_of_owned {s : Store α} {i : Nat} (h : 1 ≤ s.owners i) : i < s.size := by
  by_contra hsize
  rw [owners_of_size_le (Nat.not_lt.1 hsize)] at h
  exact absurd h (by omega)

end Store

namespace World

variable {w : World} {o u : Object} {os us : List Object}

/-! ## Owners that are added and taken away -/

theorem addOwners_append (w : World) (os us : List Object) :
    w.addOwners (os ++ us) = (w.addOwners os).addOwners us := List.foldl_append

theorem retainAll_of_objects_nil (w : World) {vs : List Value} (h : Value.objectsOfAll vs = []) :
    w.retainAll vs = w := by
  rw [retainAll, h]
  rfl

theorem setOwners_setOwners (w : World) (n m : Nat) (o : Object) :
    (w.setOwners n o).setOwners m o = w.setOwners m o := by
  cases o <;> simp [setOwners, Store.setOwners, Store.set_set, Store.get_set_self]

theorem setOwners_comm (w : World) (n m : Nat) (h : o ≠ u) :
    (w.setOwners n o).setOwners m u = (w.setOwners m u).setOwners n o := by
  cases o with
  | list r =>
      cases u with
      | list s =>
          have hne : r.index ≠ s.index := fun heq => h (congrArg Object.list (ListRef.ext heq))
          simp only [setOwners, Store.setOwners, Store.get_set_ne _ _ hne,
            Store.get_set_ne _ _ hne.symm, Store.set_comm _ _ _ hne]
      | _ => rfl
  | iterator r =>
      cases u with
      | iterator s =>
          have hne : r.index ≠ s.index :=
            fun heq => h (congrArg Object.iterator (IteratorRef.ext heq))
          simp only [setOwners, Store.setOwners, Store.get_set_ne _ _ hne,
            Store.get_set_ne _ _ hne.symm, Store.set_comm _ _ _ hne]
      | _ => rfl
  | generator r =>
      cases u with
      | generator s =>
          have hne : r.index ≠ s.index :=
            fun heq => h (congrArg Object.generator (GeneratorRef.ext heq))
          simp only [setOwners, Store.setOwners, Store.get_set_ne _ _ hne,
            Store.get_set_ne _ _ hne.symm, Store.set_comm _ _ _ hne]
      | _ => rfl
  | frame r =>
      cases u with
      | frame s =>
          have hne : r.index ≠ s.index := fun heq => h (congrArg Object.frame (FrameRef.ext heq))
          simp only [setOwners, Store.setOwners, Store.get_set_ne _ _ hne,
            Store.get_set_ne _ _ hne.symm, Store.set_comm _ _ _ hne]
      | _ => rfl

/-- Owners can be added in any order. -/
theorem addOwners_perm (h : os.Perm us) (w : World) : w.addOwners os = w.addOwners us := by
  induction h generalizing w with
  | nil => rfl
  | cons o _ ih => exact ih _
  | swap o u rest =>
      have hswap : w.addOwners [u, o] = w.addOwners [o, u] := by
        by_cases heq : o = u
        · rw [heq]
        · show (w.setOwners _ u).setOwners _ o = (w.setOwners _ o).setOwners _ u
          rw [setOwners_comm _ _ _ (Ne.symm heq), owners_setOwners, owners_setOwners,
            if_neg (Ne.symm heq), if_neg heq]
      exact congrArg (addOwners · rest) hswap
  | trans _ _ ih₁ ih₂ => exact (ih₁ w).trans (ih₂ w)

theorem owners_addOwners (w : World) (os : List Object) (o : Object) :
    (w.addOwners os).owners o = w.owners o + Bag.of os o := by
  induction os generalizing w with
  | nil => rfl
  | cons u os ih =>
      have hone : (w.setOwners (w.owners u + 1) u).owners o = w.owners o + Bag.of [u] o := by
        rw [owners_setOwners]
        split
        · next heq => rw [heq, Bag.of_singleton_self]
        · next hne => rw [Bag.of_singleton_ne hne, Nat.add_zero]
      rw [Bag.of_cons u os, Pi.add_apply, ← Nat.add_assoc, ← hone]
      exact ih _

@[simp] theorem iterator_addOwners (w : World) (os : List Object) (r : IteratorRef) :
    (w.addOwners os).iterator? r = w.iterator? r := by
  induction os generalizing w with
  | nil => rfl
  | cons o os ih => exact (ih _).trans (iterator_setOwners w _ o r)

/-- Writing back the number of owners of an object that has one. -/
theorem setOwners_self (h : 1 ≤ w.owners o) : w.setOwners (w.owners o) o = w := by
  cases o with
  | list r =>
      show { w with lists := w.lists.setOwners r.index (w.lists.owners r.index) } = w
      rw [Store.setOwners_self (Store.made_of_owned h)]
  | iterator r =>
      show { w with iterators := w.iterators.setOwners r.index (w.iterators.owners r.index) } = w
      rw [Store.setOwners_self (Store.made_of_owned h)]
  | generator r =>
      show { w with generators := w.generators.setOwners r.index (w.generators.owners r.index) } = w
      rw [Store.setOwners_self (Store.made_of_owned h)]
  | frame r =>
      show { w with frames := w.frames.setOwners r.index (w.frames.owners r.index) } = w
      rw [Store.setOwners_self (Store.made_of_owned h)]

end World

namespace Engine

variable {e : Engine} {w : World} {o : Object} {os us : List Object}

/-- One owner more, and one owner less again. -/
theorem releaseObject_addOwners (h : 1 ≤ w.owners o) :
    e.releaseObject o (w.addOwners [o]) = .ok () w := by
  obtain ⟨n, hn⟩ : ∃ n, w.owners o = n + 1 := ⟨_, (Nat.sub_add_cancel h).symm⟩
  have htwo : (w.setOwners (w.owners o + 1) o).owners o = n + 2 := by
    rw [World.owners_setOwners, if_pos rfl, hn]
  show e.releaseObject o (w.setOwners (w.owners o + 1) o) = _
  rw [e.releaseObject_of_two_le htwo, World.setOwners_setOwners, ← hn, World.setOwners_self h]

/-- Owners that are added to objects that have one, and taken away again. -/
theorem releaseObjects_addOwners (h : ∀ o ∈ os, 1 ≤ w.owners o) :
    e.releaseObjects os (w.addOwners os) = .ok () w := by
  induction os generalizing w with
  | nil => rfl
  | cons o os ih =>
      have hlast : w.addOwners (o :: os) = (w.addOwners os).addOwners [o] := by
        rw [← World.addOwners_append]
        exact World.addOwners_perm (List.perm_append_singleton o os).symm w
      have hone : 1 ≤ (w.addOwners os).owners o :=
        le_of_le_of_eq (Nat.le_add_right_of_le (h o List.mem_cons_self))
          (w.owners_addOwners os o).symm
      rw [hlast]
      exact Run.ensuring_ok (releaseObject_addOwners hone)
        (ih fun u hu => h u (List.mem_cons_of_mem o hu))

theorem mem_objectsOfAll {vs : List Value} :
    o ∈ Value.objectsOfAll vs ↔ ∃ v ∈ vs, o ∈ v.objects := by
  induction vs with
  | nil => simp [Value.objectsOfAll]
  | cons v vs ih => simp [Value.objectsOfAll, ih]

theorem objectsOfAll_perm {vs us : List Value} (h : vs.Perm us) :
    (Value.objectsOfAll vs).Perm (Value.objectsOfAll us) := by
  induction h with
  | nil => exact .nil
  | cons v _ ih => exact ih.append_left _
  | swap v u rest =>
      simp only [Value.objectsOfAll, ← List.append_assoc]
      exact List.perm_append_comm.append_right _
  | trans _ _ ih₁ ih₂ => exact ih₁.trans ih₂

/-- Values that are shared, and forgotten again in any order. -/
theorem releaseAll_retainAll {vs us : List Value} (hperm : vs.Perm us)
    (h : ∀ o ∈ Value.objectsOfAll us, 1 ≤ w.owners o) :
    e.releaseAll vs (w.retainAll us) = .ok () w := by
  have hobjects := objectsOfAll_perm hperm
  rw [World.retainAll, ← World.addOwners_perm hobjects w]
  exact releaseObjects_addOwners fun o ho => h o (hobjects.mem_iff.1 ho)

end Engine

/-! ## Objects that are taken out of their cells and put back -/

namespace World

variable {w : World}

/-- An iterator that is in its cell was made. -/
theorem iterator_made {r : IteratorRef} {i : Iterator} (h : w.iterator? r = some i) :
    r.index < w.iterators.size := by
  by_contra hsize
  have hnone : w.iterator? r = default := Store.content_of_size_le (Nat.not_lt.1 hsize)
  rw [hnone] at h
  cases h

/-- A computation that leaves the iterator and the world as they are. -/
theorem withIterator_of_rest {α : Type} {r : IteratorRef} {i : Iterator} {a : α}
    {m : Run (Iterator × World) α} (hi : w.iterator? r = some i)
    (hm : m (i, w.setIterator r none) = .ok a (i, w.setIterator r none)) :
    withIterator r m w = .ok a w := by
  have hback : (w.setIterator r none).setIterator r (some i) = w := by
    have hself : w.iterators.setContent r.index (some i) = w.iterators := by
      rw [← hi]
      exact Store.setContent_self (iterator_made hi)
    simp only [setIterator, Store.setContent, Store.get_set_self, Store.set_set] at hself ⊢
    rw [hself]
  unfold withIterator Run.withPrivate
  rw [hi]
  simp only [hm, Run.modify_apply, hback]

/-- A generator that is marked as running and as idle again. -/
theorem setRunning_setRunning {g : GeneratorRef} (hmade : g.index < w.generators.size)
    (hidle : (w.generator g).running = false) : (w.setRunning g true).setRunning g false = w := by
  have hback : { w.generator g with running := false } = w.generator g := by rw [← hidle]
  have hself : w.generators.setContent g.index (w.generator g) = w.generators :=
    Store.setContent_self hmade
  unfold setRunning
  rw [generator_setGenerator, if_pos rfl]
  dsimp only
  rw [hback]
  simp only [setGenerator, Store.setContent, Store.get_set_self, Store.set_set] at hself ⊢
  rw [hself]

/-- A computation that leaves the world as it is, while the generator is running. -/
theorem whileRunning_of_rest {α : Type} {g : GeneratorRef} {a : α} {m : Run World α}
    (hmade : g.index < w.generators.size) (hidle : (w.generator g).running = false)
    (hm : m (w.setRunning g true) = .ok a (w.setRunning g true)) :
    whileRunning g m w = .ok a w := by
  unfold whileRunning
  rw [Run.bind_apply]
  simp only [Run.modify_apply]
  refine Run.ensuring_ok hm ?_
  simp only [Run.modify_apply, setRunning_setRunning hmade hidle]

end World

end Resumable
