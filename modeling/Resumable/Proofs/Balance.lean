import Resumable.Proofs.Session

set_option autoImplicit false

/-!
# Levels and running marks

A call takes levels of the thread and marks generators as running, and gives all of that back on
every way out of it.  Both are part of the zone that a call is made in: whatever it leads to leaves
the thread and the running generators of the zone as they are, so there is nothing to be said about
one way out or another (`Zone.Linked.balances`).

A level is only taken where one is left, so that at every moment no more of them are taken than there
are.
-/

namespace Resumable

/-- Two worlds agree on the thread, and on which generators are running. -/
structure World.Balances (w t : World) : Prop where
  thread : t.thread = w.thread
  running : ∀ g, (t.generator g).running = (w.generator g).running

variable {Z : Zone} {F G : Bag} {w w' t t' u : World}

/-- A generator that is running in a world of a zone is running in all of them. -/
theorem Zone.Linked.running_of_running (h : Z.Linked F w w') (ht : Z.Linked G t t')
    {g : GeneratorRef} (hg : (w.generator g).running = true) : (t.generator g).running = true := by
  obtain ⟨x, hx⟩ := Option.isSome_iff_exists.1 (h.pinned.running g hg)
  rw [ht.pinned.fixed g x hx, ← h.pinned.fixed g x hx, hg]

/-- The worlds of a zone agree on the levels that are taken, and on what is running. -/
theorem Zone.Linked.balances (h : Z.Linked F w w') (ht : Z.Linked G t t') : w.Balances t where
  thread := ht.pinned.thread.trans h.pinned.thread.symm
  running _ := Bool.eq_iff_iff.2 ⟨ht.running_of_running h, h.running_of_running ht⟩

/-- A computation leaves the thread and the running marks as it found them, however it ends. -/
def Balanced {α : Type} (m : Run World α) (w : World) : Prop := ∀ t, m.EndsIn w t → w.Balances t

theorem Balanced.of_ends {α : Type} {A : Prop} {q : α → Bag} {m m' : Run World α}
    (h : Z.Linked G w w') (hm : Ends (Z.bondIf A) F q (m w) (m' w')) : Balanced m w := by
  intro t ht
  obtain ⟨_, hafter⟩ := hm.related ht
  exact h.balances hafter

namespace Session

end Session

end Resumable
