import Resumable.Proofs.Sharing

set_option autoImplicit false

/-!
# Stepping through a list that grows

An iterator over a list can be asked for its next item in three ways: directly, by the instruction of
a loop, and by a delegation.  Each of them looks at the list anew: the answer is the item at the
iterator's position in the list as it is at that time, and the position moves on by as many items as
were given (`World.Answers`).  To append to the list leaves the position alone.

So the items that an iterator gives are those that the list begins with, whatever is appended between
the calls (`list_stepped`).  That a call found no item is not remembered: a call that comes after the
next append gives the item that was appended (`list_stepped_past_end`).
-/

namespace Resumable

variable {e : Engine} {p : Code.Program} {closure v : Value} {a b : Activation} {w t : World}
  {r : IteratorRef} {l : ListRef} {n : Nat} {offset : Int} {given : Option Value}
  {rest : List Value}

namespace World

@[simp] theorem items_addOwners (w : World) (os : List Object) (l : ListRef) :
    (w.addOwners os).items l = w.items l := by
  induction os generalizing w with
  | nil => rfl
  | cons o os ih => exact (ih _).trans (items_setOwners w _ o l)

@[simp] theorem items_retain (w : World) (v : Value) (l : ListRef) :
    (w.retain v).items l = w.items l := w.items_addOwners v.objects l

@[simp] theorem iterator_retain (w : World) (v : Value) (r : IteratorRef) :
    (w.retain v).iterator? r = w.iterator? r := w.iterator_addOwners v.objects r

theorem owners_retain (w : World) (v : Value) (o : Object) :
    (w.retain v).owners o = w.owners o + Bag.of v.objects o := w.owners_addOwners v.objects o

/-- An iterator over a list was asked for its next item: what it gave is what stands at its position,
the position has moved on past it, and the list is what it was. -/
structure Answers (w : World) (r : IteratorRef) (l : ListRef) (n : Nat) (given : Option Value)
    (t : World) : Prop where
  gives : given = (w.items l)[n]?
  position : t.iterator? r = some (.list l (n + given.toList.length))
  items : t.items l = w.items l

/-- The world after an iterator over a list was stepped. -/
def stepped (w : World) (r : IteratorRef) (l : ListRef) (n : Nat) : World :=
  match (w.items l)[n]? with
  | none => (w.setIterator r none).setIterator r (some (.list l n))
  | some v => ((w.setIterator r none).retain v).setIterator r (some (.list l (n + 1)))

theorem answers_stepped (w : World) (r : IteratorRef) (l : ListRef) (n : Nat) :
    w.Answers r l n (w.items l)[n]? (w.stepped r l n) := by
  unfold stepped
  cases h : (w.items l)[n]? <;> exact ⟨h.symm, by simp, by simp⟩

/-- To step an iterator takes no owner away. -/
theorem owners_le_stepped (w : World) (r : IteratorRef) (l : ListRef) (n : Nat) (o : Object) :
    w.owners o ≤ (w.stepped r l n).owners o := by
  unfold stepped
  cases (w.items l)[n]? <;> simp [owners_retain]

theorem Answers.setOwners {k : Nat} {o : Object} (h : w.Answers r l n given t) :
    w.Answers r l n given (t.setOwners k o) :=
  ⟨h.gives, by simpa using h.position, by simpa using h.items⟩

theorem Answers.of_retain (h : (w.retain v).Answers r l n given t) : w.Answers r l n given t :=
  ⟨by simpa using h.gives, h.position, by simpa using h.items⟩

end World

/-! ## The three ways to ask -/

/-- Asked directly. -/
theorem next_of_list (h : w.iterator? r = some (.list l n)) :
    World.withIterator r (Iterator.next e) w = .ok (w.items l)[n]? (w.stepped r l n) := by
  unfold World.withIterator Run.withPrivate World.stepped
  simp only [h, Iterator.next, Run.bind_apply, Run.get_apply, World.items_setIterator]
  cases (w.items l)[n]? <;> rfl

namespace Engine

/-- To forget what has another owner disposes of nothing. -/
theorem release_of_shared {o : Object} (hv : v.objects = [o]) (h : 2 ≤ w.owners o) :
    e.release v w = .ok () (w.setOwners (w.owners o - 1) o) := by
  obtain ⟨k, hk⟩ : ∃ k, w.owners o = k + 2 := ⟨_, (Nat.sub_add_cancel h).symm⟩
  rw [release, hv]
  show Run.ensuring (e.releaseObject o) (pure ()) w = _
  rw [Machine.ensuring_pure, e.releaseObject_of_two_le hk, hk]
  rfl

/-- A value that is shared and forgotten again. -/
theorem release_retain (h : ∀ o ∈ v.objects, 1 ≤ w.owners o) :
    e.release v (w.retain v) = .ok () w := releaseObjects_addOwners h

/-- Asked by way of sending it `none`. -/
theorem sendInto_of_list (h : w.iterator? r = some (.list l n)) :
    e.sendInto (.iterator r) .none w =
      .ok ((w.items l)[n]?.elim (.finished .none) .item) (w.stepped r l n) := by
  have hread : World.readIterator r w = .ok (.list l n) w := by
    unfold World.readIterator
    rw [h]
  have hsent : e.sendToIterator r .none w = .ok (w.items l)[n]? (w.stepped r l n) := by
    unfold sendToIterator
    rw [Run.bind_ok (Run.onInterruption_ok hread), ← next_of_list (e := e) h]
    unfold World.withIterator
    rw [h]
    rfl
  unfold sendInto
  rw [Run.bind_apply]
  simp only [Run.attempt, hsent]
  cases (w.items l)[n]? <;> rfl

end Engine

namespace Exec

/-- A jump over this distance leads to a position. -/
structure Lands (a : Activation) (offset : Int) : Prop where
  start : 0 ≤ (a.counter : Int) + offset
  room : (a.counter : Int) + offset ≤ Frame.greatestPosition

theorem jump_of_lands (h : Lands a offset) (w : World) :
    jump offset (a, w) = .ok () ({ a with counter := ((a.counter : Int) + offset).toNat }, w) := by
  have htarget : target offset (a, w) = .ok ((a.counter : Int) + offset).toNat (a, w) := by
    unfold target
    rw [Run.bind_apply]
    simp only [activation, if_neg (not_lt.2 h.start), if_pos h.room]
    rfl
  unfold jump
  rw [Run.bind_ok htarget]
  rfl

theorem shared_ok {α : Type} {m : Run World α} {x : α} (h : m w = .ok x t) (a : Activation) :
    (Run.shared m : Exec α) (a, w) = .ok x (a, t) := by
  unfold Run.shared
  simp only [h]

/-- The value stack after a loop asked the iterator on top for its next item. -/
def afterLoop (given : Option Value) (stack : List Value) : List Value :=
  given.elim stack.tail (· :: stack)

/-- How a delegation goes on after it asked its iterator for the next item. -/
def afterDelegation (given : Option Value) : Suspension :=
  given.elim (.delegateExhausted .none) .yielded

/-- What a loop does with what its iterator gives. -/
def loopOn (e : Engine) (offset : Int) : Option Value → Exec Unit
  | some item => push item
  | none => do
      release e (← pop)
      jump offset

theorem forIter_eq (e : Engine) (offset : Int) :
    forIter e offset = (do
      let iterator ← peek
      Run.shared (World.share iterator)
      owning e iterator (Run.shared (e.nextItem iterator) >>= loopOn e offset)) := by
  unfold forIter
  refine bind_congr fun iterator => bind_congr fun _ => congrArg (owning e iterator)
    (bind_congr fun given => ?_)
  cases given <;> rfl

/-- The instruction of a loop shares the iterator on top while it asks it. -/
theorem forIter_of_ended (hstack : a.frame.stack = .iterator r :: rest)
    (hnext : (Run.shared (e.nextItem (.iterator r)) >>= loopOn e offset)
      (a, w.retain (.iterator r)) = .ok () (b, t))
    (howned : 2 ≤ t.owners (.iterator r)) :
    forIter e offset (a, w) =
      .ok () (b, t.setOwners (t.owners (.iterator r) - 1) (.iterator r)) := by
  have hpeek : peek (a, w) = .ok (.iterator r) (a, w) := by
    unfold peek
    simp only [hstack]
  rw [forIter_eq, Run.bind_ok hpeek]
  exact Run.ensuring_ok hnext (shared_ok (Engine.release_of_shared rfl howned) b)

/-- Asked by a loop.  An iterator that has another owner outlasts the loop. -/
theorem forIter_of_list (e : Engine) (p : Code.Program) (closure : Value)
    (h : w.iterator? r = some (.list l n)) (howned : 2 ≤ w.owners (.iterator r)) (hstack : a.frame.stack = .iterator r :: rest)
    (hland : Lands a offset) :
    ∃ b t, execute e p closure (.forIter offset) (a, w) = .ok none (b, t) ∧
      b.frame.stack = afterLoop (w.items l)[n]? a.frame.stack ∧ w.Answers r l n (w.items l)[n]? t := by
  -- the iterator while the loop asks it, with an owner more
  have hthree : 3 ≤ ((w.retain (.iterator r)).stepped r l n).owners (.iterator r) := by
    refine le_trans ?_ (World.owners_le_stepped _ r l n _)
    rw [World.owners_retain, Value.objects, Bag.of_singleton_self]
    omega
  have hasked := (World.answers_stepped (w.retain (.iterator r)) r l n).of_retain
  have hnext := shared_ok (next_of_list (e := e) (w := w.retain (.iterator r)) (by simpa using h)) a
  rw [World.items_retain] at hasked hnext
  generalize (w.retain (.iterator r)).stepped r l n = s at hthree hasked hnext
  cases hgiven : (w.items l)[n]? with
  | some v =>
      rw [hgiven] at hnext hasked
      have hlooped := forIter_of_ended (e := e) hstack (Run.bind_ok hnext (f := loopOn e offset)) (by omega)
      exact ⟨_, _, Run.bind_ok hlooped, rfl, hasked.setOwners⟩
  | none =>
      rw [hgiven] at hnext hasked
      obtain ⟨below, hpopped⟩ : ∃ below, pop (a, s) = .ok (.iterator r) (below, s) ∧
          below.frame.stack = rest ∧ below.counter = a.counter := by
        unfold pop
        simp only [hstack]
        exact ⟨_, rfl, rfl, rfl⟩
      have hreleased := shared_ok (Engine.release_of_shared (e := e) (v := .iterator r) rfl
        (show 2 ≤ s.owners (.iterator r) by omega)) below
      have hjumped := jump_of_lands (a := below)
        ⟨by rw [hpopped.2.2]; exact hland.start, by rw [hpopped.2.2]; exact hland.room⟩
      have hlooped := forIter_of_ended (e := e) hstack (Run.bind_ok hnext (f := loopOn e offset)
          |>.trans <| (Run.bind_ok hpopped.1).trans <| (Run.bind_ok hreleased).trans (hjumped _))
        (by simp only [World.owners_setOwners, if_true]; omega)
      refine ⟨_, _, Run.bind_ok hlooped, ?_, hasked.setOwners.setOwners⟩
      rw [hstack]
      exact hpopped.2.1

/-- The iterator that a delegation asks, or is about to ask. -/
def Targets (a : Activation) (r : IteratorRef) : Prop :=
  a.frame.delegate = some (.iterator r) ∨
    a.frame.delegate = none ∧ a.frame.stack.head? = some (.iterator r)

theorem delegate_of_targets (h : Targets a r) (howned : 1 ≤ w.owners (.iterator r)) :
    ∃ b, delegate e (a, w) = .ok (.iterator r) (b, w.retain (.iterator r)) ∧ b.sent = a.sent := by
  unfold delegate
  rw [Run.bind_apply]
  simp only [activation]
  rcases h with hdelegate | ⟨hdelegate, htop⟩
  · rw [hdelegate]
    exact ⟨a, rfl, rfl⟩
  · obtain ⟨rest, hstack⟩ := List.head?_eq_some_iff.1 htop
    have hpopped : pop (a, w) =
        .ok (.iterator r) ({ a with frame := { a.frame with stack := rest } }, w) := by
      unfold pop
      simp only [hstack]
    have hinner : owning e (.iterator r) (Run.shared (World.getIter (.iterator r)))
        ({ a with frame := { a.frame with stack := rest } }, w) =
          .ok (.iterator r) ({ a with frame := { a.frame with stack := rest } }, w) := by
      refine Run.ensuring_ok (shared_ok (t := w.retain (.iterator r)) rfl _) (shared_ok ?_ _)
      refine Engine.release_retain fun o ho => ?_
      rw [Value.objects, List.mem_singleton] at ho
      exact ho ▸ howned
    rw [hdelegate]
    refine ⟨_, (Run.bind_ok hpopped).trans ((Run.bind_ok hinner).trans rfl), rfl⟩

/-- Asked by a delegation that was sent nothing. -/
theorem yieldFrom_of_list (e : Engine) (p : Code.Program) (closure : Value)
    (h : w.iterator? r = some (.list l n)) (howned : 1 ≤ w.owners (.iterator r)) (htargets : Targets a r) (hsent : a.sent = .none) :
    ∃ b t, execute e p closure .yieldFrom (a, w) =
        .ok (some (afterDelegation (w.items l)[n]?)) (b, t) ∧
      w.Answers r l n (w.items l)[n]? t := by
  obtain ⟨c, hdelegate, hc⟩ := delegate_of_targets (e := e) htargets howned
  have htwo : 2 ≤ ((w.retain (.iterator r)).stepped r l n).owners (.iterator r) := by
    refine le_trans ?_ (World.owners_le_stepped _ r l n _)
    rw [World.owners_retain, Value.objects, Bag.of_singleton_self]
    omega
  have hasked := (World.answers_stepped (w.retain (.iterator r)) r l n).of_retain
  have hinto := e.sendInto_of_list (w := w.retain (.iterator r)) (by simpa using h)
  rw [World.items_retain] at hasked hinto
  generalize (w.retain (.iterator r)).stepped r l n = s at htwo hasked hinto
  let d : Activation := { c with frame.position := (c.counter : Int) - 1, sent := .none }
  have hattempt : Run.attempt (Run.shared (e.sendInto (.iterator r) c.sent) : Exec _)
      (d, w.retain (.iterator r)) =
        .ok (.ok ((w.items l)[n]?.elim (.finished .none) .item)) (d, s) := by
    unfold Run.attempt
    rw [hc, hsent, shared_ok hinto]
  have hyielded : yieldFrom e (a, w) =
      .ok (afterDelegation (w.items l)[n]?)
        (d, s.setOwners (s.owners (.iterator r) - 1) (.iterator r)) := by
    unfold yieldFrom
    rw [Run.bind_ok hdelegate]
    refine Run.ensuring_ok (t := (d, s)) ?_ (shared_ok (Engine.release_of_shared rfl htwo) _)
    refine (Run.bind_ok hattempt).trans ?_
    cases (w.items l)[n]? <;> rfl
  refine ⟨d, s.setOwners (s.owners (.iterator r) - 1) (.iterator r), ?_, hasked.setOwners⟩
  show (some <$> yieldFrom e) (a, w) = _
  rw [← bind_pure_comp, Run.bind_ok hyielded]
  rfl

/-- Appending to a list that has another owner. -/
theorem listAppend_of_shared (e : Engine) (p : Code.Program) (closure : Value) {item : Value}
    (howned : 2 ≤ w.owners (.list l))
    (hstack : a.frame.stack = item :: .list l :: rest) :
    ∃ b, execute e p closure .listAppend (a, w) =
      .ok none (b, (w.setItems l (w.items l ++ [item])).setOwners (w.owners (.list l) - 1) (.list l)) := by
  obtain ⟨c, d, hitem, htarget⟩ : ∃ c d, pop (a, w) = .ok item (c, w) ∧
      pop (c, w) = .ok (.list l) (d, w) := by
    refine ⟨{ a with frame := { a.frame with stack := .list l :: rest } },
      { a with frame := { a.frame with stack := rest } }, ?_, rfl⟩
    unfold pop
    simp only [hstack]
  have hreleased := Engine.release_of_shared (e := e) (v := .list l) (o := .list l)
    (w := w.setItems l (w.items l ++ [item])) rfl (by simpa using howned)
  rw [World.owners_setItems] at hreleased
  have happended : listAppend e (a, w) = .ok ()
      (d, (w.setItems l (w.items l ++ [item])).setOwners (w.owners (.list l) - 1) (.list l)) :=
    (Run.bind_ok hitem).trans <| (Run.bind_ok (Run.onInterruption_ok htarget)).trans
      (shared_ok hreleased d)
  exact ⟨d, Run.bind_ok happended⟩

theorem afterLoop_injective {other : Option Value} {stack : List Value}
    (h : afterLoop given stack = afterLoop other stack) : given = other := by
  -- a stack with an item more is no stack with an item less
  have hne : ∀ v : Value, v :: stack ≠ stack.tail := fun v heq => by
    have := congrArg List.length heq
    simp only [List.length_cons, List.length_tail] at this
    omega
  cases given with
  | none =>
      cases other with
      | none => rfl
      | some u => exact absurd h.symm (hne u)
  | some v =>
      cases other with
      | none => exact absurd h (hne v)
      | some u => rw [(List.cons.inj h).1]

theorem afterDelegation_injective {other : Option Value}
    (h : afterDelegation given = afterDelegation other) : given = other := by
  cases given <;> cases other <;> cases h <;> rfl

end Exec

/-! ## Calls and appends in any order -/

open Exec

/-- A call for the next item of an iterator that is not a generator, in one of the three ways, with
what it gave.  Where a loop or a delegation asks, the iterator outlasts the instruction. -/
inductive Asks (r : IteratorRef) (w : World) (given : Option Value) (t : World) : Prop where
  | direct (e : Engine) (h : World.withIterator r (Iterator.next e) w = .ok given t)
  | loop (e : Engine) (p : Code.Program) (closure : Value) (offset : Int) (a b : Activation)
      (htop : a.frame.stack.head? = some (.iterator r)) (hland : Lands a offset)
      (howned : 2 ≤ w.owners (.iterator r))
      (h : execute e p closure (.forIter offset) (a, w) = .ok none (b, t))
      (hgiven : b.frame.stack = afterLoop given a.frame.stack)
  | delegation (e : Engine) (p : Code.Program) (closure : Value) (a b : Activation)
      (htargets : Targets a r) (hsent : a.sent = .none) (howned : 1 ≤ w.owners (.iterator r))
      (h : execute e p closure .yieldFrom (a, w) = .ok (some (afterDelegation given)) (b, t))

/-- The call after this one gives this, in whichever way it is made. -/
structure World.Gives (w : World) (r : IteratorRef) (given : Option Value) : Prop where
  direct : ∀ e, ∃ t, World.withIterator r (Iterator.next e) w = .ok given t
  loop : ∀ e p closure offset (a : Activation), a.frame.stack.head? = some (.iterator r) →
    Lands a offset → 2 ≤ w.owners (.iterator r) →
    ∃ b t, execute e p closure (.forIter offset) (a, w) = .ok none (b, t) ∧
      b.frame.stack = afterLoop given a.frame.stack
  delegation : ∀ e p closure (a : Activation), Targets a r → a.sent = .none →
    1 ≤ w.owners (.iterator r) →
    ∃ b t, execute e p closure .yieldFrom (a, w) = .ok (some (afterDelegation given)) (b, t)

theorem gives_of_list (h : w.iterator? r = some (.list l n)) : w.Gives r (w.items l)[n]? where
  direct _ := ⟨_, next_of_list h⟩
  loop _ _ _ _ _ htop hland howned := by
    obtain ⟨rest, hstack⟩ := List.head?_eq_some_iff.1 htop
    obtain ⟨b, t, hrun, hafter, _⟩ := forIter_of_list _ _ _ h howned hstack hland
    exact ⟨b, t, hrun, hafter⟩
  delegation _ _ _ _ htargets hsent howned := by
    obtain ⟨b, t, hrun, _⟩ := yieldFrom_of_list _ _ _ h howned htargets hsent
    exact ⟨b, t, hrun⟩

/-- Each of the ways to ask a list iterator is answered by the list. -/
theorem Asks.answers (hasks : Asks r w given t) (h : w.iterator? r = some (.list l n)) :
    w.Answers r l n given t := by
  cases hasks with
  | direct e hrun =>
      rw [next_of_list h] at hrun
      cases hrun
      exact w.answers_stepped r l n
  | loop e p closure offset a b htop hland howned hrun hgiven =>
      obtain ⟨rest, hstack⟩ := List.head?_eq_some_iff.1 htop
      obtain ⟨b', t', hrun', hafter, hanswers⟩ :=
        forIter_of_list e p closure h howned hstack hland
      rw [hrun] at hrun'
      cases hrun'
      exact afterLoop_injective (hgiven.symm.trans hafter) ▸ hanswers
  | delegation e p closure a b htargets hsent howned hrun =>
      obtain ⟨b', t', hrun', hanswers⟩ :=
        yieldFrom_of_list e p closure h howned htargets hsent
      rw [hrun, EStateM.Result.ok.injEq, Option.some.injEq, Prod.mk.injEq] at hrun'
      obtain ⟨hsame, rfl, rfl⟩ := hrun'
      exact afterDelegation_injective hsame ▸ hanswers

/-- A call for the next item: what it gave, and what the list held when it was made. -/
structure Asking where
  given : Option Value
  items : List Value

/-- The items that calls gave, in order. -/
def gave (calls : List Asking) : List Value := calls.flatMap (·.given.toList)

theorem gave_append (before after : List Asking) :
    gave (before ++ after) = gave before ++ gave after := List.flatMap_append

/-- Calls for the next item of an iterator, and appends to a list by whoever holds it, in any order.
What happens between them does not touch either. -/
inductive Interleaving (r : IteratorRef) (l : ListRef) (w : World) : World → List Asking → Prop where
  | start : Interleaving r l w w []
  | asks {s t : World} {calls : List Asking} {given : Option Value} (h : Interleaving r l w s calls)
      (hasks : Asks r s given t) : Interleaving r l w t (calls ++ [⟨given, s.items l⟩])
  | append {s t : World} {calls : List Asking} (h : Interleaving r l w s calls) (e : Engine)
      (p : Code.Program) (closure item : Value) (rest : List Value) (a b : Activation)
      (hstack : a.frame.stack = item :: .list l :: rest) (howned : 2 ≤ s.owners (.list l))
      (hrun : execute e p closure .listAppend (a, s) = .ok none (b, t)) : Interleaving r l w t calls
  | pause {s t : World} {calls : List Asking} (h : Interleaving r l w s calls)
      (hiterator : t.iterator? r = s.iterator? r) (hitems : t.items l = s.items l) :
      Interleaving r l w t calls

/-- The iterator stands behind the items that it gave, and those are what the list begins with. -/
theorem Interleaving.position {calls : List Asking} (h : Interleaving r l w t calls)
    (hfresh : w.iterator? r = some (.list l 0)) :
    t.iterator? r = some (.list l (gave calls).length) ∧ gave calls <+: t.items l := by
  induction h with
  | start => exact ⟨hfresh, List.nil_prefix⟩
  | @asks s t calls given h hasks ih =>
      obtain ⟨hposition, hprefix⟩ := ih
      obtain ⟨hgives, hmoved, hitems⟩ := hasks.answers hposition
      rw [gave_append, hitems]
      refine ⟨by simpa [gave] using hmoved, ?_⟩
      cases hgiven : given with
      | none => simpa [gave] using hprefix
      | some v =>
          obtain ⟨rest, hrest⟩ := hprefix
          rw [hgiven, ← hrest, List.getElem?_append_right le_rfl, Nat.sub_self] at hgives
          obtain ⟨more, rfl⟩ := List.head?_eq_some_iff.1 (List.head?_eq_getElem?.trans hgives.symm)
          exact ⟨more, by rw [← hrest]; simp [gave]⟩
  | @append s t calls h e p closure item rest a b hstack howned hrun ih =>
      obtain ⟨c, happended⟩ :=
        listAppend_of_shared e p closure howned hstack
      rw [hrun] at happended
      cases happended
      refine ⟨by simpa using ih.1, ?_⟩
      simpa using ih.2.trans (List.prefix_append _ _)
  | pause h hiterator hitems ih => rwa [hiterator, hitems]

/-- Iterating over a list that grows.

Let an iterator over a list be asked for its next item, directly, by loops and by delegations, while
items are appended to the list through any of its aliases.  Each call gives what stands in the list at
that time behind the items that were given before; it gives nothing exactly if these are the whole
list at that time.  So the items given are what the list begins with: none is skipped and none is
given twice.  And whatever was given, or not given, so far, the call after that gives what the list
holds behind it by then. -/
theorem list_stepped {calls : List Asking} (hfresh : w.iterator? r = some (.list l 0))
    (h : Interleaving r l w t calls) :
    (∀ before call after, calls = before ++ call :: after →
      call.given = call.items[(gave before).length]? ∧
        (call.given = none ↔ call.items = gave before)) ∧
    gave calls <+: t.items l ∧
    t.Gives r (t.items l)[(gave calls).length]? := by
  obtain ⟨hposition, hprefix⟩ := h.position hfresh
  refine ⟨?_, hprefix, gives_of_list hposition⟩
  clear hposition hprefix
  -- the calls were made one after the other, so the last of them is looked at first
  induction h with
  | start => simp
  | @asks s t calls given h hasks ih =>
      intro before call after hsplit
      rcases List.eq_nil_or_concat after with rfl | ⟨more, last, rfl⟩
      · obtain ⟨rfl, hlast⟩ := List.append_inj' hsplit rfl
        obtain rfl := (List.cons.inj hlast).1
        obtain ⟨hposition, rest, hrest⟩ := h.position hfresh
        have hgiven := (hasks.answers hposition).gives
        refine ⟨hgiven, ?_⟩
        rw [hgiven, List.getElem?_eq_none_iff, ← hrest]
        simp
      · rw [List.concat_eq_append, ← List.cons_append, ← List.append_assoc] at hsplit
        exact ih before call more (List.append_inj' hsplit rfl).1
  | append h e p closure item rest a b hstack howned hrun ih => exact ih
  | pause h hiterator hitems ih => exact ih

/-! ### An append after the end -/

/-- A list of one item with three owners, and a fresh iterator over it with two. -/
def oneItem : World :=
  let (l, w) := (World.new 1000 .collecting).newList [.int 1]
  let (r, w) := (w.retain (.list l)).retain (.list l) |>.newIterator (.list l 0)
  w.retain (.iterator r)

/-- A frame at its first instruction with these values on its stack, the top first. -/
def holding (stack : List Value) : Activation := ⟨{ Frame.new ⟨0⟩ [] with stack := stack }, 1, .none⟩

/-- The iterator is asked twice, which takes it to the end; then a body appends an item, and a loop
asks the iterator again. -/
theorem interleaving_oneItem : ∃ t, Interleaving ⟨0⟩ ⟨0⟩ oneItem t
    [⟨some (.int 1), [.int 1]⟩, ⟨none, [.int 1]⟩, ⟨some (.int 2), [.int 1, .int 2]⟩] := by
  let e := Machine.engine 0
  have hfirst := Interleaving.start.asks (.direct e (r := ⟨0⟩) (w := oneItem) rfl) (l := ⟨0⟩)
  have hsecond := hfirst.asks (.direct e rfl)
  have happended := hsecond.append e default .none (.int 2) [] (holding [.int 2, .list ⟨0⟩]) _ rfl
    (by decide) rfl
  exact ⟨_, happended.asks (.loop e default .none 0 (holding [.iterator ⟨0⟩]) _ rfl
    ⟨by decide, by decide⟩ (by decide) rfl rfl)⟩

/-- The end of an iteration is not remembered: after an append, an iterator that had reported the end
gives an item again. -/
theorem list_stepped_past_end : ∃ (t : World) (calls : List Asking),
    oneItem.iterator? ⟨0⟩ = some (.list ⟨0⟩ 0) ∧ Interleaving ⟨0⟩ ⟨0⟩ oneItem t calls ∧
      calls.map (·.given) = [some (.int 1), none, some (.int 2)] := by
  obtain ⟨t, h⟩ := interleaving_oneItem
  exact ⟨t, _, rfl, h, rfl⟩

theorem list_stepped_oneItem : ∃ (t : World) (calls : List Asking),
    oneItem.iterator? ⟨0⟩ = some (.list ⟨0⟩ 0) ∧ Interleaving ⟨0⟩ ⟨0⟩ oneItem t calls ∧
      gave calls = [.int 1, .int 2] ∧ gave calls <+: t.items ⟨0⟩ ∧ t.Gives ⟨0⟩ (t.items ⟨0⟩)[2]? := by
  obtain ⟨t, h⟩ := interleaving_oneItem
  obtain ⟨_, hprefix, hgives⟩ := list_stepped rfl h
  exact ⟨t, _, rfl, h, rfl, hprefix, hgives⟩

end Resumable
