import Mathlib.Algebra.Order.Pi
import Mathlib.Logic.Function.Basic
import Resumable.Proofs.Tame

set_option autoImplicit false

/-!
# Zones

What a computation leads to depends on the part of the world that it can reach.  A zone says, for
the time of a computation, what is outside of its reach and what it will find unchanged: objects
that are hidden from it, holders that are not its own, generators that it cannot resume because they
are running or their frame is in use.

Two worlds are linked in a zone (`Zone.Linked`) if they agree on everything that is not hidden.  They
may differ in the number of outside owners of an object, where there is at least one on either side,
and in the number of levels that are taken.  Being linked includes the accounts of the left world:
an object has as many owners as there are references and holders, or more.

A world that is linked to itself in a plain zone is sound, and worlds that are linked in a tame
zone are equal.
-/

namespace Resumable

/-- A world may come before another: what is held from outside is the same, and no generator has got
a frame back. -/
structure World.Precedes (w w' : World) : Prop where
  held : w'.held = w.held
  size : w.generators.size ≤ w'.generators.size
  lost : ∀ g, g.index < w.generators.size → (w.generator g).frame = none →
    (w'.generator g).frame = none

namespace World

/-- An object is in a world what it is in another. -/
structure SameAt (o : Object) (w w' : World) : Prop where
  owners : w'.owners o = w.owners o
  content : w'.content o = w.content o

namespace SameAt

variable {o : Object} {s w : World}

@[refl] theorem refl (o : Object) (w : World) : SameAt o w w := ⟨rfl, rfl⟩

theorem setItems (h : SameAt o s w) {r : ListRef} {vs : List Value} (hne : o ≠ .list r) :
    SameAt o s (w.setItems r vs) :=
  ⟨by rw [owners_setItems, h.owners], by rw [content_setItems, if_neg hne, h.content]⟩

theorem setIterator (h : SameAt o s w) {r : IteratorRef} {x : Option Iterator}
    (hne : o ≠ .iterator r) : SameAt o s (w.setIterator r x) :=
  ⟨by rw [owners_setIterator, h.owners], by rw [content_setIterator, if_neg hne, h.content]⟩

theorem setGenerator (h : SameAt o s w) {g : GeneratorRef} {x : Generator}
    (hne : o ≠ .generator g) : SameAt o s (w.setGenerator g x) :=
  ⟨by rw [owners_setGenerator, h.owners], by rw [content_setGenerator, if_neg hne, h.content]⟩

theorem setFrame (h : SameAt o s w) {r : FrameRef} {x : Option Frame} (hne : o ≠ .frame r) :
    SameAt o s (w.setFrame r x) :=
  ⟨by rw [owners_setFrame, h.owners], by rw [content_setFrame, if_neg hne, h.content]⟩

theorem setOwners (h : SameAt o s w) {u : Object} {n : Nat} (hne : o ≠ u) :
    SameAt o s (w.setOwners n u) :=
  ⟨by rw [owners_setOwners, if_neg (Ne.symm hne), h.owners], by rw [content_setOwners, h.content]⟩

theorem newList (h : SameAt o s w) {vs : List Value} (hne : o ≠ .list (w.newList vs).1) :
    SameAt o s (w.newList vs).2 :=
  ⟨by rw [owners_newList, if_neg hne, h.owners], by rw [content_newList, if_neg hne, h.content]⟩

theorem newIterator (h : SameAt o s w) {x : Iterator} (hne : o ≠ .iterator (w.newIterator x).1) :
    SameAt o s (w.newIterator x).2 :=
  ⟨by rw [owners_newIterator, if_neg hne, h.owners],
    by rw [content_newIterator, if_neg hne, h.content]⟩

end SameAt

end World

/-- A generator that is resumed needs a level, and none is left. -/
def World.isExhausted (w : World) (g : GeneratorRef) : Bool :=
  !(w.generator g).running && (w.generator g).frame.isSome &&
    decide (w.thread.limit ≤ w.thread.depth)

namespace Request

/-- A request that is refused a level. -/
def needsLevel (w : World) : Request → Bool
  | .resume g _ => w.isExhausted g
  | _ => false

/-- The generator that is asked for something. -/
def addressee : Request → Option GeneratorRef
  | .resume g _ => some g
  | .throw g _ => some g
  | .close g => some g
  | .reclaim _ => none

end Request

/-- What holds of a world goes on to hold.  A run that is broken off may leave a world of another
thread, but not any world.  A request that is barred is not answered: the run is broken off
before.  A law may ask that worlds are tame. -/
structure Law where
  rule : World → Prop
  keeps : ∀ {w w' : World}, rule w → w.Precedes w' → rule w'
  broken : World → Prop
  bars : Request → World → Prop
  tame : Prop := False

namespace Law

/-- The law that says nothing of a world, and by which no run is broken off. -/
def trivial : Law where
  rule _ := True
  keeps _ _ := True.intro
  broken _ := False
  bars _ _ := False

/-- The same law, but runs are broken off elsewhere. -/
def breaking (L : Law) (broken : World → Prop) : Law := { L with broken := broken }

/-- A run is broken off before it is refused a level. -/
def Guarded (L : Law) : Prop := ∀ request w, Request.needsLevel w request = true → L.bars request w

/-- A run is broken off before the generator is asked for anything. -/
def Barred (L : Law) (g : GeneratorRef) : Prop :=
  ∀ request w, request.addressee = some g → L.bars request w

/-- No request is barred. -/
class Free (L : Law) : Prop where
  free : ∀ request w, ¬ L.bars request w

instance : Free trivial := ⟨fun _ _ h => h⟩

instance {L : Law} [h : Free L] (broken : World → Prop) : Free (L.breaking broken) := ⟨h.free⟩

theorem Free.not_barred (L : Law) [Free L] (g : GeneratorRef) : ¬ L.Barred g := fun h =>
  Free.free (.close g) default (h _ _ rfl)

end Law

/-- The circumstances of a computation that goes on in two worlds, the left and the right one. -/
structure Zone where
  /-- the objects that are out of reach; the worlds may disagree on them -/
  hidden : Object → Prop
  /-- the objects that running code does not refer to -/
  sealed : Object → Prop
  /-- the holders outside, in the left world -/
  left : Bag
  /-- the holders outside, in the right world -/
  right : Bag
  /-- a world in which the hidden objects are what they are in the left one -/
  stash : World
  /-- the same for the right world -/
  beyond : World
  /-- the objects that the left world does not dispose of, or else the run is broken off -/
  spared : Object → Prop
  leftThread : Thread
  rightThread : Thread
  codes : List CodeObject
  names : Names
  /-- the generators that do not change -/
  fixed : GeneratorRef → Option Generator
  /-- what holds of the left world -/
  law : Law
  /-- the cells of frames that do not change -/
  cells : FrameRef → Option (Option Frame)
  /-- the iterators that may be in use -/
  used : IteratorRef → Prop

namespace Zone

variable {Z : Zone} {F G : Bag} {w w' t t' : World} {o : Object}

/-! ## Linked worlds -/

/-- The left world is as the zone says. -/
structure Pinned (Z : Zone) (w : World) : Prop where
  thread : w.thread = Z.leftThread
  codes : w.codes = Z.codes
  names : w.names = Z.names
  fixed : ∀ g G, Z.fixed g = some G → w.generator g = G
  law : Z.law.rule w
  cells : ∀ r c, Z.cells r = some c → w.frame? r = c
  running : ∀ g, (w.generator g).running = true → (Z.fixed g).isSome = true
  stash : ∀ o, Z.hidden o → World.SameAt o Z.stash w
  spared : ∀ o, Z.spared o → 1 ≤ w.owners o
  vacant : ∀ o, Z.sealed o → ¬ Z.hidden o → w.owners o = 0
  lists : ∀ r, Z.sealed (.list r) → r.index < w.lists.size
  iterators : ∀ r, Z.sealed (.iterator r) → r.index < w.iterators.size

/-- The worlds agree on what is not hidden. -/
structure Alike (Z : Zone) (w w' : World) : Prop where
  thread : w'.thread = Z.rightThread
  surroundings : w'.surroundings = w.surroundings
  sizes : w'.sizes = w.sizes
  items : ∀ r, ¬ Z.hidden (.list r) → w'.items r = w.items r
  iterator : ∀ r, ¬ Z.hidden (.iterator r) → w'.iterator? r = w.iterator? r
  generator : ∀ g, ¬ Z.hidden (.generator g) → w'.generator g = w.generator g
  frame : ∀ r, ¬ Z.hidden (.frame r) → w'.frame? r = w.frame? r
  owners : ∀ o, ¬ Z.hidden o → w'.owners o + Z.left o = w.owners o + Z.right o
  beyond : ∀ o, Z.hidden o → World.SameAt o Z.beyond w'

/-- An object is in its cell unless it is in use. -/
def Seated (Z : Zone) (w : World) : Object → Prop
  | .frame r => w.frame? r = none → Z.cells r = some none
  | .iterator r => w.iterator? r = none → Z.used r
  | _ => True

/-- There are owners for all references and holders, two generators never share a frame, and what has
an owner is in its cell unless it is in use. -/
structure Accounted (Z : Zone) (F : Bag) (w : World) : Prop where
  owned : ∀ o, ¬ Z.sealed o → w.references Z.hidden o + F o + Z.left o ≤ w.owners o
  unseen : ∀ o, Z.sealed o → w.references Z.hidden o + F o = 0
  slots : ∀ g h r, ¬ Z.hidden (.generator g) → ¬ Z.hidden (.generator h) →
    (w.generator g).frame = some r → (w.generator h).frame = some r → g = h
  seated : ∀ o, ¬ Z.hidden o → 1 ≤ w.owners o → Z.Seated w o

/-- The worlds are linked, where the computation and those that wait for it hold a bag of
objects. -/
structure Linked (Z : Zone) (F : Bag) (w w' : World) : Prop where
  pinned : Z.Pinned w
  alike : Z.Alike w w'
  accounted : Z.Accounted F w
  tame : Z.law.tame → w.Tame

theorem Accounted.le (h : Z.Accounted G w) (hle : F ≤ G) : Z.Accounted F w where
  owned o ho := by
    have := h.owned o ho
    have := Bag.apply_le hle o
    omega
  unseen o ho := by
    have := h.unseen o ho
    have := Bag.apply_le hle o
    omega
  slots := h.slots
  seated := h.seated

/-- What is no longer held need not be accounted for. -/
theorem Linked.le (h : Z.Linked G w w') (hle : F ≤ G) : Z.Linked F w w' :=
  { h with accounted := h.accounted.le hle }

/-! ## Conditions on a zone -/

/-- What a zone says can be relied on.  Outside holders differ only in number, or the object is spared
and the left world has no more of them.  A generator that does not change is running, has its frame in
use or is barred, and it has an owner outside.  The frame of a running generator is in use or does not
change either, and the frames of other generators do unless they are barred.  A frame that does not
change while its generator is running has a delegate. -/
structure Valid (Z : Zone) : Prop where
  sealed_of_hidden : ∀ o, Z.hidden o → Z.sealed o
  holders : ∀ o, Z.left o = Z.right o ∨ 1 ≤ Z.left o ∧ 1 ≤ Z.right o ∨
    Z.spared o ∧ Z.left o ≤ Z.right o
  spared : ∀ o, Z.spared o → ∀ w, Z.law.bars (.reclaim o) w
  sink : Z.rightThread.sink = Z.leftThread.sink
  kept : ∀ g G, Z.fixed g = some G → Z.sealed (.generator g) ∨ 1 ≤ Z.left (.generator g)
  locked : ∀ g G, Z.fixed g = some G → Z.hidden (.generator g) ∨ G.running = true ∨
    Z.law.Barred g ∨ ∃ r, G.frame = some r ∧ Z.cells r = some none
  slot : ∀ g G, Z.fixed g = some G → G.running = true →
    ∃ r c, G.frame = some r ∧ Z.cells r = some c
  cell : ∀ r f, Z.cells r = some (some f) → Z.hidden (.frame r) ∨
    ∃ g G, ¬ Z.hidden (.generator g) ∧ Z.fixed g = some G ∧
      (G.running = true ∧ f.delegate.isSome = true ∨ Z.law.Barred g) ∧ G.frame = some r

/-- The threads are the same, or the right one has no less room for levels and the left world is
never refused one. -/
def Room (Z : Zone) : Prop :=
  Z.leftThread = Z.rightThread ∨ Z.law.Guarded ∧
    Z.leftThread.limit + Z.rightThread.depth ≤ Z.rightThread.limit + Z.leftThread.depth

/-- An iterator is in use. -/
def Busy (Z : Zone) : Prop := ∃ r, Z.used r

/-- Nothing is in use but the frames of generators that are running. -/
def Clear (Z : Zone) : Prop :=
  ¬ Z.Busy ∧ ∀ r, Z.cells r = some none → ∃ g x, ¬ Z.hidden (.generator g) ∧ Z.fixed g = some x ∧
    x.running = true ∧ x.frame = some r

/-- A computation may be abandoned: it is not on tame worlds, or something is in use. -/
def Breaks (Z : Zone) : Prop := Z.law.tame → ¬ Z.Clear

theorem Busy.breaks (h : Z.Busy) : Z.Breaks := fun _ hclear => hclear.1 h

theorem breaks_of_not_tame (h : ¬ Z.law.tame) : Z.Breaks := fun htame => absurd htame h

/-- The cell of a frame that has an owner may be worked on, or found vacant if a computation may be
abandoned. -/
structure Open (Z : Zone) (F : Bag) (r : FrameRef) : Prop where
  unsealed : ¬ Z.sealed (.frame r)
  loose : ∀ f, Z.cells r ≠ some (some f)
  vacant : Z.cells r = some none → Z.Breaks
  held : 1 ≤ F (.frame r) + Z.left (.frame r)

/-- A generator may be worked on if it is not running. -/
def Admits (Z : Zone) (g : GeneratorRef) : Prop := Z.fixed g = none ∨ ¬ Z.law.Barred g

/-- A generator can be resumed in a zone: it is in reach, and it has a holder. -/
def Held (Z : Zone) (F : Bag) (g : GeneratorRef) : Prop :=
  ¬ Z.hidden (.generator g) ∧
    (Z.sealed (.generator g) ∨ 1 ≤ F (.generator g) + Z.left (.generator g))

theorem Open.visible {r : FrameRef} (h : Z.Open F r) (hZ : Z.Valid) : ¬ Z.hidden (.frame r) :=
  fun hh => h.unsealed (hZ.sealed_of_hidden _ hh)

theorem Open.le {r : FrameRef} (h : Z.Open F r) (hle : F ≤ G) : Z.Open G r := by
  have := Bag.apply_le hle (.frame r)
  have := h.held
  exact { h with held := by omega }

/-- A frame that is held is in its cell, unless a computation may be abandoned. -/
theorem Open.breaks {r : FrameRef} (hr : Z.Open F r) (hZ : Z.Valid) (h : Z.Linked G w w')
    (hle : F ≤ G) (hvacant : w.frame? r = none) : Z.Breaks := by
  have howned := h.accounted.owned (.frame r) hr.unsealed
  have := Bag.apply_le hle (.frame r)
  have := hr.held
  exact hr.vacant (h.accounted.seated (.frame r) (hr.visible hZ) (by omega) hvacant)

theorem Held.le {g : GeneratorRef} (h : Z.Held F g) (hle : F ≤ G) : Z.Held G g := by
  have := Bag.apply_le hle (.generator g)
  exact ⟨h.1, h.2.imp_right fun _ => by omega⟩

/-- What is held is not sealed. -/
theorem Linked.not_sealed (h : Z.Linked F w w') {o : Object} (ho : 1 ≤ F o) : ¬ Z.sealed o := by
  intro hsealed
  have := h.accounted.unseen o hsealed
  omega

/-- What the world refers to is not sealed. -/
theorem Linked.not_sealed_of_reference (h : Z.Linked F w w') {o : Object}
    (ho : 1 ≤ w.references Z.hidden o) : ¬ Z.sealed o := by
  intro hsealed
  have := h.accounted.unseen o hsealed
  omega

theorem Linked.held (h : Z.Linked F w w') (hZ : Z.Valid) {g : GeneratorRef}
    (hg : 1 ≤ F (.generator g)) : Z.Held F g :=
  ⟨fun hidden => h.not_sealed hg (hZ.sealed_of_hidden _ hidden), Or.inr (by omega)⟩

/-- The frame of a generator is not sealed. -/
theorem Linked.frame_not_sealed (h : Z.Linked F w w') {g : GeneratorRef} {r : FrameRef}
    (hg : ¬ Z.hidden (.generator g)) (hslot : (w.generator g).frame = some r) :
    ¬ Z.sealed (.frame r) := by
  refine h.not_sealed_of_reference ?_
  have hle := Bag.apply_le (World.holds_generator_le (w := w) hg) (.frame r)
  have hone : 1 ≤ holds (w.generator g) (.frame r) := by
    rw [holds_generatorObject, hslot]
    simp [Bag.of_singleton_self]
  omega

/-- The frame of a generator that is not running may be worked on by those who hold it. -/
theorem Linked.opened (h : Z.Linked F w w') (hZ : Z.Valid) {g : GeneratorRef} {r : FrameRef}
    (hg : ¬ Z.hidden (.generator g)) (hadmits : Z.Admits g)
    (hidle : (w.generator g).running = false) (hslot : (w.generator g).frame = some r)
    (hheld : 1 ≤ G (.frame r) + Z.left (.frame r)) : Z.Open G r := by
  have hsealed := h.frame_not_sealed hg hslot
  refine ⟨hsealed, fun f hf => ?_, fun hvacant _ hclear => ?_, hheld⟩
  swap
  · -- a frame in use belongs to a generator that is running
    obtain ⟨i, x, hi, hfixed, hrunning, hframe⟩ := hclear.2 r hvacant
    have hx := h.pinned.fixed i x hfixed
    obtain rfl := h.accounted.slots i g r hi hg (hx ▸ hframe) hslot
    rw [hx, hrunning] at hidle
    cases hidle
  rcases hZ.cell r f hf with hh | ⟨i, x, hi, hfixed, hlocked, hframe⟩
  · exact hsealed (hZ.sealed_of_hidden _ hh)
  · have hx := h.pinned.fixed i x hfixed
    obtain rfl := h.accounted.slots i g r hi hg (hx ▸ hframe) hslot
    rcases hlocked with ⟨hrunning, _⟩ | hbarred
    · rw [hx, hrunning] at hidle
      cases hidle
    · rcases hadmits with hfree | hadmitted
      · simp [hfree] at hfixed
      · exact hadmitted hbarred

/-- A generator whose frame is at rest may change. -/
theorem Linked.free (h : Z.Linked F w w') (hZ : Z.Valid) {g : GeneratorRef} {r : FrameRef} {f : Frame}
    (hg : ¬ Z.hidden (.generator g)) (hadmits : Z.Admits g)
    (hidle : (w.generator g).running = false) (hslot : (w.generator g).frame = some r)
    (hf : w.frame? r = some f) : Z.fixed g = none := by
  cases hfixed : Z.fixed g with
  | none => rfl
  | some x =>
      have hx := h.pinned.fixed g x hfixed
      rcases hZ.locked g x hfixed with hh | hrunning | hbarred | ⟨s, hs, hc⟩
      · exact absurd hh hg
      · rw [hx, hrunning] at hidle
        cases hidle
      · exact absurd hbarred (hadmits.resolve_left (by simp [hfixed]))
      · rw [hx, hs, Option.some.injEq] at hslot
        have := h.pinned.cells s none hc
        rw [hslot, hf] at this
        cases this

/-! ## Changing the content of an object -/

/-- The accounts after an exchange of references.  Other cells may count as pinned afterwards. -/
theorem Accounted.exchange (h : Z.Accounted F w) {old new : Bag}
    {cells : FrameRef → Option (Option Frame)}
    (hrefs : t.references Z.hidden + old = w.references Z.hidden + new)
    (howners : ∀ o, t.owners o = w.owners o) (hold : old ≤ w.references Z.hidden)
    (hle : G + new ≤ F + old)
    (hslots : ∀ g r, (t.generator g).frame = some r → (w.generator g).frame = some r)
    (hseated : ∀ o, ¬ Z.hidden o → 1 ≤ t.owners o →
      ({ Z with cells := cells } : Zone).Seated t o) :
    ({ Z with cells := cells } : Zone).Accounted G t where
  owned o ho := by
    have howned := h.owned o ho
    have hr := congrFun hrefs o
    have ho := Bag.apply_le hold o
    have hG := Bag.apply_le hle o
    simp only [Pi.add_apply] at hr hG
    show t.references Z.hidden o + G o + Z.left o ≤ t.owners o
    rw [howners o]
    omega
  unseen o ho := by
    have hunseen := h.unseen o ho
    have hr := congrFun hrefs o
    have ho := Bag.apply_le hold o
    have hG := Bag.apply_le hle o
    simp only [Pi.add_apply] at hr hG
    show t.references Z.hidden o + G o = 0
    omega
  slots g h' r hg hh hr hs := h.slots g h' r hg hh (hslots g r hr) (hslots h' r hs)
  seated := hseated

/-- What is in its cell stays there while no cell of a frame or of an iterator changes. -/
theorem Accounted.seated_of_same (h : Z.Accounted F w) (howners : ∀ o, t.owners o = w.owners o)
    (hframe : ∀ r, t.frame? r = w.frame? r) (hiterator : ∀ r, t.iterator? r = w.iterator? r) :
    ∀ o, ¬ Z.hidden o → 1 ≤ t.owners o → Z.Seated t o := by
  intro o ho hone
  have hold := h.seated o ho (howners o ▸ hone)
  cases o with
  | frame r => exact fun hr => hold (hframe r ▸ hr)
  | iterator r => exact fun hr => hold (hiterator r ▸ hr)
  | _ => trivial

theorem sizes_setItems (r : ListRef) (vs : List Value) (h : w'.sizes = w.sizes) :
    (w'.setItems r vs).sizes = (w.setItems r vs).sizes := by
  simp only [World.sizes, World.setItems, Prod.mk.injEq, Store.size_setContent] at h ⊢
  simp [h]

theorem sizes_setIterator (r : IteratorRef) (x : Option Iterator) (h : w'.sizes = w.sizes) :
    (w'.setIterator r x).sizes = (w.setIterator r x).sizes := by
  simp only [World.sizes, World.setIterator, Prod.mk.injEq, Store.size_setContent] at h ⊢
  simp [h]

theorem sizes_setGenerator (g : GeneratorRef) (x : Generator) (h : w'.sizes = w.sizes) :
    (w'.setGenerator g x).sizes = (w.setGenerator g x).sizes := by
  simp only [World.sizes, World.setGenerator, Prod.mk.injEq, Store.size_setContent] at h ⊢
  simp [h]

theorem sizes_setFrame (r : FrameRef) (x : Option Frame) (h : w'.sizes = w.sizes) :
    (w'.setFrame r x).sizes = (w.setFrame r x).sizes := by
  simp only [World.sizes, World.setFrame, Prod.mk.injEq, Store.size_setContent] at h ⊢
  simp [h]

/-- Replacing the items of a list in both worlds. -/
theorem Linked.setItems (h : Z.Linked F w w') {r : ListRef} (hr : ¬ Z.hidden (.list r))
    {v : List Value} (hle : G + holds v ≤ F + holds (w.items r)) :
    Z.Linked G (w.setItems r v) (w'.setItems r v) where
  pinned := { h.pinned with
    law := Z.law.keeps h.pinned.law ⟨rfl, le_rfl, fun _ _ hg => hg⟩
    stash := fun o ho => (h.pinned.stash o ho).setItems fun heq => hr (heq ▸ ho)
    spared := fun o ho => by simpa using h.pinned.spared o ho
    vacant := fun o ho hh => by simpa using h.pinned.vacant o ho hh
    lists := fun l hl => lt_of_lt_of_le (h.pinned.lists l hl) (Store.size_set_le _ _ _) }
  alike := { h.alike with
    sizes := sizes_setItems r v h.alike.sizes
    items := fun l hl => by simp [h.alike.items l hl]
    owners := fun o ho => by simpa using h.alike.owners o ho
    beyond := fun o ho => (h.alike.beyond o ho).setItems fun heq => hr (heq ▸ ho) }
  accounted := h.accounted.exchange (World.references_setItems hr v) (by simp)
    (World.holds_items_le hr) hle (fun _ _ hslot => hslot)
    (h.accounted.seated_of_same (by simp) (by simp) (by simp))
  tame htame := (h.tame htame).setItems r v

/-- Replacing an iterator in both worlds.  The cell of an iterator that is not in use and has an
owner is not left empty. -/
theorem Linked.setIterator (h : Z.Linked F w w') {r : IteratorRef} (hr : ¬ Z.hidden (.iterator r))
    {x : Option Iterator} (hx : x = none → 1 ≤ w.owners (.iterator r) → Z.used r)
    (htame : Z.law.tame → ∀ i, x = some i → i.Tame)
    (hle : G + holds x ≤ F + holds (w.iterator? r)) :
    Z.Linked G (w.setIterator r x) (w'.setIterator r x) where
  pinned := { h.pinned with
    law := Z.law.keeps h.pinned.law ⟨rfl, le_rfl, fun _ _ hg => hg⟩
    stash := fun o ho => (h.pinned.stash o ho).setIterator fun heq => hr (heq ▸ ho)
    spared := fun o ho => by simpa using h.pinned.spared o ho
    vacant := fun o ho hh => by simpa using h.pinned.vacant o ho hh
    iterators := fun i hi => lt_of_lt_of_le (h.pinned.iterators i hi) (Store.size_set_le _ _ _) }
  alike := { h.alike with
    sizes := sizes_setIterator r x h.alike.sizes
    iterator := fun i hi => by simp [h.alike.iterator i hi]
    owners := fun o ho => by simpa using h.alike.owners o ho
    beyond := fun o ho => (h.alike.beyond o ho).setIterator fun heq => hr (heq ▸ ho) }
  accounted := h.accounted.exchange (World.references_setIterator hr x) (by simp)
    (World.holds_iterator_le hr) hle (fun _ _ hslot => hslot) fun o ho hone => by
      rw [World.owners_setIterator] at hone
      have hold := h.accounted.seated o ho hone
      cases o with
      | iterator s =>
          intro hs
          rw [World.iterator_setIterator] at hs
          split at hs
          · next heq => exact heq ▸ hx hs (heq ▸ hone)
          · exact hold hs
      | frame s => exact hold
      | _ => trivial
  tame hlaw := (h.tame hlaw).setIterator r (htame hlaw)

/-- Replacing a frame in both worlds, in a zone in which its cell may count as pinned or not.  The
cell of a frame that has an owner is not left empty unless that is what it is pinned to. -/
theorem Linked.recell (h : Z.Linked F w w') {r : FrameRef} (hr : ¬ Z.hidden (.frame r))
    {x : Option Frame} {cells : FrameRef → Option (Option Frame)}
    (hsame : ∀ s, s ≠ r → cells s = Z.cells s) (hcell : ∀ c, cells r = some c → c = x)
    (hx : x = none → 1 ≤ w.owners (.frame r) → cells r = some none)
    (htame : Z.law.tame → ∀ f, x = some f → f.Tame)
    (hle : G + holds x ≤ F + holds (w.frame? r)) :
    ({ Z with cells := cells } : Zone).Linked G (w.setFrame r x) (w'.setFrame r x) where
  pinned := { h.pinned with
    law := Z.law.keeps h.pinned.law ⟨rfl, le_rfl, fun _ _ hg => hg⟩
    cells := fun s c hs => by
      rw [World.frame_setFrame]
      split
      · next heq => exact (hcell c (heq ▸ hs)).symm
      · next hne => exact h.pinned.cells s c (hsame s (Ne.symm hne) ▸ hs)
    stash := fun o ho => (h.pinned.stash o ho).setFrame fun heq => hr (heq ▸ ho)
    spared := fun o ho => by simpa using h.pinned.spared o ho
    vacant := fun o ho hh => by simpa using h.pinned.vacant o ho hh }
  alike := { h.alike with
    sizes := sizes_setFrame r x h.alike.sizes
    frame := fun s hs => by simp [h.alike.frame s hs]
    owners := fun o ho => by simpa using h.alike.owners o ho
    beyond := fun o ho => (h.alike.beyond o ho).setFrame fun heq => hr (heq ▸ ho) }
  accounted := h.accounted.exchange (World.references_setFrame hr x) (by simp)
    (World.holds_frame_le hr) hle (fun _ _ hslot => hslot) fun o ho hone => by
      rw [World.owners_setFrame] at hone
      have hold := h.accounted.seated o ho hone
      cases o with
      | frame s =>
          intro hs
          rw [World.frame_setFrame] at hs
          split at hs
          · next heq => exact heq ▸ hx hs (heq ▸ hone)
          · next hne => exact (hsame s (Ne.symm hne)).trans (hold hs)
      | iterator s => exact hold
      | _ => trivial
  tame hlaw := (h.tame hlaw).setFrame r (htame hlaw)

/-- Replacing a frame in both worlds, by what its cell has to be. -/
theorem Linked.setCell (h : Z.Linked F w w') {r : FrameRef} (hr : ¬ Z.hidden (.frame r))
    {x : Option Frame} (hcell : ∀ c, Z.cells r = some c → c = x)
    (hx : x = none → 1 ≤ w.owners (.frame r) → Z.cells r = some none)
    (htame : Z.law.tame → ∀ f, x = some f → f.Tame)
    (hle : G + holds x ≤ F + holds (w.frame? r)) :
    Z.Linked G (w.setFrame r x) (w'.setFrame r x) :=
  h.recell hr (fun _ _ => rfl) hcell hx htame hle

/-- Taking the frame, or more, from a generator in both worlds. -/
theorem Linked.setGenerator (h : Z.Linked F w w') {g : GeneratorRef}
    (hg : ¬ Z.hidden (.generator g)) (hfree : Z.fixed g = none) {x : Generator}
    (hrunning : x.running = (w.generator g).running) (hframe : x.frame = none)
    (hle : G + holds x ≤ F + holds (w.generator g)) :
    Z.Linked G (w.setGenerator g x) (w'.setGenerator g x) where
  pinned := { h.pinned with
    fixed := fun i y hi => by
      have hne : g ≠ i := fun heq => by simp [← heq, hfree] at hi
      simpa [hne] using h.pinned.fixed i y hi
    law := by
      refine Z.law.keeps h.pinned.law ⟨rfl, Store.size_set_le _ _ _, fun i _ hi => ?_⟩
      rw [World.generator_setGenerator]
      split
      · exact hframe
      · exact hi
    running := fun i hi => by
      rw [World.generator_setGenerator] at hi
      split at hi
      · next heq => exact h.pinned.running i (by rw [← heq, ← hrunning, hi])
      · exact h.pinned.running i hi
    stash := fun o ho => (h.pinned.stash o ho).setGenerator fun heq => hg (heq ▸ ho)
    spared := fun o ho => by simpa using h.pinned.spared o ho
    vacant := fun o ho hh => by simpa using h.pinned.vacant o ho hh }
  alike := { h.alike with
    sizes := sizes_setGenerator g x h.alike.sizes
    generator := fun i hi => by simp [h.alike.generator i hi]
    owners := fun o ho => by simpa using h.alike.owners o ho
    beyond := fun o ho => (h.alike.beyond o ho).setGenerator fun heq => hg (heq ▸ ho) }
  accounted := h.accounted.exchange (World.references_setGenerator hg x) (by simp)
    (World.holds_generator_le hg) hle
    (fun i r hslot => by
      rw [World.generator_setGenerator] at hslot
      split at hslot
      · simp [hframe] at hslot
      · exact hslot)
    (h.accounted.seated_of_same (by simp) (by simp) (by simp))
  tame htame := (h.tame htame).setGenerator g x

/-! ## Owners -/

theorem sizes_setOwners (n n' : Nat) (o : Object) (h : w'.sizes = w.sizes) :
    (w'.setOwners n' o).sizes = (w.setOwners n o).sizes := by
  simp only [World.sizes, Prod.mk.injEq] at h
  cases o <;> simp [World.sizes, World.setOwners, h]

theorem lists_size_setOwners_le (w : World) (n : Nat) (o : Object) :
    w.lists.size ≤ (w.setOwners n o).lists.size := by
  cases o with
  | list r => exact Store.size_set_le _ _ _
  | _ => exact le_rfl

theorem generators_size_setOwners_le (w : World) (n : Nat) (o : Object) :
    w.generators.size ≤ (w.setOwners n o).generators.size := by
  cases o with
  | generator g => exact Store.size_set_le _ _ _
  | _ => exact le_rfl

theorem iterators_size_setOwners_le (w : World) (n : Nat) (o : Object) :
    w.iterators.size ≤ (w.setOwners n o).iterators.size := by
  cases o with
  | iterator r => exact Store.size_set_le _ _ _
  | _ => exact le_rfl

/-- Changing the number of owners of an object in both worlds, by the same amount. -/
theorem Linked.setOwners (h : Z.Linked F w w') (hZ : Z.Valid) {o : Object}
    (ho : ¬ Z.sealed o) {n n' : Nat} (hsame : n' + Z.left o = n + Z.right o)
    (hspared : Z.spared o → 1 ≤ n) (howned : w.references Z.hidden o + G o + Z.left o ≤ n)
    (hlive : 1 ≤ n → 1 ≤ w.owners o) (hle : ∀ u, o ≠ u → G u ≤ F u) :
    Z.Linked G (w.setOwners n o) (w'.setOwners n' o) where
  pinned :=
    { thread := by simpa using h.pinned.thread
      codes := by
        have hs := congrArg World.Surroundings.codes (w.surroundings_setOwners n o)
        exact hs.trans h.pinned.codes
      names := by
        have hs := congrArg World.Surroundings.names (w.surroundings_setOwners n o)
        exact hs.trans h.pinned.names
      fixed := fun g x hg => by simpa using h.pinned.fixed g x hg
      law := Z.law.keeps h.pinned.law
        ⟨w.held_setOwners n o, generators_size_setOwners_le w n o, fun g _ hg => by simpa using hg⟩
      cells := fun r c hr => by simpa using h.pinned.cells r c hr
      running := fun g hg => h.pinned.running g (by simpa using hg)
      stash := fun u hu => (h.pinned.stash u hu).setOwners fun heq =>
        ho (hZ.sealed_of_hidden o (heq ▸ hu))
      spared := fun u hu => by
        rw [World.owners_setOwners]
        split
        · next heq => exact hspared (heq ▸ hu)
        · exact h.pinned.spared u hu
      vacant := fun u hu hh => by
        rw [World.owners_setOwners, if_neg fun heq : o = u => ho (heq ▸ hu)]
        exact h.pinned.vacant u hu hh
      lists := fun l hl => lt_of_lt_of_le (h.pinned.lists l hl) (lists_size_setOwners_le w n o)
      iterators := fun i hi =>
        lt_of_lt_of_le (h.pinned.iterators i hi) (iterators_size_setOwners_le w n o) }
  alike :=
    { thread := by simpa using h.alike.thread
      surroundings := by simpa using h.alike.surroundings
      sizes := sizes_setOwners n n' o h.alike.sizes
      items := fun l hl => by simpa using h.alike.items l hl
      iterator := fun i hi => by simpa using h.alike.iterator i hi
      generator := fun g hg => by simpa using h.alike.generator g hg
      frame := fun r hr => by simpa using h.alike.frame r hr
      owners := fun u hu => by
        by_cases heq : o = u
        · subst heq
          simpa using hsame
        · simpa [heq] using h.alike.owners u hu
      beyond := fun u hu => (h.alike.beyond u hu).setOwners fun heq =>
        ho (hZ.sealed_of_hidden o (heq ▸ hu)) }
  accounted :=
    { owned := fun u hu => by
        by_cases heq : o = u
        · subst heq
          simpa using howned
        · have := h.accounted.owned u hu
          have := hle u heq
          simp only [World.references_setOwners, World.owners_setOwners, heq, if_false]
          omega
      unseen := fun u hu => by
        have hF := h.accounted.unseen u hu
        by_cases heq : o = u
        · exact absurd hu (heq ▸ ho)
        · have := hle u heq
          simp only [World.references_setOwners]
          omega
      slots := fun g g' r hg hg' hr hr' =>
        h.accounted.slots g g' r hg hg' (by simpa using hr) (by simpa using hr')
      seated := fun u hu hone => by
        have hold : Z.Seated w u := h.accounted.seated u hu (by
          rw [World.owners_setOwners] at hone
          split at hone
          · next heq => exact heq ▸ hlive hone
          · exact hone)
        cases u with
        | frame r => exact fun hr => hold (by simpa using hr)
        | iterator r => exact fun hr => hold (by simpa using hr)
        | _ => trivial }
  tame := fun htame => (h.tame htame).setOwners n o

/-- Everything in a bag is in reach and has an owner. -/
def Covered (Z : Zone) (w : World) (B : Bag) : Prop :=
  ∀ o, 1 ≤ B o → ¬ Z.sealed o ∧ 1 ≤ w.owners o

/-- What is covered is not sealed. -/
theorem Covered.unsealed {B : Bag} (h : Z.Covered w B) : ∀ o, Z.sealed o → B o = 0 := by
  intro o ho
  by_contra hne
  exact (h o (Nat.pos_of_ne_zero hne)).1 ho

/-- Less is covered too. -/
theorem Covered.le {B C : Bag} (h : Z.Covered w C) (hle : B ≤ C) : Z.Covered w B := fun o ho =>
  h o (le_trans ho (Bag.apply_le hle o))

/-- What holds nothing is covered. -/
theorem Covered.zero : Z.Covered w 0 := fun o ho => absurd ho (by simp)

/-- What is held or referred to is covered. -/
theorem Linked.covered_of_le (h : Z.Linked F w w') {B : Bag}
    (hB : B ≤ w.references Z.hidden + F) : Z.Covered w B := by
  intro o ho
  have hle := Bag.apply_le hB o
  simp only [Pi.add_apply] at hle
  have hsealed : ¬ Z.sealed o := fun hs => by
    have := h.accounted.unseen o hs
    omega
  have := h.accounted.owned o hsealed
  exact ⟨hsealed, by omega⟩

/-- What is held is covered. -/
theorem Linked.covered (h : Z.Linked F w w') {B : Bag} (hB : B ≤ F) : Z.Covered w B :=
  h.covered_of_le (le_trans hB le_add_self)

/-- What the world refers to is covered. -/
theorem Linked.covered_of_references (h : Z.Linked F w w') {B : Bag}
    (hB : B ≤ w.references Z.hidden) : Z.Covered w B :=
  h.covered_of_le (le_trans hB le_self_add)

/-- A bag is covered in all worlds that are linked in a zone. -/
def Secures (Z : Zone) (B : Bag) : Prop :=
  ∀ {F : Bag} {w w' : World}, Z.Linked F w w' → Z.Covered w B

/-- Nothing that is held is sealed. -/
theorem Linked.unsealed (h : Z.Linked F w w') {B : Bag} (hB : B ≤ F) :
    ∀ o, Z.sealed o → B o = 0 :=
  (h.covered hB).unsealed

/-- One more owner, in both worlds, of an object that has one. -/
theorem Linked.addOwner (h : Z.Linked F w w') (hZ : Z.Valid) {o : Object} (ho : ¬ Z.sealed o)
    (hlive : 1 ≤ w.owners o) :
    Z.Linked (.of [o] + F) (w.setOwners (w.owners o + 1) o)
      (w'.setOwners (w'.owners o + 1) o) := by
  have hhidden : ¬ Z.hidden o := fun hh => ho (hZ.sealed_of_hidden o hh)
  refine h.setOwners hZ ho ?_ (fun _ => Nat.le_add_left 1 _) ?_ (fun _ => hlive) fun u hu => ?_
  · have := h.alike.owners o hhidden
    omega
  · have := h.accounted.owned o ho
    simp only [Pi.add_apply, Bag.of_singleton_self]
    omega
  · simp [Bag.of_singleton_ne hu]

theorem Linked.addOwners (hZ : Z.Valid) (os : List Object) (h : Z.Linked F w w')
    (hos : ∀ o ∈ os, ¬ Z.sealed o ∧ 1 ≤ w.owners o) :
    Z.Linked (.of os + F) (w.addOwners os) (w'.addOwners os) := by
  induction os generalizing F w w' with
  | nil => simpa [World.addOwners] using h
  | cons o os ih =>
      obtain ⟨ho, hlive⟩ := hos o List.mem_cons_self
      have hone := h.addOwner hZ ho hlive
      have hrest := ih hone fun u hu => by
        obtain ⟨hu, hlive⟩ := hos u (List.mem_cons_of_mem o hu)
        refine ⟨hu, ?_⟩
        rw [World.owners_setOwners]
        split <;> omega
      rw [Bag.of_cons, add_assoc, add_left_comm]
      exact hrest

/-- A value can be shared if what it refers to is covered. -/
theorem Linked.retain (h : Z.Linked F w w') (hZ : Z.Valid) {v : Value}
    (hv : Z.Covered w (holds v)) :
    Z.Linked (holds v + F) (w.retain v) (w'.retain v) :=
  h.addOwners hZ v.objects fun o ho => hv o (Bag.one_le_of_mem ho)

theorem Linked.retainAll (h : Z.Linked F w w') (hZ : Z.Valid) {vs : List Value}
    (hvs : Z.Covered w (holds vs)) :
    Z.Linked (holds vs + F) (w.retainAll vs) (w'.retainAll vs) :=
  h.addOwners hZ (Value.objectsOfAll vs) fun o ho => hvs o (Bag.one_le_of_mem ho)

/-- One owner less, in both worlds.  It is not the last one of an object that is spared. -/
theorem Linked.dropOwner (h : Z.Linked (.of [o] + F) w w') (hZ : Z.Valid) {n n' : Nat}
    (hn : w.owners o = n + 1) (hn' : w'.owners o = n' + 1) (hspared : Z.spared o → 1 ≤ n) :
    Z.Linked F (w.setOwners n o) (w'.setOwners n' o) := by
  have ho : ¬ Z.sealed o := h.not_sealed (by simp [Bag.of_singleton_self])
  have hhidden : ¬ Z.hidden o := fun hh => ho (hZ.sealed_of_hidden o hh)
  have howned := h.accounted.owned o ho
  simp only [Pi.add_apply, Bag.of_singleton_self] at howned
  refine h.setOwners hZ ho ?_ hspared ?_ (fun _ => by omega) fun u hu => ?_
  · have := h.alike.owners o hhidden
    omega
  · omega
  · simp

/-! ## New objects -/

/-- An object that does not exist yet is nowhere referred to, and has no holders. -/
theorem Linked.unborn (h : Z.Linked F w w') (hZ : Z.Valid) (ho : ¬ Z.sealed o)
    (howners : w.owners o = 0) :
    w.references Z.hidden o = 0 ∧ F o = 0 ∧ Z.left o = 0 ∧ Z.right o = 0 ∧ w'.owners o = 0 := by
  have howned := h.accounted.owned o ho
  have hhidden : ¬ Z.hidden o := fun hh => ho (hZ.sealed_of_hidden o hh)
  have hsame := h.alike.owners o hhidden
  have hspared := h.pinned.spared o
  rcases hZ.holders o with hsame | hboth | ⟨hspared', _⟩
  · omega
  · omega
  · have := hspared hspared'
    omega

/-- Making a list in both worlds. -/
theorem Linked.newList (h : Z.Linked F w w') (hZ : Z.Valid) {vs : List Value}
    (hle : G + holds vs ≤ F) :
    (w'.newList vs).1 = (w.newList vs).1 ∧
      Z.Linked (.of [.list (w.newList vs).1] + G) (w.newList vs).2 (w'.newList vs).2 := by
  have hsizes := h.alike.sizes
  simp only [World.sizes, Prod.mk.injEq] at hsizes
  have hfst : (w'.newList vs).1 = (w.newList vs).1 := by
    simp only [World.newList_fst, hsizes.1]
  have hsealed : ¬ Z.sealed (.list (w.newList vs).1) := fun hs =>
    Nat.lt_irrefl _ (h.pinned.lists _ hs)
  have hhidden : ¬ Z.hidden (.list (w.newList vs).1) := fun hh =>
    hsealed (hZ.sealed_of_hidden _ hh)
  obtain ⟨hrefs, hF, hleft, hright, _⟩ :=
    h.unborn hZ hsealed (Store.owners_of_size_le (s := w.lists) le_rfl)
  have hnew := World.references_newList vs hhidden
  have hnone := Bag.apply_le hle (.list (w.newList vs).1)
  refine ⟨hfst, ?_, ?_, ?_, fun htame => (h.tame htame).newList vs⟩
  · exact { h.pinned with
      law := Z.law.keeps h.pinned.law ⟨rfl, le_rfl, fun _ _ hg => hg⟩
      stash := fun o ho => (h.pinned.stash o ho).newList fun heq => hhidden (heq ▸ ho)
      spared := fun o ho => by
        rw [World.owners_newList]
        split
        · exact le_rfl
        · exact h.pinned.spared o ho
      vacant := fun o ho hh => by
        rw [World.owners_newList, if_neg fun heq : o = .list _ => hsealed (heq ▸ ho)]
        exact h.pinned.vacant o ho hh
      lists := fun l hl => by
        have hsize : (w.newList vs).2.lists.size = w.lists.size + 1 := Store.size_alloc _ _
        have := h.pinned.lists l hl
        omega }
  · exact { h.alike with
      sizes := by simp [World.sizes, World.newList, hsizes]
      items := fun l hl => by
        simp only [World.items_newList, hfst]
        split
        · rfl
        · exact h.alike.items l hl
      owners := fun o ho => by
        simp only [World.owners_newList, hfst]
        split
        · next heq => rw [heq, hleft, hright]
        · exact h.alike.owners o ho
      beyond := fun o ho => (h.alike.beyond o ho).newList fun heq =>
        hhidden ((hfst ▸ heq) ▸ ho) }
  · refine ⟨fun o ho => ?_, fun o ho => ?_, h.accounted.slots, fun o ho hone => ?_⟩
    · have hG := Bag.apply_le hle o
      rw [hnew]
      simp only [World.owners_newList, Pi.add_apply] at hnone hG ⊢
      split
      · next heq =>
          subst heq
          rw [Bag.of_singleton_self]
          omega
      · next hne =>
          rw [Bag.of_singleton_ne (Ne.symm hne)]
          have := h.accounted.owned o ho
          omega
    · have hne : o ≠ .list (w.newList vs).1 := fun heq => hsealed (heq ▸ ho)
      have hG := Bag.apply_le hle o
      have := h.accounted.unseen o ho
      rw [hnew]
      simp only [Pi.add_apply, Bag.of_singleton_ne (Ne.symm hne)] at hG ⊢
      omega
    · rw [World.owners_newList] at hone
      cases o with
      | frame r => exact h.accounted.seated (.frame r) ho (by simpa using hone)
      | iterator r => exact h.accounted.seated (.iterator r) ho (by simpa using hone)
      | _ => trivial

/-- Making an iterator in both worlds. -/
theorem Linked.newIterator (h : Z.Linked F w w') (hZ : Z.Valid) {x : Iterator}
    (htame : Z.law.tame → x.Tame) (hle : G + holds x ≤ F) :
    (w'.newIterator x).1 = (w.newIterator x).1 ∧
      Z.Linked (.of [.iterator (w.newIterator x).1] + G) (w.newIterator x).2
        (w'.newIterator x).2 := by
  have hsizes := h.alike.sizes
  simp only [World.sizes, Prod.mk.injEq] at hsizes
  have hfst : (w'.newIterator x).1 = (w.newIterator x).1 := by
    simp only [World.newIterator_fst, hsizes.2.1]
  have hsealed : ¬ Z.sealed (.iterator (w.newIterator x).1) := fun hs =>
    Nat.lt_irrefl _ (h.pinned.iterators _ hs)
  have hhidden : ¬ Z.hidden (.iterator (w.newIterator x).1) := fun hh =>
    hsealed (hZ.sealed_of_hidden _ hh)
  obtain ⟨hrefs, hF, hleft, hright, _⟩ :=
    h.unborn hZ hsealed (Store.owners_of_size_le (s := w.iterators) le_rfl)
  have hnew := World.references_newIterator x hhidden
  have hnone := Bag.apply_le hle (.iterator (w.newIterator x).1)
  refine ⟨hfst, ?_, ?_, ?_, fun hlaw => (h.tame hlaw).newIterator (htame hlaw)⟩
  · exact { h.pinned with
      law := Z.law.keeps h.pinned.law ⟨rfl, le_rfl, fun _ _ hg => hg⟩
      stash := fun o ho => (h.pinned.stash o ho).newIterator fun heq => hhidden (heq ▸ ho)
      spared := fun o ho => by
        rw [World.owners_newIterator]
        split
        · exact le_rfl
        · exact h.pinned.spared o ho
      vacant := fun o ho hh => by
        rw [World.owners_newIterator, if_neg fun heq : o = .iterator _ => hsealed (heq ▸ ho)]
        exact h.pinned.vacant o ho hh
      iterators := fun i hi => by
        have hsize : (w.newIterator x).2.iterators.size = w.iterators.size + 1 :=
          Store.size_alloc _ _
        have := h.pinned.iterators i hi
        omega }
  · exact { h.alike with
      sizes := by simp [World.sizes, World.newIterator, hsizes]
      iterator := fun i hi => by
        simp only [World.iterator_newIterator, hfst]
        split
        · rfl
        · exact h.alike.iterator i hi
      owners := fun o ho => by
        simp only [World.owners_newIterator, hfst]
        split
        · next heq => rw [heq, hleft, hright]
        · exact h.alike.owners o ho
      beyond := fun o ho => (h.alike.beyond o ho).newIterator fun heq =>
        hhidden ((hfst ▸ heq) ▸ ho) }
  · refine ⟨fun o ho => ?_, fun o ho => ?_, h.accounted.slots, fun o ho hone => ?_⟩
    · have hG := Bag.apply_le hle o
      rw [hnew]
      simp only [World.owners_newIterator, Pi.add_apply] at hnone hG ⊢
      split
      · next heq =>
          subst heq
          rw [Bag.of_singleton_self]
          omega
      · next hne =>
          rw [Bag.of_singleton_ne (Ne.symm hne)]
          have := h.accounted.owned o ho
          omega
    · have hne : o ≠ .iterator (w.newIterator x).1 := fun heq => hsealed (heq ▸ ho)
      have hG := Bag.apply_le hle o
      have := h.accounted.unseen o ho
      rw [hnew]
      simp only [Pi.add_apply, Bag.of_singleton_ne (Ne.symm hne)] at hG ⊢
      omega
    · rw [World.owners_newIterator] at hone
      cases o with
      | frame r => exact h.accounted.seated (.frame r) ho (by simpa using hone)
      | iterator r =>
          intro hr
          rw [World.iterator_newIterator] at hr
          split at hr
          · cases hr
          · next hne =>
              rw [if_neg fun heq => hne (by simpa using heq)] at hone
              exact h.accounted.seated (.iterator r) ho hone hr
      | _ => trivial

/-! ## The journal and the thread -/

/-- Writing to the journal, the same in both worlds. -/
theorem Linked.journal (h : Z.Linked F w w') (diagnostics : String) (log : List LogEntry)
    (unwinding : Bool) :
    Z.Linked F
      { w with diagnostics := diagnostics, log := log, unwinding := unwinding }
      { w' with diagnostics := diagnostics, log := log, unwinding := unwinding } where
  pinned := { h.pinned with
    law := Z.law.keeps h.pinned.law ⟨rfl, le_rfl, fun _ _ hg => hg⟩
    stash := fun o ho => { h.pinned.stash o ho with }
    spared := h.pinned.spared
    vacant := h.pinned.vacant }
  alike :=
    { h.alike with
      surroundings := by
        have hs := h.alike.surroundings
        simp only [World.surroundings, World.Surroundings.mk.injEq] at hs ⊢
        simp [hs]
      beyond := fun o ho => { h.alike.beyond o ho with } }
  accounted := ⟨h.accounted.owned, h.accounted.unseen, h.accounted.slots, h.accounted.seated⟩
  tame htame := (h.tame htame).congr rfl (fun _ => rfl) fun _ => rfl

end Zone

end Resumable
