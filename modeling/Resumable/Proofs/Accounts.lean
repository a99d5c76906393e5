import Resumable.Proofs.Bag

set_option autoImplicit false

/-!
# Accounts of a world

How the content of objects and the numbers of owners read after a change of a world, and how many
references to each object there are in a world.  Part of the world can be left out of the count:
the references from hidden objects do not add to `World.references`.

Changing the content of an object exchanges the references from it; that is all that happens to
the count (`references_setItems` and its companions).
-/

namespace Resumable

namespace World

/-! ## Reading after a change -/

section Reading

variable (w : World)

@[simp] theorem items_setIterator (r : IteratorRef) (i : Option Iterator) (l : ListRef) :
    (w.setIterator r i).items l = w.items l := rfl

@[simp] theorem items_setGenerator (g : GeneratorRef) (G : Generator) (l : ListRef) :
    (w.setGenerator g G).items l = w.items l := rfl

@[simp] theorem items_setFrame (r : FrameRef) (f : Option Frame) (l : ListRef) :
    (w.setFrame r f).items l = w.items l := rfl

@[simp] theorem iterator_setItems (r : ListRef) (vs : List Value) (i : IteratorRef) :
    (w.setItems r vs).iterator? i = w.iterator? i := rfl

@[simp] theorem iterator_setGenerator (g : GeneratorRef) (G : Generator) (i : IteratorRef) :
    (w.setGenerator g G).iterator? i = w.iterator? i := rfl

@[simp] theorem iterator_setFrame (r : FrameRef) (f : Option Frame) (i : IteratorRef) :
    (w.setFrame r f).iterator? i = w.iterator? i := rfl

@[simp] theorem generator_setItems (r : ListRef) (vs : List Value) (g : GeneratorRef) :
    (w.setItems r vs).generator g = w.generator g := rfl

@[simp] theorem generator_setIterator (r : IteratorRef) (i : Option Iterator) (g : GeneratorRef) :
    (w.setIterator r i).generator g = w.generator g := rfl

@[simp] theorem generator_setFrame (r : FrameRef) (f : Option Frame) (g : GeneratorRef) :
    (w.setFrame r f).generator g = w.generator g := rfl

@[simp] theorem frame_setItems (r : ListRef) (vs : List Value) (s : FrameRef) :
    (w.setItems r vs).frame? s = w.frame? s := rfl

@[simp] theorem frame_setIterator (r : IteratorRef) (i : Option Iterator) (s : FrameRef) :
    (w.setIterator r i).frame? s = w.frame? s := rfl

@[simp] theorem frame_setGenerator (g : GeneratorRef) (G : Generator) (s : FrameRef) :
    (w.setGenerator g G).frame? s = w.frame? s := rfl

@[simp] theorem owners_setItems (r : ListRef) (vs : List Value) (o : Object) :
    (w.setItems r vs).owners o = w.owners o := by
  cases o <;> simp [owners, setItems]

@[simp] theorem owners_setIterator (r : IteratorRef) (i : Option Iterator) (o : Object) :
    (w.setIterator r i).owners o = w.owners o := by
  cases o <;> simp [owners, setIterator]

@[simp] theorem owners_setGenerator (g : GeneratorRef) (G : Generator) (o : Object) :
    (w.setGenerator g G).owners o = w.owners o := by
  cases o <;> simp [owners, setGenerator]

@[simp] theorem owners_setFrame (r : FrameRef) (f : Option Frame) (o : Object) :
    (w.setFrame r f).owners o = w.owners o := by
  cases o <;> simp [owners, setFrame]

@[simp] theorem items_setOwners (n : Nat) (o : Object) (l : ListRef) :
    (w.setOwners n o).items l = w.items l := by
  cases o <;> simp [setOwners, items]

@[simp] theorem iterator_setOwners (n : Nat) (o : Object) (i : IteratorRef) :
    (w.setOwners n o).iterator? i = w.iterator? i := by
  cases o <;> simp [setOwners, iterator?]

@[simp] theorem generator_setOwners (n : Nat) (o : Object) (g : GeneratorRef) :
    (w.setOwners n o).generator g = w.generator g := by
  cases o <;> simp [setOwners, generator]

@[simp] theorem frame_setOwners (n : Nat) (o : Object) (s : FrameRef) :
    (w.setOwners n o).frame? s = w.frame? s := by
  cases o <;> simp [setOwners, frame?]

@[simp] theorem owners_setOwners (n : Nat) (o u : Object) :
    (w.setOwners n o).owners u = if o = u then n else w.owners u := by
  cases o <;> cases u <;>
    simp [setOwners, owners, ListRef.ext_iff, IteratorRef.ext_iff, GeneratorRef.ext_iff,
      FrameRef.ext_iff]

/-! ### New objects -/

theorem newList_fst (vs : List Value) : (w.newList vs).1 = ⟨w.lists.size⟩ := rfl

@[simp] theorem items_newList (vs : List Value) (l : ListRef) :
    (w.newList vs).2.items l = if l = (w.newList vs).1 then vs else w.items l := by
  simp [items, newList, Store.content_alloc, ListRef.ext_iff]

@[simp] theorem owners_newList (vs : List Value) (o : Object) :
    (w.newList vs).2.owners o = if o = .list (w.newList vs).1 then 1 else w.owners o := by
  cases o <;> simp [owners, newList, Store.owners_alloc, ListRef.ext_iff]

theorem newIterator_fst (x : Iterator) : (w.newIterator x).1 = ⟨w.iterators.size⟩ := rfl

@[simp] theorem iterator_newIterator (x : Iterator) (i : IteratorRef) :
    (w.newIterator x).2.iterator? i
      = if i = (w.newIterator x).1 then some x else w.iterator? i := by
  simp [iterator?, newIterator, Store.content_alloc, IteratorRef.ext_iff]

@[simp] theorem owners_newIterator (x : Iterator) (o : Object) :
    (w.newIterator x).2.owners o
      = if o = .iterator (w.newIterator x).1 then 1 else w.owners o := by
  cases o <;> simp [owners, newIterator, Store.owners_alloc, IteratorRef.ext_iff]

/-! ### What an object consists of -/

/-- What an object consists of. -/
inductive Content where
  | items (vs : List Value)
  | iterator (i : Option Iterator)
  | generator (g : Generator)
  | frame (f : Option Frame)

/-- What an object consists of. -/
def content : Object → Content
  | .list r => .items (w.items r)
  | .iterator r => .iterator (w.iterator? r)
  | .generator r => .generator (w.generator r)
  | .frame r => .frame (w.frame? r)

@[simp] theorem content_setItems (r : ListRef) (vs : List Value) (o : Object) :
    (w.setItems r vs).content o = if o = .list r then .items vs else w.content o := by
  cases o <;> simp [content, eq_comm, apply_ite Content.items]

@[simp] theorem content_setIterator (r : IteratorRef) (i : Option Iterator) (o : Object) :
    (w.setIterator r i).content o = if o = .iterator r then .iterator i else w.content o := by
  cases o <;> simp [content, eq_comm, apply_ite Content.iterator]

@[simp] theorem content_setGenerator (g : GeneratorRef) (x : Generator) (o : Object) :
    (w.setGenerator g x).content o = if o = .generator g then .generator x else w.content o := by
  cases o <;> simp [content, eq_comm, apply_ite Content.generator]

@[simp] theorem content_setFrame (r : FrameRef) (f : Option Frame) (o : Object) :
    (w.setFrame r f).content o = if o = .frame r then .frame f else w.content o := by
  cases o <;> simp [content, eq_comm, apply_ite Content.frame]

@[simp] theorem content_setOwners (n : Nat) (u o : Object) :
    (w.setOwners n u).content o = w.content o := by
  cases o <;> simp [content]

@[simp] theorem content_newList (vs : List Value) (o : Object) :
    (w.newList vs).2.content o
      = if o = .list (w.newList vs).1 then .items vs else w.content o := by
  cases o with
  | list r => simp [content, apply_ite Content.items]
  | _ => simp [content]; rfl

@[simp] theorem content_newIterator (x : Iterator) (o : Object) :
    (w.newIterator x).2.content o
      = if o = .iterator (w.newIterator x).1 then .iterator (some x) else w.content o := by
  cases o with
  | iterator r => simp [content, apply_ite Content.iterator]
  | _ => simp [content]; rfl

/-! ### What surrounds the objects -/

/-- A world apart from its objects, its thread, and what is held from outside. -/
structure Surroundings where
  codes : List CodeObject
  names : Names
  diagnostics : String
  log : List LogEntry
  unwinding : Bool

/-- What surrounds the objects. -/
def surroundings : Surroundings where
  codes := w.codes
  names := w.names
  diagnostics := w.diagnostics
  log := w.log
  unwinding := w.unwinding

@[simp] theorem surroundings_setOwners (n : Nat) (o : Object) :
    (w.setOwners n o).surroundings = w.surroundings := by
  cases o <;> rfl

@[simp] theorem held_setOwners (n : Nat) (o : Object) : (w.setOwners n o).held = w.held := by
  cases o <;> rfl

@[simp] theorem thread_setOwners (n : Nat) (o : Object) : (w.setOwners n o).thread = w.thread := by
  cases o <;> rfl

/-! ### The numbers of objects -/

/-- How many objects of each sort were ever made. -/
def sizes : Nat × Nat × Nat × Nat :=
  (w.lists.size, w.iterators.size, w.generators.size, w.frames.size)

end Reading

/-! ## Counting references -/

section References

variable (hidden : Object → Prop) (w : World)

/-- How often each object is referred to, by the objects that are not hidden and by variables. -/
noncomputable def references : Bag :=
  w.lists.contents (fun i => ¬ hidden (.list ⟨i⟩))
    + w.iterators.contents (fun i => ¬ hidden (.iterator ⟨i⟩))
    + w.generators.contents (fun i => ¬ hidden (.generator ⟨i⟩))
    + w.frames.contents (fun i => ¬ hidden (.frame ⟨i⟩))
    + holds (w.names.map (·.2))

variable {hidden w}

/-- The more is hidden, the fewer references count. -/
theorem references_mono {shown : Object → Prop} (h : ∀ o, hidden o → shown o) :
    w.references shown ≤ w.references hidden := by
  have hmono : ∀ o, ¬ shown o → ¬ hidden o := fun o hn hh => hn (h o hh)
  intro o
  have := Bag.apply_le (Store.contents_mono (s := w.lists) fun i => hmono (.list ⟨i⟩)) o
  have := Bag.apply_le (Store.contents_mono (s := w.iterators) fun i => hmono (.iterator ⟨i⟩)) o
  have := Bag.apply_le (Store.contents_mono (s := w.generators) fun i => hmono (.generator ⟨i⟩)) o
  have := Bag.apply_le (Store.contents_mono (s := w.frames) fun i => hmono (.frame ⟨i⟩)) o
  simp only [references, Pi.add_apply]
  omega

theorem holds_items_le {r : ListRef} (hr : ¬ hidden (.list r)) :
    holds (w.items r) ≤ w.references hidden := by
  have h : holds (w.items r) ≤ w.lists.contents fun i => ¬ hidden (.list ⟨i⟩) :=
    Store.holds_content_le hr
  intro o
  have := Bag.apply_le h o
  simp only [references, Pi.add_apply]
  omega

theorem holds_iterator_le {r : IteratorRef} (hr : ¬ hidden (.iterator r)) :
    holds (w.iterator? r) ≤ w.references hidden := by
  have h : holds (w.iterator? r) ≤ w.iterators.contents fun i => ¬ hidden (.iterator ⟨i⟩) :=
    Store.holds_content_le hr
  intro o
  have := Bag.apply_le h o
  simp only [references, Pi.add_apply]
  omega

theorem holds_generator_le {g : GeneratorRef} (hg : ¬ hidden (.generator g)) :
    holds (w.generator g) ≤ w.references hidden := by
  have h : holds (w.generator g) ≤ w.generators.contents fun i => ¬ hidden (.generator ⟨i⟩) :=
    Store.holds_content_le hg
  intro o
  have := Bag.apply_le h o
  simp only [references, Pi.add_apply]
  omega

theorem holds_frame_le {r : FrameRef} (hr : ¬ hidden (.frame r)) :
    holds (w.frame? r) ≤ w.references hidden := by
  have h : holds (w.frame? r) ≤ w.frames.contents fun i => ¬ hidden (.frame ⟨i⟩) :=
    Store.holds_content_le hr
  intro o
  have := Bag.apply_le h o
  simp only [references, Pi.add_apply]
  omega

theorem holds_variable_le {name : String} {v : Value} (h : w.names.get? name = some v) :
    holds v ≤ w.references hidden := by
  obtain ⟨before, after, hsplit, _⟩ := List.lookup_eq_some_iff.1 h
  have hmem : v ∈ w.names.map (·.2) := by simp [hsplit]
  intro o
  have := Bag.apply_le (holds_le_of_mem hmem) o
  simp only [references, Pi.add_apply]
  omega

/-! ### References after a change -/

/-- Replacing the items of a list exchanges what they refer to. -/
theorem references_setItems {r : ListRef} (hr : ¬ hidden (.list r)) (vs : List Value) :
    (w.setItems r vs).references hidden + holds (w.items r) = w.references hidden + holds vs := by
  have h : (w.setItems r vs).lists.contents (fun i => ¬ hidden (.list ⟨i⟩)) + holds (w.items r)
      = w.lists.contents (fun i => ¬ hidden (.list ⟨i⟩)) + holds vs :=
    Store.contents_setContent (s := w.lists) hr vs
  funext o
  have := congrFun h o
  simp only [references, setItems, Pi.add_apply] at this ⊢
  omega

/-- Replacing an iterator exchanges what it refers to. -/
theorem references_setIterator {r : IteratorRef} (hr : ¬ hidden (.iterator r))
    (x : Option Iterator) :
    (w.setIterator r x).references hidden + holds (w.iterator? r)
      = w.references hidden + holds x := by
  have h : (w.setIterator r x).iterators.contents (fun i => ¬ hidden (.iterator ⟨i⟩))
        + holds (w.iterator? r)
      = w.iterators.contents (fun i => ¬ hidden (.iterator ⟨i⟩)) + holds x :=
    Store.contents_setContent (s := w.iterators) hr x
  funext o
  have := congrFun h o
  simp only [references, setIterator, Pi.add_apply] at this ⊢
  omega

/-- Replacing a generator exchanges what it refers to. -/
theorem references_setGenerator {g : GeneratorRef} (hg : ¬ hidden (.generator g)) (G : Generator) :
    (w.setGenerator g G).references hidden + holds (w.generator g)
      = w.references hidden + holds G := by
  have h : (w.setGenerator g G).generators.contents (fun i => ¬ hidden (.generator ⟨i⟩))
        + holds (w.generator g)
      = w.generators.contents (fun i => ¬ hidden (.generator ⟨i⟩)) + holds G :=
    Store.contents_setContent (s := w.generators) hg G
  funext o
  have := congrFun h o
  simp only [references, setGenerator, Pi.add_apply] at this ⊢
  omega

/-- Replacing a frame exchanges what it refers to. -/
theorem references_setFrame {r : FrameRef} (hr : ¬ hidden (.frame r)) (f : Option Frame) :
    (w.setFrame r f).references hidden + holds (w.frame? r) = w.references hidden + holds f := by
  have h : (w.setFrame r f).frames.contents (fun i => ¬ hidden (.frame ⟨i⟩)) + holds (w.frame? r)
      = w.frames.contents (fun i => ¬ hidden (.frame ⟨i⟩)) + holds f :=
    Store.contents_setContent (s := w.frames) hr f
  funext o
  have := congrFun h o
  simp only [references, setFrame, Pi.add_apply] at this ⊢
  omega

/-- The numbers of owners do not count. -/
@[simp] theorem references_setOwners (n : Nat) (o : Object) :
    (w.setOwners n o).references hidden = w.references hidden := by
  cases o <;> simp [references, setOwners]

/-- A new list adds what its items refer to. -/
theorem references_newList (vs : List Value) (h : ¬ hidden (.list ⟨w.lists.size⟩)) :
    (w.newList vs).2.references hidden = w.references hidden + holds vs := by
  have hlists := Store.contents_alloc (s := w.lists) (p := fun i => ¬ hidden (.list ⟨i⟩)) h vs
  funext o
  have := congrFun hlists o
  simp only [references, newList, Pi.add_apply] at this ⊢
  omega

/-- A new iterator adds what it refers to. -/
theorem references_newIterator (x : Iterator) (h : ¬ hidden (.iterator ⟨w.iterators.size⟩)) :
    (w.newIterator x).2.references hidden = w.references hidden + holds x := by
  have hiterators := Store.contents_alloc (s := w.iterators)
    (p := fun i => ¬ hidden (.iterator ⟨i⟩)) h (some x)
  funext o
  have := congrFun hiterators o
  simp only [references, newIterator, Pi.add_apply, holds_some] at this ⊢
  omega

end References

end World

end Resumable
