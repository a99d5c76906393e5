import Mathlib.Algebra.BigOperators.Group.Finset.Basic
import Mathlib.Algebra.Order.BigOperators.Group.Finset
import Mathlib.Algebra.Group.Pi.Basic
import Mathlib.Algebra.Order.Ring.Nat
import Resumable.Machine

set_option autoImplicit false

/-!
# Bags of objects

Owners are counted, so what matters about the objects that something holds is how often it holds
each of them.  A bag gives that number for every object.  `Holder.holds` is the bag of what a value,
an exception, a frame or a resume in progress is an owner of.

`Store.contents` is what the cells of a store hold all together, or those of them that are in sight;
changing the content of one cell exchanges what it holds (`Store.contents_setContent`).
-/

namespace Resumable

/-- How often each object is held. -/
abbrev Bag : Type := Object → Nat

namespace Bag

/-- The bag of the objects of a list. -/
def of (os : List Object) : Bag := fun o => os.count o

@[simp] theorem of_nil : of [] = 0 := rfl

@[simp] theorem of_append (os us : List Object) : of (os ++ us) = of os + of us := by
  funext o
  simp [of]

theorem of_cons (o : Object) (os : List Object) : of (o :: os) = of [o] + of os := by
  rw [← of_append]
  rfl

@[simp] theorem of_reverse (os : List Object) : of os.reverse = of os := by
  funext o
  simp [of]

theorem of_singleton_self (o : Object) : of [o] o = 1 := by simp [of]

theorem of_singleton_ne {o u : Object} (h : o ≠ u) : of [o] u = 0 := by simp [of, h]

theorem apply_le {A B : Bag} (h : A ≤ B) (o : Object) : A o ≤ B o := h o

theorem one_le_of_mem {o : Object} {os : List Object} (h : o ∈ os) : 1 ≤ of os o :=
  List.count_pos_iff.2 h

theorem eq_nil_of_le_zero {os : List Object} (h : of os ≤ 0) : os = [] := by
  refine List.eq_nil_iff_forall_not_mem.2 fun o ho => ?_
  have := one_le_of_mem ho
  have := apply_le h o
  simp only [Pi.zero_apply] at this
  omega

end Bag

/-! ## What things hold -/

/-- Things that are owners of objects. -/
class Holder (α : Type) where
  /-- how often each object is held -/
  holds : α → Bag

export Holder (holds)

instance : Holder Unit := ⟨fun _ => 0⟩

instance : Holder Object := ⟨fun o => .of [o]⟩

instance : Holder Value := ⟨fun v => .of v.objects⟩

instance : Holder (List Value) := ⟨fun vs => .of (Value.objectsOfAll vs)⟩

instance : Holder Exception := ⟨fun e => holds e.args⟩

instance {α : Type} [Holder α] : Holder (Option α) := ⟨fun x => (x.map holds).getD 0⟩

instance {α : Type} [Holder α] : Holder (Except Exception α) where
  holds
    | .ok a => holds a
    | .error e => holds e

instance : Holder Frame := ⟨fun f => holds f.owned⟩

instance : Holder Activation := ⟨fun a => holds a.frame + holds a.sent⟩

instance : Holder Performance := ⟨fun p => holds p.frame + holds p.results⟩

instance : Holder Iterator where
  holds
    | .list source _ => .of [.list source]
    | .scripted _ => 0

instance : Holder Generator := ⟨fun g => .of (g.frame.map .frame).toList + holds g.closure⟩

instance : Holder Suspension where
  holds
    | .yielded v => holds v
    | .returned v => holds v
    | .delegateExhausted v => holds v

instance : Holder Engine.Delegated where
  holds
    | .item v => holds v
    | .finished v => holds v

section Holds

variable {α : Type} [Holder α]

@[simp] theorem holds_unit (u : Unit) : holds u = 0 := rfl

@[simp] theorem holds_none : holds (none : Option α) = 0 := rfl

@[simp] theorem holds_some (a : α) : holds (some a) = holds a := rfl

@[simp] theorem holds_ok (a : α) : holds (.ok a : Except Exception α) = holds a := rfl

@[simp] theorem holds_error (e : Exception) :
    holds (.error e : Except Exception α) = holds e := rfl

theorem holds_value (v : Value) : holds v = .of v.objects := rfl

theorem holds_values (vs : List Value) : holds vs = .of (Value.objectsOfAll vs) := rfl

theorem holds_exception (e : Exception) : holds e = holds e.args := rfl

@[simp] theorem holds_values_nil : holds ([] : List Value) = 0 := rfl

@[simp] theorem holds_values_cons (v : Value) (vs : List Value) :
    holds (v :: vs) = holds v + holds vs := by
  simp [holds_values, holds_value, Value.objectsOfAll]

@[simp] theorem holds_values_append (vs us : List Value) :
    holds (vs ++ us) = holds vs + holds us := by
  induction vs with
  | nil => simp
  | cons v vs ih => simp [ih, add_assoc]

@[simp] theorem holds_values_reverse (vs : List Value) : holds vs.reverse = holds vs := by
  induction vs with
  | nil => rfl
  | cons v vs ih => simp [ih, add_comm]

@[simp] theorem holds_value_none : holds Value.none = 0 := rfl

@[simp] theorem holds_str (s : String) : holds (Value.str s) = 0 := rfl

@[simp] theorem holds_int (i : Int64) : holds (Value.int i) = 0 := rfl

@[simp] theorem holds_bool (b : Bool) : holds (Value.bool b) = 0 := rfl

@[simp] theorem holds_exceptionType (k : ExceptionKind) : holds (Value.exceptionType k) = 0 := rfl

@[simp] theorem holds_traceback (t : Traceback) : holds (Value.traceback t) = 0 := rfl

@[simp] theorem holds_code (c : CodeRef) : holds (Value.code c) = 0 := rfl

theorem holds_list (r : ListRef) : holds (Value.list r) = .of [.list r] := rfl

theorem holds_iterator (r : IteratorRef) : holds (Value.iterator r) = .of [.iterator r] := rfl

theorem holds_generator (g : GeneratorRef) : holds (Value.generator g) = .of [.generator g] := rfl

theorem holds_frameRef (r : FrameRef) : holds (Value.frame r) = .of [.frame r] := rfl

@[simp] theorem holds_exceptionValue (kind : ExceptionKind) (args : List Value)
    (tb : Option Traceback) : holds (Value.exception kind args tb) = holds args := rfl

@[simp] theorem holds_toValue (e : Exception) : holds e.toValue = holds e := rfl

@[simp] theorem holds_toList (x : Option Value) : holds x.toList = holds x := by
  cases x <;> simp [Option.toList]

/-- An exception made from a text holds nothing. -/
@[simp] theorem holds_withMessage (kind : ExceptionKind) (message : String) :
    holds (Exception.withMessage kind message) = 0 := rfl

@[simp] theorem holds_stopIteration : holds Exception.stopIteration = 0 := rfl

@[simp] theorem holds_generatorExit : holds Exception.generatorExit = 0 := rfl

@[simp] theorem holds_pushEntry (e : Exception) (entry : TraceEntry) :
    holds (e.pushEntry entry) = holds e := rfl

@[simp] theorem holds_setTraceback (e : Exception) (t : Traceback) :
    holds (e.setTraceback t) = holds e := rfl

/-- The end of an iteration holds what was returned. -/
theorem holds_stopIterationWith (v : Value) : holds (Exception.stopIterationWith v) = holds v := by
  unfold Exception.stopIterationWith
  split
  · next h => rw [(Value.isNone_iff v).1 h]; rfl
  · simp [holds_exception, Exception.new]

/-- The value that a finished iteration returned is one of the arguments. -/
theorem holds_stopValue_le (e : Exception) : holds e.stopValue ≤ holds e := by
  intro u
  cases h : e.args with
  | nil => simp [Exception.stopValue, h]
  | cons v vs => simp [Exception.stopValue, h, holds_exception]

/-- What a frame holds, field by field. -/
theorem holds_frame (f : Frame) :
    holds f = holds f.locals + holds f.stack + holds f.delegate + holds f.pending + holds f.input
      + holds f.delegationResult := by
  have hp : holds ((f.pending.map (·.args)).getD []) = holds f.pending := by
    cases f.pending <;> rfl
  show holds f.owned = _
  simp [Frame.owned, hp, add_assoc]

theorem holds_generatorObject (g : Generator) :
    holds g = .of (g.frame.map .frame).toList + holds g.closure := rfl

theorem holds_activation (a : Activation) : holds a = holds a.frame + holds a.sent := rfl

theorem holds_performance (p : Performance) : holds p = holds p.frame + holds p.results := rfl

@[simp] theorem holds_yielded (v : Value) : holds (Suspension.yielded v) = holds v := rfl

@[simp] theorem holds_returned (v : Value) : holds (Suspension.returned v) = holds v := rfl

@[simp] theorem holds_delegateExhausted (v : Value) :
    holds (Suspension.delegateExhausted v) = holds v := rfl

@[simp] theorem holds_item (v : Value) : holds (Engine.Delegated.item v) = holds v := rfl

@[simp] theorem holds_finished (v : Value) : holds (Engine.Delegated.finished v) = holds v := rfl

/-- A member of a list of values holds no more than the list. -/
theorem holds_le_of_mem {v : Value} {vs : List Value} (h : v ∈ vs) : holds v ≤ holds vs := by
  obtain ⟨us, ws, rfl⟩ := List.append_of_mem h
  intro o
  simp only [holds_values_append, holds_values_cons, Pi.add_apply]
  omega

/-- An item of a list of values holds no more than the list. -/
theorem holds_le_of_getElem? {v : Value} {vs : List Value} {i : Nat} (h : vs[i]? = some v) :
    holds v ≤ holds vs :=
  holds_le_of_mem (List.mem_of_getElem? h)

end Holds

/-! ## Adding up a store -/

/-- Sorts of content of which nothing is held by an empty cell. -/
class HoldsNothing (α : Type) [Inhabited α] [Holder α] : Prop where
  holds_default : holds (default : α) = 0

instance : HoldsNothing (List Value) := ⟨rfl⟩

instance : HoldsNothing (Option Iterator) := ⟨rfl⟩

instance : HoldsNothing Generator := ⟨rfl⟩

instance : HoldsNothing (Option Frame) := ⟨rfl⟩

namespace Store

/-- Writing to a cell brings the cells up to it into being. -/
@[simp] theorem size_set {α : Type} [Inhabited α] (s : Store α) (i : Nat) (c : Cell α) :
    (s.set i c).size = max s.size (i + 1) := by
  unfold size set
  split
  · simp only [Array.size_setIfInBounds]
    omega
  · simp only [Array.size_push, Array.size_append, Array.size_replicate]
    omega

theorem size_set_le {α : Type} [Inhabited α] (s : Store α) (i : Nat) (c : Cell α) :
    s.size ≤ (s.set i c).size := by
  rw [size_set]
  exact le_max_left _ _

@[simp] theorem size_setContent {α : Type} [Inhabited α] (s : Store α) (i : Nat) (a : α) :
    (s.setContent i a).size = max s.size (i + 1) := size_set s i _

@[simp] theorem size_setOwners {α : Type} [Inhabited α] (s : Store α) (i n : Nat) :
    (s.setOwners i n).size = max s.size (i + 1) := size_set s i _

@[simp] theorem alloc_fst {α : Type} [Inhabited α] (s : Store α) (a : α) :
    (s.alloc a).1 = s.size := rfl

theorem content_alloc {α : Type} [Inhabited α] (s : Store α) (a : α) (i : Nat) :
    (s.alloc a).2.content i = if i = s.size then a else s.content i := by
  unfold content
  split
  · next h =>
      subst h
      rw [show s.size = (s.alloc a).1 from rfl, get_alloc_self]
  · next h => rw [get_alloc_ne s a h]

theorem owners_alloc {α : Type} [Inhabited α] (s : Store α) (a : α) (i : Nat) :
    (s.alloc a).2.owners i = if i = s.size then 1 else s.owners i := by
  unfold owners
  split
  · next h =>
      subst h
      rw [show s.size = (s.alloc a).1 from rfl, get_alloc_self]
  · next h => rw [get_alloc_ne s a h]

@[simp] theorem size_alloc {α : Type} [Inhabited α] (s : Store α) (a : α) :
    (s.alloc a).2.size = s.size + 1 := by
  simp [alloc, size]

/-- A cell that was never allocated has no owners. -/
theorem owners_of_size_le {α : Type} [Inhabited α] {s : Store α} {i : Nat} (h : s.size ≤ i) :
    s.owners i = 0 := by
  have h : s.cells.size ≤ i := h
  simp [owners, get, Array.getElem?_eq_none h, vacant]

/-- A cell that was never allocated is empty. -/
theorem content_of_size_le {α : Type} [Inhabited α] {s : Store α} {i : Nat} (h : s.size ≤ i) :
    s.content i = default := by
  have h : s.cells.size ≤ i := h
  simp [content, get, Array.getElem?_eq_none h, vacant]

/-- Two stores of one size with the same cells are the same. -/
theorem ext_get {α : Type} [Inhabited α] {s t : Store α} (hsize : s.size = t.size)
    (h : ∀ i, s.get i = t.get i) : s = t := by
  cases s with
  | mk cs =>
    cases t with
    | mk ds =>
      congr
      refine Array.ext hsize ?_
      intro i hi hj
      have := h i
      simpa [get, hi, hj] using this

/-- Writing twice to a cell is writing once. -/
theorem set_set {α : Type} [Inhabited α] (s : Store α) (i : Nat) (c d : Cell α) :
    (s.set i c).set i d = s.set i d := by
  refine ext_get (by simp) fun j => ?_
  by_cases h : i = j
  · simp [get_set, h]
  · simp [get_set, h]

/-- Writing back what is there changes nothing. -/
theorem set_get {α : Type} [Inhabited α] {s : Store α} {i : Nat} (h : i < s.size) :
    s.set i (s.get i) = s := by
  refine ext_get (by rw [size_set]; exact max_eq_left h) fun j => ?_
  rw [get_set]
  split
  · next heq => rw [heq]
  · rfl

variable {α : Type} [Inhabited α] [Holder α]

open scoped Classical in
/-- What the cells in sight hold, all together. -/
noncomputable def contents (s : Store α) (inSight : Nat → Prop) : Bag := fun o =>
  ∑ i ∈ Finset.range s.size, if inSight i then holds (s.content i) o else 0

variable {s : Store α} {inSight : Nat → Prop}

/-- The cells in sight among the first so many hold the same together; cells beyond the last one
hold nothing. -/
theorem contents_apply [HoldsNothing α] {n : Nat} (h : s.size ≤ n) (o : Object) :
    open scoped Classical in
    s.contents inSight o
      = ∑ i ∈ Finset.range n, if inSight i then holds (s.content i) o else 0 := by
  unfold contents
  refine Finset.sum_subset (Finset.range_subset_range.2 h) ?_
  intro i _ hi
  have hle : s.size ≤ i := by simpa using hi
  rw [content_of_size_le hle, HoldsNothing.holds_default]
  simp

/-- A cell in sight holds no more than all of them. -/
theorem holds_content_le [HoldsNothing α] {i : Nat} (hi : inSight i) :
    holds (s.content i) ≤ s.contents inSight := by
  intro o
  classical
  rw [contents_apply (le_max_left s.size (i + 1))]
  have hmem : i ∈ Finset.range (max s.size (i + 1)) := by simp
  have hterm := Finset.single_le_sum (f := fun j => if inSight j then holds (s.content j) o else 0)
    (fun _ _ => Nat.zero_le _) hmem
  simpa [hi] using hterm

/-- Less in sight holds no more. -/
theorem contents_mono {p : Nat → Prop} (h : ∀ i, p i → inSight i) :
    s.contents p ≤ s.contents inSight := by
  intro o
  classical
  refine Finset.sum_le_sum fun i _ => ?_
  by_cases hi : p i
  · rw [if_pos hi, if_pos (h i hi)]
  · rw [if_neg hi]
    exact Nat.zero_le _

/-- Changing the content of a cell in sight exchanges what it holds. -/
theorem contents_setContent [HoldsNothing α] {i : Nat} (hi : inSight i) (a : α) :
    (s.setContent i a).contents inSight + holds (s.content i) = s.contents inSight + holds a := by
  funext o
  classical
  have hsize : s.size ≤ max s.size (i + 1) := le_max_left _ _
  have hmem : i ∈ Finset.range (max s.size (i + 1)) := by simp
  simp only [Pi.add_apply]
  rw [contents_apply (s := s.setContent i a) (size_setContent s i a).le, contents_apply hsize,
    ← Finset.add_sum_erase _ _ hmem,
    ← Finset.add_sum_erase _ (fun j => if inSight j then holds (s.content j) o else 0) hmem]
  have hrest : ∀ j ∈ (Finset.range (max s.size (i + 1))).erase i,
      (if inSight j then holds ((s.setContent i a).content j) o else 0)
        = if inSight j then holds (s.content j) o else 0 := by
    intro j hj
    rw [content_setContent, if_neg (Finset.ne_of_mem_erase hj).symm]
  rw [Finset.sum_congr rfl hrest]
  simp only [content_setContent, if_true, hi]
  omega

/-- The numbers of owners do not count. -/
@[simp] theorem contents_setOwners [HoldsNothing α] (i n : Nat) :
    (s.setOwners i n).contents inSight = s.contents inSight := by
  funext o
  classical
  rw [contents_apply (s := s.setOwners i n) (size_setOwners s i n).le,
    contents_apply (le_max_left s.size (i + 1))]
  simp only [content_setOwners]

/-- A new cell in sight adds what it holds. -/
theorem contents_alloc {p : Nat → Prop} (hi : p s.size) (a : α) :
    (s.alloc a).2.contents p = s.contents p + holds a := by
  funext o
  classical
  simp only [contents, size_alloc, Finset.sum_range_succ, Pi.add_apply]
  congr 1
  · refine Finset.sum_congr rfl ?_
    intro i hmem
    have hne : i ≠ s.size := Nat.ne_of_lt (Finset.mem_range.1 hmem)
    rw [content_alloc, if_neg hne]
  · rw [if_pos hi, content_alloc, if_pos rfl]

end Store

end Resumable
