import Mathlib.Data.Finset.Card
import Mathlib.Data.Finset.Filter
import Mathlib.Data.Finset.Range
import Mathlib.Data.Prod.Lex
import Mathlib.Logic.Relation
import Resumable.Proofs.Sharing

set_option autoImplicit false

/-!
# Equality of values

Two lists are equal if they are the same object, or if their items are equal.  Where no list is found
inside itself, these two ways never disagree: a value has a content, which is what remains of its form
when it does not matter which object holds the items, and two values are equal if and only if they have
the same content (`World.equal_iff_content`).  Everything about equality follows from that.

An equal value may stand in the place of another without a difference to any comparison, also where it
is written into a list that others hold (`World.equal_setItems`).
-/

namespace Resumable

variable {w : World} {r s : ListRef} {u v : Value} {i : Nat}

namespace World

/-! ## Parts -/

/-- The items of a list, and the arguments of an exception. -/
def parts (w : World) : Value → List Value
  | .list r => w.items r
  | .exception _ args _ => args
  | _ => []

/-- One value is an item or an argument of another. -/
def IsPart (w : World) (u v : Value) : Prop := u ∈ w.parts v

/-- No value is found inside itself, among the items of lists and the arguments of exceptions, however
deep.  Only a list can be. -/
def Acyclic (w : World) : Prop := ∀ v, ¬ Relation.TransGen w.IsPart v v

/-- A measure that is smaller for the parts shows that nothing is found inside itself. -/
theorem acyclic_of_measure {α : Type} [Preorder α] (measure : Value → α)
    (h : ∀ u v, w.IsPart u v → measure u < measure v) : w.Acyclic := by
  have hless : ∀ {u v}, Relation.TransGen w.IsPart u v → measure u < measure v := by
    intro u v hpath
    induction hpath with
    | single hpart => exact h _ _ hpart
    | tail _ hpart ih => exact ih.trans (h _ _ hpart)
  exact fun v hv => lt_irrefl _ (hless hv)

theorem sizeOf_lt_of_arg {kind : ExceptionKind} {args : List Value} {tb : Option Traceback}
    (h : u ∈ args) : sizeOf u < sizeOf (Value.exception kind args tb) := by
  have hlt := List.sizeOf_lt_of_mem h
  simp only [Value.exception.sizeOf_spec]
  omega

/-- What is found inside a value is smaller, or is reached through a list. -/
theorem smaller_or_through_list (h : Relation.TransGen w.IsPart u v) :
    sizeOf u < sizeOf v ∨
      ∃ r, Relation.TransGen w.IsPart u (.list r) ∧ Relation.ReflTransGen w.IsPart (.list r) v := by
  induction h with
  | @single v hpart =>
      cases v with
      | list r => exact .inr ⟨r, .single hpart, .refl⟩
      | exception kind args tb => exact .inl (sizeOf_lt_of_arg hpart)
      | _ => cases hpart
  | @tail m v hpath hpart ih =>
      cases v with
      | list r => exact .inr ⟨r, hpath.tail hpart, .refl⟩
      | exception kind args tb =>
          rcases ih with hlt | ⟨r, hpath, hback⟩
          · exact .inl (hlt.trans (sizeOf_lt_of_arg hpart))
          · exact .inr ⟨r, hpath, hback.tail hpart⟩
      | _ => cases hpart

/-- Where lists only hold lists that are older, nothing is found inside itself. -/
theorem acyclic_of_older
    (h : ∀ r, ∀ v ∈ w.items r, ∀ s, Object.list s ∈ v.objects → s.index < r.index) : w.Acyclic := by
  let Older (n : Nat) (v : Value) : Prop := ∀ s, Object.list s ∈ v.objects → s.index < n
  have hpart : ∀ {u v n}, w.IsPart u v → Older n v → Older n u := by
    intro u v n hpart hv s hs
    cases v with
    | list r => exact (h r u hpart s hs).trans (hv r List.mem_cons_self)
    | exception kind args tb => exact hv s (Engine.mem_objectsOfAll.2 ⟨u, hpart, hs⟩)
    | _ => cases hpart
  have hinside : ∀ {u v n}, Relation.ReflTransGen w.IsPart u v → Older n v → Older n u := by
    intro u v n hpath hv
    induction hpath with
    | refl => exact hv
    | tail _ hlast ih => exact ih (hpart hlast hv)
  have hlist : ∀ r, ¬ Relation.TransGen w.IsPart (.list r) (.list r) := by
    intro r hpath
    obtain ⟨m, hpath, hlast⟩ := Relation.TransGen.tail'_iff.1 hpath
    exact Nat.lt_irrefl _ (hinside hpath (h r m hlast) r List.mem_cons_self)
  intro v hv
  rcases smaller_or_through_list hv with hlt | ⟨r, hpath, hback⟩
  · exact Nat.lt_irrefl _ hlt
  · exact hlist r (Relation.TransGen.trans_right hback hpath)

theorem lt_size_of_item (h : v ∈ w.items r) : r.index < w.lists.size := by
  refine Nat.lt_of_not_le fun hsize => ?_
  have hempty : w.items r = [] := Store.content_of_size_le hsize
  rw [hempty] at h
  cases h

open Classical in
/-- The lists that a value is or has inside. -/
noncomputable def listsWithin (w : World) (v : Value) : Finset Nat :=
  (Finset.range w.lists.size).filter fun i => Relation.ReflTransGen w.IsPart (.list ⟨i⟩) v

theorem mem_listsWithin :
    i ∈ w.listsWithin v ↔ i < w.lists.size ∧ Relation.ReflTransGen w.IsPart (.list ⟨i⟩) v := by
  simp [listsWithin]

theorem card_listsWithin_le (w : World) (v : Value) : (w.listsWithin v).card ≤ w.lists.size := by
  have hsub : w.listsWithin v ⊆ Finset.range w.lists.size := fun i hi =>
    Finset.mem_range.2 (mem_listsWithin.1 hi).1
  have hcard := Finset.card_le_card hsub
  rwa [Finset.card_range] at hcard

theorem listsWithin_mono (h : w.IsPart u v) : w.listsWithin u ⊆ w.listsWithin v := by
  intro i hi
  obtain ⟨hmade, hwithin⟩ := mem_listsWithin.1 hi
  exact mem_listsWithin.2 ⟨hmade, hwithin.tail h⟩

section Acyclic

variable (h : w.Acyclic)

include h

/-- An item of a list has fewer lists inside than the list. -/
theorem Acyclic.card_lt (hu : u ∈ w.items r) :
    (w.listsWithin u).card < (w.listsWithin (.list r)).card := by
  have hpart : w.IsPart u (.list r) := hu
  refine Finset.card_lt_card ⟨listsWithin_mono hpart, fun hback => ?_⟩
  have hself : r.index ∈ w.listsWithin (.list r) :=
    mem_listsWithin.2 ⟨lt_size_of_item hu, Relation.ReflTransGen.refl⟩
  have hwithin := (mem_listsWithin.1 (hback hself)).2
  exact h _ (Relation.TransGen.tail' hwithin hpart)

/-- Going from a value to its parts comes to an end. -/
theorem Acyclic.wellFounded : WellFounded w.IsPart := by
  refine Subrelation.wf (r := InvImage (Prod.Lex (· < ·) (· < ·))
    fun v => ((w.listsWithin v).card, sizeOf v)) ?_ (InvImage.wf _ (WellFounded.prod_lex wellFounded_lt
      wellFounded_lt))
  intro u v hu
  cases v with
  | list r => exact .left _ _ (h.card_lt hu)
  | exception kind args tb =>
      rcases (Finset.card_le_card (listsWithin_mono hu)).lt_or_eq with hlt | heq
      · exact .left _ _ hlt
      · show Prod.Lex _ _ (_, _) (_, _)
        rw [heq]
        exact .right _ (sizeOf_lt_of_arg hu)
  | _ => cases hu

end Acyclic

/-! ## Forms -/

theorem formsWith_eq_map (w : World) (ofList : ListRef → Form) (vs : List Value) :
    w.formsWith ofList vs = vs.map (w.formWith ofList) := by
  induction vs with
  | nil => rfl
  | cons v vs ih => rw [formsWith, ih, List.map_cons]

/-- Where nothing is found inside itself, neither the depth nor the path matters, once the depth is
more than the number of lists inside. -/
theorem formAt_eq (h : w.Acyclic) (v : Value) : ∀ {n m : Nat} {path path' : List ListRef},
    (w.listsWithin v).card < n → (w.listsWithin v).card < m →
    (∀ s ∈ path, Relation.TransGen w.IsPart v (.list s)) →
    (∀ s ∈ path', Relation.TransGen w.IsPart v (.list s)) →
    w.formAt n path v = w.formAt m path' v := by
  induction v using h.wellFounded.induction with
  | _ v ih =>
      intro n m path path' hn hm hpath hpath'
      obtain ⟨n, rfl⟩ : ∃ k, n = k + 1 := ⟨n - 1, by omega⟩
      obtain ⟨m, rfl⟩ : ∃ k, m = k + 1 := ⟨m - 1, by omega⟩
      cases v with
      | list r =>
          have hnot : r ∉ path := fun hr => h _ (hpath r hr)
          have hnot' : r ∉ path' := fun hr => h _ (hpath' r hr)
          have hinside : ∀ {ps : List ListRef} {u : Value}, u ∈ w.items r →
              (∀ s ∈ ps, Relation.TransGen w.IsPart (.list r) (.list s)) →
              ∀ s ∈ r :: ps, Relation.TransGen w.IsPart u (.list s) := by
            intro ps u hu hps s hs
            have hpart : Relation.TransGen w.IsPart u (.list r) := .single hu
            rcases List.mem_cons.1 hs with rfl | hs
            · exact hpart
            · exact hpart.trans (hps s hs)
          simp only [formAt, formWith, if_neg hnot, if_neg hnot']
          refine congrArg _ (List.map_congr_left fun u hu => ?_)
          have hless := h.card_lt hu
          exact ih u hu (by omega) (by omega) (hinside hu hpath) (hinside hu hpath')
      | exception kind args tb =>
          simp only [formAt, formWith, formsWith_eq_map]
          refine congrArg (Form.exception kind · tb) (List.map_congr_left fun u hu => ?_)
          have hpart : w.IsPart u (.exception kind args tb) := hu
          have hle := Finset.card_le_card (listsWithin_mono hpart)
          exact ih u hu (n := n + 1) (m := m + 1) (by omega) (by omega)
            (fun s hs => .head hpart (hpath s hs)) (fun s hs => .head hpart (hpath' s hs))
      | _ => rfl

/-- The form of a list that is not found inside itself. -/
theorem form_list (h : w.Acyclic) (r : ListRef) :
    w.form (.list r) = .list r ((w.items r).map w.form) := by
  simp only [form, formAt, formWith, List.not_mem_nil, if_false]
  refine congrArg _ (List.map_congr_left fun u hu => ?_)
  have hless := h.card_lt hu
  have hle := w.card_listsWithin_le (.list r)
  refine formAt_eq h u (by omega) (by omega) (fun s hs => ?_) fun s hs => absurd hs List.not_mem_nil
  rw [List.mem_singleton.1 hs]
  exact .single hu

theorem form_exception (w : World) (kind : ExceptionKind) (args : List Value) (tb : Option Traceback) :
    w.form (.exception kind args tb) = .exception kind (args.map w.form) tb := by
  simp only [form, formAt, formWith, formsWith_eq_map]
  rfl

end World

/-! ## Contents -/

/-- What a value amounts to when it does not matter which object holds the items of a list. -/
inductive Value.Content where
  /-- a value that has no parts -/
  | plain (v : Value)
  | list (items : List Value.Content)
  | exception (kind : ExceptionKind) (args : List Value.Content) (traceback : Option Traceback)

namespace Form

mutual

/-- The content of a form: the objects that hold the items of lists are left out, and so is what
objects are called. -/
def content : Form → Value.Content
  | none => .plain .none
  | bool b => .plain (.bool b)
  | int i => .plain (.int i)
  | str s => .plain (.str s)
  | list _ items => .list (contents items)
  | cycle r => .plain (.list r)
  | iterator r _ => .plain (.iterator r)
  | generator r _ => .plain (.generator r)
  | frame r _ => .plain (.frame r)
  | code r _ _ => .plain (.code r)
  | exceptionType kind => .plain (.exceptionType kind)
  | exception kind args tb => .exception kind (contents args) tb
  | traceback t => .plain (.traceback t)

/-- The contents of forms. -/
def contents : List Form → List Value.Content
  | [] => []
  | f :: fs => f.content :: contents fs

end

theorem contents_eq_map (fs : List Form) : contents fs = fs.map content := by
  induction fs with
  | nil => rfl
  | cons f fs ih => rw [contents, ih, List.map_cons]

/-- The form has no parts. -/
def isPlain : Form → Bool
  | list _ _ => false
  | exception _ _ _ => false
  | _ => true

theorem equal_iff_of_isPlain {f : Form} (hf : f.isPlain = true) (g : Form) :
    f.equal g = true ↔ f.content = g.content := by
  cases f <;> cases g <;> simp [equal, content] <;> cases hf

mutual

/-- Forms with the same content are equal. -/
theorem equal_of_content_eq : (f g : Form) → f.content = g.content → f.equal g = true
  | list r as, g, h => by
      cases g <;> simp only [content, Value.Content.list.injEq, reduceCtorEq] at h
      simp [equal, equalAll_of_contents_eq as _ h]
  | exception kind as tb, g, h => by
      cases g <;> simp only [content, Value.Content.exception.injEq, reduceCtorEq] at h
      simp [equal, h.1, equalAll_of_contents_eq as _ h.2.1, h.2.2]
  | none, g, h => (equal_iff_of_isPlain rfl g).2 h
  | bool _, g, h => (equal_iff_of_isPlain rfl g).2 h
  | int _, g, h => (equal_iff_of_isPlain rfl g).2 h
  | str _, g, h => (equal_iff_of_isPlain rfl g).2 h
  | cycle _, g, h => (equal_iff_of_isPlain rfl g).2 h
  | iterator _ _, g, h => (equal_iff_of_isPlain rfl g).2 h
  | generator _ _, g, h => (equal_iff_of_isPlain rfl g).2 h
  | frame _ _, g, h => (equal_iff_of_isPlain rfl g).2 h
  | code _ _ _, g, h => (equal_iff_of_isPlain rfl g).2 h
  | exceptionType _, g, h => (equal_iff_of_isPlain rfl g).2 h
  | traceback _, g, h => (equal_iff_of_isPlain rfl g).2 h

theorem equalAll_of_contents_eq : (fs gs : List Form) → contents fs = contents gs →
    equalAll fs gs = true
  | [], [], _ => rfl
  | [], _ :: _, h => nomatch h
  | _ :: _, [], h => nomatch h
  | f :: fs, g :: gs, h => by
      simp only [contents, List.cons.injEq] at h
      rw [equalAll, equal_of_content_eq f g h.1, equalAll_of_contents_eq fs gs h.2]
      rfl

end

end Form

namespace World

/-- The content of a value. -/
def contentOf (w : World) (v : Value) : Value.Content := (w.form v).content

theorem contentOf_list (h : w.Acyclic) (r : ListRef) :
    w.contentOf (.list r) = .list ((w.items r).map w.contentOf) := by
  rw [contentOf, form_list h, Form.content, Form.contents_eq_map, List.map_map]
  rfl

theorem contentOf_exception (w : World) (kind : ExceptionKind) (args : List Value)
    (tb : Option Traceback) :
    w.contentOf (.exception kind args tb) = .exception kind (args.map w.contentOf) tb := by
  rw [contentOf, form_exception, Form.content, Form.contents_eq_map, List.map_map]
  rfl

/-- Lists of values whose forms are equal one by one have the same contents, if that holds of each of
the values. -/
theorem contents_eq_of_equalAll {us vs : List Value}
    (heach : ∀ u ∈ us, ∀ v, w.equal u v = true → w.contentOf u = w.contentOf v)
    (h : Form.equalAll (us.map w.form) (vs.map w.form) = true) :
    us.map w.contentOf = vs.map w.contentOf := by
  induction us generalizing vs with
  | nil =>
      cases vs with
      | nil => rfl
      | cons v vs => cases h
  | cons u us ih =>
      cases vs with
      | nil => cases h
      | cons v vs =>
          simp only [List.map_cons, Form.equalAll, Bool.and_eq_true] at h
          rw [List.map_cons, List.map_cons, heach u List.mem_cons_self v h.1,
            ih (fun u hu => heach u (List.mem_cons_of_mem _ hu)) h.2]

theorem exists_list_of_equal {fs : List Form} (h : (Form.list r fs).equal (w.form v) = true) :
    ∃ s, v = .list s := by
  cases v with
  | list s => exact ⟨s, rfl⟩
  | _ => cases h

theorem exists_exception_of_equal {kind : ExceptionKind} {fs : List Form} {tb : Option Traceback}
    (h : (Form.exception kind fs tb).equal (w.form v) = true) :
    ∃ kind' args tb', v = .exception kind' args tb' := by
  cases v with
  | exception kind' args tb' => exact ⟨kind', args, tb', rfl⟩
  | _ => cases h

section Acyclic

variable (h : w.Acyclic)

include h

theorem contentOf_eq_of_equal (a : Value) : ∀ b, w.equal a b = true →
    w.contentOf a = w.contentOf b := by
  induction a using h.wellFounded.induction with
  | _ a ih =>
      intro b hab
      rw [equal] at hab
      cases a with
      | list r =>
          rw [form_list h] at hab
          obtain ⟨s, rfl⟩ := exists_list_of_equal hab
          rw [form_list h, Form.equal, Bool.or_eq_true, beq_iff_eq] at hab
          rcases hab with rfl | hab
          · rfl
          · rw [contentOf_list h, contentOf_list h]
            exact congrArg Value.Content.list (contents_eq_of_equalAll ih hab)
      | exception kind args tb =>
          rw [form_exception] at hab
          obtain ⟨kind', args', tb', rfl⟩ := exists_exception_of_equal hab
          rw [form_exception, Form.equal, Bool.and_eq_true, Bool.and_eq_true, beq_iff_eq,
            beq_iff_eq] at hab
          obtain ⟨⟨rfl, hargs⟩, rfl⟩ := hab
          rw [contentOf_exception, contentOf_exception]
          exact congrArg (Value.Content.exception kind · tb) (contents_eq_of_equalAll ih hargs)
      | _ => exact (Form.equal_iff_of_isPlain rfl _).1 hab

/-- Two values are equal if and only if they have the same content. -/
theorem equal_iff_content (a b : Value) : w.equal a b = true ↔ w.contentOf a = w.contentOf b :=
  ⟨contentOf_eq_of_equal h a b, Form.equal_of_content_eq _ _⟩

end Acyclic

/-! ## Replacing a part -/

/-- Replacing an item by one with the same content changes no content. -/
theorem map_contentOf_set {vs : List Value} (hi : i < vs.length)
    (hsame : w.contentOf vs[i] = w.contentOf v) :
    (vs.set i v).map w.contentOf = vs.map w.contentOf := by
  rw [List.map_set, ← hsame, ← List.getElem_map w.contentOf (h := by simpa using hi)]
  exact List.set_getElem_self _

section SetItems

variable (h : w.Acyclic) (hi : i < (w.items r).length) (hequal : w.equal (w.items r)[i] v = true)

include h hequal

/-- The contents of the parts are what they were. -/
theorem contents_parts_setItems (u : Value) :
    ((w.setItems r ((w.items r).set i v)).parts u).map w.contentOf = (w.parts u).map w.contentOf := by
  cases u with
  | list s =>
      simp only [parts, items_setItems]
      split
      · next hrs =>
          subst hrs
          exact map_contentOf_set hi ((equal_iff_content h _ _).1 hequal)
      · rfl
  | _ => rfl

/-- An equal value that is written into a list is not found inside itself there. -/
theorem acyclic_setItems : (w.setItems r ((w.items r).set i v)).Acyclic := by
  refine acyclic_of_measure (fun u => sizeOf (w.contentOf u)) fun u x hu => ?_
  have hmem : w.contentOf u ∈ (w.parts x).map w.contentOf := by
    rw [← contents_parts_setItems h hi hequal x]
    exact List.mem_map_of_mem hu
  have hless := List.sizeOf_lt_of_mem hmem
  cases x with
  | list s =>
      simp only [contentOf_list h, Value.Content.list.sizeOf_spec]
      simp only [parts] at hless
      omega
  | exception kind args tb =>
      simp only [contentOf_exception, Value.Content.exception.sizeOf_spec]
      simp only [parts] at hless
      omega
  | _ => cases hmem

/-- Writing an equal value into a list changes the content of nothing. -/
theorem contentOf_setItems (u : Value) :
    (w.setItems r ((w.items r).set i v)).contentOf u = w.contentOf u := by
  have h' := acyclic_setItems h hi hequal
  induction u using h'.wellFounded.induction with
  | _ u ih =>
      have hparts : ((w.setItems r ((w.items r).set i v)).parts u).map
          (w.setItems r ((w.items r).set i v)).contentOf = (w.parts u).map w.contentOf := by
        rw [← contents_parts_setItems h hi hequal u]
        exact List.map_congr_left ih
      cases u with
      | list s =>
          rw [contentOf_list h', contentOf_list h]
          exact congrArg Value.Content.list hparts
      | exception kind args tb =>
          rw [contentOf_exception, contentOf_exception]
          exact congrArg (Value.Content.exception kind · tb) hparts
      | _ => rfl

/-- Writing an equal value into a list makes no difference to any comparison. -/
theorem equal_setItems (a b : Value) :
    (w.setItems r ((w.items r).set i v)).equal a b = w.equal a b := by
  have h' := acyclic_setItems h hi hequal
  rw [Bool.eq_iff_iff, equal_iff_content h', equal_iff_content h, contentOf_setItems h hi hequal,
    contentOf_setItems h hi hequal]

end SetItems

/-! ## The laws of equality -/

theorem equal_of_sameIdentity {a b : Value} (h : a.sameIdentity b = true) : w.equal a b = true := by
  cases a <;> cases b <;> simp_all [Value.sameIdentity, equal, form, formAt, formWith, Form.equal]

/-- Equality is an equivalence relation, and values that are identical are equal.  An item of a list, or an
argument of an exception, may be replaced by an equal value.  A list with the items so changed is equal
to the list.  If the items are changed in place, then nothing is found inside itself afterwards either,
and every comparison comes out as before. -/
theorem equality_laws (h : w.Acyclic) :
    (∀ a, w.equal a a = true) ∧
    (∀ a b, w.equal a b = true → w.equal b a = true) ∧
    (∀ a b c, w.equal a b = true → w.equal b c = true → w.equal a c = true) ∧
    (∀ a b, a.sameIdentity b = true → w.equal a b = true) ∧
    (∀ r s i v, ∀ hi : i < (w.items r).length, w.equal (w.items r)[i] v = true →
      w.items s = (w.items r).set i v → w.equal (.list r) (.list s) = true) ∧
    (∀ r i v, ∀ hi : i < (w.items r).length, w.equal (w.items r)[i] v = true →
      (w.setItems r ((w.items r).set i v)).Acyclic ∧
        ∀ a b, (w.setItems r ((w.items r).set i v)).equal a b = w.equal a b) ∧
    ∀ kind args tb i v, ∀ hi : i < args.length, w.equal args[i] v = true →
      w.equal (.exception kind args tb) (.exception kind (args.set i v) tb) = true := by
  have hiff := fun a b => equal_iff_content h a b
  refine ⟨fun a => (hiff a a).2 rfl, fun a b hab => (hiff b a).2 ((hiff a b).1 hab).symm,
    fun a b c hab hbc => (hiff a c).2 (((hiff a b).1 hab).trans ((hiff b c).1 hbc)),
    fun a b => equal_of_sameIdentity, ?_, ?_, ?_⟩
  · intro r s i v hi hequal hs
    rw [hiff, contentOf_list h, contentOf_list h, hs, map_contentOf_set hi ((hiff _ _).1 hequal)]
  · intro r i v hi hequal
    exact ⟨acyclic_setItems h hi hequal, equal_setItems h hi hequal⟩
  · intro kind args tb i v hi hequal
    rw [hiff, contentOf_exception, contentOf_exception, map_contentOf_set hi ((hiff _ _).1 hequal)]

/-- Two lists of a number and an exception about a list of one number, with no list in common. -/
def twoAlike : World :=
  let (inner, w) := (World.new 0 .collecting).newList [.int 2]
  let (_, w) := w.newList [.int 1, .exception .valueError [.list inner] none]
  let (inner, w) := w.newList [.int 2]
  (w.newList [.int 1, .exception .valueError [.list inner] none]).2

/-- The inner lists are equal, hence the exceptions about them, and hence the outer lists. -/
theorem equality_laws_twoAlike :
    twoAlike.Acyclic ∧ twoAlike.equal (.list ⟨0⟩) (.list ⟨2⟩) = true ∧
      twoAlike.equal (.list ⟨1⟩) (.list ⟨3⟩) = true := by
  have hacyclic : twoAlike.Acyclic := by
    refine acyclic_of_older fun r v hv s hs => ?_
    obtain ⟨n⟩ := r
    have hn : n < 4 := lt_size_of_item hv
    have hnested : ∀ n < 4, ∀ v ∈ twoAlike.items ⟨n⟩, ∀ o ∈ v.objects,
        (n = 1 ∧ o = .list ⟨0⟩) ∨ (n = 3 ∧ o = .list ⟨2⟩) := by decide
    rcases hnested n hn v hv _ hs with ⟨rfl, hs⟩ | ⟨rfl, hs⟩
    · cases hs
      decide
    · cases hs
      decide
  have hinner : twoAlike.equal (.list ⟨0⟩) (.list ⟨2⟩) = true := by decide
  obtain ⟨_, _, _, _, hlists, _, hexceptions⟩ := equality_laws hacyclic
  have hexception := hexceptions .valueError [.list ⟨0⟩] none 0 (.list ⟨2⟩) (by decide) hinner
  exact ⟨hacyclic, hinner, hlists ⟨1⟩ ⟨3⟩ 1 _ (by decide) hexception rfl⟩

end World

end Resumable
