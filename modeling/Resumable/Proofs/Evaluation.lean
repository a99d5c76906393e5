import Resumable.Proofs.Access

set_option autoImplicit false

/-!
# Operations, expressions and calls in linked worlds

The operations on generators are requests, apart from what `send` checks beforehand.  Expressions
make values with owners of their own, so nothing needs to be held for them; a call holds its target
for as long as it takes.
-/

namespace Resumable

variable {C : Zone → Prop} {Z : Zone} {F G : Bag} {e e' : Engine} {w w' : World} {τ : Type}

/-! ## Operations on a generator -/

/-- A generator in reach is at the same point of its life in both worlds. -/
theorem isJustStarted_eq (hZ : Z.Valid) (h : Z.Linked F w w') {g : GeneratorRef} {r : FrameRef}
    (hg : ¬ Z.hidden (.generator g)) (hslot : (w.generator g).frame = some r) :
    w'.isJustStarted r = w.isJustStarted r := by
  have hr := h.frame_not_sealed hg hslot
  unfold World.isJustStarted
  rw [h.alike.frame r fun hh => hr (hZ.sealed_of_hidden _ hh)]

section Operations

variable (hs : Serves C e e') (hZ : Z.Fit C)

include hs hZ

theorem resume_ends {g : GeneratorRef} {v : Value} (hg : Z.Held F g)
    (h : Z.Linked (holds v + F) w w') :
    Ends Z.bond F holds (e.perform (.resume g v) w) (e'.perform (.resume g v) w') :=
  hs.answers hZ (.resume g v) hg h

theorem next_ends {g : GeneratorRef} (hg : Z.Held F g) (h : Z.Linked F w w') :
    Ends Z.bond F holds (e.next g w) (e'.next g w') :=
  resume_ends hs hZ hg (h.le (by simp))

theorem throw_ends {g : GeneratorRef} {thrown : Throw} (hg : Z.Held F g)
    (h : Z.Linked (holds thrown + F) w w') :
    Ends Z.bond F holds (e.throw g thrown w) (e'.throw g thrown w') :=
  hs.answers hZ (.throw g thrown) hg h

theorem close_ends {g : GeneratorRef} (hg : Z.Held F g) (h : Z.Linked F w w') :
    Ends Z.bond F holds (e.close g w) (e'.close g w') :=
  hs.answers hZ (.close g) hg (h.le (by simp))

theorem nextOrEnd_ends {g : GeneratorRef} (hg : Z.Held F g) (h : Z.Linked F w w') :
    Ends Z.bond F holds (e.nextOrEnd g w) (e'.nextOrEnd g w') := by
  unfold Engine.nextOrEnd
  refine (next_ends hs hZ hg h).attempt.bind le_rfl fun outcome t t' ht => ?_
  cases outcome with
  | ok v => exact .ok ht
  | error x =>
      by_cases hx : x.kind = .stopIteration
      · simp only [hx, if_true]
        exact (releaseException_ends hs hZ ht).bind le_rfl fun _ u u' hu => .ok hu
      · simp only [hx, if_false]
        exact .raised ht

theorem raise_owning_ends {α : Type} {q : α → Bag} {v : Value} {x : Exception}
    (hx : holds x = 0) (h : Z.Linked (holds v + F) w w') :
    Ends Z.bond F q (e.owning v (Run.raise x) w) (e'.owning v (Run.raise x) w') :=
  owning_ends hs hZ (.raised (h.le (by rw [hx, zero_add])))

theorem send_ends {g : GeneratorRef} {v : Value} (hg : Z.Held F g)
    (h : Z.Linked (holds v + F) w w') :
    Ends Z.bond F holds (e.send g v w) (e'.send g v w') := by
  have hsame := h.alike.generator g hg.1
  simp only [Engine.send, Run.bind_apply, Run.get_apply, hsame]
  cases hslot : (w.generator g).frame with
  | none => exact raise_owning_ends hs hZ rfl h
  | some r =>
      simp only [isJustStarted_eq hZ.valid h hg.1 hslot]
      split
      · exact raise_owning_ends hs hZ rfl h
      · exact resume_ends hs hZ hg h

end Operations

/-! ## Expressions -/

theorem lookUp_ends (hZ : Z.Valid) (name : String) (h : Z.Linked F w w') :
    Ends Z.bond F holds (World.lookUp name w) (World.lookUp name w') := by
  have hnames : w'.names = w.names := congrArg World.Surroundings.names h.alike.surroundings
  show Ends Z.bond F holds
    ((World.share ((w.names.get? name).getD .none) >>= fun _ =>
      pure ((w.names.get? name).getD .none)) w)
    ((World.share ((w'.names.get? name).getD .none) >>= fun _ =>
      pure ((w'.names.get? name).getD .none)) w')
  rw [hnames]
  refine (share_ends hZ (h.covered_of_references (B := holds _) ?_) h).bind le_rfl
    fun _ t t' ht => .ok ht
  cases hv : w.names.get? name with
  | none => exact zero_le
  | some v => exact World.holds_variable_le hv

theorem makeList_ends (hZ : Z.Valid) {vs : List Value} (h : Z.Linked (holds vs + F) w w') :
    Ends Z.bond F holds (World.makeList vs w) (World.makeList vs w') := by
  obtain ⟨hfst, hmade⟩ := h.newList hZ (G := F) (add_comm F (holds vs)).le
  show Ends Z.bond F holds (.ok (Value.list (w.newList vs).1) (w.newList vs).2)
    (.ok (Value.list (w'.newList vs).1) (w'.newList vs).2)
  rw [hfst]
  exact .ok (hmade.le (by rw [holds_list]))

theorem makeIterator_ends (hZ : Z.Valid) {x : Iterator} (htame : Z.law.tame → x.Tame)
    (h : Z.Linked (holds x + F) w w') :
    Ends Z.bond F holds (World.makeIterator x w) (World.makeIterator x w') := by
  obtain ⟨hfst, hmade⟩ := h.newIterator hZ (G := F) (x := x) htame (add_comm _ _).le
  show Ends Z.bond F holds (.ok (Value.iterator (w.newIterator x).1) (w.newIterator x).2)
    (.ok (Value.iterator (w'.newIterator x).1) (w'.newIterator x).2)
  rw [hfst]
  exact .ok (hmade.le (by rw [holds_iterator]))

/-- A way of reading a running body that gives the same in linked worlds. -/
def ReadsAlike [Holder τ] (Z : Zone) (fields : FieldReader τ) : Prop :=
  ∀ (f : BodyField) {F : Bag} {a : τ} {w w' : World}, Z.Linked (holds a + F) w w' →
    Ends (Z.bondWith τ) F holds (fields f (a, w)) (fields f (a, w'))

theorem readsAlike_noFields [Holder τ] : ReadsAlike Z (noFields : FieldReader τ) :=
  fun _ _ _ _ _ h => .ok ⟨rfl, by simpa using h⟩

section Expressions

variable [Holder τ] {fields : FieldReader τ}

mutual

theorem eval_ends (hZ : Z.Valid) (hfields : ReadsAlike Z fields) :
    (x : Expr) → (Z.law.tame → x.isTame = true) → {F : Bag} → {a : τ} → {w w' : World} → Z.Linked (holds a + F) w w' →
      Ends (Z.bondWith τ) F holds (x.eval fields (a, w)) (x.eval fields (a, w'))
  | .none, _, _, _, _, _, h => .ok ⟨rfl, by simpa using h⟩
  | .bool _, _, _, _, _, _, h => .ok ⟨rfl, by simpa using h⟩
  | .int _, _, _, _, _, _, h => .ok ⟨rfl, by simpa using h⟩
  | .str _, _, _, _, _, _, h => .ok ⟨rfl, by simpa using h⟩
  | .list items, htame, _, _, _, _, h => by
      rw [Expr.eval]
      refine (evalAll_ends hZ hfields items (by simpa only [Expr.isTame] using htame) h).bindWith le_rfl fun vs b t t' ht => ?_
      exact Ends.shared (makeList_ends hZ (ht.le (add_left_comm _ _ _).le))
  | .variable name, _, _, _, _, _, h => by
      rw [Expr.eval]
      exact Ends.shared (lookUp_ends hZ name h)
  | .exceptionType _, _, _, _, _, _, h => .ok ⟨rfl, by simpa using h⟩
  | .exception kind args tb escaped, htame, _, _, _, _, h => by
      rw [Expr.eval]
      refine (evalAll_ends hZ hfields args (by simpa only [Expr.isTame] using htame) h).bindWith le_rfl fun vs b t t' ht => ?_
      have hescaped : ∀ (x : Exception), (escaped.foldl Exception.pushEntry x).args = x.args := by
        clear htame
        intro x
        induction escaped generalizing x with
        | nil => rfl
        | cons entry rest ih => exact ih _
      refine .ok ⟨rfl, ht.le (le_of_eq ?_)⟩
      rw [holds_toValue, holds_exception, hescaped]
  | .traceback _, _, _, _, _, _, h => .ok ⟨rfl, by simpa using h⟩
  | .listIterator source, htame, _, _, _, _, h => by
      rw [Expr.eval]
      refine (eval_ends hZ hfields source (by simpa only [Expr.isTame] using htame) h).bindWith le_rfl fun v b t t' ht => ?_
      cases v with
      | list r =>
          exact Ends.shared (makeIterator_ends hZ (fun _ => trivial) (ht.le (add_left_comm _ _ _).le))
      | _ => exact .ok ⟨rfl, ht⟩
  | .scripted name items closing echoes, htame, _, _, _, _, h => by
      rw [Expr.eval]
      refine Ends.shared (makeIterator_ends hZ (fun hlaw => ?_) (h.le ?_))
      · have := htame hlaw
        simp [Expr.isTame] at this
      · exact (zero_add _).le
  | .field f, _, _, _, _, _, h => by
      rw [Expr.eval]
      exact hfields f h

theorem evalAll_ends (hZ : Z.Valid) (hfields : ReadsAlike Z fields) :
    (xs : List Expr) → (Z.law.tame → Expr.areTame xs = true) → {F : Bag} → {a : τ} → {w w' : World} → Z.Linked (holds a + F) w w' →
      Ends (Z.bondWith τ) F holds (Expr.evalAll fields xs (a, w)) (Expr.evalAll fields xs (a, w'))
  | [], _, _, _, _, _, h => .ok ⟨rfl, by simpa using h⟩
  | x :: xs, htame, F, _, _, _, h => by
      rw [Expr.evalAll]
      have hboth : Z.law.tame → x.isTame = true ∧ Expr.areTame xs = true := fun hlaw => by
        simpa only [Expr.areTame, Bool.and_eq_true] using htame hlaw
      refine (eval_ends hZ hfields x (fun hlaw => (hboth hlaw).1) h).bindWith le_rfl
        fun v b t t' ht => ?_
      refine (evalAll_ends hZ hfields xs (fun hlaw => (hboth hlaw).2) ht).bindWith le_add_self fun vs c u u' hu => ?_
      refine .ok ⟨rfl, hu.le ?_⟩
      intro o
      simp only [holds_values_cons, Pi.add_apply]
      omega

end

end Expressions

/-! ## Calls -/

theorem holds_take_le (vs : List Value) (n : Nat) :
    holds (vs.take n) + holds (vs.drop n) = holds vs := by
  rw [← holds_values_append, List.take_append_drop]

theorem holds_head_le (vs : List Value) : holds (vs.head?.getD .none) ≤ holds (vs.take 1) := by
  cases vs with
  | nil => exact zero_le
  | cons v vs => simp

/-- The arguments of a throw are the first three. -/
theorem holds_throw_le (vs : List Value) :
    holds (⟨vs.head?.getD .none, vs[1]?, vs[2]?⟩ : Throw) ≤ holds (vs.take 3) := by
  rcases vs with _ | ⟨a, _ | ⟨b, _ | ⟨c, vs⟩⟩⟩ <;> simp [holds_throw, add_assoc]

/-- A generator in reach is in the same state in both worlds. -/
theorem stateOf_eq (hZ : Z.Valid) (h : Z.Linked F w w') {g : GeneratorRef}
    (hg : ¬ Z.hidden (.generator g)) : w'.stateOf g = w.stateOf g := by
  unfold World.stateOf
  rw [h.alike.generator g hg]
  cases hslot : (w.generator g).frame with
  | none => rfl
  | some r =>
      have hr := h.frame_not_sealed hg hslot
      simp only [h.alike.frame r fun hh => hr (hZ.sealed_of_hidden _ hh)]

/-- A generator in reach delegates to the same iterator in both worlds, which is covered. -/
theorem delegateOf_eq (hZ : Z.Valid) (h : Z.Linked F w w') {g : GeneratorRef}
    (hg : ¬ Z.hidden (.generator g)) :
    w'.delegateOf g = w.delegateOf g ∧
      Z.Covered w (holds ((w.delegateOf g).getD .none)) := by
  unfold World.delegateOf
  rw [h.alike.generator g hg]
  cases hslot : (w.generator g).frame with
  | none => exact ⟨rfl, Zone.Covered.zero⟩
  | some r =>
      have hr := h.frame_not_sealed hg hslot
      have hhidden : ¬ Z.hidden (.frame r) := fun hh => hr (hZ.sealed_of_hidden _ hh)
      have hle := World.holds_frame_le (w := w) hhidden
      simp only [Option.bind_eq_bind, Option.bind_some]
      rw [h.alike.frame r hhidden]
      refine ⟨rfl, h.covered_of_references (le_trans ?_ hle)⟩
      cases w.frame? r with
      | none => exact zero_le
      | some f =>
          rw [Option.bind_some, holds_some, holds_frame]
          cases f.delegate with
          | none => exact zero_le
          | some v =>
              intro o
              simp only [Option.getD_some, holds_some, Pi.add_apply]
              omega

section Calls

variable (hs : Serves C e e') (hZ : Z.Fit C)

include hs hZ

theorem call_ends {g : GeneratorRef} (method : Method) {args : List Value} (hg : Z.Held F g)
    (h : Z.Linked (holds (args.take method.arity) + F) w w') :
    Ends Z.bond F holds (e.call g method args w) (e'.call g method args w') := by
  have hF : Z.Linked F w w' := h.le le_add_self
  cases method with
  | next => exact next_ends hs hZ hg hF
  | nextOrEnd =>
      refine (nextOrEnd_ends hs hZ hg hF).bind le_rfl fun item t t' ht => .ok (ht.le ?_)
      cases item with
      | none => simp
      | some v => simp
  | send =>
      exact send_ends hs hZ hg (h.le (add_le_add_left (holds_head_le args) F))
  | throw =>
      exact throw_ends hs hZ hg (h.le (add_le_add_left (holds_throw_le args) F))
  | close => exact close_ends hs hZ hg hF
  | state =>
      show Ends Z.bond F holds (.ok (Value.str (w.stateOf g).name) w)
        (.ok (Value.str (w'.stateOf g).name) w')
      rw [stateOf_eq hZ.valid h hg.1]
      exact .ok (hF.le (by simp))
  | running =>
      show Ends Z.bond F holds (.ok (Value.bool (w.generator g).running) w)
        (.ok (Value.bool (w'.generator g).running) w')
      rw [h.alike.generator g hg.1]
      exact .ok (hF.le (by simp))
  | yieldFrom =>
      obtain ⟨hsame, hcovered⟩ := delegateOf_eq hZ.valid hF hg.1
      show Ends Z.bond F holds
        ((World.share ((w.delegateOf g).getD .none) >>= fun _ =>
          pure ((w.delegateOf g).getD .none)) w)
        ((World.share ((w'.delegateOf g).getD .none) >>= fun _ =>
          pure ((w'.delegateOf g).getD .none)) w')
      rw [hsame]
      exact (share_ends hZ.valid hcovered hF).bind le_rfl fun _ t t' ht => .ok ht
  | frame =>
      show Ends Z.bond F holds (.ok (Value.bool (w.generator g).frame.isSome) w)
        (.ok (Value.bool (w'.generator g).frame.isSome) w')
      rw [h.alike.generator g hg.1]
      exact .ok (hF.le (by simp))

theorem callResult_ends {g : GeneratorRef} (method : Method) {args : List Value}
    (hg : Z.Held F g) (h : Z.Linked (holds (args.take method.arity) + F) w w') :
    Ends Z.bond F holds (e.callResult g method args w) (e'.callResult g method args w') := by
  unfold Engine.callResult
  refine (call_ends hs hZ method hg h).attempt.bind le_rfl fun outcome t t' ht => ?_
  cases outcome with
  | ok v => exact .ok ht
  | error x => exact .ok ht

theorem performCall_ends [Holder τ] {fields : FieldReader τ} (hfields : ReadsAlike Z fields)
    (hscript : ¬ Z.law.tame) (c : Call) {a : τ} (h : Z.Linked (holds a + F) w w') :
    Ends (Z.bondWith τ) F holds (e.performCall fields c (a, w))
      (e'.performCall fields c (a, w')) := by
  obtain ⟨name, method, exprs⟩ := c
  unfold Engine.performCall
  refine (Ends.shared (lookUp_ends hZ.valid name h)).bindWith le_rfl fun target b t t' ht => ?_
  refine (evalAll_ends hZ.valid hfields exprs (fun htame => absurd htame hscript) ht).bindWith le_add_self fun args b t t' ht => ?_
  refine Ends.shared (owning_ends hs hZ ?_)
  have hforget : Z.Linked (holds args + (holds target + (holds b + F))) t t' :=
    ht.le fun o => by simp only [Pi.add_apply]; omega
  cases target with
  | generator g =>
      have hheld : Z.Held (holds (Value.generator g) + (holds b + F)) g := by
        refine (hforget.le le_add_self).held hZ.valid ?_
        simp only [Pi.add_apply, holds_generator, Bag.of_singleton_self]
        omega
      refine Ends.ensuring (callResult_ends hs hZ method (hheld.le le_add_self) (hforget.le ?_))
        fun G u u' _ hu => releaseAll_ends hs hZ hu
      rw [← add_assoc, holds_take_le]
  | _ =>
      exact (releaseAll_ends hs hZ hforget).bind le_rfl fun _ u u' hu => .ok hu

theorem raiseValue_ends {α : Type} {q : α → Bag} {v : Value} (h : Z.Linked (holds v + F) w w') :
    Ends Z.bond F q (e.raiseValue v w) (e'.raiseValue v w') :=
  owning_ends hs hZ <|
    (exceptionOf_ends hZ.valid le_self_add h).bind le_rfl fun _ _ _ ht => .raised ht

theorem respond_ends [Holder τ] {fields : FieldReader τ} (hfields : ReadsAlike Z fields)
    (hscript : ¬ Z.law.tame) (response : Response) {a : τ} (h : Z.Linked (holds a + F) w w') :
    Ends (Z.bondWith τ) F holds (e.respond fields response (a, w))
      (e'.respond fields response (a, w')) := by
  cases response with
  | value x => exact eval_ends hZ.valid hfields x (fun htame => absurd htame hscript) h
  | raise x =>
      refine (eval_ends hZ.valid hfields x (fun htame => absurd htame hscript) h).bindWith le_rfl
        fun v b t t' ht => ?_
      exact Ends.shared (raiseValue_ends hs hZ (ht.le (add_left_comm _ _ _).le))
  | call c => exact performCall_ends hs hZ hfields hscript c h

end Calls

end Resumable
