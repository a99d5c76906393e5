import Resumable.Proofs.Evaluation

set_option autoImplicit false

/-!
# Iteration in linked worlds

What a value looks like depends on the objects that it leads to.  None of those is hidden if the
value itself is in reach, so a value is drawn the same in linked worlds, and what an iterator notes
in the journal is the same.
-/

namespace Resumable

variable {C : Zone → Prop} {Z : Zone} {F G : Bag} {e e' : Engine} {w w' : World} {τ : Type}

/-! ## Forms -/

/-- The ways to write lists out agree on the lists in reach. -/
def AgreeOnLists (Z : Zone) (ofList ofList' : ListRef → Form) : Prop :=
  ∀ r, ¬ Z.sealed (.list r) → ofList' r = ofList r

theorem code_eq (h : Z.Linked F w w') (r : CodeRef) : w'.code r = w.code r := by
  unfold World.code
  rw [show w'.codes = w.codes from congrArg World.Surroundings.codes h.alike.surroundings]

mutual

theorem formWith_eq (hZ : Z.Valid) (h : Z.Linked F w w') {ofList ofList' : ListRef → Form}
    (hlists : AgreeOnLists Z ofList ofList') :
    (v : Value) → (∀ o, Z.sealed o → holds v o = 0) →
      w'.formWith ofList' v = w.formWith ofList v
  | .list r, hv => by
      have hr : ¬ Z.sealed (.list r) := fun hs => by simpa [holds_list, Bag.of] using hv _ hs
      simp only [World.formWith, hlists r hr]
  | .iterator r, hv => by
      have hr : ¬ Z.hidden (.iterator r) := fun hh => by
        simpa [holds_iterator, Bag.of] using hv _ (hZ.sealed_of_hidden _ hh)
      simp only [World.formWith, h.alike.iterator r hr]
  | .generator g, hv => by
      have hg : ¬ Z.hidden (.generator g) := fun hh => by
        simpa [holds_generator, Bag.of] using hv _ (hZ.sealed_of_hidden _ hh)
      simp only [World.formWith, h.alike.generator g hg, code_eq h]
  | .frame r, hv => by
      have hr : ¬ Z.hidden (.frame r) := fun hh => by
        simpa [holds_frameRef, Bag.of] using hv _ (hZ.sealed_of_hidden _ hh)
      simp only [World.formWith, h.alike.frame r hr, code_eq h]
  | .code r, _ => by simp only [World.formWith, code_eq h]
  | .exception kind args tb, hv => by
      simp only [World.formWith, formsWith_eq hZ h hlists args hv]
  | .none, _ | .bool _, _ | .int _, _ | .str _, _ | .exceptionType _, _ | .traceback _, _ => rfl

theorem formsWith_eq (hZ : Z.Valid) (h : Z.Linked F w w') {ofList ofList' : ListRef → Form}
    (hlists : AgreeOnLists Z ofList ofList') :
    (vs : List Value) → (∀ o, Z.sealed o → holds vs o = 0) →
      w'.formsWith ofList' vs = w.formsWith ofList vs
  | [], _ => rfl
  | v :: vs, hvs => by
      have hsplit : ∀ o, Z.sealed o → holds v o = 0 ∧ holds vs o = 0 := fun o ho => by
        have := hvs o ho
        simp only [holds_values_cons, Pi.add_apply] at this
        omega
      simp only [World.formsWith, formWith_eq hZ h hlists v fun o ho => (hsplit o ho).1,
        formsWith_eq hZ h hlists vs fun o ho => (hsplit o ho).2]

end

/-! ### Iterators in use -/

theorem anyOf_eq_any (p : Form → Bool) (fs : List Form) :
    Form.anyOf p fs = fs.any (Form.any p) := by
  induction fs with
  | nil => rfl
  | cons f fs ih => rw [Form.anyOf, List.any_cons, ih]

theorem isInUse_exception (kind : ExceptionKind) (args : List Form) (tb : Option Traceback) :
    (Form.exception kind args tb).isInUse = args.any Form.isInUse := by
  rw [Form.isInUse, Form.any, anyOf_eq_any]
  rfl

theorem isInUse_list (r : ListRef) (items : List Form) :
    (Form.list r items).isInUse = items.any Form.isInUse := by
  rw [Form.isInUse, Form.any, anyOf_eq_any]
  rfl

/-- A way to write lists out that mentions no iterator in use. -/
def Legible (Z : Zone) (w : World) (ofList : ListRef → Form) : Prop :=
  ∀ r, Z.Covered w (holds (Value.list r)) → (ofList r).isInUse = true → Z.Busy

mutual

theorem busy_of_formWith (hZ : Z.Valid) (h : Z.Linked F w w') {ofList : ListRef → Form}
    (hlists : Legible Z w ofList) :
    (v : Value) → Z.Covered w (holds v) → (w.formWith ofList v).isInUse = true → Z.Busy
  | .list r, hv, huse => hlists r hv (by simpa only [World.formWith] using huse)
  | .iterator r, hv, huse => by
      refine busy_of_vacant hZ h hv ?_
      cases hi : w.iterator? r with
      | none => rfl
      | some i => simp [World.formWith, hi, Form.isInUse, Form.any] at huse
  | .exception kind args tb, hv, huse => by
      rw [World.formWith, isInUse_exception] at huse
      exact busy_of_formsWith hZ h hlists args hv huse
  | .none, _, huse | .bool _, _, huse | .int _, _, huse | .str _, _, huse
  | .exceptionType _, _, huse | .traceback _, _, huse | .code _, _, huse
  | .generator _, _, huse | .frame _, _, huse => by
      simp [World.formWith, Form.isInUse, Form.any] at huse

theorem busy_of_formsWith (hZ : Z.Valid) (h : Z.Linked F w w') {ofList : ListRef → Form}
    (hlists : Legible Z w ofList) :
    (vs : List Value) → Z.Covered w (holds vs) →
      (w.formsWith ofList vs).any Form.isInUse = true → Z.Busy
  | [], _, huse => by simp [World.formsWith] at huse
  | v :: vs, hvs, huse => by
      rw [World.formsWith, List.any_cons, Bool.or_eq_true] at huse
      rw [holds_values_cons] at hvs
      rcases huse with huse | huse
      · exact busy_of_formWith hZ h hlists v (hvs.le le_self_add) huse
      · exact busy_of_formsWith hZ h hlists vs (hvs.le le_add_self) huse

end

section Forms

variable (hZ : Z.Valid) (h : Z.Linked F w w')

include hZ h

theorem formAt_eq (n : Nat) (path : List ListRef) {v : Value}
    (hv : ∀ o, Z.sealed o → holds v o = 0) : w'.formAt n path v = w.formAt n path v := by
  induction n generalizing path v with
  | zero => exact formWith_eq hZ h (fun _ _ => rfl) v hv
  | succ n ih =>
      refine formWith_eq hZ h (fun r hr => ?_) v hv
      have hhidden : ¬ Z.hidden (.list r) := fun hh => hr (hZ.sealed_of_hidden _ hh)
      have hitems : ∀ u ∈ w.items r, w'.formAt n (r :: path) u = w.formAt n (r :: path) u := by
        intro u hu
        exact ih _ (h.covered_of_references
          (le_trans (holds_le_of_mem hu) (World.holds_items_le hhidden))).unsealed
      split
      · rfl
      · rw [h.alike.items r hhidden, List.map_congr_left hitems]

/-- A value in reach has the same form in both worlds. -/
theorem form_eq {v : Value} (hv : ∀ o, Z.sealed o → holds v o = 0) : w'.form v = w.form v := by
  have hsizes := h.alike.sizes
  simp only [World.sizes, Prod.mk.injEq] at hsizes
  unfold World.form
  rw [hsizes.1]
  exact formAt_eq hZ h _ _ hv

theorem forms_eq {vs : List Value} (hvs : ∀ o, Z.sealed o → holds vs o = 0) :
    w'.forms vs = w.forms vs := by
  refine List.map_congr_left fun v hv => form_eq hZ h fun o ho => ?_
  have := Bag.apply_le (holds_le_of_mem hv) o
  have := hvs o ho
  omega

theorem busy_of_formAt (n : Nat) (path : List ListRef) {v : Value} (hv : Z.Covered w (holds v))
    (huse : (w.formAt n path v).isInUse = true) : Z.Busy := by
  induction n generalizing path v with
  | zero =>
      refine busy_of_formWith hZ h (fun _ _ hcycle => ?_) v hv huse
      simp [Form.isInUse, Form.any] at hcycle
  | succ n ih =>
      refine busy_of_formWith hZ h (fun r hr hlist => ?_) v hv huse
      have hsealed := (hr (.list r) (by rw [holds_list, Bag.of_singleton_self])).1
      have hhidden : ¬ Z.hidden (.list r) := fun hh => hsealed (hZ.sealed_of_hidden _ hh)
      split at hlist
      · simp [Form.isInUse, Form.any] at hlist
      · rw [isInUse_list, List.any_map, List.any_eq_true] at hlist
        obtain ⟨u, hu, huse⟩ := hlist
        refine ih (r :: path) (h.covered_of_references ?_) huse
        exact le_trans (holds_le_of_mem hu) (World.holds_items_le hhidden)

/-- A value that has no text contains an iterator in use. -/
theorem busy_of_forms {vs : List Value} (hvs : Z.Covered w (holds vs))
    (huse : (w.forms vs).any Form.isInUse = true) : Z.Busy := by
  rw [World.forms, List.any_map, List.any_eq_true] at huse
  obtain ⟨v, hv, huse⟩ := huse
  exact busy_of_formAt hZ h _ _ (hvs.le (holds_le_of_mem hv)) huse

/-- A value in reach is drawn the same in both worlds. -/
theorem picture_eq {v : Value} (hv : ∀ o, Z.sealed o → holds v o = 0) :
    w'.picture v = w.picture v := by
  unfold World.picture
  rw [form_eq hZ h hv,
    show w'.names = w.names from congrArg World.Surroundings.names h.alike.surroundings]

end Forms

/-- Noting an entry in both worlds. -/
theorem Zone.Linked.note (h : Z.Linked F w w') (x : LogEntry) :
    Z.Linked F (w.note x) (w'.note x) := by
  have hsame := h.alike.surroundings
  simp only [World.surroundings, World.Surroundings.mk.injEq] at hsame
  obtain ⟨_, _, hdiagnostics, hlog, hunwinding⟩ := hsame
  have hnoted := h.journal w.diagnostics (w.log ++ [x]) w.unwinding
  have hw' : w'.note x = { w' with
      diagnostics := w.diagnostics, log := w.log ++ [x], unwinding := w.unwinding } := by
    rw [World.note, hlog, ← hdiagnostics, ← hunwinding]
  rw [hw']
  exact hnoted

/-! ## Iterators that are not generators -/

section Tame

variable {i : Iterator}

/-- What stepping an iterator through a list makes of it is one again. -/
theorem iteratorNext_leaves (h : i.Tame) :
    Run.Leaves (fun _ => Iterator.Tame) Iterator.Tame Iterator.Tame (Iterator.next e) i := by
  intro w
  cases i with
  | list source index =>
      simp only [Run.Meets, Iterator.next, Run.bind_apply, Run.get_apply]
      cases (w.items source)[index]? <;> exact h
  | scripted s => exact h.elim

theorem iteratorSend_leaves {v : Value} (h : i.Tame) :
    Run.Leaves (fun _ => Iterator.Tame) Iterator.Tame Iterator.Tame (Iterator.send e v) i := by
  intro w
  cases i with
  | list source index =>
      show Run.Meets _ _ _ _ ((if v.isNone = true then _ else _ : Run (Iterator × World) (Option Value))) _
      split
      · exact iteratorNext_leaves h w
      · exact Run.Leaves.ensuring_shared (Q := fun _ => Iterator.Tame) (Run.Leaves.raise h)
          (fun _ _ hb => ⟨hb, hb⟩) (fun _ hb => hb) (fun _ hb => hb) w
  | scripted s => exact h.elim

theorem iteratorClose_leaves (h : i.Tame) :
    Run.Leaves (fun _ => Iterator.Tame) Iterator.Tame Iterator.Tame (Iterator.close? e) i := by
  intro w
  cases i with
  | list source index => exact h
  | scripted s => exact h.elim

end Tame

section Iterators

variable (hs : Serves C e e') (hZ : Z.Fit C)

include hs hZ

theorem iteratorNext_ends {i : Iterator} (htame : Z.law.tame → i.Tame)
    (h : Z.Linked (holds i + F) w w') :
    Ends (Z.bondWithIf Iterator (¬ Z.law.tame)) F holds (Iterator.next e (i, w)) (Iterator.next e' (i, w')) := by
  cases i with
  | list source index =>
      have hsource : ¬ Z.hidden (.list source) := fun hh =>
        h.not_sealed (o := .list source)
          (by simp [show holds (Iterator.list source index) = .of [.list source] from rfl,
            Bag.of_singleton_self]) (hZ.valid.sealed_of_hidden _ hh)
      simp only [Iterator.next, Run.bind_apply, Run.get_apply, h.alike.items source hsource]
      cases hv : (w.items source)[index]? with
      | none => exact .ok ⟨rfl, h.le (by simp)⟩
      | some v =>
          have hretained := h.retain hZ.valid (v := v) (h.covered_of_references
            (le_trans (holds_le_of_getElem? hv) (World.holds_items_le hsource)))
          refine .ok ⟨rfl, hretained.le ?_⟩
          rw [holds_some]
          exact (add_left_comm _ _ _).le
  | scripted s =>
      obtain ⟨name, items, closing, echoes⟩ := s
      cases items with
      | nil => exact .ok ⟨rfl, h.le (by simp)⟩
      | cons item rest =>
          cases item with
          | stop => exact .ok ⟨rfl, h.le (by simp; rfl)⟩
          | give response =>
              have hresponded := respond_ends hs hZ readsAlike_noFields htame response
                (a := Iterator.scripted ⟨name, rest, closing, echoes⟩) h
              exact (hresponded.loosenWith fun _ => htame).bindWith le_rfl
                fun v b t t' ht => .ok ⟨rfl, ht⟩

/-- A value that is sent and not taken is forgotten. -/
theorem iteratorSend_ends {i : Iterator} {v : Value} (htame : Z.law.tame → i.Tame)
    (hv : Z.law.tame → holds v ≤ F + Z.left) (h : Z.Linked (holds i + (holds v + F)) w w') :
    Ends (Z.bondWithIf Iterator (¬ Z.law.tame)) F holds (Iterator.send e v (i, w))
      (Iterator.send e' v (i, w')) := by
  have hrefuse : Ends (Z.bondWithIf Iterator (¬ Z.law.tame)) F (holds : Option Value → Bag)
      ((if v.isNone = true then Iterator.next e
        else Run.ensuring (Run.raise (.attributeError i.typeName "send"))
          (Run.shared (e.release v))) (i, w))
      ((if v.isNone = true then Iterator.next e'
        else Run.ensuring (Run.raise (.attributeError i.typeName "send"))
          (Run.shared (e'.release v))) (i, w')) := by
    split
    · exact iteratorNext_ends hs hZ htame (h.le (add_le_add_right le_add_self _))
    · refine Ends.ensuring (C := holds v) (.raised ⟨rfl, h.le ?_⟩) fun G s s' hG hss => ?_
      · intro o
        simp only [Pi.add_apply]
        have : holds (Exception.attributeError i.typeName "send") o = 0 := rfl
        omega
      · obtain ⟨b, t⟩ := s
        obtain ⟨b', t'⟩ := s'
        obtain ⟨rfl, ht⟩ := hss
        refine Ends.shared (releaseObjects_ends hs hZ v.objects
          (fun hnot _ hlaw => hnot (le_trans (hv hlaw) (add_le_add_left ?_ _)))
          (ht.le (add_left_comm _ _ _).le))
        exact le_trans hG le_add_self
  cases i with
  | list source index => exact hrefuse
  | scripted s =>
      by_cases hechoes : s.echoes = true
      · have hunsealed : ∀ o, Z.sealed o → holds v o = 0 :=
          h.unsealed (le_trans le_self_add le_add_self)
        have hnoted := h.note (.sent (w.picture v) s.name)
        show Ends (Z.bondWithIf Iterator (¬ Z.law.tame)) F holds
          ((if s.echoes = true then _ else _ : Run (Iterator × World) (Option Value)) (_, w))
          ((if s.echoes = true then _ else _ : Run (Iterator × World) (Option Value)) (_, w'))
        simp only [hechoes, if_true]
        rw [picture_eq hZ.valid h hunsealed]
        by_cases hnone : v.isNone = true
        · simp only [hnone, if_true]
          exact iteratorNext_ends hs hZ htame (hnoted.le (add_le_add_right le_add_self _))
        · simp only [hnone]
          exact .ok ⟨rfl, hnoted⟩
      · show Ends (Z.bondWithIf Iterator (¬ Z.law.tame)) F holds
          ((if s.echoes = true then _ else _ : Run (Iterator × World) (Option Value)) (_, w))
          ((if s.echoes = true then _ else _ : Run (Iterator × World) (Option Value)) (_, w'))
        rw [if_neg hechoes, if_neg hechoes]
        exact hrefuse

theorem iteratorClose_ends {i : Iterator} (htame : Z.law.tame → i.Tame)
    (h : Z.Linked (holds i + F) w w') :
    Ends (Z.bondWithIf Iterator (¬ Z.law.tame)) F holds (Iterator.close? e (i, w))
      (Iterator.close? e' (i, w')) := by
  cases i with
  | list source index => exact .ok ⟨rfl, h.le (by simp)⟩
  | scripted s =>
      obtain ⟨name, items, closing, echoes⟩ := s
      cases closing with
      | none => exact .ok ⟨rfl, h.le (by simp)⟩
      | some response =>
          have hnoted := h.note (.closed name)
          have hresponded := respond_ends hs hZ readsAlike_noFields htame response hnoted
          have hclosed := (hresponded.loosenWith fun _ => (htame : ¬ Z.law.tame)).attempt
          show Ends (Z.bondWithIf Iterator (¬ Z.law.tame)) F holds
            ((Run.attempt (e.respond noFields response) >>= _) (_, w.note (.closed name)))
            ((Run.attempt (e'.respond noFields response) >>= _) (_, w'.note (.closed name)))
          refine hclosed.bindWith le_rfl fun outcome i t t' ht => ?_
          cases response with
          | call c =>
              cases outcome with
              | ok v =>
                  have hv : ∀ o, Z.sealed o → holds v o = 0 :=
                    ht.unsealed (le_trans (by simp) le_add_self)
                  refine .ok ⟨rfl, ?_⟩
                  show Z.Linked _ (t.note (.called (t.picture v))) (t'.note (.called (t'.picture v)))
                  rw [picture_eq hZ.valid ht hv]
                  exact ht.note _
              | error x => exact .ok ⟨rfl, ht⟩
          | value _ => exact .ok ⟨rfl, ht⟩
          | raise _ => exact .ok ⟨rfl, ht⟩

end Iterators

/-! ## The iterator protocol -/

theorem getIter_ends (hZ : Z.Valid) {v : Value} (hv : Z.Covered w (holds v))
    (h : Z.Linked F w w') :
    Ends Z.bond F holds (World.getIter v w) (World.getIter v w') := by
  have hother : Ends Z.bond F (holds : Value → Bag)
      ((do let name ← World.typeName v
           Run.raise (.typeError ("'" ++ name ++ "' object is not iterable"))) w)
      ((do let name ← World.typeName v
           Run.raise (.typeError ("'" ++ name ++ "' object is not iterable"))) w') :=
    (typeName_ends hZ hv h).bind le_rfl fun name t t' ht => .raised ht
  cases v with
  | list r =>
      refine (share_ends hZ hv h).bind le_rfl fun _ _ _ ht =>
        makeIterator_ends hZ (fun _ => trivial) ht
  | generator g => exact (share_ends hZ hv h).bind le_rfl fun _ t t' ht => .ok ht
  | iterator r => exact (share_ends hZ hv h).bind le_rfl fun _ t t' ht => .ok ht
  | _ => exact hother

theorem notAnIterator_ends {α : Type} {q : α → Bag} (hZ : Z.Valid) {v : Value}
    (hv : Z.Covered w (holds v)) (h : Z.Linked F w w') :
    Ends Z.bond F q (World.notAnIterator v w) (World.notAnIterator v w') :=
  (typeName_ends hZ hv h).bind le_rfl fun _ _ _ ht => .raised ht

/-- A generator that is held can be resumed. -/
theorem generator_held (hZ : Z.Valid) (h : Z.Linked F w w') {g : GeneratorRef}
    (hle : holds (Value.generator g) ≤ F) : Z.Held F g := by
  refine h.held hZ ?_
  have := Bag.apply_le hle (.generator g)
  rwa [holds_generator, Bag.of_singleton_self] at this

/-- Whether an iterator can be closed: it needs a holder. -/
def Zone.Reaches (Z : Zone) (F : Bag) : Value → Prop
  | .generator g => Z.Held F g
  | .iterator r => ¬ Z.sealed (.iterator r) ∧ 1 ≤ F (.iterator r) + Z.left (.iterator r)
  | _ => True

/-- An iterator that has a holder is covered. -/
theorem Zone.Linked.covered_iterator (h : Z.Linked F w w') {r : IteratorRef}
    (hr : ¬ Z.sealed (.iterator r)) (hheld : 1 ≤ F (.iterator r) + Z.left (.iterator r)) :
    Z.Covered w (holds (Value.iterator r)) := by
  have howned := h.accounted.owned (.iterator r) hr
  rw [holds_iterator]
  intro o ho
  by_cases heq : Object.iterator r = o
  · exact heq ▸ ⟨hr, by omega⟩
  · rw [Bag.of_singleton_ne heq] at ho
    omega

theorem Zone.Linked.reaches (hZ : Z.Valid) (h : Z.Linked F w w') {v : Value} (hv : holds v ≤ F) :
    Z.Reaches F v := by
  cases v with
  | generator g => exact generator_held hZ h hv
  | iterator r =>
      have hone := Bag.apply_le hv (.iterator r)
      rw [holds_iterator, Bag.of_singleton_self] at hone
      exact ⟨h.not_sealed hone, by omega⟩
  | _ => trivial

section Protocol

variable (hs : Serves C e e') (hZ : Z.Fit C)

include hs hZ

/-- Stepping an iterator that the caller holds. -/
theorem nextItem_ends {v : Value} (hv : holds v ≤ F) (h : Z.Linked F w w') :
    Ends Z.bond F holds (e.nextItem v w) (e'.nextItem v w') := by
  cases v with
  | generator g => exact nextOrEnd_ends hs hZ (generator_held hZ.valid h hv) h
  | iterator r =>
      have hr := h.covered hv
      exact withIterator_ends hZ.valid hr.iterator_not_sealed
        (fun hvacant => (busy_of_vacant hZ.valid h hr hvacant).breaks) Zone.breaks_of_not_tame
        (fun _ _ hi => iteratorNext_leaves hi) h le_rfl
        fun i hi ht => iteratorNext_ends hs (hZ.use r) (fun hlaw => (h.tame hlaw).iterators r i hi) ht
  | _ => exact notAnIterator_ends hZ.valid (h.covered hv) h

/-- Sending a value to an iterator that the caller holds.  On tame worlds the caller holds the value
as well. -/
theorem sendToIterator_ends {r : IteratorRef} {v : Value} (hr : holds (Value.iterator r) ≤ F)
    (hv : Z.law.tame → holds v ≤ F + Z.left) (h : Z.Linked (holds v + F) w w') :
    Ends Z.bond F holds (e.sendToIterator r v w) (e'.sendToIterator r v w') := by
  have hread := (readIterator_ends hZ.valid (h.covered (le_trans hr le_add_self)) h).onInterruption
    (c := e.release v) (d := e'.release v) fun G t t' _ ht => release_ends hs hZ ht
  refine hread.bind le_rfl fun _ t t' ht => ?_
  have hsent : Z.Linked (holds v + F) t t' := ht.le (by rw [zero_add])
  have hcovered := hsent.covered (le_trans hr le_add_self)
  exact withIterator_ends hZ.valid hcovered.iterator_not_sealed
    (fun hvacant => (busy_of_vacant hZ.valid hsent hcovered hvacant).breaks) Zone.breaks_of_not_tame
    (fun _ _ hi => iteratorSend_leaves hi) hsent le_add_self
    fun i hi hu => iteratorSend_ends hs (hZ.use r) (fun hlaw => (hsent.tame hlaw).iterators r i hi) hv hu

theorem takeStopValue_ends {x : Exception} (h : Z.Linked (holds x + F) w w') :
    Ends Z.bond F holds (e.takeStopValue x w) (e'.takeStopValue x w') := by
  refine (share_ends hZ.valid (h.covered (le_trans (holds_stopValue_le x) le_self_add)) h).bind
    le_add_self fun _ t t' ht => ?_
  refine (releaseException_ends hs hZ (ht.le (add_left_comm _ _ _).le)).bind
    (F := F) le_add_self fun _ u u' hu => .ok (hu.le ?_)
  rw [holds_unit, zero_add]

/-- What a delegation makes of what its target gave. -/
theorem delegated_ends {m m' : Run World (Option Value)} (hm : Ends Z.bond F holds (m w) (m' w')) :
    Ends Z.bond F holds
      ((do
        match ← Run.attempt m with
        | .ok (some item) => return .item item
        | .ok none => return .finished .none
        | .error x =>
            if x.kind = .stopIteration then return .finished (← e.takeStopValue x)
            else Run.raise x : Run World Engine.Delegated) w)
      ((do
        match ← Run.attempt m' with
        | .ok (some item) => return .item item
        | .ok none => return .finished .none
        | .error x =>
            if x.kind = .stopIteration then return .finished (← e'.takeStopValue x)
            else Run.raise x : Run World Engine.Delegated) w') := by
  refine hm.attempt.bind le_rfl fun outcome t t' ht => ?_
  rcases outcome with x | _ | item
  · by_cases hx : x.kind = .stopIteration
    · simp only [hx, if_true]
      exact (takeStopValue_ends hs hZ ht).bind le_rfl fun _ u u' hu => .ok hu
    · simp only [hx, if_false]
      exact .raised ht
  · exact .ok (ht.le (by simp))
  · exact .ok ht

theorem sendInto_ends {target v : Value} (htarget : holds target ≤ F)
    (hv : Z.law.tame → holds v ≤ F + Z.left) (h : Z.Linked (holds v + F) w w') :
    Ends Z.bond F holds (e.sendInto target v w) (e'.sendInto target v w') := by
  cases target with
  | generator g =>
      exact delegated_ends hs hZ (Ends.map some (fun _ => rfl)
        (send_ends hs hZ (generator_held hZ.valid (h.le le_add_self) htarget) h))
  | iterator r => exact delegated_ends hs hZ (sendToIterator_ends hs hZ htarget hv h)
  | _ =>
      exact delegated_ends hs hZ (owning_ends hs hZ
        (notAnIterator_ends hZ.valid (h.covered (le_trans htarget le_add_self)) h))

theorem closeIter_ends {v : Value} (hv : Z.Reaches F v) (h : Z.Linked F w w') :
    Ends Z.bond F holds (e.closeIter v w) (e'.closeIter v w') := by
  cases v with
  | generator g => exact close_ends hs hZ hv h
  | iterator r =>
      have hr := h.covered_iterator hv.1 hv.2
      refine withIterator_ends (D := ¬ Z.law.tame) hZ.valid hv.1
        (fun hvacant => (busy_of_vacant hZ.valid h hr hvacant).breaks) Zone.breaks_of_not_tame
        (fun _ i hi => ?_) h le_rfl fun i hi ht => ?_
      · -- the close of an iterator through a list does nothing
        cases i with
        | list source index => exact fun w => hi
        | scripted s => exact hi.elim
      have huse := hZ.use r
      refine (iteratorClose_ends hs huse (fun hlaw => (h.tame hlaw).iterators r i hi) ht).bindOf le_rfl
        fun closed s s' hclosed hss => ?_
      obtain ⟨j, t⟩ := s
      obtain ⟨j', t'⟩ := s'
      obtain ⟨rfl, ht⟩ := hss
      rcases closed with _ | closed | closed
      · exact .ok ⟨rfl, ht.le (by simp)⟩
      · by_cases hx : closed.kind = .attributeError
        · simp only [hx, if_true]
          have hscripted : ¬ Z.law.tame := fun hlaw => by
            cases i with
            | list source index => cases hclosed
            | scripted s => exact ((h.tame hlaw).iterators r _ hi).elim
          have hforgotten := Ends.shared (a := j) (releaseException_ends hs huse
            (ht.le (add_left_comm (holds closed) (holds j) F).le))
          exact (hforgotten.loosenWith fun _ => hscripted).bindWith le_rfl
            fun _ k u u' hu => .ok ⟨rfl, hu.le (by simp)⟩
        · simp only [hx, if_false]
          exact .raised ⟨rfl, ht⟩
      · exact .ok ⟨rfl, ht⟩
  | _ => exact .ok (h.le (by simp))

end Protocol

end Resumable
