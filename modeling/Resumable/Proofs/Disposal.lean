import Resumable.Proofs.Control

set_option autoImplicit false

/-!
# Disposing of objects in linked worlds

A generator that has lost its last owner is out of everybody's reach while it is closed.  The zone
says so by sealing it, and that is enough to run it, since nobody can resume it or let go of it
meanwhile.
-/

namespace Resumable

variable {C : Zone → Prop} {Z : Zone} {F G : Bag} {e e' : Engine} {w w' : World}
  {g : GeneratorRef} {r : FrameRef} {o : Object}

/-! ## Diagnostics -/

/-- Collecting text in both worlds. -/
theorem Zone.Linked.collect (h : Z.Linked F w w') (s : String) :
    Z.Linked F (w.collect s) (w'.collect s) := by
  have hsame := h.alike.surroundings
  simp only [World.surroundings, World.Surroundings.mk.injEq] at hsame
  obtain ⟨_, _, hdiagnostics, hlog, hunwinding⟩ := hsame
  have hcollected := h.journal (w.diagnostics ++ s) w.log w.unwinding
  have hw' : w'.collect s = { w' with
      diagnostics := w.diagnostics ++ s, log := w.log, unwinding := w.unwinding } := by
    rw [World.collect, hdiagnostics, ← hlog, ← hunwinding]
  rw [hw']
  exact hcollected

/-- One write to the stream fails in both worlds or in neither. -/
theorem write_cases (hZ : Z.Valid) (h : Z.Linked F w w') (s : String) :
    (w'.write s).1 = (w.write s).1 ∧ Z.Linked F (w.write s).2 (w'.write s).2 := by
  have hsink : w'.thread.sink = w.thread.sink := by
    rw [h.alike.thread, h.pinned.thread, hZ.sink]
  unfold World.write
  rw [hsink]
  cases w.thread.sink with
  | collecting => exact ⟨rfl, h.collect s⟩
  | broken => exact ⟨rfl, h⟩
  | reentrant => exact ⟨rfl, (h.note _).collect s⟩
  | unflushable => exact ⟨rfl, h.collect s⟩
  | inUse => exact ⟨rfl, h⟩

/-- Ending a line in both worlds. -/
theorem endLine_linked (hZ : Z.Valid) (h : Z.Linked F w w') :
    Z.Linked F
      (match w.write "\n" with
        | (.error x, u) => ((.error x, u) : Except DiagnosticError Unit × World)
        | (.ok (), u) => (u.flush, u)).2
      (match w'.write "\n" with
        | (.error x, u) => ((.error x, u) : Except DiagnosticError Unit × World)
        | (.ok (), u) => (u.flush, u)).2 := by
  obtain ⟨hsame, hwritten⟩ := write_cases hZ h "\n"
  generalize w.write "\n" = x at hsame hwritten ⊢
  generalize w'.write "\n" = x' at hsame hwritten ⊢
  obtain ⟨result, t⟩ := x
  obtain ⟨result', t'⟩ := x'
  obtain rfl : result' = result := hsame
  cases result' <;> exact hwritten

/-- Writing a line in both worlds. -/
theorem writeLine_linked (hZ : Z.Valid) (h : Z.Linked F w w') (line : String) :
    Z.Linked F (w.writeLine line).2 (w'.writeLine line).2 := by
  unfold World.writeLine
  by_cases hempty : line.isEmpty = true
  · simp only [hempty, if_true]
    exact endLine_linked hZ h
  · simp only [hempty]
    obtain ⟨hsame, hwritten⟩ := write_cases hZ h line
    generalize w.write line = x at hsame hwritten ⊢
    generalize w'.write line = x' at hsame hwritten ⊢
    obtain ⟨result, t⟩ := x
    obtain ⟨result', t'⟩ := x'
    obtain rfl : result' = result := hsame
    cases result' with
    | error x => exact hwritten
    | ok _ => exact endLine_linked hZ hwritten

/-- A generator in reach is called the same in both worlds. -/
theorem repr_generator_eq (hg : ¬ Z.hidden (.generator g)) (h : Z.Linked F w w') :
    w'.repr (.generator g) = w.repr (.generator g) := by
  unfold World.repr World.form
  simp only [World.formAt, World.formWith, h.alike.generator g hg, code_eq h]

section Disposal

variable (hs : Serves C e e')

include hs

theorem describe_quiet (hZ : Z.Fit C) {x : Exception} (hg : ¬ Z.hidden (.generator g))
    (h : Z.Linked (holds x + F) w w') :
    Ends Z.quiet F (fun _ => holds x) (e.describe x g w) (e'.describe x g w') := by
  have hforms : w'.forms x.args = w.forms x.args :=
    forms_eq hZ.valid h (h.unsealed (B := holds x.args) le_self_add)
  show Ends Z.quiet F (fun _ => holds x)
    ((if (w.forms x.args).any Form.isInUse = true then _ else pure ("Exception " ++ x.kind.name ++
      ": " ++ (Form.message? (w.forms x.args)).getD "" ++ " in " ++ w.repr (.generator g)) :
        Run World String) w)
    ((if (w'.forms x.args).any Form.isInUse = true then _ else pure ("Exception " ++ x.kind.name ++
      ": " ++ (Form.message? (w'.forms x.args)).getD "" ++ " in " ++ w'.repr (.generator g)) :
        Run World String) w')
  rw [hforms, repr_generator_eq hg h]
  split
  · next huse =>
      have hbusy := busy_of_forms hZ.valid h (h.covered (B := holds x.args) le_self_add) huse
      exact Ends.ensuring (C := holds x) (abort_ends hbusy h) fun K t t' _ ht =>
        releaseException_quiet hs hZ ht
  · exact .ok h

theorem report_quiet (hZ : Z.Fit C) {x : Exception} (hg : ¬ Z.hidden (.generator g))
    (h : Z.Linked (holds x + F) w w') :
    Ends Z.quiet F holds (e.report x g w) (e'.report x g w') := by
  refine (describe_quiet hs hZ hg h).bind le_rfl fun line t t' ht => ?_
  show Ends Z.quiet F holds (e.releaseException x (t.writeLine line).2)
    (e'.releaseException x (t'.writeLine line).2)
  exact releaseException_quiet hs hZ (writeLine_linked hZ.valid ht line)

/-- Closing a generator that is about to go away. -/
theorem finalize_quiet (hZ : Z.Fit C) (hheld : Z.Held F g) (hfree : Z.fixed g = none)
    (h : Z.Linked F w w') :
    Ends Z.quiet F holds (e.finalize g w) (e'.finalize g w') := by
  simp only [Engine.finalize, Run.bind_apply, Run.get_apply, h.alike.generator g hheld.1]
  cases hslot : (w.generator g).frame with
  | none => exact .ok (h.le (by rw [holds_unit, zero_add]))
  | some r =>
      have hshared := shareFrame_linked hZ.valid hheld.1 hslot h
      have hvisible : ¬ Z.hidden (.frame r) := fun hh =>
        h.frame_not_sealed hheld.1 hslot (hZ.valid.sealed_of_hidden _ hh)
      have hidle : ((w.retain (.frame r)).generator g).running = false := hshared.idle hfree
      have hslot' : ((w.retain (.frame r)).generator g).frame = some r := by
        rw [World.retain, generator_addOwners, hslot]
      have hneeds : Engine.needsClosing (w'.retain (.frame r)) r
          = Engine.needsClosing (w.retain (.frame r)) r := by
        have hunwinding := congrArg World.Surroundings.unwinding hshared.alike.surroundings
        unfold Engine.needsClosing
        rw [hshared.alike.frame r hvisible]
        exact congrArg (fun b => !b && _) hunwinding
      have hframe : 1 ≤ (holds (Value.frame r) + F) (.frame r) + Z.left (.frame r) := by
        rw [Pi.add_apply, holds_frameRef, Bag.of_singleton_self]
        omega
      refine owning_quiet hs hZ ?_
      show Ends Z.quiet (holds (Value.frame r) + F) holds
        ((if Engine.needsClosing (w.retain (.frame r)) r = true then _ else _ : Run World Unit)
          (w.retain (.frame r)))
        ((if Engine.needsClosing (w'.retain (.frame r)) r = true then _ else _ : Run World Unit)
          (w'.retain (.frame r)))
      rw [hneeds]
      split
      · have hclosed : Ends Z.quiet (holds (Value.frame r) + F) holds
            (Run.contain (e.closeWith g r) (w.retain (.frame r)))
            (Run.contain (e'.closeWith g r) (w'.retain (.frame r))) :=
          (closeWith_ends hs hZ (hheld.le le_add_self) (Or.inl hfree) hidle hslot' hframe hshared).contain
        refine hclosed.bind le_rfl fun ending t t' ht => ?_
        cases ending with
        | result v => exact release_quiet hs hZ ht
        | raised x => exact report_quiet hs hZ hheld.1 ht
        | aborted => exact .ok ((Zone.Linked.setUnwinding ht false).le (by simp))
      · exact .ok (hshared.le (by rw [holds_unit, zero_add]))

omit hs in
/-- The frame of a generator that does not change has an owner. -/
theorem cell_of_unowned (hZ : Z.Valid) (h : Z.Linked F w w') (hr : ¬ Z.sealed (.frame r))
    (howners : w.owners (.frame r) = 0) : ∀ c, Z.cells r = some c → c = none := by
  intro c hc
  cases c with
  | none => rfl
  | some f =>
      rcases hZ.cell r f hc with hh | ⟨i, x, hi, hfixed, _, hframe⟩
      · exact absurd (hZ.sealed_of_hidden _ hh) hr
      · have hx := h.pinned.fixed i x hfixed
        have hle := Bag.apply_le (World.holds_generator_le (w := w) hi) (.frame r)
        have hone : 1 ≤ holds (w.generator i) (.frame r) := by
          rw [holds_generatorObject, hx, hframe]
          simp [Bag.of_singleton_self]
        have := h.accounted.owned _ hr
        omega

omit hs in
/-- A generator without owners may change. -/
theorem free_of_unowned (hZ : Z.Valid) (h : Z.Linked F w w') (hg : ¬ Z.sealed (.generator g))
    (howners : w.owners (.generator g) = 0) : Z.fixed g = none := by
  have := h.accounted.owned _ hg
  cases hfixed : Z.fixed g with
  | none => rfl
  | some x =>
      rcases hZ.kept g x hfixed with hs | hone
      · exact absurd hs hg
      · omega

theorem reclaimGenerator_quiet (hZ : Z.Fit C) (hg : ¬ Z.sealed (.generator g))
    (howners : w.owners (.generator g) = 0) (h : Z.Linked F w w') :
    Ends Z.quiet F holds (e.reclaim (.generator g) w) (e'.reclaim (.generator g) w') := by
  have hleft : Z.left (.generator g) = 0 := by
    have := h.accounted.owned _ hg
    omega
  have hhidden : ¬ Z.hidden (.generator g) := fun hh => hg (hZ.valid.sealed_of_hidden _ hh)
  have hfree := free_of_unowned hZ.valid h hg howners
  have hfit := hZ.orphan (.generator g)
  have hheld : (Z.orphan (.generator g)).Held F g := ⟨hhidden, Or.inl (Or.inl rfl)⟩
  have hend : Ends (Z.orphan (.generator g)).quiet F holds (e.reclaim (.generator g) w)
      (e'.reclaim (.generator g) w') := by
    refine Ends.ensuring (C := 0) ?_ fun K t t' _ ht => ?_
    · rw [zero_add]
      exact finalize_quiet hs hfit hheld hfree (h.orphan hg howners)
    · have ht : (Z.orphan (.generator g)).Linked K t t' := ht.le (zero_add K).ge
      let left : List Value := ((t.generator g).frame.map .frame).toList ++ [(t.generator g).closure]
      have hleft : holds left = holds (t.generator g) := by
        rw [holds_generatorObject, holds_values_append, holds_values_cons, holds_values_nil,
          add_zero]
        congr 1
        cases (t.generator g).frame <;> rfl
      have hempty : holds ({ t.generator g with frame := none, closure := .none } : Generator) = 0 :=
        rfl
      have hset := ht.setGenerator hhidden hfree (G := holds left + K)
        (x := { t.generator g with frame := none, closure := .none }) rfl rfl
        (by rw [hleft, hempty, add_zero, add_comm])
      show Ends (Z.orphan (.generator g)).quiet K holds
        (e.releaseAll left
          (t.setGenerator g { t.generator g with frame := none, closure := .none }))
        (e'.releaseAll
          (((t'.generator g).frame.map .frame).toList ++ [(t'.generator g).closure])
          (t'.setGenerator g { t'.generator g with frame := none, closure := .none }))
      rw [ht.alike.generator g hhidden]
      exact releaseAll_quiet hs hfit hset
  exact hend.imp (fun _ h => h) id fun K t t' ht => ht.unorphan hleft

/-- Disposing of an object that has lost its last owner. -/
theorem reclaim_quiet (hZ : Z.Fit C) (ho : ¬ Z.sealed o) (howners : w.owners o = 0)
    (h : Z.Linked F w w') :
    Ends Z.quiet F holds (e.reclaim o w) (e'.reclaim o w') := by
  have hhidden : ¬ Z.hidden o := fun hh => ho (hZ.valid.sealed_of_hidden _ hh)
  cases o with
  | list r =>
      show Ends Z.quiet F holds (e.releaseAll (w.items r) (w.setItems r []))
        (e'.releaseAll (w'.items r) (w'.setItems r []))
      rw [h.alike.items r hhidden]
      refine releaseAll_quiet hs hZ (h.setItems hhidden ?_)
      rw [holds_values_nil, add_zero, add_comm]
  | iterator r =>
      have hset := h.setIterator hhidden (x := none) (G := holds (w.iterator? r) + F)
        (fun _ hone => by omega) (fun _ => nofun) (by rw [holds_none, add_zero, add_comm])
      simp only [Engine.reclaim, Run.bind_apply, Run.get_apply, Run.modify_apply,
        h.alike.iterator r hhidden]
      rcases hi : w.iterator? r with _ | ⟨source, index⟩ | s
      · exact .ok (hset.le (by simp))
      · rw [hi] at hset
        exact release_quiet hs hZ hset
      · exact .ok (hset.le (by simp))
  | frame r =>
      have hset := h.setCell hhidden (x := none) (G := holds (w.frame? r) + F)
        (cell_of_unowned hZ.valid h ho howners) (fun _ hone => by omega) (fun _ => nofun)
        (by rw [holds_none, add_zero, add_comm])
      show Ends Z.quiet F holds
        (e.releaseAll (((w.frame? r).map Frame.owned).getD []) (w.setFrame r none))
        (e'.releaseAll (((w'.frame? r).map Frame.owned).getD []) (w'.setFrame r none))
      rw [h.alike.frame r hhidden]
      refine releaseAll_quiet hs hZ (hset.le (le_of_eq ?_))
      cases w.frame? r <;> rfl
  | generator g => exact reclaimGenerator_quiet hs hZ ho howners h

/-- Answering a request that is not barred. -/
theorem answer_ends (hZ : Z.Fit C) (request : Request)
    (hadmitted : ¬ Z.law.bars request w)
    (hgranted : request.Granted Z F w) (h : Z.Linked (holds request + F) w w') :
    Ends (Z.bondIf (request.Breaks Z)) F holds (request.answer e w) (request.answer e' w') := by
  have hadmits : ∀ {g}, request.addressee = some g → Z.Admits g := fun haddressed =>
    Or.inr fun hbarred => hadmitted (hbarred _ w haddressed)
  cases request with
  | resume g input =>
      refine answerResume_ends hs hZ (hadmits rfl) (fun hguarded => ?_) hgranted h
      have hlevel := mt (hguarded (.resume g input) w) hadmitted
      simpa [Request.needsLevel] using hlevel
  | throw g thrown => exact answerThrow_ends hs hZ hgranted (hadmits rfl) h
  | close g => exact answerClose_ends hs hZ hgranted (hadmits rfl) (h.le (by simp))
  | reclaim o =>
      refine (reclaim_quiet hs hZ hgranted.1 hgranted.2 (h.le (by simp))).seq le_rfl
        fun t t' ht => .ok (ht.le (by rw [holds_value_none, zero_add]))

end Disposal

end Resumable
