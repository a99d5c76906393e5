import Resumable.Proofs.Rest

set_option autoImplicit false

/-!
# Commands in sound worlds

A command that is carried out in a sound world leaves a sound world, whatever it reports, unless the
fuel runs out.  This holds under observation too, and an observer finds its law kept at the end.
-/

namespace Resumable

namespace Session

variable {α : Type} {L : Law} {C : Zone → Prop} {Z : Zone} {F G : Bag} {e e' : Engine}
  {w w' : World} {i : Nat}

/-! ## Drawing -/

section Drawing

variable (hZ : Z.Valid) (h : Z.Linked F w w')

include hZ h

theorem pictures_eq {vs : List Value} (hvs : ∀ o, Z.sealed o → holds vs o = 0) :
    w'.pictures vs = w.pictures vs := by
  unfold World.pictures
  refine List.map_congr_left fun v hv => picture_eq hZ h fun o ho => ?_
  have := hvs o ho
  have := Bag.apply_le (holds_le_of_mem hv) o
  omega

theorem exceptionPicture_eq {x : Exception} (hx : ∀ o, Z.sealed o → holds x o = 0) :
    w'.exceptionPicture x = w.exceptionPicture x := by
  have hforms : w'.forms x.args = w.forms x.args := forms_eq hZ h hx
  have hpictures : w'.pictures x.args = w.pictures x.args := pictures_eq hZ h hx
  unfold World.exceptionPicture World.exceptionText
  rw [hforms, hpictures]

theorem drawException_ends {x : Exception} (hx : holds x ≤ F) :
    Ends Z.bond F (fun _ => 0) (World.drawException x w) (World.drawException x w') := by
  have hforms : w'.forms x.args = w.forms x.args := forms_eq hZ h (h.unsealed hx)
  show Ends Z.bond F (fun _ => 0)
    ((if w.isUnspeakable x = true then World.abort else pure (w.exceptionPicture x) :
      Run World ExceptionPicture) w)
    ((if w'.isUnspeakable x = true then World.abort else pure (w'.exceptionPicture x) :
      Run World ExceptionPicture) w')
  have hsame : w'.isUnspeakable x = w.isUnspeakable x := by
    unfold World.isUnspeakable
    rw [hforms]
  rw [hsame, exceptionPicture_eq hZ h (h.unsealed hx)]
  split
  · next huse =>
      have hbusy : Z.Busy := busy_of_forms hZ h (h.covered (B := holds x.args) hx) <| by
        unfold World.isUnspeakable at huse
        simp only [Bool.and_eq_true] at huse
        exact huse.2
      exact abort_ends hbusy.breaks h
  · exact .ok (h.le (zero_add F).le)

theorem drawResult_ends {result : Except Exception Value} (hresult : holds result ≤ F) :
    Ends Z.bond F (fun _ => 0) (World.drawOutcome result w) (World.drawOutcome result w') := by
  cases result with
  | ok v =>
      show Ends Z.bond F (fun _ => 0) (.ok (Outcome.value (w.picture v)) w)
        (.ok (Outcome.value (w'.picture v)) w')
      rw [picture_eq hZ h (h.unsealed hresult)]
      exact .ok (h.le (zero_add F).le)
  | error x => exact (drawException_ends hZ h hresult).bind le_rfl fun _ t t' ht => .ok ht

end Drawing

theorem holds_resultValue (result : Except Exception Value) :
    holds (resultValue result) = holds result := by
  cases result <;> rfl

section Items

variable (hs : Serves C e e') (hZ : Z.Fit C)

include hs hZ

/-- Drawing an outcome and forgetting it. -/
theorem drawOutcome_ends (result : Except Exception Value)
    (h : Z.Linked (holds result + F) w w') :
    Ends Z.bond F (fun _ => 0) (drawOutcome e none result w) (drawOutcome e' none result w') := by
  refine owning_ends hs hZ ?_
  rw [holds_resultValue]
  exact drawResult_ends hZ.valid h le_self_add

theorem drawItem_ends {result : Except Exception (Option Value)}
    (h : Z.Linked (holds result + F) w w') :
    Ends Z.bond F (fun _ => 0) (drawItem e result w) (drawItem e' result w') := by
  have hdrawn : ∀ y : Except Exception Value, holds y = holds result →
      Ends Z.bond F (fun _ => 0) ((some <$> drawOutcome e none y : Run World _) w)
        ((some <$> drawOutcome e' none y : Run World _) w') := by
    intro y hy
    rw [map_eq_pure_bind, map_eq_pure_bind]
    refine (drawOutcome_ends hs hZ y (by rwa [hy])).bind le_rfl
      fun _ t t' ht => .ok ht
  rcases result with x | _ | v
  · exact hdrawn (.error x) rfl
  · exact .ok (h.le (by simp))
  · exact hdrawn (.ok v) rfl

/-- Taking an item from an iterator, drawing and forgetting it. -/
theorem drawItemOf_ends (hscript : ¬ Z.law.tame) {r : IteratorRef} (hr : ¬ Z.sealed (.iterator r))
    {m m' : Run (Iterator × World) (Option Value)} (h : Z.Linked G w w') (hle : F ≤ G)
    (hm : ∀ j t t', (Z.use r).Linked (holds j + G) t t' →
      Ends ((Z.use r).bondWith Iterator) F holds (m (j, t)) (m' (j, t'))) :
    Ends Z.bond F (fun _ => 0) (drawItemOf e r m w) (drawItemOf e' r m' w') := by
  refine withIterator_ends (D := (Z.use r).Breaks) hZ.valid hr
    (fun _ => Zone.breaks_of_not_tame hscript) (fun _ => Zone.breaks_of_not_tame hscript)
    (fun hlaw => absurd hlaw hscript) h hle fun j _ hj => ?_
  refine (hm j _ _ hj).attempt.bindWith le_rfl fun item b t t' ht => ?_
  exact Ends.shared (drawItem_ends hs (hZ.use r) (ht.le (add_left_comm _ _ _).le))

/-- Closing an iterator, drawing and forgetting how that ended. -/
theorem drawClosed_ends (hscript : ¬ Z.law.tame) {r : IteratorRef} (hr : ¬ Z.sealed (.iterator r))
    (h : Z.Linked F w w') :
    Ends Z.bond F (fun _ => 0) (drawClosed e r w) (drawClosed e' r w') := by
  have hbreaks : (Z.use r).Breaks := Zone.breaks_of_not_tame (Z := Z.use r) hscript
  refine withIterator_ends (D := (Z.use r).Breaks) hZ.valid hr
    (fun _ => Zone.breaks_of_not_tame hscript) (fun _ => Zone.breaks_of_not_tame hscript)
    (fun hlaw => absurd hlaw hscript) h le_rfl fun j _ hj => ?_
  have hclosing := iteratorClose_ends hs (hZ.use r) (fun hlaw => absurd hlaw hscript) hj
  refine (hclosing.loosenWith fun _ => hbreaks).bindWith le_rfl fun closed b t t' ht => ?_
  cases closed with
  | none => exact .ok ⟨rfl, ht.le (by simp)⟩
  | some result =>
      have hdrawn := drawOutcome_ends hs (hZ.use r) result (F := holds b + F)
        (ht.le (add_left_comm _ _ _).le)
      refine Ends.shared ?_
      rw [map_eq_pure_bind, map_eq_pure_bind]
      exact hdrawn.bind le_rfl fun _ s s' hss => .ok hss

end Items

/-! ## Operands -/

theorem evaluate_ends (hZ : Z.Valid) {x : Expr} (hx : Z.law.tame → x.isTame = true)
    (h : Z.Linked F w w') :
    Ends Z.bond F holds (evaluate x w) (evaluate x w') := by
  refine Ends.withPrivate (eval_ends hZ readsAlike_noFields x hx (a := ()) (F := F)
    (h.le (by rw [holds_unit, zero_add]))) (fun _ ht => ht) id fun K b t t' _ ht => ?_
  exact ⟨t, t', rfl, rfl, ht.le (by rw [holds_unit, zero_add])⟩

theorem evaluateAll_ends (hZ : Z.Valid) {xs : List Expr} (hxs : Z.law.tame → Expr.areTame xs = true)
    (h : Z.Linked F w w') :
    Ends Z.bond F holds (evaluateAll xs w) (evaluateAll xs w') := by
  refine Ends.withPrivate (evalAll_ends hZ readsAlike_noFields xs hxs (a := ()) (F := F)
    (h.le (by rw [holds_unit, zero_add]))) (fun _ ht => ht) id fun K b t t' _ ht => ?_
  exact ⟨t, t', rfl, rfl, ht.le (by rw [holds_unit, zero_add])⟩

theorem evaluate?_ends (hZ : Z.Valid) {x : Option Expr}
    (hx : Z.law.tame → x.all Expr.isTame = true) (h : Z.Linked F w w') :
    Ends Z.bond F holds (evaluate? x w) (evaluate? x w') := by
  cases x with
  | none => exact .ok (h.le (by rw [holds_none, zero_add]))
  | some x => exact (evaluate_ends hZ hx h).map some fun _ => rfl

/-! ## Driving a generator -/

/-- The attributes of a generator in reach are the same in both worlds, and can be shared. -/
theorem getAttribute_cases (hZ : Z.Valid) {g : GeneratorRef} (hg : ¬ Z.hidden (.generator g))
    (name : String) (h : Z.Linked F w w') :
    w'.getAttribute g name = w.getAttribute g name ∧
      match w.getAttribute g name with
      | .ok v => Z.Covered w (holds v)
      | .error x => holds x = 0 := by
  obtain ⟨hdelegate, hcovered⟩ := delegateOf_eq hZ h hg
  have hname : w'.generatorName g = w.generatorName g := by
    unfold World.generatorName
    rw [h.alike.generator g hg, code_eq h]
  unfold World.getAttribute
  rw [h.alike.generator g hg, hdelegate, hname]
  refine ⟨rfl, ?_⟩
  split_ifs
  · cases hslot : (w.generator g).frame with
    | none => exact .zero
    | some r =>
        have hframe : holds (Value.frame r) ≤ holds (w.generator g) := by
          rw [holds_generatorObject, hslot]
          exact le_self_add
        exact h.covered_of_references (le_trans hframe (World.holds_generator_le hg))
  · exact .zero
  · exact .zero
  · exact hcovered
  · exact .zero
  · rfl

/-- The operands of an operation make no iterators that follow scripts. -/
def Drive.isTame : Drive → Bool
  | .send x => x.isTame
  | .throw type value traceback =>
      type.isTame && value.all Expr.isTame && traceback.all Expr.isTame
  | .next | .close | .getAttribute _ => true

theorem drive_ends (hs : Serves C e e') (hZ : Z.Fit C) {g : GeneratorRef}
    (hheld : Z.Held F g) {operation : Drive} (htame : Z.law.tame → operation.isTame = true)
    (h : Z.Linked F w w') :
    Ends Z.bond F holds (drive e g operation w) (drive e' g operation w') := by
  cases operation with
  | next => exact next_ends hs hZ hheld h
  | close => exact close_ends hs hZ hheld h
  | send x =>
      exact (evaluate_ends hZ.valid htame h).bind le_rfl fun v t t' ht => send_ends hs hZ hheld ht
  | throw type value traceback =>
      have hall : Z.law.tame → (type.isTame = true ∧ value.all Expr.isTame = true) ∧
          traceback.all Expr.isTame = true := fun hlaw => by
        simpa only [Drive.isTame, Bool.and_eq_true] using htame hlaw
      refine (evaluate_ends hZ.valid (fun hlaw => (hall hlaw).1.1) h).bind le_rfl
        fun a t t' ht => ?_
      refine (evaluate?_ends hZ.valid (fun hlaw => (hall hlaw).1.2) ht).bind le_add_self
        fun b t t' ht => ?_
      refine (evaluate?_ends hZ.valid (fun hlaw => (hall hlaw).2) ht).bind
        (le_trans le_add_self le_add_self) fun c t t' ht => ?_
      refine throw_ends hs hZ hheld (ht.le (le_of_eq ?_))
      rw [holds_throw]
      abel
  | getAttribute name =>
      obtain ⟨hsame, hcovered⟩ := getAttribute_cases hZ.valid hheld.1 name h
      show Ends Z.bond F holds
        ((Run.ofExcept (w.getAttribute g name) >>= fun v => World.share v >>= fun _ => pure v) w)
        ((Run.ofExcept (w'.getAttribute g name) >>= fun v => World.share v >>= fun _ => pure v) w')
      rw [hsame]
      generalize w.getAttribute g name = found at hcovered
      cases found with
      | error x => exact .raised (h.le (by rw [hcovered, zero_add]))
      | ok v => exact (share_ends hZ.valid hcovered h).bind le_rfl fun _ t t' ht => .ok ht

/-- Pulling an item. -/
theorem pull_ends (hs : Serves C e e') (hZ : Z.Fit C) {a : Adapter}
    (hheld : Z.Held F a.generator) (h : Z.Linked F w w') :
    Ends Z.bond F (fun x => holds x.1) (a.pull e w) (a.pull e' w') := by
  unfold Adapter.pull
  by_cases hdone : a.done = true
  · simp only [hdone, if_true]
    exact .ok (h.le (by simp))
  · simp only [hdone]
    refine (nextOrEnd_ends hs hZ hheld h).attempt.bind le_rfl fun outcome t t' ht => ?_
    rcases outcome with x | _ | v
    · exact .ok ht
    · exact .ok ht
    · exact .ok ht

theorem pullOutcome_ends (hs : Serves C e e') (hZ : Z.Fit C) {a : Adapter}
    (hheld : Z.Held F a.generator) (h : Z.Linked F w w') :
    Ends Z.bond F (fun _ => 0) (pullOutcome e a w) (pullOutcome e' a w') := by
  refine (pull_ends hs hZ hheld h).bind le_rfl fun x t t' ht => ?_
  obtain ⟨_ | item, b⟩ := x
  · exact .ok ht
  · exact (drawOutcome_ends hs hZ _ ht).bind le_rfl fun _ s s' hss => .ok hss

/-- Pulling goes on with the same generator. -/
theorem pull_generator {a b : Adapter} {x : Option (Except Exception Value)} {t : World}
    (h : a.pull e w = .ok (x, b) t) : b.generator = a.generator := by
  unfold Adapter.pull at h
  split at h
  · cases h
    rfl
  · rw [Run.bind_apply] at h
    split at h
    · next outcome u hu =>
        rcases outcome with y | _ | v <;> cases h <;> rfl
    · cases h

theorem pullOutcome_generator {a b : Adapter} {x : Option Outcome} {t : World}
    (h : pullOutcome e a w = .ok (x, b) t) : b.generator = a.generator := by
  unfold pullOutcome at h
  rw [Run.bind_apply] at h
  split at h
  · next y u hu =>
      obtain ⟨item, c⟩ := y
      have hc := pull_generator hu
      cases item with
      | none =>
          cases h
          exact hc
      | some item =>
          change ((drawOutcome e none item >>= fun o => pure (some o, c)) u) = .ok (x, b) t at h
          rw [Run.bind_apply] at h
          split at h
          · cases h
            exact hc
          · cases h
  · cases h

theorem pullAll_ends (hs : Serves C e e') (hZ : Z.Fit C) (n : Nat) {a : Adapter}
    (hheld : Z.Held F a.generator) (h : Z.Linked F w w') :
    Ends Z.bond F (fun _ => 0) (pullAll e n a w) (pullAll e' n a w') := by
  induction n generalizing a w w' with
  | zero => exact .ok (h.le (zero_add F).le)
  | succ n ih =>
      refine (pullOutcome_ends hs hZ hheld h).bindOf le_rfl fun x t t' hx ht => ?_
      obtain ⟨_ | outcome, b⟩ := x
      · exact .ok ht
      · have hb : b.generator = a.generator := pullOutcome_generator hx
        refine (ih (by rwa [hb]) (ht.le (zero_add F).ge)).bind le_rfl fun _ s s' hss => .ok hss

theorem pullAll_generator {n : Nat} {a b : Adapter} {xs : List Outcome} {t : World}
    (h : pullAll e n a w = .ok (xs, b) t) : b.generator = a.generator := by
  induction n generalizing a w xs with
  | zero =>
      cases h
      rfl
  | succ n ih =>
      unfold pullAll at h
      rw [Run.bind_apply] at h
      split at h
      · next y u hu =>
          obtain ⟨outcome, c⟩ := y
          have hc := pullOutcome_generator hu
          cases outcome with
          | none =>
              cases h
              exact hc
          | some outcome =>
              change ((pullAll e n c >>= fun y => pure (outcome :: y.1, y.2)) u) = .ok (xs, b) t at h
              rw [Run.bind_apply] at h
              split at h
              · next hrest =>
                  cases h
                  exact (ih hrest).trans hc
              · cases h
      · cases h

/-! ## Frames -/

/-- In a plain zone every frame may be worked on by those who hold it. -/
theorem plain_open (L : Law) (w : World) {r : FrameRef} (hheld : 1 ≤ F (.frame r)) :
    (Zone.plain L w).Open F r :=
  { unsealed := fun h => h
    loose := fun _ h => nomatch h
    vacant := fun h => nomatch h
    held := Nat.le_add_right_of_le hheld }

/-- Every generator that is held can be resumed. -/
theorem plain_held {w t : World} {g : GeneratorRef} (hle : holds (Value.generator g) ≤ F)
    (h : (Zone.plain L w).Linked F t w') : (Zone.plain L w).Held F g :=
  generator_held (Zone.plain_valid L w) h hle

section Frames

variable (hs : Serves (Zone.Level L) e e')

include hs

section Edits

variable (hlaw : ¬ L.tame)

include hlaw

theorem exchange_settles {r : FrameRef} {change : Frame → Frame × List Value}
    (hchange : ∀ f, holds (change f).1 + holds (change f).2 ≤ G + holds f)
    (h : w.Rests L i (G + F)) : Settles L i F holds (exchange e r change) w := by
  refine Settles.bind (G := F) (p := holds) ?_ le_rfl fun removed t ht => Settles.releaseAll hs ht
  let m : Run World (List Value) :=
    World.withFrame r fun s => .ok (change s.1).2 ((change s.1).1, s.2)
  have hm : (Zone.plain L w).Linked (G + F) w w →
      Ends (Zone.plain L w).bond F holds (m w) (m w) := by
    intro hw
    refine withFrame_ends (D := True) (fun hh => hh) (fun _ hf => nomatch hf)
      (fun _ => Zone.breaks_of_not_tame hlaw) (fun _ => Zone.breaks_of_not_tame hlaw)
      (fun h => absurd h hlaw) hw le_add_self fun f _ _ hf => ?_
    refine .ok ⟨rfl, hf.le ?_⟩
    rw [← add_assoc, ← add_assoc, add_comm (holds f)]
    exact add_le_add_left (hchange f) F
  exact Settles.of_ends h hm

theorem editFrame_settles {r : FrameRef} (edit : FrameEdit) (hheld : 1 ≤ F (.frame r))
    (h : w.Rests L i F) :
    Settles L i F holds (editFrame e r edit) w := by
  have hkeep : ∀ change : Frame → Frame, (∀ f, holds (change f) = holds f) →
      Settles L i F holds (exchange e r fun f => (change f, [])) w := by
    intro change hsame
    refine exchange_settles hs hlaw (fun f => ?_) (h.le (zero_add F).le)
    rw [hsame, holds_values_nil, add_zero, zero_add]
  cases edit with
  | position n => exact hkeep _ fun _ => rfl
  | finish => exact hkeep _ fun _ => rfl
  | blocks blocks => exact hkeep _ fun _ => rfl
  | locals xs =>
      refine Settles.bind (Settles.of_ends h fun hw => evaluateAll_ends (Zone.plain_valid L w) (fun h => absurd h hlaw) hw) le_rfl
        fun vs t ht => ?_
      exact exchange_settles hs hlaw (fun f => (holds_replaceLocals f vs).le) ht
  | stack xs =>
      refine Settles.bind (Settles.of_ends h fun hw => evaluateAll_ends (Zone.plain_valid L w) (fun h => absurd h hlaw) hw) le_rfl
        fun vs t ht => ?_
      refine exchange_settles hs hlaw (fun f => ?_) ht
      rw [holds_replaceStack, holds_values_reverse]
  | delegate x =>
      refine Settles.bind (Settles.of_ends h fun hw => evaluate_ends (Zone.plain_valid L w) (fun h => absurd h hlaw) hw) le_rfl
        fun v t ht => ?_
      exact exchange_settles hs hlaw (fun f => (holds_replaceDelegate f v).le) ht
  | pending x =>
      refine Settles.bind (G := F) (p := holds) ?_ le_rfl fun y t ht =>
        exchange_settles hs hlaw (fun f => (holds_replacePending f y).le) ht
      refine Settles.bind (Settles.of_ends h fun hw => evaluate_ends (Zone.plain_valid L w) (fun h => absurd h hlaw) hw) le_rfl
        fun v t ht => Settles.owning hs ?_
      exact Settles.of_ends ht fun hw => exceptionOf_ends (Zone.plain_valid L t) le_self_add hw
  | input x =>
      refine Settles.bind (Settles.of_ends h fun hw => evaluate_ends (Zone.plain_valid L w) (fun h => absurd h hlaw) hw) le_rfl
        fun v t ht => Settles.of_ends ht fun hw =>
          put_ends hs ht.fit (plain_open L t hheld) (fun f => (holds_replaceInput f v).le)
            (fun h => absurd h hlaw) hw
  | delegation x =>
      refine Settles.bind (Settles.of_ends h fun hw => evaluate_ends (Zone.plain_valid L w) (fun h => absurd h hlaw) hw) le_rfl
        fun v t ht => Settles.of_ends ht fun hw =>
          finishDelegation_ends hs ht.fit (plain_open L t hheld) (fun h => absurd h hlaw) hw

omit hs in
theorem takeFrom_settles {r : FrameRef} (taking : FrameTaking) (h : w.Rests L i F) :
    Settles L i F holds (takeFrom r taking) w := by
  have hm : (Zone.plain L w).Linked F w w →
      Ends (Zone.plain L w).bond F holds (takeFrom r taking w) (takeFrom r taking w) := by
    intro hw
    refine withFrame_ends (D := True) (fun hh => hh) (fun _ hf => nomatch hf)
      (fun _ => Zone.breaks_of_not_tame hlaw) (fun _ => Zone.breaks_of_not_tame hlaw)
      (fun h => absurd h hlaw) hw le_rfl fun f _ _ hf => ?_
    have hgetD : ∀ x : Option Value, holds (x.getD .none) = holds x := by
      rintro (_ | v) <;> rfl
    cases taking with
    | input =>
        refine .ok ⟨rfl, hf.le fun o => ?_⟩
        simp only [hgetD, holds_frame, holds_none, Pi.add_apply, Pi.zero_apply]
        omega
    | result =>
        refine .ok ⟨rfl, hf.le fun o => ?_⟩
        simp only [hgetD, holds_frame, holds_none, Pi.add_apply, Pi.zero_apply]
        omega
  exact Settles.of_ends h hm

/-- Resuming the code of a frame on its own. -/
theorem runFrame_settles {r : FrameRef} {closure : Value} {pending : Option Exception}
    (h : w.Rests L i (holds pending + (holds closure + F))) :
    Settles L i (holds closure + F) holds (runFrame e r closure pending) w := by
  let Y : Zone := (Zone.plain L w).lend (holds closure)
  have hunsealed : ∀ o, Y.sealed o → holds closure o = 0 := fun _ ho => ho.elim
  have hm : (Zone.plain L w).Linked (holds pending + (holds closure + F)) w w →
      Ends (Zone.plain L w).bond (holds closure + F) holds (runFrame e r closure pending w)
        (runFrame e' r closure pending w) := by
    intro hw
    have hlent : Y.Linked (holds pending + F) w w := (hw.le (add_left_comm _ _ _).le).lend
    refine Ends.unlend (withFrame_ends (D := (Y.pin r none).Breaks) (fun hh => hh)
      (fun _ hf => nomatch hf) (fun _ => Zone.breaks_of_not_tame (Z := Y) hlaw)
      (fun _ => Zone.breaks_of_not_tame (Z := Y) hlaw) (fun h => absurd h hlaw) hlent le_add_self
      fun f hcell _ hf => ?_) hunsealed
    have hclosure : (Y.pin r none).Secures (holds closure) :=
      Zone.secures_of_left (Z := Y.pin r none) le_add_self hunsealed
    exact codeResume_ends hs ((h.fit.lend _).pin_none hcell) (fun h => absurd h hlaw) hclosure
      (fun h => absurd h hlaw) hf
  exact Settles.of_ends h hm

end Edits

/-! ## Operands and variables -/

omit hs in
theorem evaluate_settles {x : Expr} (hx : L.tame → x.isTame = true) (h : w.Rests L i F) :
    Settles L i F holds (evaluate x) w :=
  Settles.of_ends h fun hw => evaluate_ends (Zone.plain_valid L w) hx hw

theorem withOperand_settles {q : α → Bag} {x : Expr} {m : Value → Run World α}
    (hx : L.tame → x.isTame = true) (h : w.Rests L i F)
    (hm : ∀ v t, t.Rests L i (holds v + F) → Settles L i (holds v + F) q (m v) t) :
    Settles L i F q (withOperand e x m) w :=
  (evaluate_settles hx h).bind le_rfl fun v t ht => Settles.owning hs (hm v t ht)

theorem setVariable_settles (name : String) {v : Value} (h : w.Rests L i (holds v + F)) :
    Settles L i F holds (setVariable e name v) w := by
  have hset : ({ w with names := w.names.insert name v } : World).Rests L i
      (holds (w.names.get? name).toList + F) := by
    refine ⟨h.sound.setNames (h.sound.sorted.insert name v) (le_of_eq ?_), h.thread⟩
    rw [holds_toList, add_right_comm, add_comm (holds (w.names.get? name)),
      Names.holds_insert h.sound.sorted]
    abel
  exact Settles.releaseAll hs hset

theorem removeVariable_settles {name : String} (h : w.Rests L i F) :
    Settles L i F holds (removeVariable e name) w := by
  have hset : ({ w with names := w.names.erase name } : World).Rests L i
      (holds (w.names.get? name).toList + F) := by
    refine ⟨h.sound.setNames (h.sound.sorted.erase name) (le_of_eq ?_), h.thread⟩
    rw [holds_toList, add_right_comm, add_comm (holds (w.names.get? name)),
      Names.holds_erase h.sound.sorted, add_comm]
  exact Settles.releaseAll hs hset

theorem keepIn_settles {keep : Option String} {v : Value} (hv : holds v ≤ F)
    (h : w.Rests L i F) :
    Settles L i F holds (keepIn e keep v) w := by
  cases keep with
  | none => exact Settles.pure (h.le (by rw [holds_unit, zero_add]))
  | some name =>
      have hshared : Settles L i F (fun _ => holds v) (World.share v) w :=
        Settles.of_ends h fun hw =>
          share_ends (Zone.plain_valid L w) (hw.covered hv) hw
      exact hshared.bind le_rfl fun _ t ht => setVariable_settles hs name ht

theorem drawOutcome_settles {keep : Option String} (result : Except Exception Value)
    (h : w.Rests L i (holds result + F)) :
    Settles L i F (fun _ => 0) (drawOutcome e keep result) w := by
  rw [← holds_resultValue] at h
  refine Settles.owning hs ?_
  refine (keepIn_settles hs le_self_add h).bind le_rfl fun _ t ht => ?_
  have hheld : holds result ≤ holds (resultValue result) + F := by
    rw [holds_resultValue]
    exact le_self_add
  exact Settles.of_ends (ht.le (by rw [holds_unit, zero_add])) fun hw =>
    drawResult_ends (Zone.plain_valid L t) hw hheld

/-! ## Working on an object -/

omit hs in
/-- A report holds nothing. -/
theorem reported {report : α} (h : w.Rests L i F) :
    Ends (World.rest L i) F (fun _ => 0) (.ok report w) (.ok report w) :=
  .ok ⟨rfl, h.le (zero_add F).le⟩

theorem withGenerator_settles {name : String} {m : GeneratorRef → Run World Report}
    (h : w.Rests L i F)
    (hm : ∀ g t, t.Rests L i (holds (Value.generator g) + F) →
      Settles L i (holds (Value.generator g) + F) (fun _ => 0) (m g) t) :
    Settles L i F (fun _ => 0) (withGenerator e name m) w := by
  refine withOperand_settles hs (fun _ => rfl) h fun v t ht => ?_
  cases v with
  | generator g => exact hm g t ht
  | _ => exact reported ht

omit hs in
/-- A frame that is given by an operand is held, or a generator refers to it. -/
theorem frameOf_covered {t : World} {v : Value} {r : FrameRef} (hr : frameOf t v = some r) (hv : holds v ≤ F)
    (h : (Zone.plain L w).Linked F t w') : (Zone.plain L w).Covered t (holds (Value.frame r)) := by
  cases v with
  | frame s =>
      obtain rfl : s = r := by simpa [frameOf] using hr
      exact h.covered hv
  | generator g =>
      have hframe : holds (Value.frame r) ≤ holds (t.generator g) := by
        rw [holds_generatorObject, show (t.generator g).frame = some r from hr]
        exact le_self_add
      exact h.covered_of_references (le_trans hframe (World.holds_generator_le fun hh => hh))
  | _ => cases hr

theorem withFrameOf_settles {x : Expr} {m : FrameRef → Run World Report}
    (hx : L.tame → x.isTame = true) (h : w.Rests L i F)
    (hm : ∀ r t G, F ≤ G → 1 ≤ G (.frame r) → t.Rests L i G →
      Settles L i G (fun _ => 0) (m r) t) :
    Settles L i F (fun _ => 0) (withFrameOf e x m) w := by
  refine withOperand_settles hs hx h fun v t ht => Settles.get ?_
  cases hr : frameOf t v with
  | none => exact reported ht
  | some r =>
      have hshared : Settles L i (holds v + F) (fun _ => holds (Value.frame r))
          (World.share (.frame r)) t :=
        Settles.of_ends ht fun hw =>
          share_ends (Zone.plain_valid L t) (frameOf_covered hr le_self_add hw) hw
      refine hshared.bind le_rfl fun _ u hu => Settles.owning hs ?_
      refine hm r u _ (le_trans le_add_self le_add_self) ?_ hu
      simp only [holds_frameRef, Pi.add_apply, Bag.of_singleton_self]
      omega

theorem withList_settles {x : Expr} {m : ListRef → Run World Unit} (hx : L.tame → x.isTame = true)
    (h : w.Rests L i F)
    (hm : ∀ r t, t.Rests L i (holds (Value.list r) + F) →
      Settles L i (holds (Value.list r) + F) holds (m r) t) :
    Settles L i F (fun _ => 0) (withList e x m) w := by
  refine withOperand_settles hs hx h fun v t ht => ?_
  cases v with
  | list r =>
      refine (hm r t ht).bind le_rfl fun _ u hu => ?_
      exact reported (hu.le (by rw [holds_unit, zero_add]))
  | _ => exact reported ht

theorem withIteratorOf_settles {x : Expr} {m : IteratorRef → Run World Report} (hx : L.tame → x.isTame = true)
    (h : w.Rests L i F)
    (hm : ∀ r t, t.Rests L i (holds (Value.iterator r) + F) →
      Settles L i (holds (Value.iterator r) + F) (fun _ => 0) (m r) t) :
    Settles L i F (fun _ => 0) (withIteratorOf e x m) w := by
  refine withOperand_settles hs hx h fun v t ht => ?_
  cases v with
  | iterator r => exact hm r t ht
  | _ => exact reported ht

theorem defineCode_settles {name : String} {c : CodeObject} (hc : L.tame → c.Tame)
    (h : w.Rests L i F) :
    Settles L i F (fun _ => 0) (defineCode e name c) w := by
  have hnew : (w.newCode c).2.Rests L i (holds (Value.code (w.newCode c).1) + F) :=
    ⟨(h.sound.newCode hc).le (by rw [holds_code, zero_add]), h.thread⟩
  have hset := setVariable_settles hs name hnew
  exact hset.bind le_rfl fun _ t ht => reported (ht.le (by rw [holds_unit, zero_add]))

omit hs in
theorem withCode_settles {name : String} {m : CodeRef → Run World Report} (h : w.Rests L i F)
    (hm : ∀ r, Settles L i F (fun _ => 0) (m r) w) :
    Settles L i F (fun _ => 0) (withCode name m) w := by
  refine Settles.get ?_
  split
  · exact hm _
  · exact reported h

theorem makeGenerator_settles {name code : String} {args : List Expr} {closure : Expr}
    (hargs : L.tame → Expr.areTame args = true) (hclosure : L.tame → closure.isTame = true)
    (h : w.Rests L i F) :
    Settles L i F (fun _ => 0) (makeGenerator e name code args closure) w := by
  refine withCode_settles h fun r => ?_
  refine Settles.bind (Settles.of_ends h fun hw =>
    evaluateAll_ends (Zone.plain_valid L w) hargs hw) le_rfl fun vs t ht => ?_
  refine (evaluate_settles hclosure ht).bind le_add_self fun v u hu => ?_
  have hnew : (u.newGenerator r vs v).2.Rests L i
      (holds (Value.generator (u.newGenerator r vs v).1) + F) :=
    ⟨World.Sound.newGenerator (hu.sound.le (add_left_comm _ _ _).le), hu.thread⟩
  have hset := setVariable_settles hs name hnew
  exact hset.bind le_rfl fun _ s hss => reported (hss.le (by rw [holds_unit, zero_add]))

theorem makeFrame_settles {name code : String} {args : List Expr}
    (hargs : L.tame → Expr.areTame args = true) (h : w.Rests L i F) :
    Settles L i F (fun _ => 0) (makeFrame e name code args) w := by
  refine withCode_settles h fun r => ?_
  refine Settles.bind (Settles.of_ends h fun hw =>
    evaluateAll_ends (Zone.plain_valid L w) hargs hw) le_rfl fun vs t ht => ?_
  have hnew : (t.newFrame (.new r vs)).2.Rests L i
      (holds (Value.frame (t.newFrame (.new r vs)).1) + F) :=
    ⟨World.Sound.newFrame (ht.sound.le (by rw [World.holds_newFrame])) fun _ => Frame.tame_new r vs,
      ht.thread⟩
  have hset := setVariable_settles hs name hnew
  exact hset.bind le_rfl fun _ s hss => reported (hss.le (by rw [holds_unit, zero_add]))

end Frames

end Session

end Resumable
