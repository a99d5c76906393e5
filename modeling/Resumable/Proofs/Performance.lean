import Resumable.Proofs.Interpreter

set_option autoImplicit false

/-!
# Performing scripted bodies in linked worlds

One resume of a frame by a scripted body, action by action.  With this the body of every generator
is known to come to the same end in linked worlds (`codeResume_ends`).
-/

namespace Resumable

variable {C : Zone → Prop} {Z : Zone} {F G : Bag} {e e' : Engine} {w w' : World} {a : Performance}

namespace Performance

/-! ## Steps on the frame -/

/-- Reading the frame. -/
theorem frameOf_ends {α : Type} {q : α → Bag} {f f' : Frame → Step α}
    (h : Ends (Z.bondWith Performance) F q (f a.frame (a, w)) (f' a.frame (a, w'))) :
    Ends (Z.bondWith Performance) F q ((frameOf >>= f) (a, w)) ((frameOf >>= f') (a, w')) := h

/-- Going on with the frame changed. -/
theorem changed_ends {α : Type} {q : α → Bag} {d : Frame → Frame} {f f' : Unit → Step α}
    (h : Ends (Z.bondWith Performance) F q (f () ({ a with frame := d a.frame }, w))
      (f' () ({ a with frame := d a.frame }, w'))) :
    Ends (Z.bondWith Performance) F q ((modifyFrame d >>= f) (a, w))
      ((modifyFrame d >>= f') (a, w')) := h

theorem modifyFrame_ends {d : Frame → Frame}
    (hle : holds (d a.frame) + F ≤ holds a.frame + G) (h : Z.Linked (holds a + G) w w') :
    Ends (Z.bondWith Performance) F holds (modifyFrame d (a, w)) (modifyFrame d (a, w')) := by
  refine .ok ⟨rfl, h.le fun o => ?_⟩
  have := Bag.apply_le hle o
  simp only [holds_performance, holds_unit, Pi.add_apply, Pi.zero_apply] at this ⊢
  omega

/-- A change that does not touch what the frame holds. -/
theorem edit_ends {d : Frame → Frame} (hsame : holds (d a.frame) = holds a.frame)
    (h : Z.Linked (holds a + F) w w') :
    Ends (Z.bondWith Performance) F holds (modifyFrame d (a, w)) (modifyFrame d (a, w')) :=
  modifyFrame_ends (hsame ▸ le_rfl) h

/-- Doing no more. -/
theorem pure_ends {α : Type} {q : α → Bag} {x : α} (h : Z.Linked (holds a + (q x + F)) w w') :
    Ends (Z.bondWith Performance) F q ((pure x : Step α) (a, w)) ((pure x : Step α) (a, w')) :=
  .ok ⟨rfl, h⟩

/-- Taking an optional value out of the frame. -/
theorem holds_getD (x : Option Value) : holds (x.getD .none) = holds x := by
  cases x <;> rfl

section Steps

variable (hs : Serves C e e') (hZ : Z.Fit C)

include hs hZ

theorem releaseAll_ends {v : List Value} (h : Z.Linked (holds a + (holds v + F)) w w') :
    Ends (Z.bondWith Performance) F holds (Run.shared (e.releaseAll v) (a, w))
      (Run.shared (e'.releaseAll v) (a, w')) :=
  Ends.shared (Resumable.releaseAll_ends hs hZ (h.le (add_left_comm _ _ _).le))

/-- A clean-up that forgets values, at the end of a step that may have changed the frame. -/
theorem forget_ends {vs : List Value} {s s' : Performance × World}
    (h : (Z.bondWith Performance).rel (holds vs + F) s s') :
    Ends (Z.bondWith Performance) F holds (Run.shared (e.releaseAll vs) s)
      (Run.shared (e'.releaseAll vs) s') := by
  obtain ⟨b, t⟩ := s
  obtain ⟨b', t'⟩ := s'
  obtain ⟨rfl, ht⟩ := h
  exact releaseAll_ends hs hZ ht

theorem owning_ends {α : Type} {q : α → Bag} {v : List Value} {m m' : Step α}
    {s s' : Performance × World}
    (hm : Ends (Z.bondWith Performance) (holds v + F) q (m s) (m' s')) :
    Ends (Z.bondWith Performance) F q (owning e v m s) (owning e' v m' s') :=
  hm.ensuring fun _ _ _ _ hss => forget_ends hs hZ hss

theorem replace_ends {d : Frame → Frame × List Value}
    (hd : holds (d a.frame).1 + holds (d a.frame).2 ≤ G + holds a.frame)
    (h : Z.Linked (holds a + (G + F)) w w') :
    Ends (Z.bondWith Performance) F holds (replace e d (a, w))
      (replace e' d (a, w')) := by
  unfold replace
  refine frameOf_ends ?_
  refine (modifyFrame_ends (F := holds (d a.frame).2 + F) (fun o => ?_) h).seqWith
    le_add_self fun b t t' ht => releaseAll_ends hs hZ ht
  have := Bag.apply_le hd o
  simp only [Pi.add_apply] at this ⊢
  omega

/-- The held values stay with the caller if the frame could step on. -/
theorem stepOn_ends (hscript : ¬ Z.law.tame) {v : List Value}
    (h : Z.Linked (holds a + (holds v + F)) w w') :
    Ends (Z.bondWith Performance) F (fun _ => holds v) (stepOn e v (a, w))
      (stepOn e' v (a, w')) := by
  unfold stepOn
  refine frameOf_ends ?_
  by_cases hnext : a.frame.hasNext = true
  · simp only [hnext, if_true]
    exact .ok ⟨rfl, h.le (by simp [holds_performance])⟩
  · simp only [hnext]
    have haborted : Ends (Z.bondWith Performance) (holds v + F) (fun _ : Unit => 0)
        (Run.shared World.abort (a, w)) (Run.shared World.abort (a, w')) :=
      Ends.shared (abort_ends (Zone.breaks_of_not_tame hscript) h)
    refine (haborted.onInterruption (c := Run.shared (e.releaseAll v))
      (d := Run.shared (e'.releaseAll v)) fun _ _ _ _ hss => forget_ends hs hZ hss).mono
      le_rfl fun _ => ?_
    rw [zero_add]

/-! ## What an expression reads from the run -/

omit hs hZ in
theorem field_ends (hZ : Z.Valid) {closure : Value}
    (hclosure : Z.Secures (holds closure)) : ReadsAlike Z (field closure) := by
  intro f F a w w' h
  cases f with
  | input =>
      refine frameOf_ends ((modifyFrame_ends (G := F) (F := holds a.frame.input + F)
        (fun o => ?_) h).seqWith le_add_self fun b t t' ht => pure_ends (ht.le ?_))
      · simp only [holds_frame, holds_none, Pi.add_apply, Pi.zero_apply]
        omega
      · rw [holds_getD]
  | result =>
      refine frameOf_ends ((modifyFrame_ends (G := F) (F := holds a.frame.delegationResult + F)
        (fun o => ?_) h).seqWith le_add_self fun b t t' ht => pure_ends (ht.le ?_))
      · simp only [holds_frame, holds_none, Pi.add_apply, Pi.zero_apply]
        omega
      · rw [holds_getD]
  | closure =>
      exact (Ends.shared (share_ends hZ (hclosure h) h)).bindWith le_rfl
        fun _ b t t' ht => pure_ends ht
  | callResults =>
      have hresults : Z.Covered w (holds a.results) := h.covered (by
        rw [holds_performance]
        exact le_trans le_add_self le_self_add)
      have hshared := Ends.shared (a := a) (shareAll_ends (A := Z.Breaks) hZ hresults h)
      show Ends (Z.bondWith Performance) F holds
        ((Run.shared (World.shareAll a.results) >>= fun _ =>
          Run.shared (World.makeList a.results)) (a, w))
        ((Run.shared (World.shareAll a.results) >>= fun _ =>
          Run.shared (World.makeList a.results)) (a, w'))
      refine hshared.bindWith le_rfl fun _ b t t' ht => ?_
      exact Ends.shared (makeList_ends hZ (ht.le (add_left_comm _ _ _).le))
  | position => exact .ok ⟨rfl, h.le (by simp)⟩
  | localVariable index =>
      have hle : holds (a.frame.locals[index]?.getD .none) ≤ holds a + F := by
        intro o
        cases hv : a.frame.locals[index]? with
        | none => exact Nat.zero_le _
        | some v =>
            have := Bag.apply_le (holds_le_of_getElem? hv) o
            simp only [Option.getD_some, holds_performance, holds_frame, Pi.add_apply]
            omega
      refine frameOf_ends ?_
      exact (Ends.shared (share_ends hZ (h.covered hle) h)).bindWith le_rfl
        fun _ b t t' ht => pure_ends ht

/-! ## Delegation -/

omit hs in
/-- The frame and the caller each own the iterator to delegate to. -/
theorem delegateOf_ends (h : Z.Linked (holds a + F) w w') :
    Ends (Z.bondWith Performance) F holds (delegateOf (a, w)) (delegateOf (a, w')) := by
  unfold delegateOf
  refine frameOf_ends ?_
  cases hd : a.frame.delegate with
  | some inner =>
      have hle : holds inner ≤ holds a + F := by
        intro o
        simp only [holds_performance, holds_frame, hd, holds_some, Pi.add_apply]
        omega
      exact (Ends.shared (share_ends hZ.valid (h.covered hle) h)).bindWith le_rfl
        fun _ b t t' ht => pure_ends ht
  | none =>
      have hle : holds (a.frame.locals.head?.getD .none) ≤ holds a + F := by
        intro o
        have := Bag.apply_le (holds_head_le a.frame.locals) o
        have := congrFun (holds_take_le a.frame.locals 1) o
        simp only [holds_performance, holds_frame, Pi.add_apply] at this ⊢
        omega
      refine (Ends.shared (getIter_ends hZ.valid (h.covered hle) h)).bindWith le_rfl
        fun inner b t t' ht => ?_
      refine changed_ends ?_
      have hset : Z.Linked
          (holds { b with frame := { b.frame with delegate := some inner } } + F) t t' :=
        ht.le fun o => by
          simp only [holds_performance, holds_frame, holds_some, Pi.add_apply]
          omega
      have hinner := ht.covered (le_trans le_self_add le_add_self : holds inner ≤ _)
      exact (Ends.shared (share_ends hZ.valid hinner hset)).bindWith le_rfl
        fun _ b t t' ht => pure_ends ht

theorem sendTo_ends (hscript : ¬ Z.law.tame) {inner v : Value} (hinner : holds inner ≤ F)
    (h : Z.Linked (holds v + F) w w') :
    Ends Z.bond F holds (sendTo e inner v w) (sendTo e' inner v w') := by
  cases inner with
  | generator g =>
      exact (send_ends hs hZ (generator_held hZ.valid (h.le le_add_self) hinner) h).map some
        fun _ => rfl
  | iterator r => exact sendToIterator_ends hs hZ hinner (fun hlaw => absurd hlaw hscript) h
  | _ => exact raise_owning_ends hs hZ rfl h

theorem delegate_ends (hscript : ¬ Z.law.tame) (h : Z.Linked (holds a + F) w w') :
    Ends (Z.bondWith Performance) F holds (delegate e (a, w)) (delegate e' (a, w')) := by
  unfold delegate
  refine (delegateOf_ends hZ h).bindWith le_rfl fun inner b t t' ht => ?_
  have hone : holds [inner] = holds inner := by simp
  refine owning_ends hs hZ (frameOf_ends ?_)
  refine (modifyFrame_ends (a := b) (G := holds [inner] + F)
    (F := holds (b.frame.input.getD .none) + (holds [inner] + F)) (fun o => ?_)
    (ht.le (by rw [hone]))).seqWith le_add_self fun c u u' hu => ?_
  · rw [holds_getD]
    simp only [holds_frame, holds_none, Pi.add_apply, Pi.zero_apply]
    omega
  have hsent := (Ends.shared (a := c) (F := holds [inner] + F) (sendTo_ends hs hZ hscript
    (v := b.frame.input.getD .none)
    (show holds inner ≤ _ by rw [hone]; exact le_trans le_self_add le_add_self)
    (hu.le (add_left_comm _ _ _).le))).attempt
  refine hsent.bindWith le_rfl fun outcome d v v' hv => ?_
  rcases outcome with x | _ | item
  · by_cases hx : x.kind = .stopIteration
    · simp only [hx, if_true]
      have hstop := Ends.shared (a := d) (F := holds [inner] + F)
        (takeStopValue_ends hs hZ (x := x) (hv.le (add_left_comm _ _ _).le))
      exact hstop.bindWith le_rfl fun result b t t' ht => pure_ends ht
    · simp only [hx, if_false]
      have hremoved := replace_ends hs hZ (G := 0) (d := Frame.removeDelegate) (a := d)
        (F := holds x + (holds [inner] + F)) (by rw [holds_removeDelegate, zero_add])
        (by rw [zero_add]; exact hv)
      refine hremoved.seqWith le_add_self fun b t t' ht => ?_
      exact (edit_ends rfl ht).seqWith le_add_self fun c u u' hu => .raised ⟨rfl, hu⟩
  · exact pure_ends (hv.le (by simp))
  · exact pure_ends hv

/-! ## Actions -/

omit hs hZ in
/-- An action that does not end the run. -/
theorem goesOn {m m' : Step Unit} {s s' : Performance × World}
    (hm : Ends (Z.bondWith Performance) F holds (m s) (m' s')) :
    Ends (Z.bondWith Performance) F holds ((do m; return (none : Option Suspension)) s)
      ((do m'; return (none : Option Suspension)) s') :=
  hm.seqWith le_rfl fun b t t' ht => pure_ends (ht.le (by rw [holds_none, zero_add]))

omit hs hZ in
/-- Ending the run with a value. -/
theorem finishWith_ends {ending : Value → Suspension} {v : Value}
    (hending : holds (ending v) = holds v) (h : Z.Linked (holds a + (holds v + F)) w w') :
    Ends (Z.bondWith Performance) F holds (finishWith ending v (a, w))
      (finishWith ending v (a, w')) := by
  unfold finishWith
  refine (edit_ends rfl h).seqWith le_add_self fun b t t' ht => pure_ends (ht.le ?_)
  rw [holds_some, hending]

theorem raiseValue_ends {α : Type} {q : α → Bag} {v : Value}
    (h : Z.Linked (holds a + (holds v + F)) w w') :
    Ends (Z.bondWith Performance) F q (Run.shared (e.raiseValue v) (a, w))
      (Run.shared (e'.raiseValue v) (a, w')) :=
  Ends.shared (Resumable.raiseValue_ends hs hZ (h.le (add_left_comm _ _ _).le))

/-- One action. -/
theorem act_ends (hscript : ¬ Z.law.tame) {closure : Value} (hclosure : Z.Secures (holds closure))
    (action : Action) (h : Z.Linked (holds a + F) w w') :
    Ends (Z.bondWith Performance) F holds (act e closure action (a, w))
      (act e' closure action (a, w')) := by
  have heval : ∀ x : Expr, Ends (Z.bondWith Performance) F holds
      (x.eval (field closure) (a, w)) (x.eval (field closure) (a, w')) := fun x =>
    eval_ends hZ.valid (field_ends hZ.valid hclosure) x (fun hlaw => absurd hlaw hscript) h
  cases action with
  | moveTo position => exact goesOn (edit_ends rfl h)
  | finish => exact goesOn (edit_ends rfl h)
  | setLocal index x =>
      refine (heval x).bindWith le_rfl fun v b t t' ht => ?_
      by_cases hroom : Frame.hasRoomFor index = true
      · simp only [hroom, if_true]
        exact goesOn (replace_ends hs hZ (holds_replaceLocal_le b.frame index v) ht)
      · simp only [hroom]
        exact goesOn (owning_ends hs hZ (Ends.shared
          (abort_ends (Zone.breaks_of_not_tame hscript) (ht.le (by simp)))))
  | push x =>
      refine (heval x).bindWith le_rfl fun v b t t' ht => goesOn (modifyFrame_ends ?_ ht)
      intro o
      simp only [holds_frame, holds_values_cons, Pi.add_apply]
      omega
  | setDelegate x =>
      exact (heval x).bindWith le_rfl fun v b t t' ht =>
        goesOn (replace_ends hs hZ (holds_replaceDelegate b.frame v).le ht)
  | clearDelegate =>
      refine goesOn (replace_ends hs hZ (G := 0) ?_ (by rwa [zero_add]))
      rw [holds_removeDelegate, zero_add]
  | setPending x =>
      refine (heval x).bindWith le_rfl fun v b t t' ht => goesOn (owning_ends hs hZ ?_)
      have hone : holds [v] = holds v := by simp
      have hx := Ends.shared (a := b) (F := holds [v] + F) (exceptionOf_ends hZ.valid (v := v)
        (by rw [hone]; exact le_trans le_self_add le_add_self) (ht.le (by rw [hone])))
      exact hx.bindWith le_rfl fun x c u u' hu =>
        replace_ends hs hZ (holds_replacePending c.frame x).le hu
  | setInput x =>
      exact (heval x).bindWith le_rfl fun v b t t' ht =>
        goesOn (replace_ends hs hZ (holds_replaceInput b.frame v).le ht)
  | call c =>
      have hcall := performCall_ends hs hZ (field_ends hZ.valid hclosure) hscript c h
      refine hcall.bindWith le_rfl fun v b t t' ht => .ok ⟨rfl, ht.le fun o => ?_⟩
      simp only [holds_performance, holds_values_append, holds_values_cons, holds_values_nil,
        holds_none, Pi.add_apply, Pi.zero_apply]
      omega
  | yield x =>
      refine (heval x).bindWith le_rfl fun v b t t' ht => ?_
      refine (stepOn_ends hs hZ hscript (v := [v]) (ht.le (by simp))).bindWith le_rfl
        fun _ c u u' hu => pure_ends (hu.le (by simp))
  | yieldInPlace x => exact (heval x).bindWith le_rfl fun v b t t' ht => pure_ends ht
  | «return» x => exact (heval x).bindWith le_rfl fun v b t t' ht => finishWith_ends rfl ht
  | returnInPlace x => exact (heval x).bindWith le_rfl fun v b t t' ht => pure_ends ht
  | exhaust x => exact (heval x).bindWith le_rfl fun v b t t' ht => pure_ends ht
  | raise x => exact (heval x).bindWith le_rfl fun v b t t' ht => raiseValue_ends hs hZ ht
  | abort => exact Ends.shared (abort_ends (Zone.breaks_of_not_tame hscript) h)
  | delegate => exact (delegate_ends hs hZ hscript h).map some fun _ => rfl

/-! ## Runs -/

theorem actAll_ends (hscript : ¬ Z.law.tame) {closure : Value} (hclosure : Z.Secures (holds closure))
    (actions : List Action) (h : Z.Linked (holds a + F) w w') :
    Ends (Z.bondWith Performance) F holds (actAll e closure actions (a, w))
      (actAll e' closure actions (a, w')) := by
  induction actions generalizing a w w' with
  | nil =>
      rw [actAll, actAll]
      exact (stepOn_ends hs hZ hscript (v := []) (h.le (by simp))).bindWith le_rfl
        fun _ b t t' ht => pure_ends ht
  | cons action rest ih =>
      rw [actAll, actAll]
      refine (act_ends hs hZ hscript hclosure action h).bindWith le_rfl fun outcome b t t' ht => ?_
      cases outcome with
      | some suspension => exact pure_ends ht
      | none => exact ih (ht.le (by simp))

theorem proceed_ends (hscript : ¬ Z.law.tame) (s : Script) {closure : Value}
    (hclosure : Z.Secures (holds closure)) (h : Z.Linked (holds a + F) w w') :
    Ends (Z.bondWith Performance) F holds (proceed e s closure (a, w))
      (proceed e' s closure (a, w')) := by
  unfold proceed
  refine frameOf_ends ?_
  cases entry? s.entries a.frame.position with
  | none => exact (edit_ends rfl h).seqWith le_rfl fun b t t' ht => pure_ends (ht.le (by simp))
  | some actions => exact actAll_ends hs hZ hscript hclosure actions h

/-- Every way of treating an exception that is raised at the resume point. -/
theorem receive_ends (hscript : ¬ Z.law.tame) (s : Script) {closure : Value}
    (hclosure : Z.Secures (holds closure)) {x : Exception}
    (h : Z.Linked (holds a + (holds x + F)) w w') :
    Ends (Z.bondWith Performance) F holds (receive e s closure x (a, w))
      (receive e' s closure x (a, w')) := by
  have heval : ∀ y : Expr, Ends (Z.bondWith Performance) (holds x + F) holds
      (y.eval (field closure) (a, w)) (y.eval (field closure) (a, w')) := fun y =>
    eval_ends hZ.valid (field_ends hZ.valid hclosure) y (fun hlaw => absurd hlaw hscript) h
  unfold receive
  cases s.pending with
  | finish => exact (edit_ends rfl h).seqWith le_add_self fun b t t' ht => .raised ⟨rfl, ht⟩
  | escape => exact .raised ⟨rfl, h⟩
  | yield =>
      exact (stepOn_ends hs hZ hscript (v := x.args) h).bindWith le_rfl fun _ b t t' ht => pure_ends ht
  | «return» => exact (edit_ends rfl h).seqWith le_add_self fun b t t' ht => pure_ends ht
  | exhaust => exact pure_ends h
  | returnValue y =>
      refine owning_ends hs hZ (v := x.args) ((heval y).bindWith le_rfl fun v b t t' ht => ?_)
      exact (edit_ends rfl ht).seqWith le_add_self fun c u u' hu => pure_ends hu
  | raise y =>
      refine owning_ends hs hZ (v := x.args) ((heval y).bindWith le_rfl fun v b t t' ht => ?_)
      have hmarked := edit_ends (d := Frame.markFinished) rfl ht
      exact hmarked.seqWith le_add_self fun c u u' hu => raiseValue_ends hs hZ hu
  | ignore =>
      show Ends (Z.bondWith Performance) F holds
        ((Run.shared (e.releaseAll x.args) >>= fun _ => proceed e s closure) (a, w))
        ((Run.shared (e'.releaseAll x.args) >>= fun _ => proceed e' s closure) (a, w'))
      exact (releaseAll_ends hs hZ (v := x.args) h).seqWith le_rfl
        fun b t t' ht => proceed_ends hs hZ hscript s hclosure ht

end Steps

/-- Being linked once what the run's calls gave has been forgotten. -/
def bondOfFrame (Z : Zone) : Bond (Performance × World) where
  rel F s s' := s.1 = s'.1 ∧ Z.Linked (holds s.1.frame + F) s.2 s'.2
  calm s := Z.Calm s.2
  aborts := Z.Breaks
  le hle h := ⟨h.1, h.2.le (add_le_add_right hle _)⟩

/-- What is left of a resume is its frame. -/
theorem frameOfPerformance_ends
    {x x' : EStateM.Result Interruption (Performance × World) Suspension} :
    Ends (bondOfFrame Z) F holds x x' → Ends (Z.bondWith Frame) F holds
      (match x with
        | .ok suspension (p, w) => .ok suspension (p.frame, w)
        | .error reason (p, w) => .error reason (p.frame, w))
      (match x' with
        | .ok suspension (p, w) => .ok suspension (p.frame, w)
        | .error reason (p, w) => .error reason (p.frame, w)) := by
  intro h
  cases h with
  | ok h => exact .ok ⟨congrArg frame h.1, h.2⟩
  | raised h => exact .raised ⟨congrArg frame h.1, h.2⟩
  | aborted h ha => exact .aborted ⟨congrArg frame h.1, h.2⟩ ha
  | outOfFuel h => exact .outOfFuel h

end Performance

/-- One resume of a frame by a scripted body. -/
theorem scriptResume_ends (hs : Serves C e e') (hZ : Z.Fit C) (hscript : ¬ Z.law.tame) (s : Script)
    {closure : Value} (hclosure : Z.Secures (holds closure))
    {pending : Option Exception} {f : Frame} (h : Z.Linked (holds f + (holds pending + F)) w w') :
    Ends (Z.bondWith Frame) F holds (s.resume e closure pending (f, w))
      (s.resume e' closure pending (f, w')) := by
  unfold Script.resume
  refine Performance.frameOfPerformance_ends
    (Ends.last (B := Z.bondWith Performance) (C := 0) ?_ (fun _ h => h) id ?_)
  · cases pending with
    | none =>
        exact Performance.proceed_ends hs hZ hscript s hclosure (h.le (by simp [holds_performance]))
    | some x =>
        exact Performance.receive_ends hs hZ hscript s hclosure (h.le (by simp [holds_performance]))
  · rintro G ⟨b, t⟩ ⟨b', t'⟩ _ ⟨rfl, ht⟩
    have hforgotten : Ends Z.bond (holds b.frame + G) holds (e.releaseAll b.results t)
        (e'.releaseAll b.results t') := by
      refine releaseAll_ends hs hZ (ht.le fun o => ?_)
      simp only [holds_performance, Pi.add_apply, Pi.zero_apply]
      omega
    show Ends (Performance.bondOfFrame Z) G holds (Run.shared (e.releaseAll b.results) (b, t))
      (Run.shared (e'.releaseAll b.results) (b, t'))
    unfold Run.shared
    simp only
    generalize e.releaseAll b.results t = x at hforgotten ⊢
    generalize e'.releaseAll b.results t' = x' at hforgotten ⊢
    cases hforgotten with
    | ok h => exact .ok ⟨rfl, h.le (add_left_comm _ _ _).le⟩
    | raised h => exact .raised ⟨rfl, h.le (add_left_comm _ _ _).le⟩
    | aborted h ha => exact .aborted ⟨rfl, h⟩ ha
    | outOfFuel h => exact .outOfFuel h

/-- One resume of a frame by its body. -/
theorem codeResume_ends (hs : Serves C e e') (hZ : Z.Fit C) {c : CodeObject}
    (htame : Z.law.tame → c.Tame) {closure : Value} (hclosure : Z.Secures (holds closure))
    {pending : Option Exception} {f : Frame} (hinput : Z.law.tame → holds f.input ≤ Z.left)
    (h : Z.Linked (holds f + (holds pending + F)) w w') :
    Ends (Z.bondWith Frame) F holds (c.resume e closure pending (f, w))
      (c.resume e' closure pending (f, w')) := by
  unfold CodeObject.resume
  unfold CodeObject.Tame at htame
  cases hbody : c.body with
  | program p =>
      rw [hbody] at htame
      exact programResume_ends hs hZ hclosure htame hinput h
  | script s =>
      rw [hbody] at htame
      exact scriptResume_ends hs hZ htame s hclosure h

end Resumable
