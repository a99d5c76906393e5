import Resumable.Proofs.Commands

set_option autoImplicit false

/-!
# Sessions

Carrying out commands one after the other, from a world without objects, leads to sound worlds only
(`Reachable.sound`).  A command may run out of fuel, and then nothing is said about where it leads;
but every moment that it comes to until then is one at which the worlds are linked in a zone.
-/

namespace Resumable

namespace Session

variable {L : Law} {F G : Bag} {e e' : Engine} {w w' : World} {i : Nat}

/-- Whether a command has to do with the thread or with the levels that are held. -/
def Command.isOfThread : Command → Bool
  | .install _ _ => true
  | .enter => true
  | .leave => true
  | _ => false

/-- The command makes nothing that follows a script, and leaves to generators what concerns their
frames and iterators. -/
def Command.IsTame : Command → Prop
  | .bind _ x | .showFrame x | .referents x | .traverse x _ | .inspect x | .show x
  | .describeCode x | .describeException x | .getIter x _ | .closeIter x | .listPop x
  | .listClear x => x.isTame = true
  | .refers x y | .compare x y | .listPush x y => x.isTame = true ∧ y.isTame = true
  | .assemble _ source => ∀ p, source.assembler.assemble = .ok p → p.Sound
  | .makeGenerator _ _ args closure => Expr.areTame args = true ∧ closure.isTame = true
  | .makeFrame _ _ args => Expr.areTame args = true
  | .drive _ operation _ => operation.isTame = true
  | .normalize type value _ => type.isTame = true ∧ value.all Expr.isTame = true
  | .construct (.stopIterationWith x) => x.isTame = true
  | .makeScript _ _ _ _ | .editFrame _ _ | .takeFrom _ _ | .runFrame _ _ _ | .iteratorNext _
  | .iteratorSend _ _ | .iteratorClose _ => False
  | _ => True

section Commands

variable (hs : Serves (Zone.Level L) e e')

include hs

/-- An operand that stands for an exception. -/
theorem exceptionOperand_settles {x : Expr} (hx : L.tame → x.isTame = true) (h : w.Rests L i F) :
    Settles L i F holds (withOperand e x World.exceptionOf) w :=
  withOperand_settles hs hx h fun _ t ht => Settles.of_ends ht fun hw =>
    exceptionOf_ends (Zone.plain_valid L t) le_self_add hw

/-- Drawing how a resume of a frame ended, and forgetting what it ended with. -/
theorem drawEnding_settles {ending : Except Exception Suspension}
    (h : w.Rests L i (holds ending + F)) : Settles L i F (fun _ => 0) (drawEnding e ending) w := by
  have hvalue : ∀ (v : Value) (draw : Picture → FrameEnding), holds v = holds ending →
      Settles L i F (fun _ => 0) (draw <$> drawValue e v) w := by
    intro v draw hv
    rw [map_eq_pure_bind]
    have hdrawn : Settles L i F (fun _ => 0) (drawValue e v) w :=
      Settles.owning hs (reported (by rwa [hv]))
    exact hdrawn.bind le_rfl fun _ t ht => reported (ht.le (by rw [zero_add]))
  rcases ending with x | v | v | v
  · refine Settles.owning hs ?_
    have hdrawn : Settles L i (holds x.toValue + F) (fun _ => 0) (World.drawException x) w :=
      Settles.of_ends h fun hw => drawException_ends (Zone.plain_valid L w) hw le_self_add
    exact hdrawn.bind le_rfl fun _ t ht => reported (ht.le (by rw [zero_add]))
  · exact hvalue v _ rfl
  · exact hvalue v _ rfl
  · exact hvalue v _ rfl

omit hs in
/-- Reading a frame. -/
theorem readFrame_settles {r : FrameRef} (hheld : 1 ≤ F (.frame r)) (h : w.Rests L i F) :
    Settles L i F (fun _ => 0) (World.readFrame r) w :=
  Settles.of_ends h fun hw => readFrame_ends (Zone.plain_valid L w) (plain_open L w hheld) hw

omit hs in
/-- A frame that is held first of all. -/
theorem frame_held (r : FrameRef) (F : Bag) : 1 ≤ (holds (Value.frame r) + F) (.frame r) := by
  simp only [holds_frameRef, Pi.add_apply, Bag.of_singleton_self]
  omega

omit hs in
theorem traverse_settles {σ : Type} {v : Value} {visit : Visitor σ} {start : σ}
    (h : w.Rests L i (holds v + F)) :
    Settles L i (holds v + F) (fun _ => 0) (traverse v visit start) w := by
  cases v with
  | frame r =>
      exact (readFrame_settles (frame_held r F) h).bind le_rfl fun _ t ht =>
        reported (ht.le (by rw [zero_add]))
  | _ => exact reported h

omit hs in
theorem construct_settles {construction : Construction}
    (htame : L.tame → Command.IsTame (.construct construction)) (h : w.Rests L i F) :
    Settles L i F holds (construct construction) w := by
  cases construction with
  | stopIterationWith x =>
      refine (evaluate_settles htame h).bind le_rfl fun v t ht => Settles.pure ?_
      exact ht.le (by rw [holds_stopIterationWith])
  | _ => exact Settles.pure (h.le (zero_add F).le)

omit hs in
/-- What is left of a list without its last item, and that item. -/
theorem holds_dropLast (vs : List Value) :
    holds vs.dropLast + holds vs.getLast?.toList = holds vs := by
  rcases List.eq_nil_or_concat vs with rfl | ⟨us, v, rfl⟩
  · rfl
  · simp

omit hs in
/-- Replacing the items of a list. -/
theorem setItems_rests {r : ListRef} {vs : List Value} (h : w.Rests L i F)
    (hle : G + holds vs ≤ F + holds (w.items r)) : (w.setItems r vs).Rests L i G :=
  ⟨(h.sound.linked.setItems (fun hh => hh) hle).sound h.sound, h.thread⟩

/-- A command that leaves the thread alone keeps worlds sound. -/
theorem carryOut_settles {full : Bool} {c : Command} (hc : c.isOfThread = false)
    (htame : L.tame → c.IsTame) (h : w.Rests L i F) :
    Settles L i F (fun _ => 0) (carryOut e full c) w := by
  cases c with
  | bind name x =>
      refine (evaluate_settles htame h).bind le_rfl fun v t ht => ?_
      refine (setVariable_settles hs name ht).bind le_rfl fun _ u hu => ?_
      exact reported (hu.le (by rw [holds_unit, zero_add]))
  | unbind name =>
      refine (removeVariable_settles hs h).bind le_rfl fun _ t ht => ?_
      exact reported (ht.le (by rw [holds_unit, zero_add]))
  | assemble name source =>
      show Settles L i F (fun _ => 0) (assemble e name source) w
      unfold assemble
      cases hassembled : source.assembler.assemble with
      | error fault => exact reported h
      | ok p => exact defineCode_settles hs (fun hL => htame hL p hassembled) h
  | disassemble source =>
      rw [carryOut]
      cases source.assembler.assemble with
      | error fault => exact reported h
      | ok p => exact reported h
  | makeGenerator name code args closure => 
      exact makeGenerator_settles hs (fun hL => (htame hL).1) (fun hL => (htame hL).2) h
  | makeScript name codeName filename script => 
      exact defineCode_settles hs (fun hL => (htame hL).elim) h
  | makeFrame name code args => exact makeFrame_settles hs htame h
  | drive name operation keep =>
      refine withGenerator_settles hs h fun g t ht => ?_
      have hdriven : Settles L i (holds (Value.generator g) + F) holds (drive e g operation) t :=
        Settles.of_ends ht fun hw => 
          drive_ends hs ht.fit (plain_held le_self_add hw) htame hw
      refine hdriven.attempt.bind le_rfl fun result u hu => ?_
      exact (drawOutcome_settles hs _ hu).bind le_rfl fun _ s hss =>
        reported (hss.le (by rw [zero_add]))
  | nextOrEnd name =>
      refine withGenerator_settles hs h fun g t ht => ?_
      have hstepped : Settles L i (holds (Value.generator g) + F) holds (e.nextOrEnd g) t :=
        Settles.of_ends ht fun hw => nextOrEnd_ends hs ht.fit (plain_held le_self_add hw) hw
      refine hstepped.attempt.bind le_rfl fun result u hu => ?_
      have hdrawn : Settles L i (holds (Value.generator g) + F) (fun _ => 0) (drawItem e result) u :=
        Settles.of_ends hu fun hw => drawItem_ends hs hu.fit hw
      exact hdrawn.bind le_rfl fun _ s hss => reported (hss.le (by rw [zero_add]))
  | iter name => exact withGenerator_settles hs h fun g t ht => reported ht
  | info name => exact withGenerator_settles hs h fun g t ht => reported ht
  | collect name max =>
      refine withGenerator_settles hs h fun g t ht => ?_
      have hpulled : Settles L i (holds (Value.generator g) + F) (fun _ => 0)
          (pullAll e max (.new g)) t :=
        Settles.of_ends ht fun hw => pullAll_ends hs ht.fit max (plain_held le_self_add hw) hw
      refine hpulled.bindOf le_rfl fun x u hx hu => ?_
      obtain ⟨items, a⟩ := x
      have ha : a.generator = g := pullAll_generator hx
      have hu : u.Rests L i (holds (Value.generator g) + F) := hu.le (zero_add _).ge
      dsimp only
      split
      · have hmore : Settles L i (holds (Value.generator g) + F) (fun _ => 0) (pullOutcome e a) u :=
          Settles.of_ends hu fun hw =>
            pullOutcome_ends hs hu.fit (plain_held (by rw [ha]; exact le_self_add) hw) hw
        exact hmore.bind le_rfl fun _ s hss => reported (hss.le (by rw [zero_add]))
      · exact reported hu
  | showFrame x => exact withFrameOf_settles hs htame h fun r t G _ _ ht => reported ht
  | editFrame x edit =>
      have hlaw : ¬ L.tame := htame
      refine withFrameOf_settles hs (fun hL => absurd hL hlaw) h fun r t G _ hheld ht => ?_
      refine (editFrame_settles hs hlaw edit hheld ht).bind le_rfl fun _ u hu => ?_
      exact reported (hu.le (by rw [holds_unit, zero_add]))
  | takeFrom x taking =>
      have hlaw : ¬ L.tame := htame
      refine withFrameOf_settles hs (fun hL => absurd hL hlaw) h fun r t G _ _ ht => ?_
      refine (takeFrom_settles hlaw taking ht).bind le_rfl fun v u hu => ?_
      have hdrawn : Settles L i G (fun _ => 0) (drawValue e v) u :=
        Settles.owning hs (reported hu)
      exact hdrawn.bind le_rfl fun _ s hss => reported (hss.le (by rw [zero_add]))
  | runFrame x closure pending =>
      have hlaw : ¬ L.tame := htame
      refine withFrameOf_settles hs (fun hL => absurd hL hlaw) h fun r t G _ _ ht => ?_
      refine withOperand_settles hs (fun hL => absurd hL hlaw) ht fun v t ht => ?_
      have hrun : ∀ (x : Option Exception) (u : World),
          u.Rests L i (holds x + (holds v + G)) →
            Settles L i (holds v + G) (fun _ => 0)
              (do
                let ending ← drawEnding e (← Run.attempt (runFrame e r v x))
                return Report.frameRan ending ((← get).framePicture true r)) u := by
        intro x u hu
        refine (runFrame_settles hs hlaw hu).attempt.bind le_rfl fun ending s hss => ?_
        exact (drawEnding_settles hs hss).bind le_rfl fun _ s' hss' =>
          reported (hss'.le (by rw [zero_add]))
      cases pending with
      | none => exact hrun none t (ht.le (by rw [holds_none, zero_add]))
      | some x =>
          refine Settles.bind (G := holds v + G) (p := holds) ?_ le_rfl fun y u hu => hrun y u hu
          rw [map_eq_pure_bind]
          exact (exceptionOperand_settles hs (fun hL => absurd hL hlaw) ht).bind le_rfl
            fun y u hu => Settles.pure hu
  | referents x =>
      refine withOperand_settles hs htame h fun v t ht => ?_
      refine (traverse_settles ht).bind le_rfl fun seen u hu => ?_
      cases seen <;> exact reported (hu.le (by rw [zero_add]))
  | traverse x enough =>
      refine withOperand_settles hs htame h fun v t ht => ?_
      refine (traverse_settles ht).bind le_rfl fun seen u hu => ?_
      cases seen <;> exact reported (hu.le (by rw [zero_add]))
  | refers x target =>
      refine withOperand_settles hs (fun hL => (htame hL).1) h fun v t ht => ?_
      refine withOperand_settles hs (fun hL => (htame hL).2) ht fun o u hu => ?_
      cases v with
      | frame r =>
          have hheld : 1 ≤ (holds o + (holds (Value.frame r) + F)) (.frame r) :=
            le_add_left (frame_held r F)
          exact (readFrame_settles hheld hu).bind le_rfl fun _ s hss =>
            reported (hss.le (by rw [zero_add]))
      | _ => exact reported hu
  | normalize type value keep =>
      refine withOperand_settles hs (fun hL => (htame hL).1) h fun v t ht => ?_
      have hvalue : Settles L i (holds v + F) holds (evaluate? value) t :=
        Settles.of_ends ht fun hw => 
          evaluate?_ends (Zone.plain_valid L t) (fun hL => (htame hL).2) hw
      refine hvalue.bind le_rfl fun y u hu => ?_
      have hmade : Settles L i (holds y + (holds v + F)) holds (World.normalize v y) u :=
        Settles.of_ends hu fun hw => normalize_ends (Zone.plain_valid L u)
          (le_trans le_self_add le_add_self) le_self_add hw
      refine hmade.attempt.bind le_add_self fun result s hss => ?_
      have hresult : holds (result.map Exception.toValue) = holds result := by
        cases result <;> rfl
      refine (drawOutcome_settles hs _ (F := holds y + (holds v + F)) (by rwa [hresult])).bind
        le_add_self fun _ s' hss' => ?_
      have hforgotten : Settles L i (holds v + F) holds (e.releaseAll y.toList) s' :=
        Settles.releaseAll hs (hss'.le (by rw [holds_toList, zero_add]))
      refine hforgotten.bind le_rfl fun _ s'' hss'' => ?_
      exact reported (hss''.le (by rw [holds_unit, zero_add]))
  | construct construction =>
      refine (construct_settles htame h).bind le_rfl fun x t ht => ?_
      exact (drawOutcome_settles hs (.error x) ht).bind le_rfl fun _ s hss =>
        reported (hss.le (by rw [zero_add]))
  | listPush x value =>
      refine withList_settles hs (fun hL => (htame hL).1) h fun r t ht => ?_
      refine (evaluate_settles (fun hL => (htame hL).2) ht).bind le_rfl fun v u hu => ?_
      have hpushed : (u.setItems r (u.items r ++ [v])).Rests L i (holds (Value.list r) + F) := by
        refine setItems_rests hu (le_of_eq ?_)
        rw [holds_values_append, holds_values_cons, holds_values_nil]
        abel
      exact Settles.pure (a := ()) (hpushed.le (by rw [holds_unit, zero_add]))
  | listPop x =>
      refine withList_settles hs htame h fun r t ht => ?_
      have hpopped : (t.setItems r (t.items r).dropLast).Rests L i
          (holds (t.items r).getLast?.toList + (holds (Value.list r) + F)) := by
        refine setItems_rests ht (le_of_eq ?_)
        rw [← holds_dropLast (t.items r)]
        abel
      exact Settles.releaseAll hs hpopped
  | listClear x =>
      refine withList_settles hs htame h fun r t ht => ?_
      have hcleared : (t.setItems r []).Rests L i
          (holds (t.items r) + (holds (Value.list r) + F)) := by
        refine setItems_rests ht (le_of_eq ?_)
        rw [holds_values_nil, add_zero, add_comm]
      exact Settles.releaseAll hs hcleared
  | inspect x => exact withOperand_settles hs htame h fun v t ht => reported ht
  | «show» x => exact withOperand_settles hs htame h fun v t ht => reported ht
  | compare a b =>
      exact withOperand_settles hs (fun hL => (htame hL).1) h fun v t ht =>
        withOperand_settles hs (fun hL => (htame hL).2) ht fun u s hss => reported hss
  | describeCode x =>
      refine withOperand_settles hs htame h fun v t ht => ?_
      cases v <;> exact reported ht
  | describeException x =>
      refine withOperand_settles hs htame h fun v t ht => ?_
      cases v.asException <;> exact reported ht
  | describeKind kind => exact reported h
  | describeInstruction j offset => exact reported h
  | thread => exact reported h
  | writeLine line =>
      have hwritten : (w.writeLine line).2.Rests L i F := by
        have hlinked := writeLine_linked (Zone.plain_valid L w) h.sound.linked line
        exact ⟨hlinked.sound h.sound,
          (congrArg Thread.id hlinked.pinned.thread).trans h.thread⟩
      rw [carryOut]
      refine Settles.get ?_
      generalize w.writeLine line = x at hwritten
      obtain ⟨_ | _, t⟩ := x
      · exact reported hwritten
      · exact reported hwritten
  | getIter x keep =>
      refine withOperand_settles hs htame h fun v t ht => ?_
      have hiter : Settles L i (holds v + F) holds (World.getIter v) t :=
        Settles.of_ends ht fun hw =>
          getIter_ends (Zone.plain_valid L t) (hw.covered le_self_add) hw
      refine hiter.attempt.bind le_rfl fun result u hu => ?_
      exact (drawOutcome_settles hs _ hu).bind le_rfl fun _ s hss =>
        reported (hss.le (by rw [zero_add]))
  | closeIter x =>
      refine withOperand_settles hs htame h fun v t ht => ?_
      have hclosed : Settles L i (holds v + F) holds (e.closeIter v) t := by
        refine Settles.of_ends ht fun hw => closeIter_ends hs ht.fit ?_ hw
        cases v with
        | generator g => exact plain_held le_self_add hw
        | iterator r =>
            refine ⟨fun hh => hh, Nat.le_add_right_of_le ?_⟩
            simp only [holds_iterator, Pi.add_apply, Bag.of_singleton_self]
            omega
        | _ => trivial
      refine hclosed.attempt.bind le_rfl fun result u hu => ?_
      exact (drawOutcome_settles hs _ hu).bind le_rfl fun _ s hss =>
        reported (hss.le (by rw [zero_add]))
  | iteratorNext x =>
      have hlaw : ¬ L.tame := htame
      refine withIteratorOf_settles hs (fun hL => absurd hL hlaw) h fun r t ht => ?_
      have hdrawn : Settles L i (holds (Value.iterator r) + F) (fun _ => 0)
          (drawItemOf e r (Iterator.next e)) t :=
        Settles.of_ends ht fun hw => drawItemOf_ends hs ht.fit hlaw (fun hh => hh) hw le_rfl
          fun j s s' hss =>
            (iteratorNext_ends hs (ht.fit.use r) (fun hL => absurd hL hlaw) hss).loosenWith
              (Zone.breaks_of_not_tame (Z := (Zone.plain L t).use r))
      exact hdrawn.bind le_rfl fun _ s hss => reported (hss.le (by rw [zero_add]))
  | iteratorSend x value =>
      have hlaw : ¬ L.tame := htame
      refine withIteratorOf_settles hs (fun hL => absurd hL hlaw) h fun r t ht => ?_
      refine (evaluate_settles (fun hL => absurd hL hlaw) ht).bind le_rfl fun v u hu => ?_
      have hdrawn : Settles L i (holds (Value.iterator r) + F) (fun _ => 0)
          (drawItemOf e r (Iterator.send e v)) u :=
        Settles.of_ends hu fun hw => drawItemOf_ends hs hu.fit hlaw (fun hh => hh) hw le_add_self
          fun j s s' hss =>
            (iteratorSend_ends hs (hu.fit.use r) (fun hL => absurd hL hlaw)
              (fun hL => absurd hL hlaw) hss).loosenWith
                (Zone.breaks_of_not_tame (Z := (Zone.plain L u).use r))
      exact hdrawn.bind le_rfl fun _ s hss => reported (hss.le (by rw [zero_add]))
  | iteratorClose x =>
      have hlaw : ¬ L.tame := htame
      refine withIteratorOf_settles hs (fun hL => absurd hL hlaw) h fun r t ht => ?_
      have hdrawn : Settles L i (holds (Value.iterator r) + F) (fun _ => 0)
          (drawClosed e r) t :=
        Settles.of_ends ht fun hw => drawClosed_ends hs ht.fit hlaw (fun hh => hh) hw
      exact hdrawn.bind le_rfl fun _ s hss => reported (hss.le (by rw [zero_add]))
  | install limit sink => cases hc
  | enter => cases hc
  | leave => cases hc

end Commands

/-! ## Steps -/

/-- A world in which a command begins: nothing has been written or noted yet. -/
def fresh (w : World) : World := { w with diagnostics := "", log := [] }

/-- Law that has nothing to do with the levels that are held from outside. -/
def Unheld (L : Law) : Prop := ∀ w notes, L.rule w → L.rule (w.noted notes)

/-- What concerns the journal and the thread does not matter to soundness. -/
theorem sound_of_surroundings {thread : Thread} {held : List Nat} {diagnostics : String}
    {log : List LogEntry} {unwinding : Bool} (hheld : Unheld L)
    (hbounded : thread.depth ≤ thread.limit) (h : w.Sound L F) :
    ({ w with
        thread := thread, held := held, diagnostics := diagnostics, log := log
        unwinding := unwinding } : World).Sound L F where
  law := hheld { w with
      thread := thread, diagnostics := diagnostics, log := log, unwinding := unwinding } held
    (L.keeps h.law ⟨rfl, le_rfl, fun _ _ hg => hg⟩)
  tame hL := (h.tame hL).congr rfl (fun _ => rfl) fun _ => rfl
  idle := h.idle
  owned o := by
    have howned := h.owned o
    cases o <;> exact howned
  slots := h.slots
  seated o hone := by
    have hin := h.seated o (by cases o <;> exact hone)
    cases o <;> exact hin
  sorted := h.sorted
  bounded := hbounded

theorem fresh_sound (hheld : Unheld L) (h : w.Sound L F) : (fresh w).Sound L F :=
  sound_of_surroundings (w := w) hheld h.bounded h

/-- A command that has to do with the thread keeps worlds sound, and asks the machine for nothing. -/
theorem carryOut_ofThread (full : Bool) (hheld : Unheld L) {c : Command} (hc : c.isOfThread = true)
    (h : w.Sound L F) : ∃ report t, carryOut e full c w = .ok report t ∧ t.Sound L F := by
  cases c with
  | install limit sink => exact ⟨_, _, rfl, sound_of_surroundings hheld (Nat.zero_le _) h⟩
  | enter =>
      show ∃ report t, holdLevel w = .ok report t ∧ t.Sound L F
      unfold holdLevel
      rw [Run.bind_apply]
      unfold Run.attempt World.enter
      cases hentered : w.thread.enter? with
      | none => exact ⟨_, _, rfl, h⟩
      | some thread =>
          exact ⟨_, _, rfl, sound_of_surroundings (w := w) hheld (Thread.depth_le_of_enter hentered) h⟩
  | leave =>
      show ∃ report t, dropLevel w = .ok report t ∧ t.Sound L F
      unfold dropLevel
      rw [Run.bind_apply]
      simp only [Run.get_apply]
      cases w.held with
      | nil => exact ⟨_, _, rfl, h⟩
      | cons id rest =>
          refine ⟨_, _, rfl, sound_of_surroundings hheld ?_ h⟩
          split
          · exact le_trans (Nat.sub_le _ _) h.bounded
          · exact h.bounded
  | _ => cases hc

/-- Carrying out a command keeps worlds sound, unless the fuel runs out. -/
theorem step_sound [L.Free] (hheld : Unheld L) {fuel : Nat} {full : Bool} {c : Command}
    (htame : L.tame → c.IsTame) (h : w.Sound L 0)
    (hdone : (step fuel full w c).1.report ≠ .outOfFuel) :
    (step fuel full w c).2.Sound L 0 := by
  have hfresh := fresh_sound hheld h
  have hserved : ∀ Z, Zone.Level L Z → Z.law.Free := fun Z hZ => by rwa [hZ.law]
  have hreported : ∀ {x}, carryOut (Machine.engine fuel) full c (fresh w) = x →
      (step fuel full w c).2 = (match x with
        | .ok _ t => t
        | .error .aborted t => { t with unwinding := false }
        | .error _ t => t) ∧
      (∀ t, x = .error .outOfFuel t → (step fuel full w c).1.report = .outOfFuel) := by
    intro x hx
    have hx : carryOut (Machine.engine fuel) full c { w with diagnostics := "", log := [] } = x := hx
    simp only [step, hx]
    refine ⟨?_, ?_⟩
    · rcases x with ⟨report, t⟩ | ⟨_ | _ | _, t⟩ <;> rfl
    · rintro t rfl
      rfl
  by_cases hc : c.isOfThread = true
  · obtain ⟨report, t, ht, hsound⟩ := carryOut_ofThread full hheld (e := Machine.engine fuel) hc hfresh
    rw [(hreported ht).1]
    exact hsound
  · have hsettled : Settles L _ 0 (fun _ => 0) (carryOut (Machine.engine fuel) full c) (fresh w) :=
      carryOut_settles (Machine.machine_serves hserved (le_refl fuel)) (by simpa using hc)
        htame ⟨hfresh, rfl⟩
    unfold Settles at hsettled
    generalize hx : carryOut (Machine.engine fuel) full c (fresh w) = x at hsettled
    rw [(hreported hx).1]
    cases hsettled with
    | ok ht => exact ht.2.sound.le (zero_add 0).le
    | raised ht => exact ht.2.sound.le zero_le
    | aborted ht => exact sound_of_surroundings hheld ht.2.sound.bounded ht.2.sound
    | outOfFuel => exact absurd ((hreported hx).2 _ rfl) hdone

/-! ## Reachable worlds -/

/-- The worlds that a session comes to, as long as no command runs out of fuel. -/
inductive Reachable : World → Prop where
  | start (limit : Nat) (sink : Sink) : Reachable (World.new limit sink)
  | step {w : World} (h : Reachable w) (fuel : Nat) (full : Bool) (c : Command)
      (hdone : (step fuel full w c).1.report ≠ .outOfFuel) : Reachable (step fuel full w c).2

theorem unheld_trivial : Unheld .trivial := fun _ _ _ => True.intro

/-- A world without objects is sound. -/
theorem new_sound (limit : Nat) (sink : Sink) : (World.new limit sink).Sound .trivial 0 where
  law := True.intro
  tame h := h.elim
  idle _ := rfl
  owned o := by
    have hnone : (World.new limit sink).references (fun _ => False) = 0 := by
      funext o
      simp only [World.references, Pi.add_apply]
      rw [Store.contents_apply (n := 0) le_rfl, Store.contents_apply (n := 0) le_rfl,
        Store.contents_apply (n := 0) le_rfl, Store.contents_apply (n := 0) le_rfl]
      simp [World.new]
    rw [hnone]
    exact zero_le
  slots _ _ _ h := nomatch h
  seated o hone := by
    have hnone : (World.new limit sink).owners o = 0 := by
      cases o <;> exact Store.owners_of_size_le (Nat.zero_le _)
    omega
  sorted := List.Pairwise.nil
  bounded := Nat.zero_le limit

theorem Reachable.sound (h : Reachable w) : w.Sound .trivial 0 := by
  induction h with
  | start limit sink => exact new_sound limit sink
  | step _ fuel full c hdone ih => exact step_sound unheld_trivial False.elim ih hdone

/-! ## Moments of a command -/

/-- To break runs off elsewhere does not make for other moments. -/
theorem moment_of_breaking [L.Free] {event : Event} {u : World} {broken : World → Prop}
    (h : Machine.Moment (Zone.Level (L.breaking broken)) event u) :
    Machine.Moment (Zone.Level L) event u := by
  obtain ⟨Z, F, w', hZ, hgranted, hlinked⟩ := h
  have hlaw : L.rule u := by
    have hrule := hlinked.pinned.law
    rw [hZ.property.law] at hrule
    exact hrule
  refine ⟨Z.decree L, F, w', hZ.decree, ?_, hlinked.decree hlaw fun htame => ?_⟩
  · cases event with
    | answered _ => trivial
    | asked request => cases request <;> exact hgranted
  · rw [hZ.property.law]
    exact htame

/-- At every moment that a command comes to, the worlds are linked in a zone. -/
theorem moment_of_comesTo {note : Event → World → List Nat} {notes : List Nat} {fuel : Nat}
    {full : Bool} {c : Command} {event : Event} {u : World} [L.Free]
    (hw : ((fresh w).noted notes).Sound L 0) (htame : L.tame → c.IsTame)
    (hnote : ∀ event t, Machine.Moment (Zone.Level L) event t → L.rule (t.noted (note event t)))
    (hcomes : Machine.ComesTo note fuel (fun e => carryOut e full c) ((fresh w).noted notes)
      event u) : Machine.Moment (Zone.Level L) event u := by
  obtain ⟨hthread, likes, hbroken⟩ := hcomes
  beta_reduce at hbroken
  -- runs are broken off where the event may come up, so this one is
  let M : Law := L.breaking fun x => ∃ t, Machine.Moment (Zone.Level L) event t ∧ x = t.elsewhere
  have hdiscreet : Machine.Discreet (Zone.Level M) (.breaking note event likes) := by
    refine ⟨fun {Z seen F t t'} hZ hgranted ht => ?_, fun {Z seen t} hZ hmoment hstops => ?_,
      fun {Z request t} hZ hbarred => ?_, fun {Z o t} hZ hbarred => ?_⟩
    · rw [hZ.property.law]
      exact hnote seen t (moment_of_breaking ⟨Z, F, t', hZ, hgranted, ht⟩)
    · obtain ⟨rfl, _⟩ : seen = event ∧ likes t = true := by
        simpa [Observer.breaking] using hstops
      rw [hZ.law]
      exact ⟨t, moment_of_breaking hmoment, rfl⟩
    · rw [hZ.law] at hbarred
      exact absurd hbarred (Law.Free.free request t)
    · rw [hZ.law] at hbarred
      exact absurd hbarred (Law.Free.free _ t)
  have hsound : ((fresh w).noted notes).Sound M 0 := hw.under hw.law id
  by_cases hc : c.isOfThread = true
  · have hbegins : ((fresh w).noted notes).Sound .trivial 0 := hw.under True.intro False.elim
    obtain ⟨report, t, ht, _⟩ := carryOut_ofThread full unheld_trivial
      (e := Machine.observedEngine (.breaking note event likes) fuel) hc hbegins
    rw [ht] at hbroken
    cases hbroken
  · have hsettled : Settles M _ 0 (fun _ => 0)
        (carryOut (Machine.observedEngine (.breaking note event likes) fuel) full c)
        ((fresh w).noted notes) :=
      carryOut_settles (Machine.observed_serves hdiscreet (le_refl fuel)) (by simpa using hc)
        htame ⟨hsound, rfl⟩
    unfold Settles at hsettled
    rw [hbroken] at hsettled
    cases hsettled with
    | outOfFuel h =>
        rcases h with hid | ⟨t, ht, heq⟩
        · -- a run that is broken off ends on another thread
          exact absurd (hid.trans hthread.symm) (Nat.succ_ne_self _)
        · rw [World.elsewhere_injective heq]
          exact ht

/-- Where a command begins the world is sound, under any law that it keeps and that does not ask for
tame worlds. -/
theorem Reachable.begins {notes : List Nat} (h : Reachable w) (hlaw : L.rule ((fresh w).noted notes))
    (htame : ¬ L.tame) : ((fresh w).noted notes).Sound L 0 :=
  (sound_of_surroundings (w := w) unheld_trivial h.sound.bounded h.sound).under hlaw fun hL =>
    absurd hL htame

/-- A command of a session comes to an event in a world, however deeply nested the computation is that
the event belongs to. -/
def Amid (event : Event) (u : World) : Prop :=
  ∃ w fuel full c, Reachable w ∧
    Machine.ComesTo (fun _ t => t.held) fuel (fun e => carryOut e full c) (fresh w) event u

theorem Amid.moment {event : Event} {u : World} (h : Amid event u) :
    Machine.Moment (Zone.Level .trivial) event u := by
  obtain ⟨w, fuel, full, c, hw, hcomes⟩ := h
  have hunchanged : (fresh w).noted (fresh w).held = fresh w := rfl
  rw [← hunchanged] at hcomes
  exact moment_of_comesTo (hw.begins True.intro id) False.elim (fun _ _ _ => True.intro) hcomes

/-! ### A session with a generator that closes itself -/

/-- A body that closes the generator in a variable, and then returns. -/
def closingItself : Script := ⟨[[.call (.mk "g" .close []), .return .none]], .finish⟩

/-- The session in which that variable holds the generator with this body. -/
def preparedSession : World :=
  let w := (step 10 false (.new 5 .collecting) (.makeScript "a" "a" "" closingItself)).2
  (step 10 false w (.makeGenerator "g" "a" [] .none)).2

theorem preparedSession_reachable : Reachable preparedSession := by
  have hdone : ∀ {report : Report}, report = .done → report ≠ .outOfFuel := by
    rintro _ rfl
    nofun
  have hscript := Reachable.step (.start 5 .collecting) 10 false (.makeScript "a" "a" "" closingItself)
    (hdone rfl)
  exact hscript.step 10 false (.makeGenerator "g" "a" [] .none) (hdone rfl)

/-- The world in which the first resume of that generator comes to an event. -/
def firstMoment (event : Event) : World :=
  let e := Machine.observedEngine (.breaking (fun _ t => t.held) event fun _ => true) 10
  match carryOut e false (.drive "g" .next none) (fresh preparedSession) with
  | .ok _ t => t
  | .error _ t => { t with thread := { t.thread with id := t.thread.id - 1 } }

/-- The resume is asked for, and while the body runs it asks for the generator to be closed. -/
theorem firstMoment_amid {event : Event}
    (h : event = .asked (.resume ⟨0⟩ .none) ∨ event = .asked (.close ⟨0⟩)) :
    Amid event (firstMoment event) := by
  refine ⟨preparedSession, 10, false, .drive "g" .next none, preparedSession_reachable, ?_⟩
  rcases h with rfl | rfl
  · exact ⟨rfl, fun _ => true, rfl⟩
  · exact ⟨rfl, fun _ => true, rfl⟩

end Session

end Resumable
