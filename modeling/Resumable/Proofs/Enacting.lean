import Resumable.Proofs.Session
import Resumable.Proofs.Upholding

set_option autoImplicit false

/-!
# What commands lead to

What quiet changes and requests keep is kept by commands as well, but for those that change frames from
outside or run their code (`Command.handlesFrames`).  It must hold on when code objects, frames and generators
are made (`Admits`), and when a frame is relieved of a value that waits in it.

There is one lemma for each function of a session.
-/

namespace Resumable

variable {α : Type}

namespace Session

open Run (Keeps Marked Sustains)

variable {e : Engine} {P U B : World → Prop}

/-- The commands that change a frame from outside, or run its code on its own. -/
def Command.handlesFrames : Command → Bool
  | .editFrame _ _ => true
  | .runFrame _ _ _ => true
  | _ => false

/-- The command that relieves a frame of a value that waits in it. -/
def Command.takesWaiting : Command → Bool
  | .takeFrom _ _ => true
  | _ => false

/-- The operand of a command that changes a frame from outside, relieves it of a value or runs its code. -/
def Command.frameOperand : Command → Option Expr
  | .editFrame x _ => some x
  | .takeFrom x _ => some x
  | .runFrame x _ _ => some x
  | _ => none

/-- The frame that a command is going to handle in such a way. -/
def Command.handled (c : Command) (w : World) : Option FrameRef :=
  match c.frameOperand with
  | none => none
  | some x =>
      match evaluate x w with
      | .ok v t => frameOf t v
      | .error _ _ => none

/-- What holds of a world holds on when something is made. -/
structure Admits (P U : World → Prop) : Prop where
  code : ∀ {b w}, (c : CodeObject) → Marked P U b w → Marked P U b (w.newCode c).2
  frame : ∀ {b w}, (r : CodeRef) → (args : List Value) → Marked P U b w →
    Marked P U b (w.newFrame (.new r args)).2
  generator : ∀ {b w}, (r : CodeRef) → (args : List Value) → (closure : Value) → Marked P U b w →
    Marked P U b (w.newGenerator r args closure).2

section Upholding

variable (h : e.Upholds P U B)

include h

/-! ## Operands and variables -/

theorem upholds_evaluate (x : Expr) : Keeps P U B (evaluate x) :=
  Keeps.withPrivate (h.eval Engine.Upholds.reads_noFields x) (fun _ => Run.keeps_pure ()) ()

theorem upholds_evaluateAll (xs : List Expr) : Keeps P U B (evaluateAll xs) :=
  Keeps.withPrivate (h.evalAll Engine.Upholds.reads_noFields xs) (fun _ => Run.keeps_pure ()) ()

theorem upholds_evaluate? (x : Option Expr) : Keeps P U B (evaluate? x) := by
  cases x with
  | none => exact Run.keeps_pure _
  | some x => exact (upholds_evaluate h x).map some

theorem upholds_withOperand (x : Expr) {m : Value → Run World α} (hm : ∀ v, Keeps P U B (m v)) :
    Keeps P U B (withOperand e x m) :=
  (upholds_evaluate h x).bind fun v => h.owning (hm v) v

theorem upholds_setVariable (name : String) (v : Value) : Keeps P U B (setVariable e name v) :=
  Run.keeps_get.bind fun _ => (h.edits fun w => w.quiet_setNames _).bind fun _ => h.releaseAll _

theorem upholds_removeVariable (name : String) : Keeps P U B (removeVariable e name) :=
  Run.keeps_get.bind fun _ => (h.edits fun w => w.quiet_setNames _).bind fun _ => h.releaseAll _

theorem upholds_drawException (x : Exception) : Keeps P U B (World.drawException x) := by
  refine Run.keeps_get.bind fun w => ?_
  split
  · exact h.abort
  · exact Run.keeps_pure _

theorem upholds_drawResult (result : Except Exception Value) : Keeps P U B (World.drawOutcome result) := by
  cases result with
  | ok v => exact Run.keeps_get.bind fun w => Run.keeps_pure _
  | error x => exact (upholds_drawException h x).bind fun _ => Run.keeps_pure _

theorem upholds_drawOutcome (keep : Option String) (result : Except Exception Value) :
    Keeps P U B (drawOutcome e keep result) := by
  refine h.owning (Run.Keeps.bind ?_ fun _ => upholds_drawResult h result) _
  cases keep with
  | none => exact Run.keeps_pure ()
  | some name => exact (h.share _).bind fun _ => upholds_setVariable h name _

theorem upholds_withGenerator (name : String) {m : GeneratorRef → Run World Report}
    (hm : ∀ g, Keeps P U B (m g)) : Keeps P U B (withGenerator e name m) := by
  refine upholds_withOperand h _ fun v => ?_
  split
  · exact hm _
  · exact Run.keeps_pure _

theorem upholds_withFrameOf (x : Expr) {m : FrameRef → Run World Report} (hm : ∀ r, Keeps P U B (m r)) :
    Keeps P U B (withFrameOf e x m) := by
  refine upholds_withOperand h _ fun v => Run.keeps_get.bind fun w => ?_
  split
  · exact Run.keeps_pure _
  · exact (h.share _).bind fun _ => h.owning (hm _) _

theorem upholds_withList (x : Expr) {m : ListRef → Run World Unit} (hm : ∀ r, Keeps P U B (m r)) :
    Keeps P U B (withList e x m) := by
  refine upholds_withOperand h _ fun v => ?_
  split
  · exact (hm _).bind fun _ => Run.keeps_get.bind fun w => Run.keeps_pure _
  · exact Run.keeps_pure _

theorem upholds_withIteratorOf (x : Expr) {m : IteratorRef → Run World Report}
    (hm : ∀ r, Keeps P U B (m r)) : Keeps P U B (withIteratorOf e x m) := by
  refine upholds_withOperand h _ fun v => ?_
  split
  · exact hm _
  · exact Run.keeps_pure _

/-! ## Code, generators and frames -/

section Makers

variable (hP : Admits P U)

include hP

theorem upholds_defineCode (name : String) (c : CodeObject) : Keeps P U B (defineCode e name c) :=
  Run.Keeps.ofGet fun b w hw => by
    exact ((upholds_setVariable h name _).bind fun _ => Run.keeps_pure _) b _ (hP.code c hw)

theorem upholds_assemble (name : String) (source : Code.Source) :
    Keeps P U B (assemble e name source) := by
  unfold assemble
  cases source.assembler.assemble with
  | error fault => exact Run.keeps_pure _
  | ok p => exact upholds_defineCode h hP name _

omit h hP in
theorem upholds_withCode (name : String) {m : CodeRef → Run World Report} (hm : ∀ r, Keeps P U B (m r)) :
    Keeps P U B (withCode name m) := by
  refine Run.keeps_get.bind fun w => ?_
  split
  · exact hm _
  · exact Run.keeps_pure _

theorem upholds_makeGenerator (name code : String) (args : List Expr) (closure : Expr) :
    Keeps P U B (makeGenerator e name code args closure) :=
  upholds_withCode code fun r => (upholds_evaluateAll h args).bind fun vs =>
    (upholds_evaluate h closure).bind fun v => Run.Keeps.ofGet fun b w hw => by
      exact ((upholds_setVariable h name _).bind fun _ => Run.keeps_pure _) b _
        (hP.generator r vs v hw)

theorem upholds_makeFrame (name code : String) (args : List Expr) :
    Keeps P U B (makeFrame e name code args) :=
  upholds_withCode code fun r => (upholds_evaluateAll h args).bind fun vs =>
    Run.Keeps.ofGet fun b w hw => by
      exact ((upholds_setVariable h name _).bind fun _ => Run.keeps_pure _) b _ (hP.frame r vs hw)

end Makers

/-! ## Driving generators, items and frames -/

theorem upholds_drive (g : GeneratorRef) (operation : Drive) : Keeps P U B (drive e g operation) := by
  cases operation with
  | next => exact h.next g
  | send x => exact (upholds_evaluate h x).bind fun v => h.send g v
  | throw type value traceback =>
      exact (upholds_evaluate h type).bind fun _ => (upholds_evaluate? h value).bind fun _ =>
        (upholds_evaluate? h traceback).bind fun _ => h.throw g _
  | close => exact h.close g
  | getAttribute name =>
      refine Run.keeps_get.bind fun w => Run.Keeps.bind ?_ fun v =>
        (h.share v).bind fun _ => Run.keeps_pure v
      cases w.getAttribute g name <;> exact fun _ _ hs => hs

theorem upholds_pullOutcome (a : Adapter) : Keeps P U B (pullOutcome e a) := by
  refine Run.Keeps.bind ?_ fun pulled => ?_
  · unfold Adapter.pull
    split
    · exact Run.keeps_pure _
    · refine (h.nextOrEnd _).attempt.bind fun outcome => ?_
      rcases outcome with x | _ | v <;> exact Run.keeps_pure _
  · rcases pulled with ⟨_ | item, a⟩
    · exact Run.keeps_pure _
    · exact (upholds_drawOutcome h none item).bind fun _ => Run.keeps_pure _

theorem upholds_pullAll (n : Nat) (a : Adapter) : Keeps P U B (pullAll e n a) := by
  induction n generalizing a with
  | zero => exact Run.keeps_pure _
  | succ n ih =>
      refine (upholds_pullOutcome h a).bind fun pulled => ?_
      rcases pulled with ⟨_ | item, a⟩
      · exact Run.keeps_pure _
      · exact (ih a).bind fun _ => Run.keeps_pure _

theorem upholds_collect (full : Bool) (g : GeneratorRef) (max : Nat) :
    Keeps P U B (collect e full g max) := by
  refine (upholds_pullAll h max _).bind fun pulled => ?_
  obtain ⟨items, a⟩ := pulled
  dsimp only
  split
  · exact (upholds_pullOutcome h a).bind fun _ => Run.keeps_get.bind fun w => Run.keeps_pure _
  · exact Run.Keeps.bind (Run.keeps_pure _) fun _ => Run.keeps_get.bind fun w =>
      Run.keeps_pure _

theorem upholds_drawValue (v : Value) : Keeps P U B (drawValue e v) :=
  h.owning (Run.keeps_get.bind fun _ => Run.keeps_pure _) v

theorem upholds_drawItem (item : Except Exception (Option Value)) : Keeps P U B (drawItem e item) := by
  rcases item with x | _ | v
  · exact (upholds_drawOutcome h none _).map some
  · exact Run.keeps_pure _
  · exact (upholds_drawOutcome h none _).map some

theorem upholds_drawItemOf (r : IteratorRef) {m : Run (Iterator × World) (Option Value)}
    (hm : Sustains P U B m) : Keeps P U B (drawItemOf e r m) :=
  h.withIterator r (hm.attempt.bind fun item => (upholds_drawItem h item).beside)

theorem upholds_drawClosed (r : IteratorRef) : Keeps P U B (drawClosed e r) := by
  refine h.withIterator r (h.iteratorClose.bind fun outcome => ?_)
  cases outcome with
  | none => exact Run.keeps_pure _
  | some result => exact ((upholds_drawOutcome h none result).map some).beside

theorem upholds_traverse {σ : Type} (v : Value) (visit : Visitor σ) (start : σ) :
    Keeps P U B (traverse v visit start) := by
  unfold traverse
  split
  · exact Run.keeps_get.bind fun w => Run.keeps_pure _
  · exact (h.readFrame _).bind fun f => Run.keeps_pure _
  · exact Run.keeps_pure _

theorem upholds_construct (construction : Construction) : Keeps P U B (construct construction) := by
  cases construction with
  | stopIterationWith x => exact (upholds_evaluate h x).bind fun _ => Run.keeps_pure _
  | _ => exact Run.keeps_pure _

theorem upholds_holdLevel : Keeps P U B holdLevel := by
  refine h.enter.attempt.bind fun outcome => ?_
  rcases outcome with x | ⟨⟩
  · exact Run.keeps_get.bind fun w => Run.keeps_pure _
  · exact (h.edits fun w => w.quiet_setHeld _).bind fun _ => Run.keeps_get.bind fun w =>
      Run.keeps_pure _

theorem upholds_dropLevel : Keeps P U B dropLevel := by
  have hdepth : Keeps P U B (do return .depth (← get).thread.depth : Run World Report) :=
    Run.keeps_get.bind fun w => Run.keeps_pure _
  refine Run.Keeps.ofGet fun b w hw => ?_
  rcases hheld : w.held with _ | ⟨id, rest⟩
  · exact hdepth b w hw
  · refine hdepth b _ (h.quiet ?_ hw)
    exact ⟨rfl, le_rfl, le_rfl, fun _ => rfl, fun _ => rfl, fun hu => hu⟩

/-! ## Commands -/

theorem upholds_carryOut (hP : Admits P U) {c : Command} (hc : c.handlesFrames = false)
    (htakes : c.takesWaiting = true → ∀ r taking, Keeps P U B (takeFrom r taking)) (full : Bool) :
    Keeps P U B (carryOut e full c) := by
  have hreport : ∀ f : World → Report, Keeps P U B (do return f (← get)) := fun f =>
    Run.keeps_get.bind fun w => Run.keeps_pure (f w)
  cases c with
  | bind name x =>
      exact (upholds_evaluate h x).bind fun v => (upholds_setVariable h name v).bind fun _ =>
        Run.keeps_pure _
  | unbind name => exact (upholds_removeVariable h name).bind fun _ => Run.keeps_pure _
  | assemble name source => exact upholds_assemble h hP name source
  | disassemble source =>
      rw [carryOut]
      cases source.assembler.assemble with
      | error fault => exact Run.keeps_pure _
      | ok p => exact hreport fun w => .program (w.programListing p)
  | makeGenerator name code args closure => exact upholds_makeGenerator h hP name code args closure
  | makeScript name codeName filename script => exact upholds_defineCode h hP name _
  | makeFrame name code args => exact upholds_makeFrame h hP name code args
  | drive name operation keep =>
      exact upholds_withGenerator h name fun g => (upholds_drive h g operation).attempt.bind fun _ =>
        (upholds_drawOutcome h keep _).bind fun _ => Run.keeps_get.bind fun w => Run.keeps_pure _
  | nextOrEnd name =>
      exact upholds_withGenerator h name fun g => (h.nextOrEnd g).attempt.bind fun _ =>
        (upholds_drawItem h _).bind fun _ => Run.keeps_get.bind fun w => Run.keeps_pure _
  | iter name =>
      exact upholds_withGenerator h name fun g => hreport fun w => .iterated true (w.generatorPicture full g)
  | collect name max => exact upholds_withGenerator h name fun g => upholds_collect h full g max
  | info name =>
      exact upholds_withGenerator h name fun g =>
        hreport fun w => .info (w.generatorInfo g) (w.generatorPicture full g)
  | showFrame x => exact upholds_withFrameOf h x fun r => hreport fun w => .frame (w.framePicture true r)
  | editFrame x edit => cases hc
  | takeFrom x taking =>
      exact upholds_withFrameOf h x fun r => (htakes rfl r taking).bind fun v =>
        (upholds_drawValue h v).bind fun _ => Run.keeps_pure _
  | runFrame x closure pending => cases hc
  | referents x =>
      refine upholds_withOperand h x fun v => (upholds_traverse h v _ _).bind fun seen => ?_
      cases seen with
      | none => exact Run.keeps_pure _
      | some seen => exact hreport fun w => .values (w.pictures seen.2)
  | traverse x enough =>
      refine upholds_withOperand h x fun v => (upholds_traverse h v _ _).bind fun seen => ?_
      cases seen with
      | none => exact Run.keeps_pure _
      | some seen => exact Run.keeps_get.bind fun w => Run.keeps_pure _
  | refers x target =>
      refine upholds_withOperand h x fun v => upholds_withOperand h target fun o => ?_
      split
      · exact Run.keeps_get.bind fun w => Run.keeps_pure _
      · exact (h.readFrame _).bind fun f => Run.keeps_pure _
      · exact Run.keeps_pure _
  | inspect x => exact upholds_withOperand h x fun v => hreport fun w => .inspected (w.valueInfo v)
  | «show» x => exact upholds_withOperand h x fun v => hreport fun w => .value (w.picture v)
  | compare a b =>
      exact upholds_withOperand h a fun a => upholds_withOperand h b fun b =>
        Run.keeps_get.bind fun w => Run.keeps_pure _
  | describeCode x =>
      refine upholds_withOperand h x fun v => Run.keeps_get.bind fun w => ?_
      cases v <;> exact Run.keeps_pure _
  | normalize type value keep =>
      exact upholds_withOperand h type fun type => (upholds_evaluate? h value).bind fun value =>
        (h.normalize type value).attempt.bind fun _ => (upholds_drawOutcome h keep _).bind fun _ =>
          (h.releaseAll _).bind fun _ => Run.keeps_pure _
  | construct construction =>
      exact (upholds_construct h construction).bind fun _ => (upholds_drawOutcome h none _).bind fun _ =>
        Run.keeps_pure _
  | describeException x =>
      refine upholds_withOperand h x fun v => ?_
      split
      · exact Run.keeps_pure _
      · exact hreport fun w => .exception (w.exceptionInfo _)
  | describeKind kind => exact Run.keeps_pure _
  | describeInstruction i offset => exact Run.keeps_pure _
  | getIter x keep =>
      exact upholds_withOperand h x fun v => (h.getIter v).attempt.bind fun _ =>
        (upholds_drawOutcome h keep _).bind fun _ => Run.keeps_pure _
  | closeIter x =>
      exact upholds_withOperand h x fun v => (h.closeIter v).attempt.bind fun _ =>
        (upholds_drawOutcome h none _).bind fun _ => Run.keeps_pure _
  | iteratorNext x =>
      exact upholds_withIteratorOf h x fun r => (upholds_drawItemOf h r h.iteratorNext).bind fun _ =>
        Run.keeps_pure _
  | iteratorSend x value =>
      exact upholds_withIteratorOf h x fun r => (upholds_evaluate h value).bind fun v =>
        (upholds_drawItemOf h r (h.iteratorSend v)).bind fun _ => Run.keeps_pure _
  | iteratorClose x =>
      exact upholds_withIteratorOf h x fun r => (upholds_drawClosed h r).bind fun _ =>
        Run.keeps_pure _
  | listPush x value =>
      exact upholds_withList h x fun r => (upholds_evaluate h value).bind fun v =>
        h.edits fun w => w.quiet_setItems r _
  | listPop x =>
      exact upholds_withList h x fun r => Run.keeps_get.bind fun w =>
        (h.edits fun w => w.quiet_setItems r _).bind fun _ => h.releaseAll _
  | listClear x =>
      exact upholds_withList h x fun r => Run.keeps_get.bind fun w =>
        (h.edits fun w => w.quiet_setItems r _).bind fun _ => h.releaseAll _
  | install limit sink => exact (h.edits fun w => w.quiet_setThread _).bind fun _ => Run.keeps_pure _
  | thread => exact hreport fun w => .thread w.thread.limit w.thread.depth
  | enter => exact upholds_holdLevel h
  | leave => exact upholds_dropLevel h
  | writeLine line =>
      refine Run.Keeps.ofGet fun b w hw => ?_
      have hwritten := h.quiet (w.quiet_writeLine line) hw
      generalize w.writeLine line = x at hwritten ⊢
      obtain ⟨_ | _, t⟩ := x <;> exact hwritten

/-! ## Frames on which nothing depends -/

section Handling

variable {r : FrameRef} (hset : ∀ {b : Bool} {w : World} (x : Option Frame), Marked P U b w →
  Marked P U b (w.setFrame r x))

include hset

theorem upholds_exchange (change : Frame → Frame × List Value) : Keeps P U B (exchange e r change) := by
  refine Keeps.bind ?_ fun removed => h.releaseAll removed
  apply h.withFrame hset
  exact fun _ _ hs => hs

theorem upholds_editFrame (edit : FrameEdit) : Keeps P U B (editFrame e r edit) := by
  unfold editFrame
  cases edit with
  | position n => exact upholds_exchange h hset _
  | finish => exact upholds_exchange h hset _
  | locals xs => exact (upholds_evaluateAll h xs).bind fun vs => upholds_exchange h hset _
  | stack xs => exact (upholds_evaluateAll h xs).bind fun vs => upholds_exchange h hset _
  | blocks blocks => exact upholds_exchange h hset _
  | delegate x => exact (upholds_evaluate h x).bind fun v => upholds_exchange h hset _
  | pending x => exact (upholds_withOperand h x h.exceptionOf).bind fun _ => upholds_exchange h hset _
  | input x => exact (upholds_evaluate h x).bind fun v => h.withFrameFor hset (h.replace _) _
  | delegation x => exact (upholds_evaluate h x).bind fun v => h.finishDelegation hset v

theorem upholds_takeFrom (taking : FrameTaking) : Keeps P U B (takeFrom r taking) := by
  apply h.withFrame hset
  cases taking <;> exact fun _ _ hs => hs

theorem upholds_runFrame (closure : Value) (pending : Option Exception) :
    Keeps P U B (runFrame e r closure pending) :=
  Run.keeps_get.bind fun _ => h.withFrame hset (h.codeResume _ closure pending)

end Handling

theorem upholds_drawEnding (ending : Except Exception Suspension) : Keeps P U B (drawEnding e ending) := by
  rcases ending with x | v | v | v
  · exact h.owning ((upholds_drawException h x).bind fun _ => Run.keeps_pure _) _
  · exact (upholds_drawValue h v).map _
  · exact (upholds_drawValue h v).map _
  · exact (upholds_drawValue h v).map _

/-- A command that handles a frame does what keeps a condition, if the condition on that frame under which
nothing depends on it is kept as well. -/
theorem upholds_handling {P' : FrameRef → World → Prop} (h' : ∀ r, e.Upholds (P' r) U B)
    (hP : ∀ r t, P' r t → P t) (hset : ∀ r {b : Bool} {w : World} (x : Option Frame), Marked (P' r) U b w →
      Marked (P' r) U b (w.setFrame r x)) {c : Command} {x : Expr} (hc : c.frameOperand = some x) (full : Bool)
    {b : Bool} {w : World} (hw : Marked P U b w)
    (hhandled : ∀ v t r, evaluate x w = .ok v t → frameOf t v = some r → P t → P' r t) :
    Run.Meets (fun _ => Marked P U b) (fun _ => Marked P U b) (Marked P U true) B (carryOut e full c) w := by
  have hwork : ∀ m : FrameRef → Run World Report, (∀ r, Keeps (P' r) U B (m r)) →
      Run.Meets (fun _ => Marked P U b) (fun _ => Marked P U b) (Marked P U true) B (withFrameOf e x m) w := by
    intro m hm
    have hoperand := upholds_evaluate h x b w hw
    unfold Run.Meets at hoperand
    refine Run.Meets.bind (Q := fun v t => Marked P U b t ∧ evaluate x w = .ok v t) ?_ ?_
    · unfold Run.Meets
      rcases hx : evaluate x w with ⟨v, t⟩ | ⟨_ | _ | _, t⟩ <;> rw [hx] at hoperand
      · exact ⟨hoperand, rfl⟩
      all_goals exact hoperand
    · rintro v t ⟨ht, hx⟩
      refine Run.Meets.ensuring_keeps ?_ (h.release v)
      refine Run.Meets.get_bind ?_
      cases hr : frameOf t v with
      | none => exact ht
      | some r =>
          have hrun := ((h' r).share (.frame r)).bind (fun _ => (h' r).owning (hm r) (.frame r)) b t
            ⟨hhandled v t r hx hr ht.1, ht.2⟩
          exact hrun.mono (fun _ _ hu => ⟨hP r _ hu.1, hu.2⟩) (fun _ _ hu => ⟨hP r _ hu.1, hu.2⟩)
            (fun _ hu => ⟨hP r _ hu.1, hu.2⟩) fun _ hu => hu
  cases c with
  | editFrame y edit =>
      obtain rfl := Option.some.inj hc
      exact hwork _ fun r => (upholds_editFrame (h' r) (hset r) edit).bind fun _ =>
        Run.keeps_get.bind fun w => Run.keeps_pure _
  | takeFrom y taking =>
      obtain rfl := Option.some.inj hc
      exact hwork _ fun r => (upholds_takeFrom (h' r) (hset r) taking).bind fun v =>
        (upholds_drawValue (h' r) v).bind fun _ => Run.keeps_pure _
  | runFrame y closure pending =>
      obtain rfl := Option.some.inj hc
      refine hwork _ fun r => upholds_withOperand (h' r) closure fun closure => ?_
      have hran := fun pending => (upholds_runFrame (h' r) (hset r) closure pending).attempt.bind fun ending =>
        (upholds_drawEnding (h' r) ending).bind fun drawn => Run.keeps_get.bind fun w =>
          Run.keeps_pure (Report.frameRan drawn (w.framePicture true r))
      cases pending with
      | none => exact (Run.keeps_pure none).bind hran
      | some y => exact ((upholds_withOperand (h' r) y (h' r).exceptionOf).map some).bind hran
  | _ => cases hc

end Upholding

end Session

end Resumable
