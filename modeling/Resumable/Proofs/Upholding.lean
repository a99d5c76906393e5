import Resumable.Proofs.Accounts
import Resumable.Proofs.Contracts

set_option autoImplicit false

/-!
# What a body leads to

A body that runs changes lists, iterators, owners and the journal by itself.  Everything that it does to
generators and to frames other than its own, it does by requests.  So what holds of a world goes on to hold
while a body runs if it does not depend on the former, and if the requests keep it
(`Engine.Upholds.codeResume`).

There is one lemma for each function of the model up to there.
-/

namespace Resumable

variable {α β τ ω : Type}

/-! ## Quiet changes -/

/-- Code objects, generators and frames are the same, and there may be room for more generators and frames.
A computation that is being abandoned goes on being abandoned. -/
structure World.Quiet (w t : World) : Prop where
  codes : t.codes = w.codes
  size : w.frames.size ≤ t.frames.size
  count : w.generators.size ≤ t.generators.size
  generator : ∀ g, t.generator g = w.generator g
  frame : ∀ r, t.frame? r = w.frame? r
  unwinding : w.unwinding = true → t.unwinding = true

namespace World

variable {w t u : World}

@[refl] theorem Quiet.refl (w : World) : w.Quiet w := ⟨rfl, le_rfl, le_rfl, fun _ => rfl, fun _ => rfl, id⟩

theorem Quiet.trans (h : w.Quiet t) (h' : t.Quiet u) : w.Quiet u :=
  ⟨h'.codes.trans h.codes, h.size.trans h'.size, h.count.trans h'.count, fun g => (h'.generator g).trans (h.generator g),
    fun r => (h'.frame r).trans (h.frame r), fun hu => h'.unwinding (h.unwinding hu)⟩

theorem quiet_setItems (w : World) (r : ListRef) (vs : List Value) : w.Quiet (w.setItems r vs) :=
  ⟨rfl, le_rfl, le_rfl, by simp, by simp, id⟩

theorem quiet_setIterator (w : World) (r : IteratorRef) (x : Option Iterator) :
    w.Quiet (w.setIterator r x) := ⟨rfl, le_rfl, le_rfl, by simp, by simp, id⟩

theorem size_setOwners_le (w : World) (n : Nat) (o : Object) :
    w.frames.size ≤ (w.setOwners n o).frames.size := by
  cases o with
  | frame r => exact Store.size_set_le _ _ _
  | _ => exact le_rfl

theorem count_setOwners_le (w : World) (n : Nat) (o : Object) :
    w.generators.size ≤ (w.setOwners n o).generators.size := by
  cases o with
  | generator g => exact Store.size_set_le _ _ _
  | _ => exact le_rfl

theorem quiet_setOwners (w : World) (n : Nat) (o : Object) : w.Quiet (w.setOwners n o) :=
  ⟨congrArg Surroundings.codes (surroundings_setOwners w n o), w.size_setOwners_le n o,
    w.count_setOwners_le n o, by simp, by simp,
    fun hu => (congrArg Surroundings.unwinding (surroundings_setOwners w n o)).trans hu⟩

theorem quiet_addOwners (w : World) (os : List Object) : w.Quiet (w.addOwners os) := by
  induction os generalizing w with
  | nil => exact .refl w
  | cons o os ih => exact (w.quiet_setOwners _ o).trans (ih _)

theorem quiet_newList (w : World) (vs : List Value) : w.Quiet (w.newList vs).2 :=
  ⟨rfl, le_rfl, le_rfl, fun _ => rfl, fun _ => rfl, id⟩

theorem quiet_newIterator (w : World) (x : Iterator) : w.Quiet (w.newIterator x).2 :=
  ⟨rfl, le_rfl, le_rfl, fun _ => rfl, fun _ => rfl, id⟩

theorem quiet_setThread (w : World) (thread : Thread) : w.Quiet { w with thread := thread } :=
  ⟨rfl, le_rfl, le_rfl, fun _ => rfl, fun _ => rfl, id⟩

theorem quiet_setNames (w : World) (names : Names) :
    w.Quiet { w with names := names } :=
  ⟨rfl, le_rfl, le_rfl, fun _ => rfl, fun _ => rfl, id⟩

theorem quiet_setHeld (w : World) (held : List Nat) : w.Quiet { w with held := held } :=
  ⟨rfl, le_rfl, le_rfl, fun _ => rfl, fun _ => rfl, id⟩

/-- The mark of a computation that is being abandoned. -/
theorem quiet_setUnwinding (w : World) : w.Quiet { w with unwinding := true } :=
  ⟨rfl, le_rfl, le_rfl, fun _ => rfl, fun _ => rfl, fun _ => rfl⟩

theorem quiet_note (w : World) (x : LogEntry) : w.Quiet (w.note x) :=
  ⟨rfl, le_rfl, le_rfl, fun _ => rfl, fun _ => rfl, id⟩

theorem quiet_write (w : World) (s : String) : w.Quiet (w.write s).2 := by
  unfold write
  split <;> exact ⟨rfl, le_rfl, le_rfl, fun _ => rfl, fun _ => rfl, id⟩

theorem quiet_writeLine (w : World) (line : String) : w.Quiet (w.writeLine line).2 := by
  have hfirst : w.Quiet (if line.isEmpty then (.ok (), w) else w.write line).2 := by
    split
    · exact .refl w
    · exact w.quiet_write line
  unfold writeLine
  generalize (if line.isEmpty then (.ok (), w) else w.write line : Except DiagnosticError Unit × World) = x
    at hfirst
  obtain ⟨_ | _, t⟩ := x
  · exact hfirst
  · have hsecond := hfirst.trans (t.quiet_write "\n")
    simp only
    generalize t.write "\n" = y at hsecond
    obtain ⟨_ | _, u⟩ := y <;> exact hsecond

end World

open Run (Keeps Marked Sustains)

/-- What holds of a world is kept by quiet changes, and the requests keep it.  The mark is one that a world
gets when a computation is abandoned. -/
structure Engine.Upholds (e : Engine) (P U B : World → Prop) : Prop where
  quiet : ∀ {b : Bool} {w t : World}, w.Quiet t → Marked P U b w → Marked P U b t
  marks : ∀ w, P w → U { w with unwinding := true }
  spent : ∀ w, P w → B w
  requests : ∀ request, Keeps P U B (e.perform request)

namespace Engine.Upholds

variable {e : Engine} {P U B : World → Prop}

/-! ## Ownership -/

section Operations

variable (h : e.Upholds P U B)

include h

theorem edits {edit : World → World} (hedit : ∀ w : World, w.Quiet (edit w)) :
    Keeps P U B (modify edit : Run World Unit) := fun _ w hw => h.quiet (hedit w) hw

theorem share (v : Value) : Keeps P U B (World.share v) := h.edits fun w => w.quiet_addOwners _

theorem shareAll (vs : List Value) : Keeps P U B (World.shareAll vs) :=
  h.edits fun w => w.quiet_addOwners _

theorem releaseObject (o : Object) : Keeps P U B (e.releaseObject o) := by
  intro b w hw
  have hdone := h.requests (.reclaim o) b _ (h.quiet (w.quiet_setOwners 0 o) hw)
  unfold Run.Meets at hdone ⊢
  unfold Engine.releaseObject
  dsimp only
  rcases w.owners o with _ | _ | n
  · exact hw
  · dsimp only
    rcases hx : e.perform (.reclaim o) (w.setOwners 0 o) with ⟨v, t⟩ | ⟨_ | _ | _, t⟩ <;>
      rw [hx] at hdone <;> exact hdone
  · exact h.quiet (w.quiet_setOwners _ o) hw

theorem releaseObjects (os : List Object) : Keeps P U B (e.releaseObjects os) := by
  induction os with
  | nil => exact Run.keeps_pure ()
  | cons o os ih => exact (h.releaseObject o).ensuring ih

theorem release (v : Value) : Keeps P U B (e.release v) := h.releaseObjects _

theorem releaseAll (vs : List Value) : Keeps P U B (e.releaseAll vs) := h.releaseObjects _

theorem releaseException (x : Exception) : Keeps P U B (e.releaseException x) := h.releaseAll _

theorem releasePending (pending : Option Exception) : Keeps P U B (e.releasePending pending) := by
  cases pending with
  | none => exact Run.keeps_pure ()
  | some x => exact h.releaseException x

theorem owning {m : Run World α} (hm : Keeps P U B m) (v : Value) : Keeps P U B (e.owning v m) :=
  hm.ensuring (h.release v)

/-! ## Access -/

theorem abort : Keeps P U B (World.abort : Run World α) := fun _ w hw =>
  ⟨(h.quiet w.quiet_setUnwinding hw).1, fun _ => h.marks w hw.1⟩

theorem readFrame (r : FrameRef) : Keeps P U B (World.readFrame r) := by
  intro b w hw
  unfold Run.Meets World.readFrame
  cases w.frame? r with
  | none => exact h.abort (α := Frame) b w hw
  | some f => exact hw

theorem readIterator (r : IteratorRef) : Keeps P U B (World.readIterator r) := by
  intro b w hw
  unfold Run.Meets World.readIterator
  cases w.iterator? r with
  | none => exact h.abort (α := Iterator) b w hw
  | some i => exact hw

theorem withIterator (r : IteratorRef) {m : Run (Iterator × World) α} (hm : Sustains P U B m) :
    Keeps P U B (World.withIterator r m) := by
  intro b w hw
  unfold Run.Meets World.withIterator
  cases w.iterator? r with
  | none => exact h.abort (α := α) b w hw
  | some i =>
      have hback : ∀ j : Iterator, Keeps P U B (modify (·.setIterator r (some j)) : Run World Unit) :=
        fun j => h.edits fun t => t.quiet_setIterator r (some j)
      exact hm.withPrivate hback i b (w.setIterator r none) (h.quiet (w.quiet_setIterator r none) hw)

theorem enter : Keeps P U B World.enter := by
  intro b w hw
  unfold Run.Meets World.enter
  cases w.thread.enter? with
  | none => exact hw
  | some thread => exact h.quiet (w.quiet_setThread thread) hw

theorem leave : Keeps P U B World.leave := h.edits fun w => w.quiet_setThread _

theorem typeName (v : Value) : Keeps P U B (World.typeName v) := by
  intro b w hw
  unfold Run.Meets World.typeName
  cases w.typeName? v with
  | none => exact h.abort (α := String) b w hw
  | some name => exact hw

theorem faultMessage (fault : Exception.Fault) : Keeps P U B (World.faultMessage fault) := by
  cases fault with
  | separateValue => exact Run.keeps_pure _
  | notAnException type => exact (h.typeName type).bind fun name => Run.keeps_pure _

theorem normalize (type : Value) (value : Option Value) : Keeps P U B (World.normalize type value) := by
  unfold World.normalize
  cases Exception.normalize type value with
  | ok x => exact (h.shareAll x.args).bind fun _ => Run.keeps_pure x
  | error fault => exact (h.faultMessage fault).bind fun message => Run.keeps_raise _

theorem exceptionOf (v : Value) : Keeps P U B (World.exceptionOf v) := by
  refine (h.normalize v none).attempt.bind fun outcome => ?_
  cases outcome <;> exact Run.keeps_pure _

/-- Changing a frame that is out of its cell. -/
theorem replace (change : Frame → Frame × List Value) : Sustains P U B (e.replace change) := by
  rintro b ⟨f, w⟩ hw
  exact (h.releaseAll (change f).2).beside b ((change f).1, w) hw

/-- Moving the resume point of a frame that is out of its cell. -/
theorem stepOn : Sustains P U B World.stepOn := by
  refine Run.keeps_get.bind fun s => ?_
  split
  · exact fun _ _ hs => hs
  · exact h.abort.beside

/-! ## Frames on which nothing depends -/

section Frames

variable {r : FrameRef} (hset : ∀ {b : Bool} {w : World} (x : Option Frame), Marked P U b w →
  Marked P U b (w.setFrame r x))

include hset

/-- Work on a frame, where nothing depends on that frame. -/
theorem withFrame {m : Run (Frame × World) α} (hm : Sustains P U B m) : Keeps P U B (World.withFrame r m) := by
  intro b w hw
  unfold Run.Meets World.withFrame
  cases w.frame? r with
  | none => exact h.abort (α := α) b w hw
  | some f =>
      have hback : ∀ d : Frame, Keeps P U B (modify (·.setFrame r (some d)) : Run World Unit) :=
        fun d _ t ht => hset (some d) ht
      exact hm.withPrivate hback f b (w.setFrame r none) (hset none hw)

theorem withFrameFor {m : Run (Frame × World) α} (hm : Sustains P U B m) (vs : List Value) :
    Keeps P U B (e.withFrameFor vs r m) :=
  ((h.readFrame r).onInterruption (h.releaseAll vs)).bind fun _ => h.withFrame hset hm

theorem takePending : Keeps P U B (Engine.takePending r) := by
  apply h.withFrame hset
  exact fun _ _ hs => hs

theorem handOver (v : Value) : Keeps P U B (e.handOver r v) := by
  unfold Engine.handOver
  split
  · exact Run.keeps_pure _
  · exact (h.share v).bind fun _ => h.withFrameFor hset (h.replace _) _

theorem finishDelegation (v : Value) : Keeps P U B (e.finishDelegation r v) :=
  h.withFrameFor hset ((((h.replace _).bind fun _ => h.stepOn).onInterruption (h.release v).beside).bind
    fun _ => h.replace _) _

end Frames

/-! ## Diagnostics -/

theorem describe (x : Exception) (g : GeneratorRef) : Keeps P U B (e.describe x g) := by
  refine Run.keeps_get.bind fun w => ?_
  dsimp only
  split
  · exact h.abort.ensuring (h.releaseException x)
  · exact Run.keeps_pure _

theorem report (x : Exception) (g : GeneratorRef) : Keeps P U B (e.report x g) :=
  (h.describe x g).bind fun line => (h.edits fun w => w.quiet_writeLine line).bind fun _ =>
    h.releaseException x

/-! ## Operations on generators -/

theorem next (g : GeneratorRef) : Keeps P U B (e.next g) := h.requests _

theorem throw (g : GeneratorRef) (thrown : Throw) : Keeps P U B (e.throw g thrown) := h.requests _

theorem close (g : GeneratorRef) : Keeps P U B (e.close g) := h.requests _

theorem nextOrEnd (g : GeneratorRef) : Keeps P U B (e.nextOrEnd g) := by
  refine (h.next g).attempt.bind fun outcome => ?_
  cases outcome with
  | ok v => exact Run.keeps_pure _
  | error x =>
      dsimp only
      split
      · exact (h.releaseException x).bind fun _ => Run.keeps_pure _
      · exact Run.keeps_raise x

theorem send (g : GeneratorRef) (v : Value) : Keeps P U B (e.send g v) := by
  refine Run.keeps_get.bind fun w => ?_
  split
  · exact h.owning (Run.keeps_raise _) v
  · split
    · exact h.owning (Run.keeps_raise _) v
    · exact h.requests _

/-! ## Expressions and calls -/

theorem makeList (items : List Value) : Keeps P U B (World.makeList items) := fun _ w hw =>
  h.quiet (w.quiet_newList items) hw

theorem makeIterator (i : Iterator) : Keeps P U B (World.makeIterator i) := fun _ w hw =>
  h.quiet (w.quiet_newIterator i) hw

theorem lookUp (name : String) : Keeps P U B (World.lookUp name) :=
  Run.keeps_get.bind fun _ => (h.share _).bind fun _ => Run.keeps_pure _

end Operations

mutual

theorem eval (h : e.Upholds P U B) {fields : FieldReader τ}
    (hfields : ∀ field, Sustains P U B (fields field)) :
    (x : Expr) → Sustains P U B (x.eval fields)
  | .none | .bool _ | .int _ | .str _ | .exceptionType _ | .traceback _ => by
      rw [Expr.eval]
      exact Run.keeps_pure _
  | .list items => by
      rw [Expr.eval]
      exact (evalAll h hfields items).bind fun vs => (h.makeList vs).beside
  | .variable name => by
      rw [Expr.eval]
      exact (h.lookUp name).beside
  | .exception _ args _ _ => by
      rw [Expr.eval]
      exact (evalAll h hfields args).bind fun vs => Run.keeps_pure _
  | .listIterator source => by
      rw [Expr.eval]
      refine (eval h hfields source).bind fun v => ?_
      split
      · exact (h.makeIterator _).beside
      · exact Run.keeps_pure _
  | .scripted _ _ _ _ => by
      rw [Expr.eval]
      exact (h.makeIterator _).beside
  | .field f => by
      rw [Expr.eval]
      exact hfields f

theorem evalAll (h : e.Upholds P U B) {fields : FieldReader τ}
    (hfields : ∀ field, Sustains P U B (fields field)) :
    (xs : List Expr) → Sustains P U B (Expr.evalAll fields xs)
  | [] => by
      rw [Expr.evalAll]
      exact Run.keeps_pure _
  | x :: xs => by
      rw [Expr.evalAll]
      exact (eval h hfields x).bind fun v => (evalAll h hfields xs).bind fun vs => Run.keeps_pure _

end

/-- Outside of a body nothing is read. -/
theorem reads_noFields (field : BodyField) :
    Sustains P U B (noFields field : Run (τ × World) Value) := Run.keeps_pure _

section Calls

variable (h : e.Upholds P U B)

include h

theorem call (g : GeneratorRef) (method : Method) (args : List Value) :
    Keeps P U B (e.call g method args) := by
  unfold Engine.call
  cases method with
  | next => exact h.next g
  | nextOrEnd => exact (h.nextOrEnd g).bind fun _ => Run.keeps_pure _
  | send => exact h.send g _
  | throw => exact h.throw g _
  | close => exact h.close g
  | yieldFrom =>
      exact Run.keeps_get.bind fun _ => (h.share _).bind fun _ => Run.keeps_pure _
  | _ => exact Run.keeps_get.bind fun _ => Run.keeps_pure _

theorem callResult (g : GeneratorRef) (method : Method) (args : List Value) :
    Keeps P U B (e.callResult g method args) := by
  refine (h.call g method args).attempt.bind fun outcome => ?_
  cases outcome <;> exact Run.keeps_pure _

theorem performCall {fields : FieldReader τ} (hfields : ∀ field, Sustains P U B (fields field))
    (c : Call) : Sustains P U B (e.performCall fields c) := by
  obtain ⟨name, method, args⟩ := c
  refine (h.lookUp name).beside.bind fun target => (h.evalAll hfields args).bind fun args => ?_
  refine (h.owning ?_ target).beside
  split
  · exact (h.callResult _ method args).ensuring (h.releaseAll _)
  · exact (h.releaseAll args).bind fun _ => Run.keeps_pure _

theorem raiseValue (v : Value) : Keeps P U B (e.raiseValue v : Run World α) :=
  h.owning ((h.exceptionOf v).bind fun x => Run.keeps_raise x) v

theorem respond {fields : FieldReader τ} (hfields : ∀ field, Sustains P U B (fields field))
    (response : Response) : Sustains P U B (e.respond fields response) := by
  cases response with
  | value x => exact h.eval hfields x
  | raise x => exact (h.eval hfields x).bind fun v => (h.raiseValue v).beside
  | call c => exact h.performCall hfields c

/-! ## Iteration -/

theorem iteratorNext : Sustains P U B (Iterator.next e) := by
  refine Run.Keeps.ofGet ?_
  rintro b ⟨i, w⟩ hw
  cases i with
  | list source index =>
      dsimp only
      cases (w.items source)[index]? with
      | none => exact hw
      | some v => exact h.quiet (w.quiet_addOwners _) hw
  | scripted s =>
      dsimp only
      rcases s.items with _ | ⟨_ | response, rest⟩
      · exact hw
      · exact hw
      · exact ((h.respond reads_noFields response).map some)
          b (Iterator.scripted { s with items := rest }, w) hw

theorem iteratorSend (v : Value) : Sustains P U B (Iterator.send e v) := by
  have hitem : Sustains P U B
      (if v.isNone then Iterator.next e else pure (some v) : Run (Iterator × World) (Option Value)) := by
    split
    · exact h.iteratorNext
    · exact Run.keeps_pure _
  have hrefused (i : Iterator) : Sustains P U B
      (if v.isNone then Iterator.next e
        else Run.ensuring (Run.raise (.attributeError i.typeName "send")) (Run.shared (e.release v)) :
          Run (Iterator × World) (Option Value)) := by
    split
    · exact h.iteratorNext
    · exact (Run.keeps_raise _).ensuring (h.release v).beside
  refine Run.Keeps.ofGet ?_
  rintro b ⟨i, w⟩ hw
  cases i with
  | list source index => exact hrefused (.list source index) b (.list source index, w) hw
  | scripted s =>
      dsimp only
      split
      · exact hitem b (.scripted s, _) (h.quiet (w.quiet_note _) hw)
      · exact hrefused (.scripted s) b (.scripted s, w) hw

theorem iteratorClose : Sustains P U B (Iterator.close? e) := by
  refine Run.keeps_get.bind fun (i, w) => ?_
  dsimp only
  split
  · exact Run.keeps_pure _
  · split
    · exact Run.keeps_pure _
    · refine Run.Keeps.bind (fun _ s hs => h.quiet (s.2.quiet_note _) hs) fun _ => ?_
      refine (h.respond reads_noFields _).attempt.bind fun closed => ?_
      split
      · exact Run.Keeps.bind (fun _ s hs => h.quiet (s.2.quiet_note _) hs) fun _ =>
          Run.keeps_pure _
      · exact Run.keeps_pure _

theorem getIter (v : Value) : Keeps P U B (World.getIter v) := by
  unfold World.getIter
  cases v with
  | list r => exact (h.share _).bind fun _ => h.makeIterator _
  | generator g => exact (h.share _).bind fun _ => Run.keeps_pure _
  | iterator r => exact (h.share _).bind fun _ => Run.keeps_pure _
  | _ => exact (h.typeName _).bind fun name => Run.keeps_raise _

theorem notAnIterator (v : Value) : Keeps P U B (World.notAnIterator v : Run World α) :=
  (h.typeName v).bind fun _ => Run.keeps_raise _

theorem nextItem (v : Value) : Keeps P U B (e.nextItem v) := by
  cases v with
  | generator g => exact h.nextOrEnd g
  | iterator r => exact h.withIterator r h.iteratorNext
  | _ => exact h.notAnIterator _

theorem sendToIterator (r : IteratorRef) (v : Value) : Keeps P U B (e.sendToIterator r v) :=
  ((h.readIterator r).onInterruption (h.release v)).bind fun _ => h.withIterator r (h.iteratorSend v)

theorem takeStopValue (x : Exception) : Keeps P U B (e.takeStopValue x) :=
  (h.share _).bind fun _ => (h.releaseException x).bind fun _ => Run.keeps_pure _

theorem sendInto (target v : Value) : Keeps P U B (e.sendInto target v) := by
  refine Run.Keeps.bind (Run.Keeps.attempt ?_) fun outcome => ?_
  · cases target with
    | generator g => exact (h.send g v).map some
    | iterator r => exact h.sendToIterator r v
    | _ => exact h.owning (h.notAnIterator _) v
  · rcases outcome with x | _ | item
    · dsimp only
      split
      · exact (h.takeStopValue x).bind fun _ => Run.keeps_pure _
      · exact Run.keeps_raise x
    · exact Run.keeps_pure _
    · exact Run.keeps_pure _

theorem closeIter (v : Value) : Keeps P U B (e.closeIter v) := by
  cases v with
  | generator g => exact h.close g
  | iterator r =>
      refine h.withIterator r (h.iteratorClose.bind fun closed => ?_)
      rcases closed with _ | x | v
      · exact Run.keeps_pure _
      · dsimp only
        split
        · exact (h.releaseException x).beside.bind fun _ => Run.keeps_pure _
        · exact Run.keeps_raise x
      · exact Run.keeps_pure _
  | _ => exact Run.keeps_pure _

end Calls

end Engine.Upholds

/-! ## The interpreter -/

namespace Exec

variable {e : Engine} {p : Code.Program} {closure : Value} {P U B : World → Prop}

/-- A step that leaves the world alone. -/
theorem upholds_of_same {m : Exec α} (hm : ∀ s, Run.Meets (fun _ t => t.2 = s.2) (fun _ t => t.2 = s.2)
    (fun _ => False) (fun _ => False) m s) : Sustains P U B m := by
  intro b s hs
  have hsame : ∀ t : Activation × World, t.2 = s.2 →
      Marked (fun t : Activation × World => P t.2) (fun t => U t.2) b t := by
    intro t ht
    show P t.2 ∧ (b = true → U t.2)
    rw [ht]
    exact hs
  exact (hm s).mono (fun _ => hsame) (fun _ => hsame) (fun _ h => h.elim) fun _ h => h.elim

theorem upholds_activation : Sustains P U B activation := upholds_of_same fun _ => rfl

theorem upholds_modifyFrame (edit : Frame → Frame) : Sustains P U B (modifyFrame edit) :=
  upholds_of_same fun _ => rfl

theorem upholds_goTo (position : Nat) : Sustains P U B (goTo position) :=
  upholds_of_same fun _ => rfl

theorem upholds_push (v : Value) : Sustains P U B (push v) := upholds_modifyFrame _

theorem upholds_takeSent : Sustains P U B takeSent := upholds_of_same fun _ => rfl

theorem upholds_pop : Sustains P U B pop := upholds_of_same fun s => by
  unfold Run.Meets pop
  dsimp only
  cases s.1.frame.stack <;> rfl

theorem upholds_peek : Sustains P U B peek := upholds_of_same fun s => by
  unfold Run.Meets peek
  dsimp only
  cases s.1.frame.stack <;> rfl

section Steps

variable (h : e.Upholds P U B)

include h

theorem upholds_target (offset : Int) : Sustains P U B (target offset) := by
  refine upholds_activation.bind fun a => ?_
  dsimp only
  split
  · exact Run.keeps_raise _
  · split
    · exact Run.keeps_pure _
    · exact h.abort.beside

theorem upholds_jump (offset : Int) : Sustains P U B (jump offset) :=
  (upholds_target h offset).bind upholds_goTo

theorem upholds_release (v : Value) : Sustains P U B (release e v) := (h.release v).beside

theorem upholds_owning {m : Exec α} (hm : Sustains P U B m) (v : Value) :
    Sustains P U B (owning e v m) := hm.ensuring (upholds_release h v)

theorem upholds_replace (change : Frame → Frame × List Value) : Sustains P U B (replace e change) :=
  upholds_activation.bind fun _ => (upholds_modifyFrame _).bind fun _ => (h.releaseAll _).beside

theorem upholds_clearStack : Sustains P U B (clearStack e) :=
  upholds_activation.bind fun _ => (upholds_modifyFrame _).bind fun _ => (h.releaseAll _).beside

theorem upholds_refuse (left right : Value) (message : String → String → String) :
    Sustains P U B (refuse e left right message : Exec α) := by
  refine upholds_owning h (upholds_owning h ?_ right) left
  exact (h.typeName left).beside.bind fun _ => (h.typeName right).beside.bind fun _ =>
    Run.keeps_raise _

theorem upholds_binary (op : Value → Value → Except OperandFault Value)
    (message : String → String → String) : Sustains P U B (binary e op message) := by
  refine upholds_pop.bind fun right => ?_
  refine (upholds_pop.onInterruption (upholds_release h right)).bind fun left => ?_
  split
  · exact upholds_push _
  · exact Run.keeps_raise _
  · exact upholds_refuse h left right message

theorem upholds_loadFast (index : Nat) : Sustains P U B (loadFast p index) := by
  refine upholds_activation.bind fun a => ?_
  split
  · exact (h.share _).beside.bind fun _ => upholds_push _
  · exact Run.keeps_raise _

theorem upholds_storeFast (index : Nat) : Sustains P U B (storeFast e index) := by
  refine upholds_pop.bind fun v => ?_
  split
  · exact upholds_replace h _
  · exact upholds_owning h h.abort.beside v

theorem upholds_forIter (offset : Int) : Sustains P U B (forIter e offset) := by
  refine upholds_peek.bind fun iterator => (h.share iterator).beside.bind fun _ => ?_
  refine upholds_owning h ((h.nextItem iterator).beside.bind fun item => ?_) iterator
  split
  · exact upholds_push _
  · exact upholds_pop.bind fun v => (upholds_release h v).bind fun _ => upholds_jump h offset

theorem upholds_listAppend : Sustains P U B (listAppend e) := by
  refine upholds_pop.bind fun item => ?_
  refine (upholds_pop.onInterruption (upholds_release h item)).bind fun target => ?_
  split
  · exact Run.Keeps.bind (fun _ s hs => h.quiet (s.2.quiet_setItems _ _) hs) fun _ =>
      upholds_release h _
  · refine upholds_owning h (upholds_owning h ?_ _) item
    exact (h.typeName _).beside.bind fun _ => Run.keeps_raise _

theorem upholds_delegate : Sustains P U B (delegate e) := by
  refine upholds_activation.bind fun a => ?_
  split
  · exact (h.share _).beside.bind fun _ => Run.keeps_pure _
  · refine upholds_pop.bind fun iterable => ?_
    refine (upholds_owning h (h.getIter iterable).beside iterable).bind fun inner => ?_
    exact (upholds_modifyFrame _).bind fun _ => (h.share inner).beside.bind fun _ =>
      Run.keeps_pure _

theorem upholds_yieldFrom : Sustains P U B (yieldFrom e) := by
  refine (upholds_delegate h).bind fun inner => upholds_owning h ?_ inner
  refine upholds_activation.bind fun a => (upholds_modifyFrame _).bind fun _ => ?_
  refine upholds_takeSent.bind fun sent => (h.sendInto inner sent).beside.attempt.bind fun outcome => ?_
  split
  · exact Run.keeps_pure _
  · exact Run.keeps_pure _
  · exact (upholds_replace h _).bind fun _ => Run.keeps_raise _

theorem upholds_finish (v : Value) : Sustains P U B (finish e v) :=
  (upholds_modifyFrame _).bind fun _ =>
    ((upholds_clearStack h).onInterruption (upholds_release h v)).bind fun _ => Run.keeps_pure _

/-- One instruction. -/
theorem upholds_execute (i : Code.Instruction) : Sustains P U B (execute e p closure i) := by
  have hthen : ∀ {m : Exec Unit}, Sustains P U B m →
      Sustains P U B (do m; return none : Exec (Option Suspension)) :=
    fun hm => hm.bind fun _ => Run.keeps_pure _
  cases i with
  | loadConst index =>
      rw [execute]
      cases p.constants[index]? with
      | some c => exact hthen (upholds_push _)
      | none => exact hthen (Run.keeps_raise (.systemError "constant index out of range"))
  | loadFast index => exact hthen (upholds_loadFast h index)
  | storeFast index => exact hthen (upholds_storeFast h index)
  | loadClosure => exact (h.share closure).beside.bind fun _ => hthen (upholds_push closure)
  | popTop => exact upholds_pop.bind fun v => hthen (upholds_release h v)
  | add | sub | lessThan => exact hthen (upholds_binary h _ _)
  | jump offset => exact hthen (upholds_jump h offset)
  | jumpIfFalse offset =>
      refine upholds_pop.bind fun v => Run.keeps_get.bind fun s =>
        (upholds_release h v).bind fun _ => ?_
      split
      · exact Run.keeps_pure _
      · exact hthen (upholds_jump h offset)
  | getIter =>
      refine upholds_pop.bind fun iterable => hthen (upholds_owning h ?_ iterable)
      exact (h.getIter iterable).beside.bind fun v => upholds_push v
  | forIter offset => exact hthen (upholds_forIter h offset)
  | listAppend => exact hthen (upholds_listAppend h)
  | yieldValue =>
      exact upholds_pop.bind fun v => upholds_activation.bind fun a =>
        (upholds_modifyFrame _).bind fun _ => Run.keeps_pure _
  | yieldFrom => exact (upholds_yieldFrom h).map some
  | setupExcept offset =>
      exact (upholds_target h offset).bind fun handler => hthen (upholds_modifyFrame _)
  | popBlock => exact hthen (upholds_modifyFrame _)
  | jumpIfNotExcMatch kind offset =>
      refine upholds_peek.bind fun v => ?_
      split
      · exact Run.keeps_pure _
      · exact hthen (upholds_jump h offset)
  | raise => exact upholds_pop.bind fun v => (h.raiseValue v).beside
  | returnValue => exact upholds_pop.bind fun v => (upholds_finish h v).map some

theorem upholds_unwind (x : Exception) : Sustains P U B (unwind e x) := by
  refine upholds_activation.bind fun a => ?_
  split
  · refine (upholds_modifyFrame _).bind fun _ => ?_
    refine ((h.releaseAll _).beside.onInterruption (upholds_release h _)).bind fun _ => ?_
    exact (upholds_push _).bind fun _ => upholds_goTo _
  · refine (upholds_modifyFrame _).bind fun _ => Run.keeps_get.bind fun s => ?_
    refine upholds_activation.bind fun b => ?_
    refine ((upholds_clearStack h).onInterruption (upholds_release h _)).bind fun _ => ?_
    exact (upholds_modifyFrame _).bind fun _ => Run.keeps_raise _

/-- A run, by induction on the instructions that it may carry out. -/
theorem upholds_run (n : Nat) : Sustains P U B (run e p closure n) := by
  induction n with
  | zero => exact Run.keeps_outOfFuel fun s hs => h.spent s.2 hs
  | succ n ih =>
      refine upholds_activation.bind fun a => ?_
      split
      · exact upholds_finish h .none
      · refine (upholds_goTo _).bind fun _ => (upholds_execute h _).attempt.bind fun outcome => ?_
        split
        · exact Run.keeps_pure _
        · exact ih
        · exact (upholds_unwind h _).bind fun _ => ih

omit h in
theorem upholds_pushResumeValue : Sustains P U B (pushResumeValue p) := by
  refine upholds_activation.bind fun a => ?_
  split
  · exact Run.keeps_pure _
  · split
    · exact upholds_takeSent.bind fun v => upholds_push v
    · exact (upholds_modifyFrame _).bind fun _ => upholds_push _
    · exact Run.keeps_pure _

theorem upholds_resume (pending : Option Exception) :
    Sustains P U B (resume e p closure pending) := by
  cases pending with
  | none => exact upholds_pushResumeValue.bind fun _ => upholds_run h _
  | some x => exact (upholds_unwind h x).bind fun _ => upholds_run h _

end Steps

end Exec

theorem Code.Program.upholds_resume {p : Code.Program} {e : Engine} {P U B : World → Prop} (h : e.Upholds P U B)
    (closure : Value) (pending : Option Exception) :
    Sustains P U B (p.resume e closure pending) := by
  rintro b ⟨f, w⟩ hw
  by_cases hposition : f.position < 0
  · have hrefused : Sustains P U B (Run.ensuring (Run.raise (.systemError "cannot resume a finished frame"))
        (Run.shared (e.releasePending pending)) : Run (Frame × World) Suspension) :=
      (Run.keeps_raise _).ensuring (h.releasePending pending).beside
    have hended := hrefused b (f, w) hw
    unfold Run.Meets at hended ⊢
    unfold Code.Program.resume
    dsimp only
    rwa [if_pos hposition]
  · let a : Activation := ⟨{ f with input := none }, f.position.toNat, f.input.getD .none⟩
    have hresume : Sustains P U B (Exec.resume e p closure pending) := Exec.upholds_resume h pending
    have hresumed := (hresume.ensuring (c := do Exec.release e (← Exec.takeSent))
      (Exec.upholds_takeSent.bind fun v => Exec.upholds_release h v)) b (a, w) hw
    unfold Run.Meets at hresumed ⊢
    unfold Code.Program.resume
    dsimp only
    rw [if_neg hposition]
    generalize ((Exec.resume e p closure pending).ensuring
      (do Exec.release e (← Exec.takeSent))) (a, w) = y at hresumed ⊢
    rcases y with ⟨s, d, u⟩ | ⟨_ | _ | _, d, u⟩ <;> exact hresumed

/-! ## Scripted bodies -/

namespace Performance

variable {e : Engine} {closure : Value} {P U B : World → Prop}

theorem upholds_frameOf : Sustains P U B frameOf := fun _ _ hs => hs

theorem upholds_modifyFrame (edit : Frame → Frame) : Sustains P U B (modifyFrame edit) := fun _ _ hs => hs

theorem upholds_finishWith (ending : Value → Suspension) (v : Value) :
    Sustains P U B (finishWith ending v) :=
  (upholds_modifyFrame _).bind fun _ => Run.keeps_pure _

section Steps

variable (h : e.Upholds P U B)

include h

theorem upholds_replace (change : Frame → Frame × List Value) : Sustains P U B (replace e change) :=
  upholds_frameOf.bind fun _ => (upholds_modifyFrame _).bind fun _ => (h.releaseAll _).beside

theorem upholds_stepOn (held : List Value) : Sustains P U B (stepOn e held) := by
  refine upholds_frameOf.bind fun f => ?_
  split
  · exact upholds_modifyFrame _
  · exact h.abort.beside.onInterruption (h.releaseAll held).beside

theorem upholds_owning {m : Step α} (hm : Sustains P U B m) (vs : List Value) :
    Sustains P U B (owning e vs m) := hm.ensuring (h.releaseAll vs).beside

theorem upholds_field (field : BodyField) : Sustains P U B (Performance.field closure field) := by
  cases field with
  | input | result =>
      exact upholds_frameOf.bind fun f => (upholds_modifyFrame _).bind fun _ => Run.keeps_pure _
  | closure => exact (h.share closure).beside.bind fun _ => Run.keeps_pure _
  | callResults =>
      exact Run.keeps_get.bind fun s => (h.shareAll _).beside.bind fun _ => (h.makeList _).beside
  | position => exact upholds_frameOf.bind fun f => Run.keeps_pure _
  | localVariable index =>
      exact upholds_frameOf.bind fun f => (h.share _).beside.bind fun _ => Run.keeps_pure _

/-- What comes after the value of an expression. -/
theorem upholds_valued (x : Expr) {f : Value → Step α} (hf : ∀ v, Sustains P U B (f v)) :
    Sustains P U B (x.eval (field closure) >>= f) := (h.eval (upholds_field h) x).bind hf

theorem upholds_delegateOf : Sustains P U B delegateOf := by
  refine upholds_frameOf.bind fun f => ?_
  split
  · exact (h.share _).beside.bind fun _ => Run.keeps_pure _
  · exact (h.getIter _).beside.bind fun inner => (upholds_modifyFrame _).bind fun _ =>
      (h.share inner).beside.bind fun _ => Run.keeps_pure _

theorem upholds_sendTo (inner v : Value) : Keeps P U B (sendTo e inner v) := by
  cases inner with
  | generator g => exact (h.send g v).map some
  | iterator r => exact h.sendToIterator r v
  | _ => exact h.owning (Run.keeps_raise _) v

theorem upholds_delegate : Sustains P U B (delegate e) := by
  refine (upholds_delegateOf h).bind fun inner => upholds_owning h ?_ _
  refine upholds_frameOf.bind fun f => (upholds_modifyFrame _).bind fun _ => ?_
  refine (upholds_sendTo h inner _).beside.attempt.bind fun outcome => ?_
  split
  · exact Run.keeps_pure _
  · exact Run.keeps_pure _
  · split
    · exact (h.takeStopValue _).beside.bind fun _ => Run.keeps_pure _
    · exact (upholds_replace h _).bind fun _ => (upholds_modifyFrame _).bind fun _ =>
        Run.keeps_raise _

/-- One action. -/
theorem upholds_act (action : Action) : Sustains P U B (act e closure action) := by
  have hthen : ∀ {m : Step Unit}, Sustains P U B m →
      Sustains P U B (do m; return none : Step (Option Suspension)) :=
    fun hm => hm.bind fun _ => Run.keeps_pure _
  cases action with
  | moveTo position => exact hthen (upholds_modifyFrame _)
  | finish => exact hthen (upholds_modifyFrame _)
  | setLocal index x =>
      refine upholds_valued h x fun v => ?_
      split
      · exact hthen (upholds_replace h _)
      · exact hthen (upholds_owning h h.abort.beside _)
  | push x => exact upholds_valued h x fun v => hthen (upholds_modifyFrame _)
  | setDelegate x => exact upholds_valued h x fun v => hthen (upholds_replace h _)
  | clearDelegate => exact hthen (upholds_replace h _)
  | setPending x =>
      exact upholds_valued h x fun v => hthen (upholds_owning h
        ((h.exceptionOf v).beside.bind fun x => upholds_replace h _) _)
  | setInput x => exact upholds_valued h x fun v => hthen (upholds_replace h _)
  | call c =>
      exact (h.performCall (upholds_field h) c).bind fun v => hthen fun _ _ hs => hs
  | yield x =>
      exact upholds_valued h x fun v => (upholds_stepOn h _).bind fun _ => Run.keeps_pure _
  | yieldInPlace x | returnInPlace x | exhaust x =>
      exact upholds_valued h x fun v => Run.keeps_pure _
  | «return» x => exact upholds_valued h x fun v => upholds_finishWith _ v
  | raise x => exact upholds_valued h x fun v => (h.raiseValue v).beside
  | abort => exact h.abort.beside
  | delegate => exact (upholds_delegate h).map some

theorem upholds_actAll (actions : List Action) : Sustains P U B (actAll e closure actions) := by
  induction actions with
  | nil => exact (upholds_stepOn h []).bind fun _ => Run.keeps_pure _
  | cons a rest ih =>
      refine (upholds_act h a).bind fun suspension => ?_
      split
      · exact Run.keeps_pure _
      · exact ih

theorem upholds_proceed (s : Script) : Sustains P U B (proceed e s closure) := by
  refine upholds_frameOf.bind fun f => ?_
  split
  · exact (upholds_modifyFrame _).bind fun _ => Run.keeps_pure _
  · exact upholds_actAll h _

theorem upholds_receive (s : Script) (x : Exception) : Sustains P U B (receive e s closure x) := by
  unfold receive
  split
  · exact (upholds_modifyFrame _).bind fun _ => Run.keeps_raise x
  · exact Run.keeps_raise x
  · exact (upholds_stepOn h _).bind fun _ => Run.keeps_pure _
  · exact (upholds_modifyFrame _).bind fun _ => Run.keeps_pure _
  · exact Run.keeps_pure _
  · exact upholds_owning h (upholds_valued h _ fun v => (upholds_modifyFrame _).bind fun _ =>
      Run.keeps_pure _) _
  · exact upholds_owning h (upholds_valued h _ fun v => (upholds_modifyFrame _).bind fun _ =>
      (h.raiseValue v).beside) _
  · exact (h.releaseException x).beside.bind fun _ => upholds_proceed h s

end Steps

end Performance

theorem Script.upholds_resume {s : Script} {e : Engine} {P U B : World → Prop} (h : e.Upholds P U B)
    (closure : Value) (pending : Option Exception) : Sustains P U B (s.resume e closure pending) := by
  rintro b ⟨f, w⟩ hw
  have hforgotten : Sustains P U B
      (do Run.shared (e.releaseAll (← get).1.results) : Performance.Step Unit) :=
    Run.keeps_get.bind fun _ => (h.releaseAll _).beside
  have hsettled : ∀ m : Performance.Step Suspension, Sustains P U B m →
      Run.Meets (fun _ => Marked (fun s : Performance × World => P s.2) (fun s => U s.2) b)
        (fun _ => Marked (fun s : Performance × World => P s.2) (fun s => U s.2) b)
        (Marked (fun s : Performance × World => P s.2) (fun s => U s.2) true) (fun s => B s.2)
        (m.ensuring do Run.shared (e.releaseAll (← get).1.results)) (⟨f, []⟩, w) :=
    fun m hm => (hm.ensuring hforgotten) b (⟨f, []⟩, w) hw
  unfold Run.Meets Script.resume
  cases pending with
  | none =>
      have hproceeds := hsettled (Performance.proceed e s closure) (Performance.upholds_proceed h s)
      unfold Run.Meets at hproceeds
      dsimp only
      generalize Run.ensuring _ _ (_, w) = y at hproceeds ⊢
      rcases y with ⟨a, d, u⟩ | ⟨_ | _ | _, d, u⟩ <;> exact hproceeds
  | some x =>
      have hreceives := hsettled (Performance.receive e s closure x) (Performance.upholds_receive h s x)
      unfold Run.Meets at hreceives
      dsimp only
      generalize Run.ensuring _ _ (_, w) = y at hreceives ⊢
      rcases y with ⟨a, d, u⟩ | ⟨_ | _ | _, d, u⟩ <;> exact hreceives

/-- A body keeps what quiet changes and requests keep. -/
theorem Engine.Upholds.codeResume {e : Engine} {P U B : World → Prop} (h : e.Upholds P U B) (c : CodeObject)
    (closure : Value) (pending : Option Exception) : Sustains P U B (c.resume e closure pending) := by
  unfold CodeObject.resume
  split
  · exact Code.Program.upholds_resume h closure pending
  · exact Script.upholds_resume h closure pending

end Resumable
