import Resumable.Proofs.Closing

set_option autoImplicit false

/-!
# Throws that are rejected

The last argument of a throw has to be a traceback, and the others have to stand for an exception.
The first of these is asked before anything is done.  The second is found out when the exception is
made, which is where it is raised in a body.

Where nothing comes in between, a throw with wrong arguments does nothing but forget them and raise
the error (`throw_rejected`): the generator does not delegate, or it delegates to something that there
is no way to close.  A generator that it delegates to gets the arguments first, and an iterator that
can be closed is closed first (`throw_rejected_late`).
-/

namespace Resumable

variable {e : Engine} {g : GeneratorRef} {r : FrameRef} {f : Frame} {x : Exception} {w t u : World}

/-- The arguments of a throw. -/
def Throw.values (thrown : Throw) : List Value :=
  thrown.traceback.toList ++ thrown.value.toList ++ [thrown.type]

theorem holds_throwValues (thrown : Throw) : holds thrown.values = holds thrown := by
  rw [Throw.values, holds_values_append, holds_values_append, holds_values_cons, holds_values_nil,
    holds_toList, holds_toList, holds_throw]
  abel

namespace Iterator

/-- What an iterator does to be closed. -/
def closing? : Iterator → Option Response
  | .list _ _ => none
  | .scripted s => s.closing

end Iterator

namespace World

/-- A throw with these arguments is to be refused with an exception. -/
inductive Rejects (w : World) (thrown : Throw) : Exception → Prop where
  /-- the last argument is no traceback -/
  | traceback {x : Exception} (h : Engine.tracebackOf thrown.traceback = .error x) : Rejects w thrown x
  /-- the others do not stand for an exception -/
  | normalize {tb : Option Traceback} {fault : Exception.Fault} {message : String}
      (htb : Engine.tracebackOf thrown.traceback = .ok tb)
      (hfault : Exception.normalize thrown.type thrown.value = .error fault)
      (hmessage : faultMessage fault w = .ok message w) : Rejects w thrown (.typeError message)

theorem Rejects.kind {thrown : Throw} (h : w.Rejects thrown x) : x.kind = .typeError := by
  cases h with
  | traceback h =>
      unfold Engine.tracebackOf at h
      split at h
      · cases h
      · cases h
      · cases h
      · cases h
        rfl
  | normalize => rfl

/-- There is no way to close a value: it is an iterator that is at rest and has none, or nothing that
can be iterated over. -/
def Unclosable (w : World) : Value → Prop
  | .generator _ => False
  | .iterator r => ∃ i, w.iterator? r = some i ∧ i.closing? = none
  | _ => True

theorem Unclosable.of_iterators {inner : Value} (h : w.Unclosable inner)
    (hsame : ∀ i, t.iterator? i = w.iterator? i) : t.Unclosable inner := by
  cases inner with
  | generator i => exact h
  | iterator i =>
      obtain ⟨it, hit, hclosing⟩ := h
      exact ⟨it, (hsame i).trans hit, hclosing⟩
  | _ => exact True.intro

end World

namespace Engine

/-! ## Refusals that forget more -/

theorem refuse_ensuring (e : Engine) (x : Exception) (args more : List Value) :
    (e.refuse x args).ensuring (e.releaseAll more) = e.refuse x (args ++ more) := by
  rw [refuse, ← Run.raise_ensuring, Run.ensuring_assoc, ← releaseAll_append, Run.raise_ensuring,
    refuse]

/-- What refers to nothing makes no difference. -/
theorem refuse_congr {args args' : List Value}
    (h : Value.objectsOfAll args = Value.objectsOfAll args') : e.refuse x args = e.refuse x args' := by
  rw [refuse, refuse, releaseAll, releaseAll, h]

/-! ## What stands between the arguments and the body -/

/-- Closing what there is no way to close. -/
theorem closeIter_unclosable {inner : Value} (h : w.Unclosable inner) :
    e.closeIter inner w = .ok .none w := by
  cases inner with
  | generator i => exact h.elim
  | iterator i =>
      obtain ⟨it, hit, hclosing⟩ := h
      refine World.withIterator_of_rest hit ?_
      cases it with
      | list source index => rfl
      | scripted s =>
          have hclosing : s.closing = none := hclosing
          simp only [Iterator.close?, Run.bind_apply, Run.get_apply, hclosing, Run.pure_apply]
  | _ => rfl

theorem closeForThrow_unclosable {i : IteratorRef} (hmade : g.index < w.generators.size)
    (hidle : (w.generator g).running = false) (h : w.Unclosable (.iterator i)) :
    e.closeForThrow g i w = .ok (.ok []) w := by
  obtain ⟨it, hit, hclosing⟩ := h
  have hclosed : World.whileRunning g (World.withIterator i (Iterator.close? e)) w = .ok none w := by
    refine World.whileRunning_of_rest hmade hidle (World.withIterator_of_rest hit ?_)
    cases it with
    | list source index => rfl
    | scripted s =>
        have hclosing : s.closing = none := hclosing
        simp only [Iterator.close?, Run.bind_apply, Run.get_apply, hclosing, Run.pure_apply]
  unfold closeForThrow
  rw [Run.bind_ok hclosed]
  rfl

end Engine

/-! ## Making the exception -/

/-- The message of a failure is the same in a world with the same iterators. -/
theorem faultMessage_of_iterators {fault : Exception.Fault} {message : String}
    (hsame : ∀ i, t.iterator? i = w.iterator? i)
    (h : World.faultMessage fault w = .ok message w) : World.faultMessage fault t = .ok message t := by
  cases fault with
  | separateValue =>
      cases h
      rfl
  | notAnException type =>
      have htype : t.typeName? type = w.typeName? type := by
        cases type with
        | iterator i => simp only [World.typeName?, hsame]
        | _ => rfl
      simp only [World.faultMessage, World.typeName, Run.bind_apply, htype] at h ⊢
      cases hname : w.typeName? type with
      | none =>
          rw [hname] at h
          cases h
      | some name =>
          rw [hname] at h
          cases h
          rfl

/-- Arguments that do not stand for an exception are found out without any effect. -/
theorem normalize_of_fault {type : Value} {value : Option Value} {fault : Exception.Fault}
    {message : String} (hfault : Exception.normalize type value = .error fault)
    (hmessage : World.faultMessage fault w = .ok message w) :
    World.normalize type value w = .error (.raised (.typeError message)) w := by
  unfold World.normalize
  rw [hfault]
  exact Run.bind_ok hmessage

namespace Engine

section Rejecting

variable {type : Value} {value : Option Value} (tb : Option Traceback)
  (hrejected : World.normalize type value w = .error (.raised x) w)

include hrejected

theorem raiseIntoFrame_rejected (e : Engine) (g : GeneratorRef) (r : FrameRef) :
    e.raiseIntoFrame g r type value tb w = e.refuse x value.toList w := by
  have hraised : e.raiseIntoFrame g r type value tb w =
      Run.ensuring (Run.raise x) (e.releaseAll value.toList) w :=
    Run.ensuring_congr (Run.bind_error hrejected)
  rw [hraised, Run.raise_ensuring, refuse]

/-- A throw into a generator that does not delegate. -/
theorem throwInto_rejected (hf : w.frame? r = some f) (hdelegate : f.delegate = none) :
    e.throwInto g r type value tb w = e.refuse x (value.toList ++ [.frame r]) w := by
  have hread : World.readFrame r w = .ok f w := World.readFrame_eq_ok.2 ⟨hf, rfl⟩
  unfold throwInto
  rw [Run.bind_ok (Run.onInterruption_ok hread), hdelegate, ← refuse_ensuring]
  exact Run.ensuring_congr (raiseIntoFrame_rejected tb hrejected e g r)

end Rejecting

/-- A throw into a generator whose delegate has no way to be closed. -/
theorem throwInto_rejected_unclosable {type inner : Value} {value : Option Value}
    (tb : Option Traceback) (hf : w.frame? r = some f) (hdelegate : f.delegate = some inner)
    (hmade : g.index < w.generators.size) (hidle : (w.generator g).running = false)
    (hunclosable : w.Unclosable inner)
    (hrejected : World.normalize type value (w.retain inner) = .error (.raised x) (w.retain inner)) :
    e.throwInto g r type value tb w =
      e.refuse x (value.toList ++ [inner, .frame r]) (w.retain inner) := by
  have hread : World.readFrame r w = .ok f w := World.readFrame_eq_ok.2 ⟨hf, rfl⟩
  have hmade : g.index < (w.retain inner).generators.size :=
    lt_of_lt_of_le hmade (World.Same.retain w inner []).size
  have hidle : ((w.retain inner).generator g).running = false := by
    rw [World.retain, generator_addOwners, hidle]
  have hunclosable : (w.retain inner).Unclosable inner :=
    hunclosable.of_iterators fun i => w.iterator_addOwners inner.objects i
  have hraised := raiseIntoFrame_rejected tb hrejected e g r
  unfold throwInto
  rw [Run.bind_ok (Run.onInterruption_ok hread), hdelegate]
  show (if type.exceptionKind = some .generatorExit then _ else _ : Run World Value)
    (w.retain inner) = _
  split
  · have hclosed : World.whileRunning g (e.closeIter inner) (w.retain inner) =
        .ok .none (w.retain inner) := by
      refine World.whileRunning_of_rest hmade hidle (closeIter_unclosable ?_)
      exact hunclosable.of_iterators fun _ => rfl
    have hattempt : Run.attempt (World.whileRunning g (e.closeIter inner)) (w.retain inner) =
        .ok (.ok .none) (w.retain inner) := Run.attempt_eq_ok.2 (.inl ⟨_, rfl, hclosed⟩)
    rw [Run.bind_ok (Run.onInterruption_ok hattempt)]
    have hsame : Value.objectsOfAll (value.toList ++ ([.none, inner] ++ [.frame r])) =
        Value.objectsOfAll (value.toList ++ [inner, .frame r]) := by
      rw [objectsOfAll_append value.toList, objectsOfAll_append value.toList]
      rfl
    rw [← refuse_congr hsame, ← refuse_ensuring]
    exact Run.ensuring_congr hraised
  · rw [show [inner, Value.frame r] = [inner] ++ [.frame r] from rfl, ← refuse_ensuring]
    cases inner with
    | generator i => exact hunclosable.elim
    | iterator i =>
        have hclosed := closeForThrow_unclosable (e := e) hmade hidle hunclosable
        dsimp only
        rw [Run.bind_ok (Run.onInterruption_ok hclosed)]
        exact Run.ensuring_congr hraised
    | _ => exact Run.ensuring_congr hraised

/-! ## The whole throw -/

variable {thrown : Throw}

/-- What is no traceback is refused at once. -/
theorem answerThrow_traceback (h : tracebackOf thrown.traceback = .error x) :
    e.answerThrow g thrown = e.refuse x thrown.values := by
  unfold answerThrow
  rw [h]
  show e.owning thrown.type (Run.ensuring (Run.raise x) _) = _
  rw [Run.raise_ensuring]
  exact owning_refuse e x thrown.type _

/-- The other arguments are refused by what happens once the frame is shared. -/
theorem answerThrow_of_throwInto {tb : Option Traceback} {args : List Value}
    (htb : tracebackOf thrown.traceback = .ok tb) (hidle : (w.generator g).running = false)
    (hslot : (w.generator g).frame = some r)
    (h : e.throwInto g r thrown.type thrown.value tb (w.retain (.frame r)) = e.refuse x args t) :
    e.answerThrow g thrown w = e.refuse x (args ++ [thrown.type]) t := by
  rw [← owning_refuse]
  unfold answerThrow
  refine Run.ensuring_congr ?_
  rw [htb]
  simp only [Run.bind_apply, Run.get_apply]
  rw [if_neg (by simp [hidle]), hslot]
  exact h

end Engine

namespace World

/-- A generator that is neither running nor finished. -/
theorem frame_of_state (h : w.stateOf g = .created ∨ w.stateOf g = .suspended ∨
    w.stateOf g = .delegating) :
    (w.generator g).running = false ∧
      ∃ r f, (w.generator g).frame = some r ∧ w.frame? r = some f := by
  unfold stateOf at h
  split at h
  · simp at h
  · next hidle =>
      refine ⟨by simpa using hidle, ?_⟩
      split at h
      · simp at h
      · next r hr =>
          split at h
          · simp at h
          · next f hf => exact ⟨r, f, hr, hf⟩

/-- What a call to a generator may share for a while: the frame, and the delegate. -/
def Lends (w : World) (g : GeneratorRef) (v : Value) : Prop :=
  (∃ r, (w.generator g).frame = some r ∧ v = .frame r) ∨ w.delegateOf g = some v

end World

theorem perm_in_front {α : Type} (as bs ks cs : List α) :
    (as ++ (bs ++ ks ++ cs)).Perm (ks ++ (as ++ bs ++ cs)) := by
  rw [← List.append_assoc ks, ← List.append_assoc as, ← List.append_assoc as]
  exact List.perm_append_comm.append_right cs

/-- A throw with wrong arguments comes to nothing: what is shared meanwhile is forgotten together with
the arguments, and that is all. -/
theorem answerThrow_rejected {thrown : Throw}
    (hstate : w.stateOf g = .created ∨ w.stateOf g = .suspended ∨ w.stateOf g = .delegating)
    (hrejects : w.Rejects thrown x)
    (hquiet : (∃ y, Engine.tracebackOf thrown.traceback = .error y) ∨
      ∀ inner, w.delegateOf g = some inner → w.Unclosable inner) :
    ∃ kept args : List Value, (∀ v ∈ kept, w.Lends g v) ∧ args.Perm (kept ++ thrown.values) ∧
      e.answerThrow g thrown w = e.refuse x args (w.retainAll kept) := by
  obtain ⟨hidle, r, f, hslot, hf⟩ := World.frame_of_state hstate
  cases hrejects with
  | traceback h =>
      exact ⟨[], thrown.values, by simp, List.Perm.refl _,
        congrFun (Engine.answerThrow_traceback h) w⟩
  | @normalize tb fault message htb hfault hmessage =>
      have hquiet := hquiet.resolve_left (by simp [htb])
      have hf' : (w.retain (.frame r)).frame? r = some f := by
        rw [World.retain, frame_addOwners, hf]
      have hdelegateOf : w.delegateOf g = f.delegate := by
        simp [World.delegateOf, hslot, hf]
      -- the traceback refers to nothing, and forgetting it makes no difference
      have hargs : ∀ args : List Value, e.refuse (.typeError message) args =
          e.refuse (.typeError message) (thrown.traceback.toList ++ args) := by
        intro args
        refine Engine.refuse_congr ?_
        rw [Engine.objectsOfAll_append, Engine.objectsOfAll_traceback htb]
        rfl
      cases hdelegate : f.delegate with
      | none =>
          have hrejected := normalize_of_fault (w := w.retain (.frame r)) hfault
            (faultMessage_of_iterators (fun i => w.iterator_addOwners _ i) hmessage)
          have hthrow := Engine.answerThrow_of_throwInto htb hidle hslot
            (Engine.throwInto_rejected (e := e) (g := g) tb hrejected hf' hdelegate)
          refine ⟨[.frame r], _, ?_, ?_, hthrow.trans (congrFun (hargs _) _)⟩
          · intro v hv
            exact .inl ⟨r, hslot, List.mem_singleton.1 hv⟩
          · exact perm_in_front _ _ _ _
      | some inner =>
          have hunclosable := hquiet inner (hdelegateOf.trans hdelegate)
          have hrejected := normalize_of_fault (w := (w.retain (.frame r)).retain inner) hfault
            (faultMessage_of_iterators (fun i => ((w.retain _).iterator_addOwners _ i).trans
              (w.iterator_addOwners _ i)) hmessage)
          have hmade : g.index < (w.retain (.frame r)).generators.size :=
            lt_of_lt_of_le (World.made_of_frame hslot) (World.Same.retain w _ []).size
          have hidle' : ((w.retain (.frame r)).generator g).running = false := by
            rw [World.retain, generator_addOwners, hidle]
          have hthrow := Engine.answerThrow_of_throwInto htb hidle hslot
            (Engine.throwInto_rejected_unclosable (e := e) tb hf' hdelegate hmade hidle'
              (hunclosable.of_iterators fun i => w.iterator_addOwners _ i) hrejected)
          have hshared : w.retainAll [.frame r, inner] = (w.retain (.frame r)).retain inner := by
            rw [World.retainAll, World.retain, World.retain, ← World.addOwners_append]
            simp [Value.objectsOfAll]
          rw [← hshared] at hthrow
          refine ⟨[.frame r, inner], _, ?_, ?_, hthrow.trans (congrFun (hargs _) _)⟩
          · intro v hv
            rcases List.mem_pair.1 hv with rfl | rfl
            · exact .inl ⟨r, hslot, rfl⟩
            · exact .inr (hdelegateOf.trans hdelegate)
          · refine (perm_in_front _ _ _ _).trans ?_
            exact (List.Perm.swap _ _ _).append_right _

namespace Session

/-- What a generator lends has an owner besides those who hold the arguments of a throw. -/
theorem owned_of_lends {thrown : Throw} (h : Amid (.asked (.throw g thrown)) u) {v : Value}
    (hv : u.Lends g v) {o : Object} (ho : o ∈ v.objects) : holds thrown o < u.owners o := by
  obtain ⟨Z, F, w', hZ, _, hlinked⟩ := h.moment
  have hle : holds v ≤ u.references Z.hidden := by
    rcases hv with ⟨r, hr, rfl⟩ | hdelegate
    · have hheld := World.holds_generator_le (w := u) (hZ.property.hidden (.generator g))
      rw [holds_generatorObject, hr] at hheld
      exact le_trans le_self_add hheld
    · unfold World.delegateOf at hdelegate
      obtain ⟨r, hr, hdelegate⟩ := Option.bind_eq_some_iff.1 hdelegate
      obtain ⟨f, hf, hdelegate⟩ := Option.bind_eq_some_iff.1 hdelegate
      have hheld := World.holds_frame_le (w := u) (hZ.property.hidden (.frame r))
      rw [hf, holds_some, holds_frame, hdelegate, holds_some] at hheld
      refine le_trans ?_ hheld
      intro o
      simp only [Pi.add_apply]
      omega
  have hone : 1 ≤ u.references Z.hidden o :=
    le_trans (Bag.one_le_of_mem ho) (Bag.apply_le hle o)
  have howned := hlinked.accounted.owned o (hlinked.not_sealed_of_reference hone)
  simp only [Pi.add_apply, holds_asked, holds_request_throw] at howned
  omega

/-- Rejected arguments touch nothing.

A generator is neither running nor finished, and the arguments of a throw are wrong.  Either the
last of them is no traceback; or they do not stand for an exception, and the generator does not
delegate to what can be closed.  Then the throw raises a type error.  All it does before is to forget
its arguments, and what it shared meanwhile.  If the arguments have owners of their own, the world is
what it was before the arguments were shared with the call: the generator, its frame and its delegate
included. -/
theorem throw_rejected {thrown : Throw} (h : Amid (.asked (.throw g thrown)) u)
    (hstate : u.stateOf g = .created ∨ u.stateOf g = .suspended ∨ u.stateOf g = .delegating)
    (hrejects : u.Rejects thrown x)
    (hquiet : (∃ y, Engine.tracebackOf thrown.traceback = .error y) ∨
      ∀ inner, u.delegateOf g = some inner → u.Unclosable inner) (n : Nat) :
    x.kind = .typeError ∧
      (∃ kept args : List Value, (∀ v ∈ kept, u.Lends g v) ∧ args.Perm (kept ++ thrown.values) ∧
        Machine.perform (n + 1) (.throw g thrown) u =
          (Machine.engine n).refuse x args (u.retainAll kept)) ∧
      ∀ w, u = w.retainAll thrown.values →
        (∀ o ∈ Value.objectsOfAll thrown.values, 1 ≤ w.owners o) →
          Machine.perform (n + 1) (.throw g thrown) u = .error (.raised x) w := by
  obtain ⟨kept, args, hkept, hperm, hthrow⟩ :=
    answerThrow_rejected (e := Machine.engine n) hstate hrejects hquiet
  have hthrow : Machine.perform (n + 1) (.throw g thrown) u =
    (Machine.engine n).refuse x args (u.retainAll kept) := hthrow
  refine ⟨hrejects.kind, ⟨kept, args, hkept, hperm, hthrow⟩, ?_⟩
  rintro w rfl howned
  have hshared : (w.retainAll thrown.values).retainAll kept = w.retainAll (thrown.values ++ kept) := by
    rw [World.retainAll, World.retainAll, World.retainAll, Engine.objectsOfAll_append,
      World.addOwners_append]
  have hforgotten : (Machine.engine n).releaseAll args (w.retainAll (thrown.values ++ kept)) =
      .ok () w := by
    refine Engine.releaseAll_retainAll (hperm.trans List.perm_append_comm) fun o ho => ?_
    rw [Engine.objectsOfAll_append, List.mem_append] at ho
    rcases ho with ho | ho
    · exact howned o ho
    · obtain ⟨v, hv, ho⟩ := Engine.mem_objectsOfAll.1 ho
      have hlent := owned_of_lends h (hkept v hv) ho
      rw [World.retainAll, World.owners_addOwners, ← holds_values, holds_throwValues] at hlent
      omega
  rw [hthrow, hshared]
  exact Run.bind_ok hforgotten

/-- A throw of a number into a generator that the commands have suspended in its first delegation, up
to the moment when it is asked for. -/
def throwingRun (cs : List Command) (g : GeneratorRef) : EStateM.Result Interruption World Report :=
  runUpTo cs (.drive "g0" (.throw (.int 3) none none) none) (.asked (.throw g ⟨.int 3, none, none⟩))

/-- The refusal of that throw. -/
def numberThrown : Exception :=
  .typeError "exceptions must be classes or instances deriving from BaseException, not int"

theorem rejects_number (w : World) : w.Rejects ⟨.int 3, none, none⟩ numberThrown := by
  have hfault : Exception.normalize (.int 3) none = .error (.notAnException (.int 3)) := rfl
  exact .normalize rfl hfault rfl

/-- What makes a generator that is suspended in its delegation to a list. -/
def listDelegatingCommands : List Command :=
  [.assemble "p0" delegatingOnce, .makeGenerator "g0" "p0" [.list [.int 7, .int 8]] .none,
    .drive "g0" .next none]

/-- The moment when a number is to be thrown into that generator. -/
def listDelegatingWorld : World := brokenOffAt (throwingRun listDelegatingCommands ⟨0⟩)

/-- A number that is thrown there leaves the world as it is. -/
theorem throw_rejected_listDelegating :
    Machine.perform 60 (.throw ⟨0⟩ ⟨.int 3, none, none⟩) listDelegatingWorld =
      .error (.raised numberThrown) listDelegatingWorld := by
  have hamid : Amid (.asked (.throw ⟨0⟩ ⟨.int 3, none, none⟩)) listDelegatingWorld :=
    runUpTo_amid (by decide +kernel) (by decide +kernel) (by decide +kernel)
  have hstate : listDelegatingWorld.stateOf ⟨0⟩ = .delegating := by decide +kernel
  have hdelegate : listDelegatingWorld.delegateOf ⟨0⟩ = some (.iterator ⟨0⟩) := by decide +kernel
  have hrest : (listDelegatingWorld.iterator? ⟨0⟩).any (·.closing?.isNone) = true := by
    decide +kernel
  have hunclosable : ∀ inner, listDelegatingWorld.delegateOf ⟨0⟩ = some inner →
      listDelegatingWorld.Unclosable inner := by
    intro inner hinner
    rw [hdelegate, Option.some.injEq] at hinner
    subst hinner
    obtain ⟨i, hi, hclosing⟩ := (Option.any_eq_true _ _).1 hrest
    exact ⟨i, hi, Option.isNone_iff_eq_none.1 hclosing⟩
  obtain ⟨_, _, hkept⟩ := throw_rejected hamid (.inr (.inr hstate))
    (rejects_number listDelegatingWorld) (.inr hunclosable) 59
  refine hkept listDelegatingWorld (World.retainAll_of_objects_nil _ rfl).symm ?_
  intro o ho
  cases ho

/-- What makes a generator that is suspended in its delegation to an iterator that can be closed. -/
def closableDelegatingCommands : List Command :=
  [.assemble "p0" delegatingOnce,
    .bind "i" (.scripted "probe" [.give (.value (.int 1))] (some (.value .none)) false),
    .makeGenerator "g0" "p0" [.variable "i"] .none, .drive "g0" .next none]

/-- The moment when a number is to be thrown into that generator. -/
def closableDelegatingWorld : World := brokenOffAt (throwingRun closableDelegatingCommands ⟨0⟩)

/-- The moment when a number is to be thrown into a generator that delegates to another one. -/
def delegatingThrowWorld : World := brokenOffAt (throwingRun delegatingCommands ⟨1⟩)

/-- A number that is thrown into a generator which delegates to another one is raised as a type error
in the body of the first, which is the end of it.  Where the delegate is an iterator that can be closed,
it is closed, although the arguments are wrong. -/
theorem throw_rejected_late :
    (Amid (.asked (.throw ⟨1⟩ ⟨.int 3, none, none⟩)) delegatingThrowWorld ∧
      delegatingThrowWorld.stateOf ⟨1⟩ = .delegating ∧
      delegatingThrowWorld.Rejects ⟨.int 3, none, none⟩ numberThrown ∧
      (Run.stateOf (Machine.perform 60 (.throw ⟨1⟩ ⟨.int 3, none, none⟩)
        delegatingThrowWorld)).stateOf ⟨1⟩ = .finished) ∧
    Amid (.asked (.throw ⟨0⟩ ⟨.int 3, none, none⟩)) closableDelegatingWorld ∧
      closableDelegatingWorld.stateOf ⟨0⟩ = .delegating ∧
      closableDelegatingWorld.Rejects ⟨.int 3, none, none⟩ numberThrown ∧
      closableDelegatingWorld.log.length = 0 ∧
      (Run.stateOf (Machine.perform 60 (.throw ⟨0⟩ ⟨.int 3, none, none⟩)
        closableDelegatingWorld)).log.length = 1 := by
  have hinto : Amid (.asked (.throw ⟨1⟩ ⟨.int 3, none, none⟩)) delegatingThrowWorld :=
    runUpTo_amid (by decide +kernel) (by decide +kernel) (by decide +kernel)
  have hclosing : Amid (.asked (.throw ⟨0⟩ ⟨.int 3, none, none⟩)) closableDelegatingWorld :=
    runUpTo_amid (by decide +kernel) (by decide +kernel) (by decide +kernel)
  refine ⟨⟨hinto, ?_, rejects_number _, ?_⟩, hclosing, ?_, rejects_number _, ?_, ?_⟩
  · decide +kernel
  · decide +kernel
  · decide +kernel
  · decide +kernel
  · decide +kernel

end Session

end Resumable
