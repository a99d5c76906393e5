import Resumable.Proofs.Outcomes
import Resumable.Session.Step

set_option autoImplicit false

/-!
# What a traversal presents

A traversal presents to a visitor the values that an object refers to, in order, up to and including the
one at which the visitor stops; and an object says of another one that it refers to it just if that is one
of these values (`inspections_agree`).

Of what a frame holds, the arguments of an exception that is to be raised at its resume point are not
presented, and everything else is (`referents_of_frame_at_rest`).
-/

namespace Resumable

variable {σ : Type}

theorem Value.none_sameIdentity (o : Value) : Value.none.sameIdentity o = o.isNone := by
  cases o <;> rfl

/-! ## Visitors -/

namespace Visitor

/-- A visitor in a state is presented values one by one, and goes on after each of them but the last.  The
ending says whether it stopped there, and in what state it is then. -/
inductive Presented (visit : Visitor σ) : σ → List Value → Bool × σ → Prop
  | nothing (s : σ) : Presented visit s [] (false, s)
  | stops {v : Value} {s t : σ} (h : visit v s = (true, t)) : Presented visit s [v] (true, t)
  | goesOn {v : Value} {vs : List Value} {s t : σ} {ending : Bool × σ} (h : visit v s = (false, t))
      (more : Presented visit t vs ending) : Presented visit s (v :: vs) ending

theorem visitAll_cons (visit : Visitor σ) (v : Value) (vs : List Value) :
    visit.visitAll (v :: vs) = andThen (visit v) (visit.visitAll vs) := rfl

theorem andThen_of_stopped {first second : StateM σ Bool} {s t : σ} (h : first s = (true, t)) :
    andThen first second s = (true, t) := by
  simp only [andThen, bind, StateT.bind, h]
  rfl

theorem andThen_of_continued {first second : StateM σ Bool} {s t : σ} (h : first s = (false, t)) :
    andThen first second s = second t := by
  simp only [andThen, bind, StateT.bind, h]
  rfl

/-- To go on with nothing. -/
theorem andThen_nil (first : StateM σ Bool) : andThen first (pure false) = first := by
  funext s
  rcases h : first s with ⟨stopped, t⟩
  cases stopped with
  | true => exact andThen_of_stopped h
  | false => exact andThen_of_continued h

theorem visitAll_singleton (visit : Visitor σ) (v : Value) : visit.visitAll [v] = visit v :=
  (visit.visitAll_cons v []).trans (andThen_nil _)

/-- Of a list of values, those up to the one at which the visitor stops are presented, and all of them if
it does not. -/
theorem presented_of_visitAll (visit : Visitor σ) (vs : List Value) (s : σ) :
    ∃ seen, seen <+: vs ∧ Presented visit s seen (visit.visitAll vs s) ∧
      ((visit.visitAll vs s).1 = false → seen = vs) := by
  induction vs generalizing s with
  | nil => exact ⟨[], List.prefix_rfl, .nothing s, fun _ => rfl⟩
  | cons v vs ih =>
      rw [visitAll_cons]
      rcases h : visit v s with ⟨stopped, t⟩
      cases stopped with
      | true =>
          rw [andThen_of_stopped h]
          exact ⟨[v], ⟨vs, rfl⟩, .stops h, nofun⟩
      | false =>
          rw [andThen_of_continued h]
          obtain ⟨seen, hprefix, hpresented, hall⟩ := ih t
          exact ⟨v :: seen, (List.prefix_cons_inj v).2 hprefix, .goesOn h hpresented,
            fun hgone => congrArg (v :: ·) (hall hgone)⟩

theorem visitAll_collecting (vs seen : List Value) :
    collecting.visitAll vs seen = (false, seen ++ vs) := by
  induction vs generalizing seen with
  | nil => rw [List.append_nil]; rfl
  | cons v vs ih =>
      have htaken : collecting v seen = (false, seen ++ [v]) := rfl
      rw [visitAll_cons, andThen_of_continued htaken, ih, List.append_assoc, List.singleton_append]

/-- A visitor that looks for an object finds it just if one of the values is that object. -/
theorem visitAll_looksFor (o : Value) (vs : List Value) :
    ((looksFor o).visitAll vs false).2 = true ↔ ∃ v ∈ vs, v.sameIdentity o = true := by
  induction vs with
  | nil => exact ⟨fun h => (Bool.false_ne_true h).elim, fun ⟨_, hv, _⟩ => (List.not_mem_nil hv).elim⟩
  | cons v vs ih =>
      simp only [visitAll_cons, List.mem_cons, exists_eq_or_imp]
      by_cases hv : v.sameIdentity o = true
      · have hfound : looksFor o v false = (true, true) := if_pos hv
        rw [andThen_of_stopped hfound]
        exact ⟨fun _ => .inl hv, fun _ => rfl⟩
      · have hpassed : looksFor o v false = (false, false) := if_neg hv
        rw [andThen_of_continued hpassed, ih]
        exact ⟨.inr, fun h => h.resolve_left hv⟩

end Visitor

/-! ## Frames -/

namespace Frame

/-- What a frame refers to, in the order of the traversal. -/
def listed (f : Frame) : List Value :=
  .code f.code :: (f.locals ++ (f.stack.reverse ++
    (f.delegate.toList ++ (f.input.toList ++ f.delegationResult.toList))))

/-- The arguments of the exception that is to be raised at the resume point. -/
def pendingArgs (f : Frame) : List Value := (f.pending.map (·.args)).getD []

theorem traverse_listed (f : Frame) (visit : Visitor σ) : f.traverse visit = visit.visitAll f.listed := by
  rw [listed, Visitor.visitAll_cons]
  simp only [Visitor.visitAll_append]
  rfl

theorem referents_eq (f : Frame) : f.referents = f.listed := by
  rw [referents, traverse_listed, Visitor.visitAll_collecting, List.nil_append]

theorem refersDirectlyTo_iff (f : Frame) (o : Value) :
    f.refersDirectlyTo o = true ↔ ∃ v ∈ f.listed, v.sameIdentity o = true := by
  rw [refersDirectlyTo, traverse_listed]
  exact Visitor.visitAll_looksFor o f.listed

/-- The code of a frame and everything that it owns are what it refers to and the arguments of what is
pending. -/
theorem owned_perm (f : Frame) : (.code f.code :: f.owned).Perm (f.listed ++ f.pendingArgs) := by
  have hpending : (f.pendingArgs ++ (f.input.toList ++ f.delegationResult.toList)).Perm
      (f.input.toList ++ (f.delegationResult.toList ++ f.pendingArgs)) := by
    rw [← List.append_assoc f.input.toList]
    exact List.perm_append_comm
  have hdelegate := hpending.append_left f.delegate.toList
  have hstack := (hdelegate.append_left f.stack.reverse).append_left f.locals
  simpa only [listed, owned, pendingArgs, List.cons_append, List.append_assoc] using hstack.cons _

end Frame

/-! ## Generators -/

namespace Generator

/-- What a generator refers to, in the order of the traversal. -/
def listed (g : Generator) : List Value :=
  (g.frame.map Value.frame).toList ++ .code g.code :: (if g.closure.isNone then [] else [g.closure])

theorem traverse_listed (g : Generator) (visit : Visitor σ) :
    g.traverse visit = visit.visitAll g.listed := by
  rw [listed, Visitor.visitAll_append, Visitor.visitAll_cons, traverse]
  split
  · rfl
  · rw [Visitor.visitAll_singleton]

theorem referents_eq (g : Generator) : g.referents = g.listed := by
  rw [referents, traverse_listed, Visitor.visitAll_collecting, List.nil_append]

theorem isNone_of_mem_listed (g : Generator) {v : Value} (h : v ∈ g.listed) : v.isNone = false := by
  rcases List.mem_append.1 h with hframe | hrest
  · obtain ⟨r, -, rfl⟩ := Option.map_eq_some_iff.1 (Option.mem_toList.1 hframe)
    rfl
  · rcases List.mem_cons.1 hrest with rfl | hclosure
    · rfl
    · split at hclosure
      · exact (List.not_mem_nil hclosure).elim
      · rename_i hnot
        exact (List.mem_singleton.1 hclosure) ▸ Bool.eq_false_iff.2 hnot

/-- A closure that is `none` is not looked at, and nothing else is identical to `none`. -/
theorem closure_listed_iff (g : Generator) {o : Value} (ho : o.isNone = false) :
    g.closure.sameIdentity o = true ↔
      ∃ v ∈ (if g.closure.isNone then [] else [g.closure]), v.sameIdentity o = true := by
  by_cases hclosure : g.closure.isNone = true
  · rw [if_pos hclosure, (Value.isNone_iff _).1 hclosure, Value.none_sameIdentity, ho]
    simp
  · rw [if_neg hclosure]
    simp

theorem refersDirectlyTo_iff (g : Generator) (o : Value) :
    g.refersDirectlyTo o = true ↔ ∃ v ∈ g.listed, v.sameIdentity o = true := by
  by_cases ho : o.isNone = true
  · have hnone : ∀ v ∈ g.listed, v.sameIdentity o = false := by
      intro v hv
      rw [(Value.isNone_iff o).1 ho, Value.sameIdentity_comm, Value.none_sameIdentity]
      exact g.isNone_of_mem_listed hv
    rw [refersDirectlyTo, ho]
    exact ⟨nofun, fun ⟨v, hv, h⟩ => (Bool.false_ne_true ((hnone v hv).symm.trans h)).elim⟩
  · have ho : o.isNone = false := Bool.eq_false_iff.2 ho
    have hframe : (g.frame.map fun r => (Value.frame r).sameIdentity o).getD false = true ↔
        ∃ v ∈ (g.frame.map Value.frame).toList, v.sameIdentity o = true := by
      cases g.frame <;> simp
    rw [refersDirectlyTo, ho, Bool.not_false, Bool.true_and, Bool.or_eq_true, Bool.or_eq_true, hframe,
      closure_listed_iff g ho, or_assoc]
    simp only [listed, List.mem_append, List.mem_cons, or_and_right, exists_or, exists_eq_left]

end Generator

/-! ## Agreement -/

/-- A way of traversing an object, a list of the values that it refers to, and a way of telling whether it
refers to another one, agree. -/
structure Inspections (traverse : ∀ {σ : Type}, Visitor σ → StateM σ Bool) (referents : List Value)
    (refers : Value → Bool) : Prop where
  /-- Every visitor is presented the values of the list up to the one at which it stops. -/
  presented : ∀ {σ : Type} (visit : Visitor σ) (s : σ), ∃ seen, seen <+: referents ∧
    Visitor.Presented visit s seen (traverse visit s) ∧
      ((traverse visit s).1 = false → seen = referents)
  refers_iff : ∀ o, refers o = true ↔ ∃ v ∈ referents, v.sameIdentity o = true

theorem Inspections.of_listed {traverse : ∀ {σ : Type}, Visitor σ → StateM σ Bool}
    {referents listed : List Value} {refers : Value → Bool}
    (htraverse : ∀ {σ : Type} (visit : Visitor σ), traverse visit = visit.visitAll listed)
    (hreferents : referents = listed)
    (hrefers : ∀ o, refers o = true ↔ ∃ v ∈ listed, v.sameIdentity o = true) :
    Inspections traverse referents refers where
  presented visit s := by
    rw [htraverse, hreferents]
    exact visit.presented_of_visitAll listed s
  refers_iff := by rwa [hreferents]

/-- Whatever state a generator or a frame is in, its traversal presents the list of what it refers to. -/
theorem inspections_agree :
    (∀ g : Generator, g.referents = g.listed ∧
      Inspections g.traverse g.referents g.refersDirectlyTo) ∧
    ∀ f : Frame, f.referents = f.listed ∧ Inspections f.traverse f.referents f.refersDirectlyTo :=
  ⟨fun g => ⟨g.referents_eq, .of_listed g.traverse_listed g.referents_eq g.refersDirectlyTo_iff⟩,
    fun f => ⟨f.referents_eq, .of_listed f.traverse_listed f.referents_eq f.refersDirectlyTo_iff⟩⟩

/-! ## What a frame holds -/

/-- What a frame holds in each of its places is among the values of a list, but for the arguments of what
is pending. -/
structure Frame.ShownBy (f : Frame) (seen : List Value) : Prop where
  code : .code f.code ∈ seen
  locals : ∀ v ∈ f.locals, v ∈ seen
  stack : ∀ v ∈ f.stack, v ∈ seen
  delegate : ∀ v, f.delegate = some v → v ∈ seen
  input : ∀ v, f.input = some v → v ∈ seen
  delegationResult : ∀ v, f.delegationResult = some v → v ∈ seen

theorem Frame.shownBy_listed (f : Frame) : f.ShownBy f.listed where
  code := List.mem_cons_self
  locals v h := by simp [listed, h]
  stack v h := by simp [listed, h]
  delegate v h := by simp [listed, h]
  input v h := by simp [listed, h]
  delegationResult v h := by simp [listed, h]

/-- Asked what a frame refers to, a world in which the frame is not in use answers without a change.  The
answer has what the frame holds in each of its places, apart from the arguments of an exception that is to
be raised at its resume point: with them it is the code of the frame and everything that the frame owns. -/
theorem referents_of_frame_at_rest {w : World} {r : FrameRef} {f : Frame} (h : w.frame? r = some f) :
    ∃ seen, Session.traverse (.frame r) Visitor.collecting [] w = .ok (some (false, seen)) w ∧
      f.ShownBy seen ∧ (.code f.code :: f.owned).Perm (seen ++ f.pendingArgs) := by
  refine ⟨f.listed, ?_, f.shownBy_listed, f.owned_perm⟩
  have hread : World.readFrame r w = .ok f w := World.readFrame_eq_ok.2 ⟨h, rfl⟩
  have hseen : (f.traverse Visitor.collecting).run [] = (false, f.listed) := by
    rw [f.traverse_listed]
    exact Visitor.visitAll_collecting _ _
  rw [← hseen]
  exact Run.bind_ok hread

namespace Session

/-- What makes a generator into which an exception with a list as its argument was thrown while no level
was left. -/
def throwingAtLimit : List Command :=
  [.assemble "p" ⟨"one", [], "<bytecode>", 0, [.loadConst (.int 1), .emit .yieldValue, .emit .returnValue]⟩,
    .bind "l" (.list []), .makeGenerator "g" "p" [] .none, .enter,
    .drive "g" (.throw (.exceptionType .valueError) (some (.variable "l")) none) none]

/-- The world after that. -/
def thrownAtLimit : World := throwingAtLimit.foldl (fun w c => (step 20 false w c).2) (.new 1 .collecting)

theorem frame_thrownAtLimit :
    thrownAtLimit.frame? ⟨0⟩ =
      some { Frame.new ⟨0⟩ [] with pending := some ⟨.valueError, [.list ⟨0⟩], none⟩ } := by
  decide +kernel

/-- The frame holds the list as an argument of what is pending, and does not present it. -/
theorem pending_argument_not_presented :
    ∃ f, thrownAtLimit.frame? ⟨0⟩ = some f ∧ .list ⟨0⟩ ∈ f.owned ∧ .list ⟨0⟩ ∉ f.referents :=
  ⟨_, frame_thrownAtLimit, by decide, by decide⟩

theorem referents_of_frame_at_rest_thrownAtLimit :
    ∃ f seen, thrownAtLimit.frame? ⟨0⟩ = some f ∧
      Session.traverse (.frame ⟨0⟩) Visitor.collecting [] thrownAtLimit
        = .ok (some (false, seen)) thrownAtLimit ∧
      f.ShownBy seen ∧ (.code f.code :: f.owned).Perm (seen ++ [.list ⟨0⟩]) := by
  obtain ⟨seen, hseen, hshown, hperm⟩ := referents_of_frame_at_rest frame_thrownAtLimit
  exact ⟨_, seen, frame_thrownAtLimit, hseen, hshown, hperm⟩

end Session

end Resumable
