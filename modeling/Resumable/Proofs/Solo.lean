import Resumable.Proofs.Detached

set_option autoImplicit false

/-!
# Generators that keep to themselves

A generator of a program whose closure and frame refer to no object keeps to itself.  What a call on it
comes to depends on the generator, its frame and the levels of the thread alone, and only the generator
and its frame are changed by it (`call_alone`).
-/

namespace Resumable

variable {α : Type}

/-! ## A generator and its frame -/

/-- What calls on a generator of this kind look at and change: the generator, the cell of its frame, the
levels of the thread, and the mark of an abandonment. -/
structure Solo where
  generator : Generator
  cell : Cell (Option Frame)
  thread : Thread
  unwinding : Bool

/-- A world in which a generator, its frame, the thread and the mark are as given. -/
def World.seat (g : GeneratorRef) (r : FrameRef) (s : Solo) (w : World) : World :=
  { w with
    generators := w.generators.setContent g.index s.generator
    frames := w.frames.set r.index s.cell
    thread := s.thread
    unwinding := s.unwinding }

namespace World

variable {g : GeneratorRef} {r : FrameRef} {s : Solo} {w : World}

@[simp] theorem generator_seat : (w.seat g r s).generator g = s.generator := by
  simp [seat, generator]

@[simp] theorem frame_seat : (w.seat g r s).frame? r = s.cell.content := by
  simp [seat, frame?, Store.content, Store.get_set_self]

@[simp] theorem owners_seat : (w.seat g r s).owners (.frame r) = s.cell.owners := by
  simp [seat, owners, Store.owners, Store.get_set_self]

@[simp] theorem codes_seat : (w.seat g r s).codes = w.codes := rfl

@[simp] theorem thread_seat : (w.seat g r s).thread = s.thread := rfl

@[simp] theorem setGenerator_seat (G : Generator) :
    (w.seat g r s).setGenerator g G = w.seat g r { s with generator := G } := by
  simp [seat, setGenerator, Store.setContent, Store.get_set_self, Store.set_set]

@[simp] theorem setFrame_seat (f : Option Frame) :
    (w.seat g r s).setFrame r f = w.seat g r { s with cell := { s.cell with content := f } } := by
  simp [seat, setFrame, Store.setContent, Store.get_set_self, Store.set_set]

@[simp] theorem setOwners_seat (n : Nat) :
    (w.seat g r s).setOwners n (.frame r)
      = w.seat g r { s with cell := { s.cell with owners := n } } := by
  simp [seat, setOwners, Store.setOwners, Store.get_set_self, Store.set_set]

@[simp] theorem mark_seat (u : Bool) :
    (w.seat g r s).mark u = w.seat g r { s with unwinding := u } := rfl

end World

/-- A generator of the given code and closure, on a thread with these levels; its frame, where it has
one, is `r`, and refers to no object. -/
structure Solo.Of (code : CodeRef) (closure : Value) (r : FrameRef) (thread : Thread) (s : Solo) :
    Prop where
  code_eq : s.generator.code = code
  closure_eq : s.generator.closure = closure
  frame_eq : ∀ q, s.generator.frame = some q → q = r
  bare : Bare s.cell.content
  thread_eq : s.thread = thread

section Alone

variable {codes : List CodeObject} {g : GeneratorRef} {r : FrameRef} {code : CodeRef}
  {closure : Value} {thread : Thread} {P : α → Prop}

/-- A computation that acts on such a generator only. -/
abbrev Alone (codes : List CodeObject) (g : GeneratorRef) (r : FrameRef) (code : CodeRef)
    (closure : Value) (thread : Thread) (P : α → Prop) (m : Run World α) : Prop :=
  Apart codes (fun s w => w.seat g r s) (Solo.Of code closure r thread)
    (Solo.Of code closure r thread) (Solo.Of code closure r thread) P m

/-- A computation that leaves the world alone leaves the generator alone. -/
theorem idle_alone {m : Run World α} (hm : Idle codes P m) :
    Alone codes g r code closure thread P m := by
  intro s hs
  obtain ⟨x, hx, hmx⟩ := hm s.unwinding True.intro
  rcases x with ⟨a, u⟩ | ⟨reason, u⟩
  · exact ⟨.ok a { s with unwinding := u }, ⟨hx.1, { hs with }⟩, fun w hw => hmx (w.seat g r s) hw⟩
  · refine ⟨.error reason { s with unwinding := u }, ?_, fun w hw => hmx (w.seat g r s) hw⟩
    cases reason with
    | raised y => exact ⟨hx.1, { hs with }⟩
    | aborted => exact { hs with }
    | outOfFuel => exact hx

/-- A computation on the frame, which is out of its cell meanwhile. -/
theorem withFrame_alone {m : Run (Frame × World) α} (hm : Detached codes P m) :
    Alone codes g r code closure thread P (World.withFrame r m) := by
  intro s hs
  cases hcell : s.cell.content with
  | none =>
      refine ⟨.error .aborted { s with unwinding := true }, { hs with }, fun w _ => ?_⟩
      simp only [World.withFrame, World.frame_seat, hcell]
      rfl
  | some f =>
      have hf : Bare f := by
        have := hs.bare
        rwa [hcell] at this
      obtain ⟨x, hx, hmx⟩ := hm (f, s.unwinding) hf
      have hrun : ∀ w : World, w.codes = codes → World.withFrame r m (w.seat g r s) =
          Run.withPrivate f (fun _ => within beside
            (w.seat g r { s with cell := ⟨s.cell.owners, none⟩ }) x)
            (fun f => modify (·.setFrame r (some f))) (w.seat g r { s with cell := ⟨s.cell.owners, none⟩ }) := by
        intro w hw
        unfold World.withFrame Run.withPrivate
        rw [World.frame_seat, hcell]
        dsimp only
        rw [World.setFrame_seat, ← hmx (w.seat g r _) hw]
        rfl
      rcases x with ⟨a, f', u⟩ | ⟨reason, f', u⟩
      · refine ⟨.ok a { s with cell := ⟨s.cell.owners, some f'⟩, unwinding := u },
          ⟨hx.1, { hs with bare := hx.2 }⟩, fun w hw => ?_⟩
        rw [hrun w hw]
        simp only [Run.withPrivate, within, beside, Run.modify_apply, World.mark_seat,
          World.setFrame_seat]
      · cases reason with
        | outOfFuel =>
            refine ⟨.error .outOfFuel { s with cell := ⟨s.cell.owners, none⟩, unwinding := u }, hx,
              fun w hw => ?_⟩
            rw [hrun w hw]
            simp only [Run.withPrivate, within, beside, World.mark_seat]
        | raised y =>
            refine ⟨.error (.raised y) { s with cell := ⟨s.cell.owners, some f'⟩, unwinding := u },
              ⟨hx.1, { hs with bare := hx.2 }⟩, fun w hw => ?_⟩
            rw [hrun w hw]
            simp only [Run.withPrivate, within, beside, Run.modify_apply, World.mark_seat,
              World.setFrame_seat]
        | aborted =>
            refine ⟨.error .aborted { s with cell := ⟨s.cell.owners, some f'⟩, unwinding := u },
              { hs with bare := hx }, fun w hw => ?_⟩
            rw [hrun w hw]
            simp only [Run.withPrivate, within, beside, Run.modify_apply, World.mark_seat,
              World.setFrame_seat]

/-- A step that changes the generator, its frame or the owners of the frame. -/
theorem step_alone {a : α} {f : Solo → Solo} {m : Run World α} (ha : P a)
    (hm : ∀ s (w : World), m (w.seat g r s) = .ok a (w.seat g r (f s)))
    (h : ∀ s, s.Of code closure r thread → (f s).Of code closure r thread) :
    Alone codes g r code closure thread P m :=
  Apart.step (g := fun s => .ok a (f s)) (fun s hs => ⟨ha, h s hs⟩) fun s w _ => hm s w

/-- A look at the generator, at its frame or at the code objects. -/
theorem look_alone {ω : Type} {m : Run World α} {f : World → ω} {a : Solo → ω} {k : ω → Run World α}
    (hread : ∀ s (w : World), s.Of code closure r thread → w.codes = codes → f (w.seat g r s) = a s)
    (hk : ∀ s, s.Of code closure r thread → Alone codes g r code closure thread P (k (a s)))
    (hm : ∀ t, m t = k (f t) t) : Alone codes g r code closure thread P m :=
  Apart.look hread
    (fun s hs => (hk s hs).mono (fun _ h => h ▸ hs) (fun _ => id) (fun _ => id) fun _ => id) hm

/-- A look at where the generator keeps its frame, if it has one. -/
theorem slot_alone {m a : Run World α} {k : Generator → FrameRef → Run World α}
    (hnone : Alone codes g r code closure thread P a)
    (hsome : ∀ s : Solo, s.Of code closure r thread →
      Alone codes g r code closure thread P (k s.generator r))
    (hm : ∀ t, m t = (t.generator g).frame.elim a (k (t.generator g)) t) :
    Alone codes g r code closure thread P m := by
  refine look_alone (f := fun w => w.generator g) (a := Solo.generator)
    (k := fun generator => generator.frame.elim a (k generator))
    (fun _ _ _ _ => World.generator_seat) (fun s hs => ?_) hm
  cases hframe : s.generator.frame with
  | none => exact hnone
  | some q =>
      obtain rfl := hs.frame_eq q hframe
      exact hsome s hs

/-- A call on the generator: it is refused while the generator runs, and there may be no frame. -/
theorem admitted_alone {m a b : Run World α} {k : FrameRef → Run World α}
    (hrunning : Alone codes g r code closure thread P a)
    (hnone : Alone codes g r code closure thread P b)
    (hsome : Alone codes g r code closure thread P (k r))
    (hm : ∀ t, m t = (if (t.generator g).running = true then a
      else (t.generator g).frame.elim b k) t) :
    Alone codes g r code closure thread P m := by
  refine look_alone (f := fun w => w.generator g) (a := Solo.generator)
    (k := fun generator => if generator.running = true then a else generator.frame.elim b k)
    (fun _ _ _ _ => World.generator_seat) (fun s hs => ?_) hm
  by_cases hbusy : s.generator.running = true
  · rw [if_pos hbusy]
    exact hrunning
  · rw [if_neg hbusy]
    cases hframe : s.generator.frame with
    | none => exact hnone
    | some q =>
        obtain rfl := hs.frame_eq q hframe
        exact hsome

theorem whileRunning_alone {m : Run World α} (hm : Alone codes g r code closure thread P m) :
    Alone codes g r code closure thread P (World.whileRunning g m) := by
  have hset (b : Bool) : Alone codes g r code closure thread Any
      (modify (World.setRunning · g b) : Run World PUnit) :=
    step_alone (a := ()) (f := fun s => { s with generator := { s.generator with running := b } })
      True.intro (fun s w => by simp [World.setRunning]) fun s hs => { hs with }
  exact (hset true).bind fun _ _ => hm.ensuring (hset false) (hset false)

end Alone

/-! ## Owners of the frame -/

section Owners

variable {codes : List CodeObject} {g : GeneratorRef} {r : FrameRef} {code : CodeRef}
  {closure : Value} {thread : Thread} {P : α → Prop} {n : Nat}

theorem shareFrame_alone : Alone codes g r code closure thread Any (World.share (.frame r)) :=
  step_alone (a := ()) (f := fun s => { s with cell := ⟨s.cell.owners + 1, s.cell.content⟩ })
    True.intro (fun s w => by
      show EStateM.Result.ok () ((w.seat g r s).setOwners
        ((w.seat g r s).owners (.frame r) + 1) (.frame r)) = _
      rw [World.setOwners_seat, World.owners_seat])
    fun s hs => { hs with }

/-- Disposing of the frame, which refers to no object. -/
theorem reclaimFrame_alone :
    Alone codes g r code closure thread Any (Machine.perform n (.reclaim (.frame r))) := by
  cases n with
  | zero => exact Apart.outOfFuel
  | succ n =>
      refine look_alone (f := fun w => w.frame? r) (a := fun s => s.cell.content)
        (k := fun frame => do
          modify (World.setFrame · r none)
          (Machine.engine n).releaseAll ((frame.map Frame.owned).getD [])
          return .none) (fun _ _ _ _ => World.frame_seat) (fun s hs => ?_) fun _ => rfl
      have hvacate : Alone codes g r code closure thread Any
          (modify (World.setFrame · r none) : Run World PUnit) :=
        step_alone (a := ()) (f := fun s => { s with cell := ⟨s.cell.owners, none⟩ }) True.intro
          (fun s w => by simp only [Run.modify_apply, World.setFrame_seat])
          fun s hs => { hs with bare := rfl }
      have howned : Bare ((s.cell.content.map Frame.owned).getD []) := by
        have := hs.bare
        cases hcell : s.cell.content with
        | none => rfl
        | some f =>
            rw [hcell] at this
            exact this
      exact hvacate.bind fun _ _ =>
        (idle_alone (releaseAll_idle howned)).bind fun _ _ => Apart.pure True.intro

/-- Taking an owner away from the frame, which may be the last. -/
theorem releaseFrame_alone :
    Alone codes g r code closure thread Any ((Machine.engine n).releaseObject (.frame r)) := by
  intro s hs
  cases howners : s.cell.owners with
  | zero =>
      refine ⟨.ok () s, ⟨True.intro, hs⟩, fun w _ => ?_⟩
      simp only [Engine.releaseObject, World.owners_seat, howners, within]
  | succ k =>
      cases k with
      | zero =>
          obtain ⟨x, hx, hmx⟩ := reclaimFrame_alone (n := n)
            { s with cell := ⟨0, s.cell.content⟩ } { hs with }
          have hreclaimed : ∀ w : World, w.codes = codes →
              (Machine.engine n).perform (.reclaim (.frame r))
                (w.seat g r { s with cell := ⟨0, s.cell.content⟩ }) =
              within (fun s (w : World) => w.seat g r s) w x := hmx
          rcases x with ⟨v, t⟩ | ⟨reason, t⟩
          · refine ⟨.ok () t, hx, fun w hw => ?_⟩
            simp only [Engine.releaseObject, World.owners_seat, howners, World.setOwners_seat,
              hreclaimed w hw, within]
          · refine ⟨.error reason t, ?_, fun w hw => ?_⟩
            · cases reason <;> exact hx
            · simp only [Engine.releaseObject, World.owners_seat, howners, World.setOwners_seat,
                hreclaimed w hw, within]
      | succ k =>
          refine ⟨.ok () { s with cell := ⟨k + 1, s.cell.content⟩ }, ⟨True.intro, { hs with }⟩,
            fun w _ => ?_⟩
          simp only [Engine.releaseObject, World.owners_seat, howners, World.setOwners_seat, within]

theorem releaseObjects_alone {os : List Object} (h : ∀ o ∈ os, o = .frame r) :
    Alone codes g r code closure thread Any ((Machine.engine n).releaseObjects os) := by
  induction os with
  | nil => exact Apart.pure True.intro
  | cons o os ih =>
      obtain ⟨rfl, hos⟩ := List.forall_mem_cons.1 h
      exact releaseFrame_alone.ensuring (ih hos) (ih hos)

/-- A value that refers to no object but the frame. -/
def OnlyFrame (r : FrameRef) (v : Value) : Prop := ∀ o ∈ v.objects, o = .frame r

theorem onlyFrame_of_bare {v : Value} (h : Bare v) : OnlyFrame r v := by
  intro o ho
  rw [objects_eq_nil h] at ho
  cases ho

theorem onlyFrame_of_mem {vs : List Value} (h : Bare vs) : ∀ v ∈ vs, OnlyFrame r v :=
  fun _ hv => onlyFrame_of_bare (Bag.eq_zero_of_le (holds_le_of_mem hv) h)

theorem onlyFrame_frame : OnlyFrame r (.frame r) := fun _ ho => List.mem_singleton.1 ho

theorem releaseAll_alone {vs : List Value} (h : ∀ v ∈ vs, OnlyFrame r v) :
    Alone codes g r code closure thread Any ((Machine.engine n).releaseAll vs) :=
  releaseObjects_alone fun o ho => by
    obtain ⟨v, hv, hov⟩ := Engine.mem_objectsOfAll.1 ho
    exact h v hv o hov

theorem owningFrame_alone {m : Run World α} (hm : Alone codes g r code closure thread P m) :
    Alone codes g r code closure thread P ((Machine.engine n).owning (.frame r) m) :=
  hm.ensuring (releaseObjects_alone onlyFrame_frame) (releaseObjects_alone onlyFrame_frame)

theorem owning_alone {v : Value} {m : Run World α} (hv : Bare v)
    (hm : Alone codes g r code closure thread P m) :
    Alone codes g r code closure thread P ((Machine.engine n).owning v m) :=
  hm.ensuring (idle_alone (release_idle hv)) (idle_alone (release_idle hv))

end Owners

/-! ## Changing the frame -/

section Changing

variable {codes : List CodeObject} {g : GeneratorRef} {r : FrameRef} {code : CodeRef}
  {closure : Value} {thread : Thread} {P : α → Prop} {e : Engine} {x : Exception} {v : Value}

theorem engineReplace_detached {change : Frame → Frame × List Value} (h : Plain change) :
    Detached codes Any (e.replace change) := by
  refine look_detached (r := fun t => t.1) (a := id) (k := fun f => do
      modify fun t => ((change f).1, t.2)
      Run.shared (e.releaseAll (change f).2)) (fun _ _ _ => rfl) (fun f hf => ?_) fun _ => rfl
  obtain ⟨hframe, hremoved⟩ := h f hf
  exact (edit_detached (P := Any) (a := fun _ => ()) (g := fun _ => (change f).1) (fun _ _ => rfl)
    fun _ _ => ⟨True.intro, hframe⟩).bind fun _ _ => releaseAll_detached hremoved

theorem stepOn_detached : Detached codes Any World.stepOn := by
  refine look_detached (r := fun t => t.1.hasNext) (a := Frame.hasNext) (k := fun b =>
    if b then modify fun s => (s.1.stepOn, s.2) else Run.shared World.abort)
    (fun _ _ _ => rfl) (fun f _ => ?_) fun _ => rfl
  split
  · exact edit_detached (P := Any) (a := fun _ => ()) (g := Frame.stepOn) (fun _ _ => rfl)
      fun _ hf => ⟨True.intro, hf⟩
  · exact abort_detached

theorem readFrame_alone :
    Alone codes g r code closure thread Bare (World.readFrame r) := by
  intro s hs
  cases hcell : s.cell.content with
  | none =>
      refine ⟨.error .aborted { s with unwinding := true }, { hs with }, fun w _ => ?_⟩
      simp only [World.readFrame, World.frame_seat, hcell]
      rfl
  | some f =>
      have := hs.bare
      rw [hcell] at this
      refine ⟨.ok f s, ⟨this, hs⟩, fun w _ => ?_⟩
      simp only [World.readFrame, World.frame_seat, hcell, within]

theorem withFrameFor_alone {vs : List Value} {m : Run (Frame × World) α} (hvs : Bare vs)
    (hm : Detached codes P m) :
    Alone codes g r code closure thread P (e.withFrameFor vs r m) :=
  (readFrame_alone.onInterruption (idle_alone (releaseAll_idle hvs))).bind fun _ _ =>
    withFrame_alone hm

theorem put_alone {change : Frame → Value → Frame × List Value} (hv : Bare v)
    (h : Plain (change · v)) : Alone codes g r code closure thread Any (e.put r v change) :=
  withFrameFor_alone (holds_cons_eq_zero.2 ⟨hv, rfl⟩) (engineReplace_detached h)

theorem dropDelegate_alone : Alone codes g r code closure thread Any (e.dropDelegate r) :=
  withFrame_alone (engineReplace_detached plain_removeDelegate)

theorem leavePending_alone (hx : Bare x) :
    Alone codes g r code closure thread Any (e.leavePending r x) :=
  withFrameFor_alone hx (engineReplace_detached (plain_replacePending hx))

theorem finishDelegation_alone (hv : Bare v) :
    Alone codes g r code closure thread Any (e.finishDelegation r v) := by
  refine withFrameFor_alone (holds_cons_eq_zero.2 ⟨hv, rfl⟩) ?_
  refine Apart.bind (P := Any) ?_ fun _ _ => engineReplace_detached (plain_replaceDelegationResult hv)
  exact ((engineReplace_detached plain_removeDelegate).bind fun _ _ => stepOn_detached).onInterruption
    (shared_detached (release_idle hv))

end Changing

/-! ## Resuming -/

section Resuming

variable {codes : List CodeObject} {g : GeneratorRef} {r : FrameRef} {code : CodeRef}
  {closure : Value} {thread : Thread} {n : Nat} {input : Value} {pending : Option Exception}

theorem letGo_alone :
    Alone codes g r code closure thread Any ((Machine.engine n).letGo r) := by
  refine owningFrame_alone ?_
  refine look_alone (f := fun w => (w.frame? r).isSome) (a := fun t => t.cell.content.isSome)
    (k := fun b =>
      if b then
        World.withFrame r do
          modify fun s => (s.1.markFinished, s.2)
          (Machine.engine n).replace Frame.removeDelegate
      else pure ())
    (fun _ _ _ _ => by rw [World.frame_seat]) (fun t _ => ?_) fun _ => rfl
  split
  · refine withFrame_alone ?_
    exact (edit_detached (P := Any) (a := fun _ => ()) (g := Frame.markFinished) (fun _ _ => rfl)
      fun _ hf => ⟨True.intro, hf⟩).bind fun _ _ => engineReplace_detached plain_removeDelegate
  · exact Apart.pure True.intro

theorem terminate_alone :
    Alone codes g r code closure thread Any ((Machine.engine n).terminate g) := by
  refine slot_alone (a := pure ()) (k := fun generator q => do
      modify (·.setGenerator g { generator with frame := none })
      (Machine.engine n).letGo q) (Apart.pure True.intro) (fun s hs => ?_) fun t => by
    simp only [Engine.terminate, Run.bind_apply, Run.get_apply]
    cases (t.generator g).frame <;> rfl
  have hlet : Alone codes g r code closure thread Any
      (modify (·.setGenerator g { s.generator with frame := none }) : Run World PUnit) :=
    step_alone (a := ()) (f := fun t => { t with generator := { s.generator with frame := none } })
      True.intro (fun t w => by simp only [Run.modify_apply, World.setGenerator_seat])
      fun t ht => { ht with
        code_eq := hs.code_eq
        closure_eq := hs.closure_eq
        frame_eq := fun _ h => by cases h }
  exact hlet.bind fun _ _ => letGo_alone

/-- The code object of the generator is a program. -/
def RunsProgram (codes : List CodeObject) (code : CodeRef) : Prop :=
  ∃ p, (codes[code.index]?.getD default).body = .program p

theorem runBody_alone (hbody : RunsProgram codes code) (hclosure : Bare closure)
    (hpending : Bare pending) :
    Alone codes g r code closure thread Bare ((Machine.engine n).runBody g r pending) := by
  obtain ⟨p, hp⟩ := hbody
  refine look_alone (f := fun w => (w.code (w.generator g).code, (w.generator g).closure))
    (a := fun s => (codes[s.generator.code.index]?.getD default, s.generator.closure))
    (k := fun c => World.whileRunning g
      (World.withFrame r (c.1.resume (Machine.engine n) c.2 pending)))
    (fun _ _ _ hw => by rw [World.generator_seat, World.code, World.codes_seat, hw])
    (fun s hs => whileRunning_alone (withFrame_alone ?_)) fun _ => rfl
  dsimp only
  rw [hs.code_eq, hs.closure_eq, CodeObject.resume, hp]
  exact Code.Program.resume_detached _ p hclosure hpending

theorem takePending_alone :
    Alone codes g r code closure thread Bare (Engine.takePending r) := by
  refine withFrame_alone (edit_detached (a := Frame.pending) (g := fun f => { f with pending := none })
    (fun _ _ => rfl) fun f hf => ?_)
  obtain ⟨hlocals, hstack, hdelegate, hpending, hrest⟩ := bare_frame_iff.1 hf
  exact ⟨hpending, bare_frame_iff.2 ⟨hlocals, hstack, hdelegate, rfl, hrest⟩⟩

theorem handOver_alone (hinput : Bare input) :
    Alone codes g r code closure thread Any ((Machine.engine n).handOver r input) := by
  unfold Engine.handOver
  split
  · exact Apart.pure True.intro
  · exact (idle_alone (share_idle hinput)).bind fun _ _ =>
      put_alone hinput (plain_replaceInput hinput)

theorem releasePending_alone (hpending : Bare pending) :
    Alone codes g r code closure thread Any ((Machine.engine n).releasePending pending) := by
  cases pending with
  | none => exact Apart.pure True.intro
  | some x => exact idle_alone (releaseAll_idle hpending)

theorem resumeFrame_alone (hbody : RunsProgram codes code) (hclosure : Bare closure)
    (hinput : Bare input) :
    Alone codes g r code closure thread Bare ((Machine.engine n).resumeFrame g r input) := by
  refine takePending_alone.bind fun pending hpending => ?_
  refine look_alone (f := fun w => ((w.frame? r).map Frame.isFinished).getD false)
    (a := fun s => (s.cell.content.map Frame.isFinished).getD false) (k := fun finished =>
      if finished then
        Run.ensuring (do (Machine.engine n).terminate g; Run.raise .stopIteration)
          ((Machine.engine n).releasePending pending)
      else do
        ((Machine.engine n).handOver r input).onInterruption
          ((Machine.engine n).releasePending pending)
        Run.attempt ((Machine.engine n).runBody g r pending) >>= (Machine.engine n).settleBody g r)
    (fun _ _ _ _ => by rw [World.frame_seat]) (fun s _ => ?_) fun _ => rfl
  split
  · exact (terminate_alone.bind fun _ _ => Apart.raise rfl).ensuring
      (releasePending_alone hpending) (releasePending_alone hpending)
  refine ((handOver_alone hinput).onInterruption (releasePending_alone hpending)).bind fun _ _ => ?_
  refine (runBody_alone hbody hclosure hpending).attempt.bind fun outcome houtcome => ?_
  cases outcome with
  | ok suspension =>
      cases suspension with
      | yielded v => exact Apart.pure houtcome
      | returned v =>
          have hstop : Bare (Exception.stopIterationWith v) := by
            rw [Bare, holds_stopIterationWith]
            exact houtcome
          exact (terminate_alone.onInterruption (idle_alone (release_idle houtcome))).bind
            fun _ _ => Apart.raise hstop
      | delegateExhausted v =>
          exact (finishDelegation_alone houtcome).bind fun _ _ => Apart.pure rfl
  | error x =>
      exact (terminate_alone.onInterruption (idle_alone (releaseAll_idle houtcome))).bind
        fun _ _ => Apart.raise houtcome

/-- The generator on a thread with a level less, and back. -/
theorem enter_apart {inner : Thread} (h : thread.enter? = some inner) :
    Apart codes (fun s (w : World) => w.seat g r s) (Solo.Of code closure r thread)
      (Solo.Of code closure r inner) (Solo.Of code closure r thread) Any World.enter :=
  Apart.step (g := fun s => .ok () { s with thread := inner })
    (fun s hs => ⟨True.intro, { hs with thread_eq := rfl }⟩) fun s w hs => by
      simp only [World.enter, World.thread_seat, hs.thread_eq, h]
      rfl

theorem leave_apart {inner : Thread} (h : thread.enter? = some inner) :
    Apart codes (fun s (w : World) => w.seat g r s) (Solo.Of code closure r inner)
      (Solo.Of code closure r thread) (Solo.Of code closure r thread) Any World.leave :=
  Apart.step (g := fun s => .ok () { s with thread := thread })
    (fun s hs => ⟨True.intro, { hs with thread_eq := rfl }⟩) fun s w hs => by
      simp only [World.leave, Run.modify_apply, World.thread_seat, hs.thread_eq,
        Thread.leave_enter h]
      rfl

theorem enter_full {P : Unit → Prop} (h : thread.enter? = none) :
    Alone codes g r code closure thread P World.enter :=
  Apart.step (g := fun s => .error (.raised .recursionError) s) (fun s hs => ⟨rfl, hs⟩)
    fun s w hs => by
      simp only [World.enter, World.thread_seat, hs.thread_eq, h]
      rfl

/-- One resume, given the resumes that it leads to. -/
theorem resume_alone (hbody : RunsProgram codes code) (hclosure : Bare closure)
    (hinput : Bare input)
    (hagain : ∀ thread, Alone codes g r code closure thread Bare
      (Machine.perform n (.resume g input))) :
    Alone codes g r code closure thread Bare ((Machine.engine n).resume g input) := by
  have hforget (thread : Thread) :
      Alone codes g r code closure thread Any ((Machine.engine n).release input) :=
    idle_alone (release_idle hinput)
  have hproceed (inner : Thread) (hlevel : thread.enter? = some inner) :
      Apart codes (fun s w => w.seat g r s) (Solo.Of code closure r inner)
        (Solo.Of code closure r thread) (Solo.Of code closure r thread) Bare
        ((Machine.engine n).proceed g r input) := by
    refine ((resumeFrame_alone hbody hclosure hinput).onInterruption
      ((leave_apart hlevel).bind fun _ _ => hforget thread)).bind fun result hresult => ?_
    cases result with
    | some v =>
        exact (leave_apart hlevel).bind fun _ _ =>
          (hforget thread).bind fun _ _ => Apart.pure hresult
    | none => exact (hagain inner).ensuring (leave_apart hlevel) (leave_apart hlevel)
  refine admitted_alone (a := (Machine.engine n).owning input (Run.raise .alreadyExecuting))
    (b := (Machine.engine n).owning input (Run.raise .stopIteration)) (k := fun q => do
      World.share (.frame q)
      (Machine.engine n).owning (.frame q) do
        World.enter.onInterruption ((Machine.engine n).release input)
        (Machine.engine n).proceed g q input) (owning_alone hinput (Apart.raise rfl))
    (owning_alone hinput (Apart.raise rfl)) ?_ fun t => by
      simp only [Engine.resume, Run.bind_apply, Run.get_apply]
      split
      · rfl
      · cases (t.generator g).frame <;> rfl
  refine shareFrame_alone.bind fun _ _ => owningFrame_alone ?_
  cases hlevel : thread.enter? with
  | none =>
      exact ((enter_full (P := fun _ => False) hlevel).onInterruption (hforget thread)).bind
        fun _ h => h.elim
  | some inner =>
      exact ((enter_apart hlevel).onInterruption (hforget thread)).bind fun _ _ =>
        hproceed inner hlevel

/-- A resume, by induction on the fuel: a finished delegation resumes the generator again. -/
theorem performResume_alone (hbody : RunsProgram codes code) (hclosure : Bare closure)
    (hinput : Bare input) :
    Alone codes g r code closure thread Bare (Machine.perform n (.resume g input)) := by
  induction n generalizing thread with
  | zero => exact Apart.outOfFuel
  | succ n ih => exact resume_alone hbody hclosure hinput fun _ => ih

end Resuming

/-! ## Throwing and closing -/

section Throwing

variable {codes : List CodeObject} {g : GeneratorRef} {r : FrameRef} {code : CodeRef}
  {closure : Value} {thread : Thread} {n : Nat} {x : Exception} {type : Value}
  {value : Option Value} {tb : Option Traceback}

/-- A value that refers to no object has no way of being closed. -/
theorem closeIter_idle {e : Engine} {v : Value} (hv : Bare v) :
    Idle codes Bare (e.closeIter v) := by
  have hobjects := objects_eq_nil hv
  unfold Engine.closeIter
  split
  · cases hobjects
  · cases hobjects
  · exact Apart.pure rfl

theorem inject_alone (hbody : RunsProgram codes code) (hclosure : Bare closure) (hx : Bare x) :
    Alone codes g r code closure thread Bare ((Machine.engine n).inject g r x) := by
  have hdrop : Detached codes Any (((Machine.engine n).replace Frame.removeDelegate).onInterruption
      (Run.shared ((Machine.engine n).releaseException x))) :=
    (engineReplace_detached plain_removeDelegate).onInterruption (releaseAll_detached hx)
  exact (withFrameFor_alone hx (hdrop.bind fun _ _ =>
    engineReplace_detached (plain_replacePending hx))).bind fun _ _ =>
      performResume_alone hbody hclosure rfl

theorem bare_toList {v : Option Value} (h : Bare v) : Bare v.toList := (holds_toList v).trans h

theorem raiseIntoFrame_alone (hbody : RunsProgram codes code) (hclosure : Bare closure)
    (htype : Bare type) (hvalue : Bare value) :
    Alone codes g r code closure thread Bare
      ((Machine.engine n).raiseIntoFrame g r type value tb) := by
  have hforget : Alone codes g r code closure thread Any
      ((Machine.engine n).releaseAll value.toList) :=
    idle_alone (releaseAll_idle (bare_toList hvalue))
  refine Apart.ensuring ?_ hforget hforget
  refine (idle_alone (normalize_idle htype hvalue)).bind fun x hx => ?_
  cases tb with
  | none => exact inject_alone hbody hclosure hx
  | some t => exact inject_alone hbody hclosure hx

theorem abandonDelegate_alone {α : Type} {P : α → Prop} (hx : Bare x) :
    Alone codes g r code closure thread P ((Machine.engine n).abandonDelegate r x : Run World α) :=
  ((finishDelegation_alone rfl).onInterruption (idle_alone (releaseAll_idle hx))).bind
    fun _ _ => Apart.raise hx

theorem throwInto_alone (hbody : RunsProgram codes code) (hclosure : Bare closure)
    (htype : Bare type) (hvalue : Bare value) :
    Alone codes g r code closure thread Bare ((Machine.engine n).throwInto g r type value tb) := by
  have hvalues := onlyFrame_of_mem (r := r) (bare_toList hvalue)
  have hhere {held : List Value} (hheld : Bare held) :
      Alone codes g r code closure thread Bare
        (Run.ensuring ((Machine.engine n).raiseIntoFrame g r type value tb)
          ((Machine.engine n).releaseAll (held ++ [.frame r]))) := by
    have hforget : Alone codes g r code closure thread Any
        ((Machine.engine n).releaseAll (held ++ [.frame r])) :=
      releaseAll_alone (List.forall_mem_append.2
        ⟨onlyFrame_of_mem hheld, List.forall_mem_singleton.2 onlyFrame_frame⟩)
    exact (raiseIntoFrame_alone hbody hclosure htype hvalue).ensuring hforget hforget
  refine (readFrame_alone.onInterruption (releaseAll_alone
    (List.forall_mem_cons.2 ⟨onlyFrame_frame, hvalues⟩))).bind fun f hf => ?_
  have hdelegate := (bare_frame_iff.1 hf).2.2.1
  dsimp only
  cases h : f.delegate with
  | none => exact hhere rfl
  | some inner =>
      rw [h] at hdelegate
      have hinner : Bare inner := hdelegate
      have hobjects := objects_eq_nil hinner
      have hforget : Alone codes g r code closure thread Any
          ((Machine.engine n).releaseAll (inner :: .frame r :: value.toList)) :=
        releaseAll_alone (List.forall_mem_cons.2 ⟨onlyFrame_of_bare hinner,
          List.forall_mem_cons.2 ⟨onlyFrame_frame, hvalues⟩⟩)
      refine (idle_alone (share_idle hinner)).bind fun _ _ => ?_
      split
      · refine ((whileRunning_alone (idle_alone (closeIter_idle hinner))).attempt.onInterruption
          hforget).bind fun closed hclosed => ?_
        cases closed with
        | ok v => exact hhere (holds_cons_eq_zero.2 ⟨hclosed, holds_cons_eq_zero.2 ⟨hinner, rfl⟩⟩)
        | error y => exact (abandonDelegate_alone hclosed).ensuring hforget hforget
      · cases inner with
        | generator d => cases hobjects
        | iterator d => cases hobjects
        | _ => exact hhere (holds_cons_eq_zero.2 ⟨hinner, rfl⟩)

theorem answerThrow_alone (hbody : RunsProgram codes code) (hclosure : Bare closure)
    {thrown : Throw} (htype : Bare thrown.type) (hvalue : Bare thrown.value)
    (htraceback : Bare thrown.traceback) :
    Alone codes g r code closure thread Bare ((Machine.engine n).answerThrow g thrown) := by
  refine owning_alone htype ?_
  have hrefuse {x : Exception} (hx : Bare x) : Alone codes g r code closure thread (Bare (α := Value))
      (Run.ensuring (Run.raise x)
        ((Machine.engine n).releaseAll (thrown.traceback.toList ++ thrown.value.toList))) := by
    have hforget : Alone codes g r code closure thread Any ((Machine.engine n).releaseAll
        (thrown.traceback.toList ++ thrown.value.toList)) :=
      idle_alone (releaseAll_idle (holds_append_eq_zero.2
        ⟨bare_toList htraceback, bare_toList hvalue⟩))
    exact (Apart.raise hx).ensuring hforget hforget
  dsimp only
  cases htb : Engine.tracebackOf thrown.traceback with
  | error y =>
      have hy : Bare y := by
        unfold Engine.tracebackOf at htb
        split at htb <;> cases htb
        rfl
      exact hrefuse hy
  | ok tb =>
      refine admitted_alone (k := fun q => do
          World.share (.frame q)
          (Machine.engine n).throwInto g q thrown.type thrown.value tb)
        (hrefuse (x := .alreadyExecuting) rfl) (hrefuse (x := .stopIteration) rfl)
        (shareFrame_alone.bind fun _ _ => throwInto_alone hbody hclosure htype hvalue) fun t => ?_
      simp only [Run.bind_apply, Run.get_apply]
      split
      · rfl
      · cases (t.generator g).frame <;> rfl

theorem closeDelegate_alone :
    Alone codes g r code closure thread Any ((Machine.engine n).closeDelegate g r) := by
  refine readFrame_alone.bind fun f hf => ?_
  have hdelegate := (bare_frame_iff.1 hf).2.2.1
  cases h : f.delegate with
  | none => exact Apart.pure True.intro
  | some inner =>
      rw [h] at hdelegate
      have hinner : Bare inner := hdelegate
      refine (idle_alone (share_idle hinner)).bind fun _ _ => owning_alone hinner ?_
      refine (whileRunning_alone (idle_alone (closeIter_idle hinner))).attempt.bind
        fun closed hclosed => ?_
      cases closed with
      | ok v => exact owning_alone hclosed dropDelegate_alone
      | error y =>
          dsimp only
          have hforget : Alone codes g r code closure thread Any
              ((Machine.engine n).releaseException y) := idle_alone (releaseAll_idle hclosed)
          split
          · exact dropDelegate_alone.ensuring hforget hforget
          · exact abandonDelegate_alone hclosed

theorem closeWith_alone (hbody : RunsProgram codes code) (hclosure : Bare closure) :
    Alone codes g r code closure thread Bare ((Machine.engine n).closeWith g r) := by
  refine closeDelegate_alone.bind fun _ _ => (leavePending_alone rfl).bind fun _ _ => ?_
  refine (performResume_alone hbody hclosure rfl).attempt.bind fun x hx => ?_
  cases x with
  | ok v => exact owning_alone hx (Apart.raise rfl)
  | error y =>
      dsimp only
      split
      · exact (idle_alone (releaseAll_idle hx)).bind fun _ _ => Apart.pure rfl
      · exact Apart.raise hx

theorem answerClose_alone (hbody : RunsProgram codes code) (hclosure : Bare closure) :
    Alone codes g r code closure thread Bare ((Machine.engine n).answerClose g) := by
  refine admitted_alone (a := Run.raise .alreadyExecuting) (b := pure .none) (k := fun q => do
      World.share (.frame q)
      (Machine.engine n).owning (.frame q) ((Machine.engine n).closeWith g q)) (Apart.raise rfl)
    (Apart.pure rfl)
    (shareFrame_alone.bind fun _ _ => owningFrame_alone (closeWith_alone hbody hclosure)) fun t => ?_
  simp only [Engine.answerClose, Run.bind_apply, Run.get_apply]
  split
  · rfl
  · cases (t.generator g).frame <;> rfl

end Throwing

/-! ## Calls -/

section Calls

variable {codes : List CodeObject} {g : GeneratorRef} {r : FrameRef} {code : CodeRef}
  {closure : Value} {thread : Thread} {n : Nat} {v : Value} {args : List Value}

theorem bare_getElem? (h : Bare args) (i : Nat) : Bare args[i]? := by
  cases hv : args[i]? with
  | none => rfl
  | some v => exact Bag.eq_zero_of_le (holds_le_of_getElem? hv) h

theorem bare_head (h : Bare args) : Bare (args.head?.getD .none) := by
  rw [List.head?_eq_getElem?]
  exact bare_getD (bare_getElem? h 0)

theorem next_alone (hbody : RunsProgram codes code) (hclosure : Bare closure) :
    Alone codes g r code closure thread Bare ((Machine.engine n).next g) :=
  performResume_alone hbody hclosure rfl

theorem nextOrEnd_alone (hbody : RunsProgram codes code) (hclosure : Bare closure) :
    Alone codes g r code closure thread Bare ((Machine.engine n).nextOrEnd g) := by
  refine (next_alone hbody hclosure).attempt.bind fun x hx => ?_
  cases x with
  | ok v => exact Apart.pure hx
  | error y =>
      dsimp only
      split
      · exact (idle_alone (releaseAll_idle hx)).bind fun _ _ => Apart.pure rfl
      · exact Apart.raise hx

theorem send_alone (hbody : RunsProgram codes code) (hclosure : Bare closure) (hv : Bare v) :
    Alone codes g r code closure thread Bare ((Machine.engine n).send g v) := by
  refine look_alone
    (f := fun w => (w.generator g).frame.map fun q => w.isJustStarted q)
    (a := fun s => s.generator.frame.map fun _ => (s.cell.content.map (!·.isStarted)).getD false)
    (k := fun started => do
      match started with
      | none => (Machine.engine n).owning v (Run.raise .stopIteration)
      | some early =>
          if early && !v.isNone then
            (Machine.engine n).owning v
              (Run.raise (.typeError "can't send non-None value to a just-started generator"))
          else Machine.perform n (.resume g v))
    (fun s w hs _ => ?_) (fun s hs => ?_) fun t => ?_
  · rw [World.generator_seat]
    cases hframe : s.generator.frame with
    | none => rfl
    | some q =>
        obtain rfl := hs.frame_eq q hframe
        simp only [Option.map_some, World.isJustStarted, World.frame_seat]
        cases s.cell.content <;> rfl
  · cases s.generator.frame with
    | none => exact owning_alone hv (Apart.raise rfl)
    | some q =>
        dsimp only [Option.map_some]
        split
        · exact owning_alone hv (Apart.raise rfl)
        · exact performResume_alone hbody hclosure hv
  · unfold Engine.send
    rw [Run.bind_apply]
    dsimp only [Run.get_apply]
    cases (t.generator g).frame <;> rfl

theorem throw_alone (hbody : RunsProgram codes code) (hclosure : Bare closure) {thrown : Throw}
    (htype : Bare thrown.type) (hvalue : Bare thrown.value) (htraceback : Bare thrown.traceback) :
    Alone codes g r code closure thread Bare ((Machine.engine n).throw g thrown) := by
  cases n with
  | zero => exact Apart.outOfFuel
  | succ n => exact answerThrow_alone hbody hclosure htype hvalue htraceback

theorem close_alone (hbody : RunsProgram codes code) (hclosure : Bare closure) :
    Alone codes g r code closure thread Bare ((Machine.engine n).close g) := by
  cases n with
  | zero => exact Apart.outOfFuel
  | succ n => exact answerClose_alone hbody hclosure

theorem stateOf_seat {s : Solo} (hs : s.Of code closure r thread) (w : World) :
    (w.seat g r s).stateOf g = ((default : World).seat g r s).stateOf g := by
  unfold World.stateOf
  simp only [World.generator_seat]
  cases hframe : s.generator.frame with
  | none => rfl
  | some q =>
      obtain rfl := hs.frame_eq q hframe
      simp only [World.frame_seat]

theorem delegateOf_seat {s : Solo} (hs : s.Of code closure r thread) (w : World) :
    (w.seat g r s).delegateOf g
      = s.generator.frame.bind fun _ => s.cell.content.bind Frame.delegate := by
  unfold World.delegateOf
  simp only [World.generator_seat]
  cases hframe : s.generator.frame with
  | none => rfl
  | some q =>
      obtain rfl := hs.frame_eq q hframe
      show ((w.seat g q s).frame? q).bind _ = _
      rw [World.frame_seat]
      rfl

/-- A call, with arguments that refer to no object. -/
theorem call_alone (hbody : RunsProgram codes code) (hclosure : Bare closure) (method : Method)
    (hargs : Bare args) :
    Alone codes g r code closure thread Bare ((Machine.engine n).call g method args) := by
  cases method with
  | next => exact next_alone hbody hclosure
  | nextOrEnd =>
      refine (nextOrEnd_alone hbody hclosure).bind fun item hitem => Apart.pure ?_
      cases item with
      | none => rfl
      | some v => exact hitem
  | send => exact send_alone hbody hclosure (bare_head hargs)
  | throw =>
      exact throw_alone hbody hclosure (bare_head hargs) (bare_getElem? hargs 1)
        (bare_getElem? hargs 2)
  | close => exact close_alone hbody hclosure
  | state =>
      exact look_alone (f := fun w => w.stateOf g) (a := fun s => ((default : World).seat g r s).stateOf g)
        (k := fun state => return .str state.name) (fun _ w hs _ => stateOf_seat hs w)
        (fun _ _ => Apart.pure rfl) fun _ => rfl
  | running =>
      exact look_alone (f := fun w => w.generator g) (a := Solo.generator)
        (k := fun generator => return .bool generator.running) (fun _ _ _ _ => World.generator_seat)
        (fun _ _ => Apart.pure rfl) fun _ => rfl
  | frame =>
      exact look_alone (f := fun w => w.generator g) (a := Solo.generator)
        (k := fun generator => return .bool generator.frame.isSome)
        (fun _ _ _ _ => World.generator_seat) (fun _ _ => Apart.pure rfl) fun _ => rfl
  | yieldFrom =>
      refine look_alone (f := fun w => w.delegateOf g)
        (a := fun s => s.generator.frame.bind fun _ => s.cell.content.bind Frame.delegate)
        (k := fun inner => do
          World.share (inner.getD .none)
          return inner.getD .none) (fun _ w hs _ => delegateOf_seat hs w) (fun s hs => ?_) fun _ => rfl
      have hdelegate : Bare (s.generator.frame.bind fun _ => s.cell.content.bind Frame.delegate) := by
        have hbare := hs.bare
        cases s.generator.frame with
        | none => rfl
        | some q =>
            cases hcell : s.cell.content with
            | none => rfl
            | some f =>
                rw [hcell] at hbare
                exact (bare_frame_iff.1 hbare).2.2.1
      have hinner := bare_getD hdelegate
      exact (idle_alone (share_idle hinner)).bind fun _ _ => Apart.pure hinner

end Calls

end Resumable
