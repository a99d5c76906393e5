import Resumable.Proofs.Limit

set_option autoImplicit false

/-!
# The levels that a resume needs

When a delegate runs out, the body is resumed again one level deeper, and the level of the resume
before is given back only after that.  So a resume needs one level for each delegation that comes to
its end meanwhile, besides the level for itself (`Passes`), however deep the delegations are nested.

Apart from that the limit does not matter.  A machine that breaks a run off before it is refused a
level (`Machine.guarding`) shows whether this happens; where it does not, every larger limit leads to
the same end (`larger_limit_ends`).
-/

namespace Resumable

variable {g : GeneratorRef} {r : FrameRef} {v : Value} {w t u : World} {Z : Zone} {F : Bag}
  {n k : Nat}

/-! ## Delegations that come to their end -/

/-- A resume runs the body, whose delegate runs out, and this happens so many times.  The fuel and the
world are those in which the resume goes on. -/
inductive Passes (g : GeneratorRef) (v : Value) : Nat → Nat → Nat → World → World → Prop where
  | none (n : Nat) (w : World) : Passes g v 0 n n w w
  | one {k m n : Nat} {w t u u' : World} {r : FrameRef} {result : Value}
      (h : Ran (Machine.engine n) g v w r (.ok (.delegateExhausted result)) t)
      (htold : (Machine.engine n).finishDelegation r result t = .ok () u)
      (hrest : Passes g v k m n u u') : Passes g v (k + 1) m (n + 1) w u'

/-- Each of the delegations takes a level. -/
theorem Passes.depth {m : Nat} (h : Passes g v k m n w u) (hZ : Z.Fit (Zone.Level (.made g)))
    (hheld : Z.Held F g) (hw : Z.Linked (holds v + F) w w) :
    u.thread = { w.thread with depth := w.thread.depth + k } := by
  induction h generalizing Z F with
  | none => rfl
  | @one k m n w t u u' r result hran htold _ ih =>
      obtain ⟨hdeep, hu⟩ := hran.again_linked htold hZ hheld hw
      have hthread : u.thread = { w.thread with depth := w.thread.depth + 1 } := by
        rw [hu.pinned.thread, hw.pinned.thread]
        rfl
      rw [ih hdeep (hheld.le le_add_self) hu, hthread]
      simp only [Thread.mk.injEq, true_and, and_true]
      omega

namespace Run

variable {σ α : Type}

/-- There is no result, and nothing is raised but one exception. -/
def OnlyRaises (x : Exception) : EStateM.Result Interruption σ α → Prop
  | .ok _ _ => False
  | .error (.raised y) _ => y = x
  | .error _ _ => True

/-- There is no result, and nothing is raised but exceptions of a kind. -/
def RaisesOnly (P : Exception → Prop) : EStateM.Result Interruption σ α → Prop
  | .ok _ _ => False
  | .error (.raised y) _ => P y
  | .error _ _ => True

variable {β : Type} {P Q : Exception → Prop} {x : Exception} {s : σ}

theorem onlyRaises_iff {result : EStateM.Result Interruption σ α} :
    OnlyRaises x result ↔ RaisesOnly (· = x) result := by
  rcases result with ⟨a, t⟩ | ⟨_ | _ | _, t⟩ <;> rfl

theorem RaisesOnly.bind {m : Run σ α} {f : α → Run σ β} (h : RaisesOnly P (m s)) :
    RaisesOnly P ((m >>= f) s) := by
  rw [Run.bind_apply]
  cases hm : m s with
  | ok a t =>
      rw [hm] at h
      exact h.elim
  | error reason t =>
      rw [hm] at h
      cases reason <;> exact h

/-- A step before it that does not raise. -/
theorem RaisesOnly.after {m : Run σ β} {f : β → Run σ α} (hm : Silent m)
    (hf : ∀ b t, m s = .ok b t → RaisesOnly P (f b t)) : RaisesOnly P ((m >>= f) s) := by
  rw [Run.bind_apply]
  cases h : m s with
  | ok b t => exact hf b t h
  | error reason t =>
      cases reason with
      | raised y => exact absurd h (hm s y t)
      | _ => exact True.intro

/-- A clean-up after an interruption makes no difference if it does not raise. -/
theorem RaisesOnly.onInterruption {m : Run σ α} {c : Run σ Unit} (h : RaisesOnly P (m s))
    (hc : Silent c) : RaisesOnly P (m.onInterruption c s) := by
  unfold Run.onInterruption
  cases hm : m s with
  | ok a t =>
      rw [hm] at h
      exact h.elim
  | error reason t =>
      rw [hm] at h
      cases hd : c t with
      | ok _ t' => cases reason <;> simp only [hd] <;> exact h
      | error other t' =>
          have hother : ∀ y, other ≠ .raised y := fun y heq => hc t y t' (heq ▸ hd)
          cases reason with
          | outOfFuel => exact True.intro
          | _ =>
              simp only [hd]
              cases other with
              | raised y => exact absurd rfl (hother y)
              | _ => exact True.intro

/-- A clean-up that does not raise makes no difference. -/
theorem RaisesOnly.ensuring {m : Run σ α} {c : Run σ Unit} (h : RaisesOnly P (m s))
    (hc : Silent c) : RaisesOnly P (m.ensuring c s) :=
  (h.onInterruption hc).bind

/-- What is raised is answered with something that raises other exceptions. -/
theorem RaisesOnly.answered {m : Run σ β} {f : Except Exception β → Run σ α}
    (h : RaisesOnly Q (m s))
    (hf : ∀ y t, Q y → m s = .error (.raised y) t → RaisesOnly P (f (.error y) t)) :
    RaisesOnly P ((attempt m >>= f) s) := by
  rw [Run.bind_apply]
  unfold attempt
  cases hm : m s with
  | ok b t =>
      rw [hm] at h
      exact h.elim
  | error reason t =>
      rw [hm] at h
      cases reason with
      | raised y => exact hf y t h hm
      | _ => exact True.intro

end Run

/-- A resume that finds no level left is refused. -/
theorem resume_exhausted {e : Engine} (he : e.Lenient) (hu : u.isExhausted g = true) :
    Run.OnlyRaises .recursionError (e.resume g v u) := by
  simp only [World.isExhausted, Bool.and_eq_true, Bool.not_eq_true', decide_eq_true_eq] at hu
  obtain ⟨⟨hidle, hslot⟩, hfull⟩ := hu
  obtain ⟨r, hr⟩ := Option.isSome_iff_exists.1 hslot
  rw [resume_of_full hidle hr hfull]
  have hsilent : ∀ w : Value, Run.Silent (e.release w) := fun w =>
    Engine.releaseObjects_silent he w.objects
  refine Run.onlyRaises_iff.2 (Run.RaisesOnly.ensuring ?_ (hsilent _))
  exact Run.RaisesOnly.after (hsilent v) fun _ _ _ => rfl

/-- A resume is refused once delegations that came to their end have taken all levels. -/
theorem Passes.refused {m : Nat} (h : Passes g v k m n w u) (hu : u.isExhausted g = true) :
    Run.OnlyRaises .recursionError (Machine.perform n (.resume g v) w) := by
  induction h with
  | none n w =>
      cases n with
      | zero => exact True.intro
      | succ n => exact resume_exhausted (Engine.machine_lenient n) hu
  | @one k m n w t u u' r result hran htold _ ih =>
      have hforget := Engine.releaseAll_silent n [.frame r]
      rw [Engine.releaseAll_singleton] at hforget
      have hleave : Run.Silent World.leave := fun _ _ _ h => nomatch h
      rw [hran.again htold]
      have hagain := Run.onlyRaises_iff.1 (ih hu)
      exact Run.onlyRaises_iff.2 ((hagain.ensuring hleave).ensuring hforget)

/-! ## Runs that are refused no level -/

/-- How a computation ended, unless it ran out of fuel. -/
def Run.endingOf {σ α : Type} : EStateM.Result Interruption σ α → Option (Run.Ending α)
  | .ok a _ => some (.result a)
  | .error (.raised x) _ => some (.raised x)
  | .error .aborted _ => some .aborted
  | .error .outOfFuel _ => none

theorem Ends.endingOf {σ α : Type} {B : Bond σ} {q : α → Bag}
    {x x' : EStateM.Result Interruption σ α} {ending : Run.Ending α} (h : Ends B F q x x')
    (hx : Run.endingOf x = some ending) : Run.endingOf x' = some ending := by
  cases h with
  | outOfFuel => cases hx
  | _ => exact hx

theorem Run.eq_ok_of_endingOf {σ α : Type} {x : EStateM.Result Interruption σ α} {a : α}
    (h : Run.endingOf x = some (.result a)) : ∃ s, x = .ok a s := by
  rcases x with ⟨a, s⟩ | ⟨_ | _ | _, s⟩ <;> cases h
  exact ⟨s, rfl⟩

theorem Run.eq_raised_of_endingOf {σ α : Type} {x : EStateM.Result Interruption σ α} {y : Exception}
    (h : Run.endingOf x = some (.raised y)) : ∃ s, x = .error (.raised y) s := by
  rcases x with ⟨a, s⟩ | ⟨_ | _ | _, s⟩ <;> cases h
  exact ⟨s, rfl⟩

/-- The law of runs that are broken off before they are refused a level. -/
def Law.guarding : Law where
  rule _ := True
  keeps _ _ := True.intro
  broken _ := True
  bars request w := request.needsLevel w = true

/-- The observer that breaks a run off before it is refused a level. -/
def Machine.guarding : Observer where
  note _ w := w.held
  stops event w :=
    match event with
    | .asked request => request.needsLevel w
    | .answered _ => false

/-- The zones in which runs are broken off like that. -/
def Zone.Guarding (Z : Zone) : Prop := Z.law = .guarding

theorem Machine.guarding_discreet : Machine.Discreet Zone.Guarding Machine.guarding where
  note hZ _ _ := by rw [hZ.property]; exact True.intro
  stops hZ _ _ := by rw [hZ]; exact True.intro
  bars hZ hbarred := by
    rw [hZ] at hbarred
    exact hbarred
  disposes hZ hbarred := by
    rw [hZ] at hbarred
    cases hbarred

namespace Zone

/-- A zone in which the right world has another limit, and runs of the left one are guarded. -/
def roomier (Z : Zone) (limit : Nat) : Zone :=
  { Z with rightThread := { Z.leftThread with limit := limit } }.decree .guarding

theorem Fit.roomier {L : Law} [L.Free] (h : Z.Fit (Level L)) {limit : Nat}
    (hlimit : Z.leftThread.limit ≤ limit) : (Z.roomier limit).Fit Guarding where
  inherited _ _ hC hext := hext.law.trans hC
  property := rfl
  valid := { (h.decree (L := .guarding)).valid with sink := rfl }
  room := Or.inr ⟨fun _ _ h => h, Nat.add_le_add_right hlimit _⟩

theorem Linked.roomier {L : Law} {w' : World} (h : Z.Linked F w w') (hZ : Zone.Level L Z)
    (limit : Nat) :
    (Z.roomier limit).Linked F w { w with thread := { w.thread with limit := limit } } := by
  have hleft : ({ w with thread := Z.leftThread } : World) = w := by rw [← h.pinned.thread]
  have hset := (h.self hZ).setThread Z.leftThread { Z.leftThread with limit := limit }
  rw [hleft] at hset
  have hthread := h.pinned.thread
  rw [hthread]
  exact hset.decree True.intro False.elim

end Zone

namespace Session

/-- A run that is refused no level comes to the same end under every larger limit. -/
theorem larger_limit_ends {request : Request} (h : Amid (.asked request) u) {limit m : Nat}
    (hlimit : u.thread.limit ≤ limit) (hm : n ≤ m) {ending : Run.Ending Value}
    (hends : Run.endingOf (Machine.observed Machine.guarding n request u) = some ending) :
    Run.endingOf (Machine.perform m request
      { u with thread := { u.thread with limit := limit } }) = some ending := by
  obtain ⟨Z, F, w', hZ, hgranted, hlinked⟩ := h.moment
  rw [hlinked.pinned.thread] at hlimit
  have hfit := hZ.roomier hlimit
  have hserves := Machine.observed_serves Machine.guarding_discreet hm
  have hanswered := hserves.answers hfit request (by cases request <;> exact hgranted)
    (hlinked.roomier hZ.property limit)
  exact hanswered.endingOf hends

/-- A generator that delegates twice to an iterator over an empty list and then yields, on a thread
with so many levels. -/
def delegatingToNothing (limit : Nat) : World :=
  let program : Code.Program :=
    ⟨[.loadFast 0, .yieldFrom, .popTop, .loadFast 0, .yieldFrom, .popTop, .loadConst 0, .yieldValue,
      .returnValue], ["a"], 1, [.int 1]⟩
  let code : CodeObject := ⟨"a", "<bytecode>", .program program⟩
  let (items, w) := { World.new limit .collecting with codes := [code] }.newList []
  (w.newGenerator ⟨0⟩ [.list items] .none).2

end Session

end Resumable
