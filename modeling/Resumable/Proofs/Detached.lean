import Resumable.Proofs.Access
import Resumable.Proofs.Sharing

set_option autoImplicit false

/-!
# Bodies that refer to no object

A frame, a value or an exception may refer to no object at all.  What a program does with such a frame
has nothing to do with the world: it comes to the same end in every world with the same code objects,
and leaves the world as it is (`Code.Program.resume_detached`).  Only an abandonment leaves its mark.

A program cannot make objects out of such a frame.  Constants refer to none, and what could make one,
an iterator over a list, needs a list.

`Apart` is said of a computation that acts on a part of the world only: where that part comes to, and
with which result, is the same whatever the rest of the world is, and the rest stays as it is.
-/

namespace Resumable

variable {α β ρ σ τ : Type}

namespace Bag

/-- Nothing is held by two together exactly if nothing is held by either of them. -/
theorem add_eq_zero {A B : Bag} : A + B = 0 ↔ A = 0 ∧ B = 0 := by
  refine ⟨fun h => ⟨funext fun o => ?_, funext fun o => ?_⟩, ?_⟩
  · have := congrFun h o
    simp only [Pi.add_apply, Pi.zero_apply] at this ⊢
    omega
  · have := congrFun h o
    simp only [Pi.add_apply, Pi.zero_apply] at this ⊢
    omega
  · rintro ⟨rfl, rfl⟩
    rfl

theorem eq_zero_of_le {A B : Bag} (h : A ≤ B) (hB : B = 0) : A = 0 :=
  le_antisymm (hB ▸ h) zero_le

end Bag

/-! ## Values that refer to no object -/

section Values

variable {v : Value} {vs us : List Value}

theorem objects_eq_nil (h : holds v = 0) : v.objects = [] := Bag.eq_nil_of_le_zero h.le

theorem objectsOfAll_eq_nil (h : holds vs = 0) : Value.objectsOfAll vs = [] :=
  Bag.eq_nil_of_le_zero h.le

theorem holds_cons_eq_zero : holds (v :: vs) = 0 ↔ holds v = 0 ∧ holds vs = 0 := by
  rw [holds_values_cons, Bag.add_eq_zero]

theorem holds_append_eq_zero : holds (vs ++ us) = 0 ↔ holds vs = 0 ∧ holds us = 0 := by
  rw [holds_values_append, Bag.add_eq_zero]

theorem holds_eq_zero_of_subset (h : holds vs = 0) (hsub : ∀ v ∈ us, v ∈ vs) : holds us = 0 := by
  induction us with
  | nil => rfl
  | cons u us ih =>
      obtain ⟨hu, hus⟩ := List.forall_mem_cons.1 hsub
      exact holds_cons_eq_zero.2 ⟨Bag.eq_zero_of_le (holds_le_of_mem hu) h, ih hus⟩

/-- A value that refers to no object is neither a list nor an iterator, and has a type name in every
world. -/
theorem typeName_of_bare (h : holds v = 0) : ∃ name, ∀ w, World.typeName v w = .ok name w := by
  have hobjects := objects_eq_nil h
  cases v with
  | iterator r => cases hobjects
  | _ => exact ⟨_, fun _ => rfl⟩

theorem share_of_bare (h : holds v = 0) (w : World) : World.share v w = .ok () w := by
  show EStateM.Result.ok () (w.retain v) = _
  rw [w.retain_of_objects_nil (objects_eq_nil h)]

theorem shareAll_of_bare (h : holds vs = 0) (w : World) : World.shareAll vs w = .ok () w := by
  show EStateM.Result.ok () (w.retainAll vs) = _
  rw [w.retainAll_of_objects_nil (objectsOfAll_eq_nil h)]

theorem release_of_bare (e : Engine) (h : holds v = 0) (w : World) : e.release v w = .ok () w :=
  e.release_of_objects_nil (objects_eq_nil h) w

theorem releaseAll_of_bare (e : Engine) (h : holds vs = 0) (w : World) :
    e.releaseAll vs w = .ok () w := by
  rw [Engine.releaseAll, objectsOfAll_eq_nil h]
  rfl

theorem isTruthy_of_bare (h : holds v = 0) : ∃ b, ∀ w : World, w.isTruthy v = b := by
  have hobjects := objects_eq_nil h
  cases v with
  | list r => cases hobjects
  | _ => exact ⟨_, fun _ => rfl⟩

end Values

/-! ## Computations on a part of the world -/

/-- What a computation comes to: its result, how it leaves the state with a result, and how without. -/
def Comes (P : α → Prop) (J K : σ → Prop) : EStateM.Result Interruption σ α → Prop
  | .ok a s => P a ∧ J s
  | .error (.raised x) s => holds x = 0 ∧ K s
  | .error .aborted s => K s
  | .error .outOfFuel _ => True

/-- What a computation on a part comes to, seen from the whole. -/
def within (put : σ → World → τ) (w : World) :
    EStateM.Result Interruption σ α → EStateM.Result Interruption τ α
  | .ok a s => .ok a (put s w)
  | .error reason s => .error reason (put s w)

/-- A computation on the part that `put` puts into a world: from a part with `I` it comes to the same
end in every world with these code objects, and leaves the rest of the world alone.  A result has `P`,
and the part then has `J`; without a result it has `K`. -/
def Apart (codes : List CodeObject) (put : σ → World → τ) (I J K : σ → Prop) (P : α → Prop)
    (m : Run τ α) : Prop :=
  ∀ s, I s → ∃ x : EStateM.Result Interruption σ α, Comes P J K x ∧
    ∀ w, w.codes = codes → m (put s w) = within put w x

namespace Apart

variable {codes : List CodeObject} {put : σ → World → τ} {I J K L : σ → Prop} {P : α → Prop}
  {Q : β → Prop} {m : Run τ α} {f : α → Run τ β} {c : Run τ Unit}

theorem pure {a : α} (h : P a) : Apart codes put I I K P (pure a) :=
  fun s hs => ⟨.ok a s, ⟨h, hs⟩, fun _ _ => rfl⟩

theorem raise {x : Exception} (h : holds x = 0) : Apart codes put I J I P (Run.raise x : Run τ α) :=
  fun s hs => ⟨.error (.raised x) s, ⟨h, hs⟩, fun _ _ => rfl⟩

theorem outOfFuel : Apart codes put I J K P (throw .outOfFuel) :=
  fun s _ => ⟨.error .outOfFuel s, True.intro, fun _ _ => rfl⟩

/-- A step that changes the part. -/
theorem step {g : σ → EStateM.Result Interruption σ α} (hg : ∀ s, I s → Comes P J K (g s))
    (hm : ∀ s w, I s → m (put s w) = within put w (g s)) : Apart codes put I J K P m :=
  fun s hs => ⟨g s, hg s hs, fun w _ => hm s w hs⟩

theorem ofExcept {x : Except Exception α}
    (h : match x with
      | .ok a => P a
      | .error y => holds y = 0) : Apart codes put I I I P (Run.ofExcept x) := by
  cases x with
  | ok a => exact pure h
  | error y => exact raise h

/-- Looking at the world before going on. -/
theorem look {ω : Type} {r : τ → ω} {a : σ → ω} {k : ω → Run τ α}
    (hread : ∀ s w, I s → w.codes = codes → r (put s w) = a s)
    (hk : ∀ s, I s → Apart codes put (· = s) J K P (k (a s)))
    (hm : ∀ t, m t = k (r t) t) : Apart codes put I J K P m := by
  intro s hs
  obtain ⟨x, hx, hkx⟩ := hk s hs s rfl
  refine ⟨x, hx, fun w hw => ?_⟩
  rw [hm, hread s w hs hw, hkx w hw]

theorem mono {P' : α → Prop} {I' J' K' : σ → Prop} (hm : Apart codes put I J K P m)
    (hI : ∀ s, I' s → I s) (hJ : ∀ s, J s → J' s) (hK : ∀ s, K s → K' s) (hP : ∀ a, P a → P' a) :
    Apart codes put I' J' K' P' m := by
  intro s hs
  obtain ⟨x, hx, hmx⟩ := hm s (hI s hs)
  refine ⟨x, ?_, hmx⟩
  rcases x with ⟨a, t⟩ | ⟨_ | _ | _, t⟩
  · exact ⟨hP a hx.1, hJ t hx.2⟩
  · exact ⟨hx.1, hK t hx.2⟩
  · exact hK t hx
  · exact hx

theorem weaken {P' : α → Prop} (hm : Apart codes put I J K P m) (hP : ∀ a, P a → P' a) :
    Apart codes put I J K P' m :=
  hm.mono (fun _ => id) (fun _ => id) (fun _ => id) hP

theorem bind (hm : Apart codes put I J K P m) (hf : ∀ a, P a → Apart codes put J L K Q (f a)) :
    Apart codes put I L K Q (m >>= f) := by
  intro s hs
  obtain ⟨x, hx, hmx⟩ := hm s hs
  rcases x with ⟨a, t⟩ | ⟨reason, t⟩
  · obtain ⟨z, hz, hfz⟩ := hf a hx.1 t hx.2
    exact ⟨z, hz, fun w hw => (Run.bind_ok (hmx w hw)).trans (hfz w hw)⟩
  · exact ⟨.error reason t, by cases reason <;> exact hx, fun w hw => Run.bind_error (hmx w hw)⟩

theorem map {g : α → β} (hm : Apart codes put I J K P m) (hg : ∀ a, P a → Q (g a)) :
    Apart codes put I J K Q (g <$> m) := by
  rw [map_eq_pure_bind]
  exact hm.bind fun a ha => pure (hg a ha)

theorem attempt (hm : Apart codes put I J J P m) :
    Apart codes put I J J (fun x : Except Exception α => match x with
      | .ok a => P a
      | .error y => holds y = 0) (Run.attempt m) := by
  intro s hs
  obtain ⟨x, hx, hmx⟩ := hm s hs
  rcases x with ⟨a, t⟩ | ⟨y | _ | _, t⟩
  · exact ⟨.ok (.ok a) t, hx, fun w hw => by rw [Run.attempt, hmx w hw]; rfl⟩
  · exact ⟨.ok (.error y) t, hx, fun w hw => by rw [Run.attempt, hmx w hw]; rfl⟩
  · exact ⟨.error .aborted t, hx, fun w hw => by rw [Run.attempt, hmx w hw]; rfl⟩
  · exact ⟨.error .outOfFuel t, hx, fun w hw => by rw [Run.attempt, hmx w hw]; rfl⟩

theorem contain (hm : Apart codes put I J J P m) :
    Apart codes put I J K (fun _ => True) (Run.contain m) := by
  intro s hs
  obtain ⟨x, hx, hmx⟩ := hm s hs
  rcases x with ⟨a, t⟩ | ⟨y | _ | _, t⟩
  · exact ⟨.ok (.result a) t, ⟨True.intro, hx.2⟩, fun w hw => by rw [Run.contain, hmx w hw]; rfl⟩
  · exact ⟨.ok (.raised y) t, ⟨True.intro, hx.2⟩, fun w hw => by rw [Run.contain, hmx w hw]; rfl⟩
  · exact ⟨.ok .aborted t, ⟨True.intro, hx⟩, fun w hw => by rw [Run.contain, hmx w hw]; rfl⟩
  · exact ⟨.error .outOfFuel t, True.intro, fun w hw => by rw [Run.contain, hmx w hw]; rfl⟩

/-- A clean-up takes the part from how the computation leaves it without a result to how it is left in
the end. -/
theorem onInterruption (hm : Apart codes put I J K P m)
    (hc : Apart codes put K L L (fun _ => True) c) :
    Apart codes put I J L P (m.onInterruption c) := by
  intro s hs
  obtain ⟨x, hx, hmx⟩ := hm s hs
  rcases x with ⟨a, t⟩ | ⟨reason, t⟩
  · exact ⟨.ok a t, hx, fun w hw => Run.onInterruption_ok (hmx w hw)⟩
  cases reason with
  | outOfFuel =>
      exact ⟨.error .outOfFuel t, hx, fun w hw => by rw [Run.onInterruption, hmx w hw]; rfl⟩
  | raised y =>
      obtain ⟨z, hz, hcz⟩ := hc t hx.2
      rcases z with ⟨_, u⟩ | ⟨reason, u⟩
      · refine ⟨.error (.raised y) u, ⟨hx.1, hz.2⟩, fun w hw => ?_⟩
        simp only [Run.onInterruption, hmx w hw, within, hcz w hw]
      · refine ⟨.error reason u, by cases reason <;> exact hz, fun w hw => ?_⟩
        simp only [Run.onInterruption, hmx w hw, within, hcz w hw]
  | aborted =>
      obtain ⟨z, hz, hcz⟩ := hc t hx
      rcases z with ⟨_, u⟩ | ⟨reason, u⟩
      · refine ⟨.error .aborted u, hz.2, fun w hw => ?_⟩
        simp only [Run.onInterruption, hmx w hw, within, hcz w hw]
      · refine ⟨.error reason u, by cases reason <;> exact hz, fun w hw => ?_⟩
        simp only [Run.onInterruption, hmx w hw, within, hcz w hw]

theorem ensuring (hm : Apart codes put I J K P m)
    (hcJ : Apart codes put J L L (fun _ => True) c)
    (hcK : Apart codes put K L L (fun _ => True) c) :
    Apart codes put I L L P (m.ensuring c) :=
  (hm.onInterruption hcK).bind fun _ ha => hcJ.bind fun _ _ => pure ha

end Apart

/-! ## Computations that leave the whole world alone -/

/-- A world in which a computation is being abandoned, or is not. -/
def World.mark (unwinding : Bool) (w : World) : World := { w with unwinding := unwinding }

/-- A private state and a mark, with a world beside them. -/
def beside (s : ρ × Bool) (w : World) : ρ × World := (s.1, w.mark s.2)

/-- A private state that refers to no object. -/
def IsBare [Holder ρ] (s : ρ × Bool) : Prop := holds s.1 = 0

/-- Nothing is asked of a mark. -/
def AnyMark (_ : Bool) : Prop := True

/-- A computation on the world that leaves it alone, but for the mark of an abandonment. -/
abbrev Idle (codes : List CodeObject) (P : α → Prop) (m : Run World α) : Prop :=
  Apart codes World.mark AnyMark AnyMark AnyMark P m

/-- A computation on a private state that refers to no object, and goes on doing so. -/
abbrev Detached [Holder ρ] (codes : List CodeObject) (P : α → Prop) (m : Run (ρ × World) α) : Prop :=
  Apart codes beside IsBare IsBare IsBare P m

/-- What refers to no object. -/
abbrev Bare [Holder α] (a : α) : Prop := holds a = 0

/-- Any result at all. -/
abbrev Any (_ : α) : Prop := True

section Idle

variable {codes : List CodeObject} {P : α → Prop} {v : Value} {vs : List Value} {e : Engine}

/-- A computation that comes to the same in every world and leaves it as it is. -/
theorem idle_of_ok {m : Run World α} {a : α} (ha : P a) (hm : ∀ w, m w = .ok a w) :
    Idle codes P m :=
  Apart.step (g := fun u => .ok a u) (fun _ hs => ⟨ha, hs⟩) fun _ _ _ => hm _

theorem share_idle (h : Bare v) : Idle codes Any (World.share v) :=
  idle_of_ok True.intro (share_of_bare h)

theorem shareAll_idle (h : Bare vs) : Idle codes Any (World.shareAll vs) :=
  idle_of_ok True.intro (shareAll_of_bare h)

theorem release_idle (h : Bare v) : Idle codes Any (e.release v) :=
  idle_of_ok True.intro (release_of_bare e h)

theorem releaseAll_idle (h : Bare vs) : Idle codes Any (e.releaseAll vs) :=
  idle_of_ok True.intro (releaseAll_of_bare e h)

theorem typeName_idle (h : Bare v) : Idle codes Any (World.typeName v) := by
  obtain ⟨name, hname⟩ := typeName_of_bare h
  exact idle_of_ok True.intro hname

theorem abort_idle : Idle codes P World.abort :=
  Apart.step (g := fun _ => .error .aborted true) (fun _ _ => True.intro) fun _ _ _ => rfl

theorem owning_idle {m : Run World α} (h : Bare v) (hm : Idle codes P m) :
    Idle codes P (e.owning v m) :=
  hm.ensuring (release_idle h) (release_idle h)

theorem shared_detached [Holder ρ] {m : Run World α} (hm : Idle codes P m) :
    Detached (ρ := ρ) codes P (Run.shared m) := by
  rintro ⟨s, u⟩ hs
  obtain ⟨x, hx, hmx⟩ := hm u True.intro
  rcases x with ⟨a, u'⟩ | ⟨reason, u'⟩
  · refine ⟨.ok a (s, u'), ⟨hx.1, hs⟩, fun w hw => ?_⟩
    simp only [Run.shared, beside, hmx w hw, within]
  · refine ⟨.error reason (s, u'), ?_, fun w hw => ?_⟩
    · cases reason with
      | raised y => exact ⟨hx.1, hs⟩
      | aborted => exact hs
      | outOfFuel => exact hx
    · simp only [Run.shared, beside, hmx w hw, within]

/-- What a type and a value that refer to no object stand for. -/
theorem normalize_idle {type : Value} {value : Option Value} (htype : Bare type)
    (hvalue : Bare value) : Idle codes Bare (World.normalize type value) := by
  unfold World.normalize
  cases h : Exception.normalize type value with
  | ok x =>
      have hx : Bare x :=
        Bag.eq_zero_of_le (holds_normalize_le h) (Bag.add_eq_zero.2 ⟨htype, hvalue⟩)
      exact (shareAll_idle hx).bind fun _ _ => Apart.pure hx
  | error fault =>
      refine Apart.bind (P := Any) ?_ fun _ _ => Apart.raise rfl
      cases fault with
      | separateValue => exact Apart.pure True.intro
      | notAnException type' =>
          rw [fault_of_normalize h]
          exact (typeName_idle htype).bind fun _ _ => Apart.pure True.intro

theorem exceptionOf_idle (hv : Bare v) : Idle codes Bare (World.exceptionOf v) := by
  refine (normalize_idle hv (rfl : Bare (none : Option Value))).attempt.bind fun x hx => ?_
  cases x with
  | ok y => exact Apart.pure hx
  | error y => exact Apart.pure hx

theorem raiseValue_idle (hv : Bare v) : Idle codes P (e.raiseValue v) :=
  owning_idle hv ((exceptionOf_idle hv).bind fun _ hx => Apart.raise hx)

end Idle

/-! ## Steps on a private state -/

section Private

variable [Holder ρ] {codes : List CodeObject} {P : α → Prop}

/-- A step that changes the private state. -/
theorem edit_detached {m : Run (ρ × World) α} {a : ρ → α} {g : ρ → ρ}
    (hm : ∀ r w, m (r, w) = .ok (a r) (g r, w))
    (h : ∀ r, Bare r → P (a r) ∧ Bare (g r)) : Detached codes P m :=
  Apart.step (g := fun s => .ok (a s.1) (g s.1, s.2)) (fun s hs => h s.1 hs) fun _ _ _ => hm _ _

/-- A look at the world that shows the same in every world with these code objects. -/
theorem look_detached {ω : Type} {m : Run (ρ × World) α} {r : ρ × World → ω} {a : ρ → ω}
    {k : ω → Run (ρ × World) α} (hread : ∀ s w, w.codes = codes → r (s, w) = a s)
    (hk : ∀ s, Bare s → Detached codes P (k (a s)))
    (hm : ∀ t, m t = k (r t) t) : Detached codes P m :=
  Apart.look (fun s w _ hw => hread s.1 (w.mark s.2) hw)
    (fun s hs => (hk s.1 hs).mono (fun _ h => h ▸ hs) (fun _ => id) (fun _ => id) fun _ => id) hm

theorem releaseAll_detached {e : Engine} {vs : List Value} (h : Bare vs) :
    Detached (ρ := ρ) codes Any (Run.shared (e.releaseAll vs)) :=
  shared_detached (releaseAll_idle h)

theorem share_detached {v : Value} (h : Bare v) :
    Detached (ρ := ρ) codes Any (Run.shared (World.share v)) :=
  shared_detached (share_idle h)

theorem abort_detached : Detached (ρ := ρ) codes P (Run.shared World.abort) :=
  shared_detached abort_idle

end Private

section Frames

variable {f : Frame} {v : Value} {codes : List CodeObject}

theorem bare_frame_iff : Bare f ↔ Bare f.locals ∧ Bare f.stack ∧ Bare f.delegate ∧ Bare f.pending ∧
    Bare f.input ∧ Bare f.delegationResult := by
  rw [Bare, holds_frame]
  simp only [Bag.add_eq_zero, and_assoc]

theorem bare_new {code : CodeRef} {args : List Value} (h : Bare args) : Bare (Frame.new code args) :=
  bare_frame_iff.2 ⟨h, rfl, rfl, rfl, rfl, rfl⟩

/-- A change of a frame that makes neither the frame nor what it no longer holds refer to an
object. -/
def Plain (change : Frame → Frame × List Value) : Prop :=
  ∀ f, Bare f → Bare (change f).1 ∧ Bare (change f).2

theorem plain_removeDelegate : Plain Frame.removeDelegate := by
  intro f hf
  obtain ⟨hlocals, hstack, hdelegate, hpending, hinput, hresult⟩ := bare_frame_iff.1 hf
  exact ⟨bare_frame_iff.2 ⟨hlocals, hstack, rfl, hpending, hinput, hresult⟩,
    (holds_toList _).trans hdelegate⟩

theorem plain_replaceInput (hv : Bare v) : Plain (·.replaceInput v) := by
  intro f hf
  obtain ⟨hlocals, hstack, hdelegate, hpending, hinput, hresult⟩ := bare_frame_iff.1 hf
  exact ⟨bare_frame_iff.2 ⟨hlocals, hstack, hdelegate, hpending, hv, hresult⟩,
    (holds_toList _).trans hinput⟩

theorem plain_replaceDelegationResult (hv : Bare v) : Plain (·.replaceDelegationResult v) := by
  intro f hf
  obtain ⟨hlocals, hstack, hdelegate, hpending, hinput, hresult⟩ := bare_frame_iff.1 hf
  exact ⟨bare_frame_iff.2 ⟨hlocals, hstack, hdelegate, hpending, hinput, hv⟩,
    (holds_toList _).trans hresult⟩

theorem plain_replacePending {x : Exception} (hx : Bare x) : Plain (·.replacePending x) := by
  intro f hf
  obtain ⟨hlocals, hstack, hdelegate, hpending, hinput, hresult⟩ := bare_frame_iff.1 hf
  refine ⟨bare_frame_iff.2 ⟨hlocals, hstack, hdelegate, hx, hinput, hresult⟩, ?_⟩
  show holds ((f.pending.map (·.args)).getD []) = 0
  cases hp : f.pending with
  | none => rfl
  | some y =>
      rw [hp] at hpending
      exact hpending

theorem plain_replaceLocal (index : Nat) (hv : Bare v) : Plain (·.replaceLocal index v) := by
  intro f hf
  obtain ⟨hlocals, hstack, hdelegate, hpending, hinput, hresult⟩ := bare_frame_iff.1 hf
  have hgrown : Bare (v :: (f.locals ++ List.replicate (index + 1 - f.locals.length) .none)) := by
    refine holds_cons_eq_zero.2 ⟨hv, holds_append_eq_zero.2 ⟨hlocals, ?_⟩⟩
    refine holds_eq_zero_of_subset (rfl : Bare [Value.none]) fun u hu => ?_
    rw [(List.mem_replicate.1 hu).2]
    exact List.mem_singleton_self _
  refine ⟨bare_frame_iff.2 ⟨?_, hstack, hdelegate, hpending, hinput, hresult⟩, ?_⟩
  · refine holds_eq_zero_of_subset hgrown fun u hu => ?_
    rcases List.mem_or_eq_of_mem_set hu with hu | rfl
    · exact List.mem_cons_of_mem _ hu
    · exact List.mem_cons_self
  · refine holds_eq_zero_of_subset hlocals fun u hu => ?_
    exact List.mem_of_getElem? (Option.mem_toList.1 hu)

theorem bare_above (hf : Bare f) (depth : Nat) : Bare (f.above depth) :=
  holds_eq_zero_of_subset (bare_frame_iff.1 hf).2.1 fun _ hu =>
    List.mem_of_mem_take (List.mem_reverse.1 hu)

theorem bare_truncate (hf : Bare f) (depth : Nat) : Bare (f.truncate depth) := by
  obtain ⟨hlocals, hstack, hdelegate, hpending, hinput, hresult⟩ := bare_frame_iff.1 hf
  exact bare_frame_iff.2 ⟨hlocals,
    holds_eq_zero_of_subset hstack fun _ hu => List.mem_of_mem_drop hu,
    hdelegate, hpending, hinput, hresult⟩

end Frames

theorem bare_getD {x : Option Value} (h : Bare x) : Bare (x.getD .none) := by
  cases x with
  | none => rfl
  | some v => exact h

/-! ## Instructions -/

namespace Exec

variable {codes : List CodeObject} {e : Engine} {p : Code.Program} {v : Value} {closure : Value}

theorem bare_activation_iff {a : Activation} : Bare a ↔ Bare a.frame ∧ Bare a.sent :=
  Bag.add_eq_zero

theorem activation_detached : Detached codes Bare activation :=
  edit_detached (a := id) (g := id) (fun _ _ => rfl) fun _ h => ⟨h, h⟩

theorem modifyFrame_detached {g : Frame → Frame} (h : ∀ f, Bare f → Bare (g f)) :
    Detached codes Any (modifyFrame g) :=
  edit_detached (fun _ _ => rfl) fun _ ha =>
    ⟨True.intro, bare_activation_iff.2 ⟨h _ (bare_activation_iff.1 ha).1, (bare_activation_iff.1 ha).2⟩⟩

theorem goTo_detached (position : Nat) : Detached codes Any (goTo position) :=
  edit_detached (fun _ _ => rfl) fun _ ha => ⟨True.intro, ha⟩

theorem push_detached (hv : Bare v) : Detached codes Any (push v) :=
  modifyFrame_detached fun f hf => by
    obtain ⟨hlocals, hstack, hrest⟩ := bare_frame_iff.1 hf
    exact bare_frame_iff.2 ⟨hlocals, holds_cons_eq_zero.2 ⟨hv, hstack⟩, hrest⟩

theorem pop_detached : Detached codes Bare pop := by
  rintro ⟨a, u⟩ ha
  obtain ⟨hf, hsent⟩ := bare_activation_iff.1 ha
  obtain ⟨hlocals, hstack, hrest⟩ := bare_frame_iff.1 hf
  cases hs : a.frame.stack with
  | nil =>
      refine ⟨.error (.raised (.systemError "pop from an empty value stack")) (a, u), ⟨rfl, ha⟩,
        fun w _ => ?_⟩
      simp only [pop, beside, hs]
      rfl
  | cons v rest =>
      rw [hs] at hstack
      obtain ⟨hv, hrest'⟩ := holds_cons_eq_zero.1 hstack
      refine ⟨.ok v ({ a with frame := { a.frame with stack := rest } }, u), ⟨hv, ?_⟩, fun w _ => ?_⟩
      · exact bare_activation_iff.2 ⟨bare_frame_iff.2 ⟨hlocals, hrest', hrest⟩, hsent⟩
      · simp only [pop, beside, hs]
        rfl

theorem peek_detached : Detached codes Bare peek := by
  rintro ⟨a, u⟩ ha
  have hstack := (bare_frame_iff.1 (bare_activation_iff.1 ha).1).2.1
  cases hs : a.frame.stack with
  | nil =>
      refine ⟨.error (.raised (.systemError "empty value stack")) (a, u), ⟨rfl, ha⟩, fun w _ => ?_⟩
      simp only [peek, beside, hs]
      rfl
  | cons v rest =>
      rw [hs] at hstack
      refine ⟨.ok v (a, u), ⟨(holds_cons_eq_zero.1 hstack).1, ha⟩, fun w _ => ?_⟩
      simp only [peek, beside, hs]
      rfl

theorem takeSent_detached : Detached codes Bare takeSent :=
  edit_detached (fun _ _ => rfl) fun _ ha =>
    ⟨(bare_activation_iff.1 ha).2, bare_activation_iff.2 ⟨(bare_activation_iff.1 ha).1, rfl⟩⟩

theorem target_detached (offset : Int) : Detached codes Any (target offset) :=
  activation_detached.bind fun a _ => by
    dsimp only
    split
    · exact Apart.raise rfl
    · split
      · exact Apart.pure True.intro
      · exact abort_detached

theorem jump_detached (offset : Int) : Detached codes Any (jump offset) :=
  (target_detached offset).bind fun position _ => goTo_detached position

theorem release_detached (h : Bare v) : Detached codes Any (release e v) :=
  shared_detached (release_idle h)

theorem owning_detached {α : Type} {P : α → Prop} {m : Exec α} (h : Bare v)
    (hm : Detached codes P m) : Detached codes P (owning e v m) :=
  hm.ensuring (release_detached h) (release_detached h)

theorem replace_detached {change : Frame → Frame × List Value} (h : Plain change) :
    Detached codes Any (replace e change) := by
  refine activation_detached.bind fun a ha => ?_
  obtain ⟨hframe, hremoved⟩ := h a.frame (bare_activation_iff.1 ha).1
  exact (modifyFrame_detached fun _ _ => hframe).bind fun _ _ => releaseAll_detached hremoved

theorem clearStack_detached : Detached codes Any (clearStack e) := by
  refine activation_detached.bind fun a ha => ?_
  exact (modifyFrame_detached fun _ hf => bare_truncate hf 0).bind fun _ _ =>
    releaseAll_detached (bare_above (bare_activation_iff.1 ha).1 0)

theorem refuse_detached {α : Type} {P : α → Prop} {left right : Value} (hleft : Bare left)
    (hright : Bare right) (message : String → String → String) :
    Detached codes P (refuse e left right message) :=
  owning_detached hleft <| owning_detached hright <|
    (shared_detached (typeName_idle hleft)).bind fun _ _ =>
      (shared_detached (typeName_idle hright)).bind fun _ _ => Apart.raise rfl

/-- An operation on two values gives data. -/
def GivesData (op : Value → Value → Except OperandFault Value) : Prop :=
  ∀ left right v, op left right = .ok v → Bare v

theorem binary_detached {op : Value → Value → Except OperandFault Value} (hop : GivesData op)
    (message : String → String → String) : Detached codes Any (binary e op message) := by
  refine pop_detached.bind fun right hright => ?_
  refine (pop_detached.onInterruption (release_detached hright)).bind fun left hleft => ?_
  cases h : op left right with
  | ok v => exact push_detached (hop left right v h)
  | error fault =>
      cases fault with
      | overflow => exact Apart.raise rfl
      | unsupported => exact refuse_detached hleft hright message

theorem ofInt?_bare {n : Int} (h : Value.ofInt? n = .ok v) : Bare v := by
  unfold Value.ofInt? at h
  split at h
  · cases h
    rfl
  · cases h

theorem add_givesData : GivesData Value.add := by
  intro left right v h
  unfold Value.add at h
  split at h
  · exact ofInt?_bare h
  · cases h
    rfl
  · cases h

theorem sub_givesData : GivesData Value.sub := by
  intro left right v h
  unfold Value.sub at h
  split at h
  · exact ofInt?_bare h
  · cases h

theorem lessThan_givesData : GivesData Value.lessThan := by
  intro left right v h
  unfold Value.lessThan at h
  split at h
  · cases h
    rfl
  · cases h
    rfl
  · cases h

theorem loadFast_detached (index : Nat) : Detached codes Any (loadFast p index) := by
  refine activation_detached.bind fun a ha => ?_
  have hlocals := (bare_frame_iff.1 (bare_activation_iff.1 ha).1).1
  cases h : a.frame.locals[index]? with
  | none => exact Apart.raise rfl
  | some v =>
      have hv : Bare v := Bag.eq_zero_of_le (holds_le_of_getElem? h) hlocals
      exact (share_detached hv).bind fun _ _ => push_detached hv

theorem storeFast_detached (index : Nat) : Detached codes Any (storeFast e index) := by
  refine pop_detached.bind fun v hv => ?_
  split
  · exact replace_detached (plain_replaceLocal index hv)
  · exact owning_detached hv abort_detached

theorem bare_constant (c : Code.Constant) : Bare c.toValue := by
  cases c <;> rfl

/-- What refers to no object is not iterable. -/
theorem getIter_idle (hv : Bare v) : Idle codes Bare (World.getIter v) := by
  have hobjects := objects_eq_nil hv
  unfold World.getIter
  split
  · cases hobjects
  · cases hobjects
  · cases hobjects
  · exact (typeName_idle hv).bind fun _ _ => Apart.raise rfl

theorem notAnIterator_idle {α : Type} {P : α → Prop} (hv : Bare v) :
    Idle codes P (World.notAnIterator v) :=
  (typeName_idle hv).bind fun _ _ => Apart.raise rfl

theorem nextItem_idle {P : Option Value → Prop} (hv : Bare v) : Idle codes P (e.nextItem v) := by
  have hobjects := objects_eq_nil hv
  unfold Engine.nextItem
  split
  · cases hobjects
  · cases hobjects
  · exact notAnIterator_idle hv

theorem forIter_detached (offset : Int) : Detached codes Any (forIter e offset) := by
  refine peek_detached.bind fun iterator hiterator => ?_
  refine (share_detached hiterator).bind fun _ _ => owning_detached hiterator ?_
  refine (shared_detached (nextItem_idle (P := Bare) hiterator)).bind fun item hitem => ?_
  cases item with
  | some v => exact push_detached hitem
  | none =>
      exact pop_detached.bind fun v hv =>
        (release_detached hv).bind fun _ _ => jump_detached offset

theorem listAppend_detached : Detached codes Any (listAppend e) := by
  refine pop_detached.bind fun item hitem => ?_
  refine (pop_detached.onInterruption (release_detached hitem)).bind fun target htarget => ?_
  have hobjects := objects_eq_nil htarget
  cases target with
  | list r => cases hobjects
  | _ =>
      exact owning_detached hitem <| owning_detached htarget <|
        (shared_detached (typeName_idle htarget)).bind fun _ _ => Apart.raise rfl

/-- What refers to no object takes no value. -/
theorem sendInto_idle {sent : Value} (hv : Bare v) (hsent : Bare sent) :
    Idle codes Bare (e.sendInto v sent) := by
  have hobjects := objects_eq_nil hv
  have hstep : Idle codes (fun _ => False) (e.owning sent (World.notAnIterator v) :
      Run World (Option Value)) := owning_idle hsent (notAnIterator_idle hv)
  have hfailed : ∀ y : Exception, holds y = 0 → Idle codes Bare (do
      if y.kind = .stopIteration then return .finished (← e.takeStopValue y)
      else Run.raise y : Run World Engine.Delegated) := by
    intro y hy
    have hstop : Bare y.stopValue := Bag.eq_zero_of_le (holds_stopValue_le y) hy
    split
    · refine Apart.bind (P := Bare) ?_ fun v hv => Apart.pure hv
      exact (share_idle hstop).bind fun _ _ =>
        (releaseAll_idle hy).bind fun _ _ => Apart.pure hstop
    · exact Apart.raise hy
  unfold Engine.sendInto
  cases v with
  | generator g => cases hobjects
  | iterator r => cases hobjects
  | _ =>
      refine hstep.attempt.bind fun x hx => ?_
      cases x with
      | ok _ => exact hx.elim
      | error y => exact hfailed y hx

theorem delegate_detached : Detached codes Bare (delegate e) := by
  refine activation_detached.bind fun a ha => ?_
  have hdelegate := (bare_frame_iff.1 (bare_activation_iff.1 ha).1).2.2.1
  cases h : a.frame.delegate with
  | some inner =>
      rw [h] at hdelegate
      exact (share_detached hdelegate).bind fun _ _ => Apart.pure hdelegate
  | none =>
      refine pop_detached.bind fun iterable hiterable => ?_
      refine (owning_detached hiterable (shared_detached (getIter_idle hiterable))).bind
        fun inner hinner => ?_
      refine (modifyFrame_detached fun f hf => ?_).bind fun _ _ =>
        (share_detached hinner).bind fun _ _ => Apart.pure hinner
      obtain ⟨hlocals, hstack, -, hrest⟩ := bare_frame_iff.1 hf
      exact bare_frame_iff.2 ⟨hlocals, hstack, hinner, hrest⟩

theorem modifyFrame_position_detached {position : Frame → Int} :
    Detached codes Any (modifyFrame fun f => { f with position := position f }) :=
  modifyFrame_detached fun _ hf => hf

theorem yieldFrom_detached : Detached codes Bare (yieldFrom e) := by
  refine delegate_detached.bind fun inner hinner => owning_detached hinner ?_
  refine activation_detached.bind fun a _ => modifyFrame_position_detached.bind fun _ _ => ?_
  refine takeSent_detached.bind fun sent hsent => ?_
  refine (shared_detached (sendInto_idle hinner hsent)).attempt.bind fun x hx => ?_
  cases x with
  | ok d =>
      cases d with
      | item v => exact Apart.pure hx
      | finished result => exact Apart.pure hx
  | error y =>
      exact (replace_detached plain_removeDelegate).bind fun _ _ => Apart.raise hx

theorem finish_detached (hv : Bare v) : Detached codes Bare (finish e v) :=
  (modifyFrame_detached (g := fun f => { f.markFinished with blocks := [] }) fun _ hf => hf).bind
    fun _ _ => (clearStack_detached.onInterruption (release_detached hv)).bind
    fun _ _ => Apart.pure hv

/-- One instruction. -/
theorem execute_detached (hclosure : Bare closure) (i : Code.Instruction) :
    Detached codes Bare (execute e p closure i) := by
  have hnone : Bare (none : Option Suspension) := rfl
  cases i with
  | loadConst index =>
      rw [execute]
      cases p.constants[index]? with
      | some c => exact (push_detached (bare_constant c)).bind fun _ _ => Apart.pure hnone
      | none => exact Apart.bind (P := Any) (Apart.raise rfl) fun _ _ => Apart.pure hnone
  | loadFast index => exact (loadFast_detached index).bind fun _ _ => Apart.pure hnone
  | storeFast index => exact (storeFast_detached index).bind fun _ _ => Apart.pure hnone
  | loadClosure =>
      exact (share_detached hclosure).bind fun _ _ =>
        (push_detached hclosure).bind fun _ _ => Apart.pure hnone
  | popTop =>
      exact pop_detached.bind fun v hv => (release_detached hv).bind fun _ _ => Apart.pure hnone
  | add => exact (binary_detached add_givesData _).bind fun _ _ => Apart.pure hnone
  | sub => exact (binary_detached sub_givesData _).bind fun _ _ => Apart.pure hnone
  | lessThan => exact (binary_detached lessThan_givesData _).bind fun _ _ => Apart.pure hnone
  | jump offset => exact (jump_detached offset).bind fun _ _ => Apart.pure hnone
  | jumpIfFalse offset =>
      refine pop_detached.bind fun v hv => ?_
      obtain ⟨b, hb⟩ := isTruthy_of_bare hv
      refine look_detached (r := fun t => t.2.isTruthy v) (a := fun _ => b) (k := fun truthy => do
        release e v
        if truthy then return none
        jump offset
        return none) (fun _ w _ => hb w) (fun _ _ => ?_) fun _ => rfl
      refine (release_detached hv).bind fun _ _ => ?_
      cases b with
      | true => exact Apart.pure hnone
      | false => exact (jump_detached offset).bind fun _ _ => Apart.pure hnone
  | getIter =>
      refine pop_detached.bind fun iterable hiterable => ?_
      exact (owning_detached hiterable ((shared_detached (getIter_idle hiterable)).bind
        fun v hv => push_detached hv)).bind fun _ _ => Apart.pure hnone
  | forIter offset => exact (forIter_detached offset).bind fun _ _ => Apart.pure hnone
  | listAppend => exact listAppend_detached.bind fun _ _ => Apart.pure hnone
  | yieldValue =>
      exact pop_detached.bind fun v hv => activation_detached.bind fun a _ =>
        modifyFrame_position_detached.bind fun _ _ => Apart.pure hv
  | yieldFrom => exact yieldFrom_detached.map fun _ h => h
  | setupExcept offset =>
      exact (target_detached offset).bind fun handler _ =>
        (modifyFrame_detached (g := fun f => { f with blocks := ⟨handler, f.depth⟩ :: f.blocks })
          fun _ hf => hf).bind fun _ _ => Apart.pure hnone
  | popBlock =>
      exact (modifyFrame_detached (g := fun f => { f with blocks := f.blocks.tail })
        fun _ hf => hf).bind fun _ _ => Apart.pure hnone
  | jumpIfNotExcMatch kind offset =>
      refine peek_detached.bind fun v _ => ?_
      split
      · exact Apart.pure hnone
      · exact (jump_detached offset).bind fun _ _ => Apart.pure hnone
  | raise => exact pop_detached.bind fun v hv => shared_detached (raiseValue_idle hv)
  | returnValue => exact pop_detached.bind fun v hv => (finish_detached hv).map fun _ h => h

/-! ## Runs -/

theorem unwind_detached {x : Exception} (hx : Bare x) : Detached codes Any (unwind e x) := by
  have hvalue : Bare x.toValue := hx
  refine activation_detached.bind fun a ha => ?_
  have hframe := (bare_activation_iff.1 ha).1
  cases a.frame.blocks with
  | cons block rest =>
      refine (modifyFrame_detached
        (g := fun f => { f.truncate block.stackDepth with blocks := rest })
        fun _ hf => bare_truncate hf block.stackDepth).bind fun _ _ => ?_
      refine ((releaseAll_detached (bare_above hframe _)).onInterruption
        (release_detached hvalue)).bind fun _ _ => ?_
      exact (push_detached hvalue).bind fun _ _ => goTo_detached block.handler
  | nil =>
      refine modifyFrame_position_detached.bind fun _ _ => ?_
      refine look_detached (r := fun t => t.2.code a.frame.code)
        (a := fun _ => codes[a.frame.code.index]?.getD default)
        (k := fun code => do
          let entry := (← activation).frame.traceEntry code.name code.filename
          (clearStack e).onInterruption (release e x.toValue)
          modifyFrame Frame.markFinished
          Run.raise (x.pushEntry entry))
        (fun _ w hw => by rw [World.code, hw]) (fun _ _ => ?_) fun _ => rfl
      refine activation_detached.bind fun b _ => ?_
      refine (clearStack_detached.onInterruption (release_detached hvalue)).bind fun _ _ => ?_
      exact (modifyFrame_detached (g := Frame.markFinished) fun _ hf => hf).bind fun _ _ =>
        Apart.raise hx

/-- A run, by induction on the number of instructions. -/
theorem run_detached (hclosure : Bare closure) (n : Nat) :
    Detached codes Bare (run e p closure n) := by
  induction n with
  | zero => exact Apart.outOfFuel
  | succ n ih =>
      refine activation_detached.bind fun a _ => ?_
      cases p.instructions[a.counter]? with
      | none => exact finish_detached rfl
      | some i =>
          refine (goTo_detached (a.counter + 1)).bind fun _ _ => ?_
          refine (execute_detached hclosure i).attempt.bind fun x hx => ?_
          cases x with
          | ok suspension =>
              cases suspension with
              | some suspension => exact Apart.pure hx
              | none => exact ih
          | error y => exact (unwind_detached hx).bind fun _ _ => ih

theorem pushResumeValue_detached : Detached codes Any (pushResumeValue p) := by
  refine activation_detached.bind fun a ha => ?_
  have hresult := (bare_frame_iff.1 (bare_activation_iff.1 ha).1).2.2.2.2.2
  split
  · exact Apart.pure True.intro
  · split
    · exact takeSent_detached.bind fun v hv => push_detached hv
    · refine (modifyFrame_detached (g := fun f => { f with delegationResult := none })
        fun f hf => ?_).bind fun _ _ => push_detached ?_
      · obtain ⟨hlocals, hstack, hdelegate, hpending, hinput, -⟩ := bare_frame_iff.1 hf
        exact bare_frame_iff.2 ⟨hlocals, hstack, hdelegate, hpending, hinput, rfl⟩
      · exact bare_getD hresult
    · exact Apart.pure True.intro

theorem resume_detached (hclosure : Bare closure) {pending : Option Exception}
    (hpending : Bare pending) : Detached codes Bare (resume e p closure pending) := by
  have hrun : Detached codes Bare (run e p closure e.fuel) := run_detached hclosure e.fuel
  cases pending with
  | some x => exact (unwind_detached (x := x) hpending).bind fun _ _ => hrun
  | none => exact pushResumeValue_detached.bind fun _ _ => hrun

end Exec

/-- A program resumed on a frame that refers to no object. -/
theorem Code.Program.resume_detached {codes : List CodeObject} (e : Engine) (p : Code.Program)
    {closure : Value} (hclosure : Bare closure) {pending : Option Exception}
    (hpending : Bare pending) :
    Detached (ρ := Frame) codes Bare (p.resume e closure pending) := by
  rintro ⟨f, u⟩ hf
  have hf : Bare f := hf
  by_cases hposition : f.position < 0
  · have hrefused : Detached (ρ := Frame) codes (Bare (α := Suspension)) (Run.ensuring
        (Run.raise (.systemError "cannot resume a finished frame"))
        (Run.shared (e.releasePending pending))) := by
      have hforget : Detached (ρ := Frame) codes Any (Run.shared (e.releasePending pending)) := by
        cases pending with
        | none => exact Apart.pure True.intro
        | some x => exact releaseAll_detached hpending
      exact (Apart.raise rfl).ensuring hforget hforget
    obtain ⟨x, hx, hmx⟩ := hrefused (f, u) hf
    refine ⟨x, hx, fun w hw => ?_⟩
    rw [← hmx w hw]
    show p.resume e closure pending (f, w.mark u) = _
    unfold Code.Program.resume
    dsimp only
    rw [if_pos hposition]
    rfl
  · obtain ⟨hlocals, hstack, hdelegate, hrest, hinput, hresult⟩ := bare_frame_iff.1 hf
    have hrun : Detached codes Bare ((Exec.resume e p closure pending).ensuring do
        Exec.release e (← Exec.takeSent)) := by
      have hforget : Detached codes Any (do Exec.release e (← Exec.takeSent)) :=
        Exec.takeSent_detached.bind fun v hv => Exec.release_detached hv
      exact (Exec.resume_detached hclosure hpending).ensuring hforget hforget
    obtain ⟨x, hx, hmx⟩ := hrun (⟨{ f with input := none }, f.position.toNat, f.input.getD .none⟩, u)
      (Exec.bare_activation_iff.2
        ⟨bare_frame_iff.2 ⟨hlocals, hstack, hdelegate, hrest, rfl, hresult⟩, bare_getD hinput⟩)
    rcases x with ⟨suspension, a, u'⟩ | ⟨reason, a, u'⟩
    · refine ⟨.ok suspension (a.frame, u'), ⟨hx.1, (Exec.bare_activation_iff.1 hx.2).1⟩,
        fun w hw => ?_⟩
      show p.resume e closure pending (f, w.mark u) = _
      have := hmx w hw
      unfold Code.Program.resume
      simp only [beside, within] at this ⊢
      rw [if_neg hposition, this]
    · refine ⟨.error reason (a.frame, u'), ?_, fun w hw => ?_⟩
      · cases reason with
        | raised y => exact ⟨hx.1, (Exec.bare_activation_iff.1 hx.2).1⟩
        | aborted => exact (Exec.bare_activation_iff.1 hx).1
        | outOfFuel => exact hx
      · show p.resume e closure pending (f, w.mark u) = _
        have := hmx w hw
        unfold Code.Program.resume
        simp only [beside, within] at this ⊢
        rw [if_neg hposition, this]

end Resumable
