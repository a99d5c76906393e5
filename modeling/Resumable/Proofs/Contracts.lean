import Resumable.Proofs.Invariants

set_option autoImplicit false

/-!
# Contracts

A contract of a computation says what is known of the state that it ends in, for each way of ending
(`Run.Meets`).  A contract on the private half of a state holds whatever is done to the shared half
(`Run.Leaves`).  There is one rule for each way of composing computations.
-/

namespace Resumable

variable {α β γ σ τ ω : Type}

namespace Run

/-- From a state, a computation ends as the contract says: `Q` after a result, `E` after an exception,
`A` after an abandonment, and `B` where the fuel ran out. -/
def Meets (Q : α → σ → Prop) (E : Exception → σ → Prop) (A B : σ → Prop) (m : Run σ α) (s : σ) :
    Prop :=
  match m s with
  | .ok a t => Q a t
  | .error (.raised x) t => E x t
  | .error .aborted t => A t
  | .error .outOfFuel t => B t

namespace Meets

variable {Q Q' : α → σ → Prop} {R : β → σ → Prop} {E E' : Exception → σ → Prop} {A A' B B' : σ → Prop}
  {m : Run σ α} {f : α → Run σ β} {c : Run σ Unit} {s : σ}

theorem pure {a : α} (h : Q a s) : Meets Q E A B (pure a) s := h

theorem raise {x : Exception} (h : E x s) : Meets Q E A B (raise x) s := h

theorem outOfFuel (h : B s) : Meets Q E A B (throw .outOfFuel) s := h

theorem mono (hm : Meets Q E A B m s) (hQ : ∀ a t, Q a t → Q' a t) (hE : ∀ x t, E x t → E' x t)
    (hA : ∀ t, A t → A' t) (hB : ∀ t, B t → B' t) : Meets Q' E' A' B' m s := by
  unfold Meets at hm ⊢
  rcases h : m s with ⟨a, t⟩ | ⟨x | _ | _, t⟩ <;> rw [h] at hm
  · exact hQ a t hm
  · exact hE x t hm
  · exact hA t hm
  · exact hB t hm

/-- A weaker condition on the result. -/
theorem imp (hm : Meets Q E A B m s) (hQ : ∀ a t, Q a t → Q' a t) : Meets Q' E A B m s :=
  hm.mono hQ (fun _ _ h => h) (fun _ h => h) fun _ h => h

theorem bind (hm : Meets Q E A B m s) (hf : ∀ a t, Q a t → Meets R E A B (f a) t) :
    Meets R E A B (m >>= f) s := by
  unfold Meets at hm ⊢
  rw [bind_apply]
  rcases h : m s with ⟨a, t⟩ | ⟨_ | _ | _, t⟩ <;> rw [h] at hm
  · exact hf a t hm
  · exact hm
  · exact hm
  · exact hm

/-- What comes after looking at the state. -/
theorem get_bind {f : σ → Run σ β} (h : Meets R E A B (f s) s) : Meets R E A B (get >>= f) s := h

theorem map (hm : Meets Q E A B m s) {g : α → β} (hQ : ∀ a t, Q a t → R (g a) t) :
    Meets R E A B (g <$> m) s := by
  rw [map_eq_pure_bind]
  exact hm.bind fun a t h => Meets.pure (hQ a t h)

/-- Nothing is asked of the end. -/
theorem trivial : Meets (fun _ _ => True) (fun _ _ => True) (fun _ => True) (fun _ => True) m s := by
  unfold Meets
  rcases m s with ⟨a, t⟩ | ⟨_ | _ | _, t⟩ <;> exact True.intro

theorem and (hm : Meets Q E A B m s) (hm' : Meets Q' E' A' B' m s) :
    Meets (fun a t => Q a t ∧ Q' a t) (fun x t => E x t ∧ E' x t) (fun t => A t ∧ A' t)
      (fun t => B t ∧ B' t) m s := by
  unfold Meets at hm hm' ⊢
  rcases h : m s with ⟨a, t⟩ | ⟨x | _ | _, t⟩ <;> rw [h] at hm hm' <;> exact ⟨hm, hm'⟩

/-- What an attempt comes to. -/
theorem attempt (hm : Meets Q E A B m s) :
    Meets (fun outcome t => match outcome with | .ok a => Q a t | .error x => E x t)
      (fun _ _ => False) A B (attempt m) s := by
  unfold Meets at hm ⊢
  unfold Run.attempt
  rcases h : m s with ⟨a, t⟩ | ⟨_ | _ | _, t⟩ <;> rw [h] at hm <;> exact hm

/-- What a contained computation comes to. -/
theorem contain (hm : Meets Q E A B m s) :
    Meets (fun ending t => match ending with
        | .result a => Q a t
        | .raised x => E x t
        | .aborted => A t)
      (fun _ _ => False) (fun _ => False) B (contain m) s := by
  unfold Meets at hm ⊢
  unfold Run.contain
  rcases h : m s with ⟨a, t⟩ | ⟨_ | _ | _, t⟩ <;> rw [h] at hm <;> exact hm

theorem onInterruption (hm : Meets Q E A B m s)
    (hraised : ∀ x t, E x t → Meets (fun _ => E' x) E' A' B c t)
    (haborted : ∀ t, A t → Meets (fun _ => A') E' A' B c t) :
    Meets Q E' A' B (m.onInterruption c) s := by
  unfold Meets at hm ⊢
  unfold Run.onInterruption
  rcases h : m s with ⟨a, t⟩ | ⟨x | _ | _, t⟩ <;> rw [h] at hm
  case ok => exact hm
  case error.outOfFuel => exact hm
  case error.raised =>
    have hc := hraised x t hm
    unfold Meets at hc
    simp only
    rcases hu : c t with ⟨_, u⟩ | ⟨_ | _ | _, u⟩ <;> rw [hu] at hc <;> exact hc
  case error.aborted =>
    have hc := haborted t hm
    unfold Meets at hc
    simp only
    rcases hu : c t with ⟨_, u⟩ | ⟨_ | _ | _, u⟩ <;> rw [hu] at hc <;> exact hc

theorem ensuring (hm : Meets Q E A B m s)
    (hok : ∀ a t, Q a t → Meets (fun _ => Q' a) E' A' B c t)
    (hraised : ∀ x t, E x t → Meets (fun _ => E' x) E' A' B c t)
    (haborted : ∀ t, A t → Meets (fun _ => A') E' A' B c t) :
    Meets Q' E' A' B (m.ensuring c) s := by
  refine (hm.onInterruption hraised haborted).bind fun a t h => ?_
  exact (hok a t h).bind fun _ u hu => Meets.pure hu

/-- A computation on the shared half leaves the private half as it is. -/
theorem shared {Q : α → ω → Prop} {E : Exception → ω → Prop} {A B : ω → Prop} {m : Run ω α} {b : τ}
    {w : ω} (hm : Meets Q E A B m w) :
    Meets (fun a s => s.1 = b ∧ Q a s.2) (fun x s => s.1 = b ∧ E x s.2) (fun s => s.1 = b ∧ A s.2)
      (fun s => s.1 = b ∧ B s.2) (Run.shared m) (b, w) := by
  unfold Meets at hm ⊢
  unfold Run.shared
  simp only
  rcases h : m w with ⟨a, t⟩ | ⟨_ | _ | _, t⟩ <;> rw [h] at hm <;> exact ⟨rfl, hm⟩

end Meets

/-! ## What is kept -/

/-- A state satisfies a condition.  It carries a mark as well, if that is said. -/
def Marked (P U : σ → Prop) (b : Bool) (s : σ) : Prop := P s ∧ (b = true → U s)

/-- What holds at the beginning holds in the end, unless the fuel ran out: then `B` holds.  A state that is
left by an abandoned computation carries a mark, and a mark that is there already stays. -/
def Keeps (P U B : σ → Prop) (m : Run σ α) : Prop :=
  ∀ b s, Marked P U b s →
    Meets (fun _ => Marked P U b) (fun _ => Marked P U b) (Marked P U true) B m s

section Keeps

variable {P U B : σ → Prop} {m : Run σ α} {f : α → Run σ β} {c : Run σ Unit} {b : Bool} {s : σ}

theorem Marked.loosen (h : Marked P U true s) : Marked P U b s := ⟨h.1, fun _ => h.2 rfl⟩

/-- Of a state without a mark, only the condition is asked. -/
theorem Marked.unmarked (h : P s) : Marked P U false s := ⟨h, nofun⟩

theorem keeps_pure (a : α) : Keeps P U B (pure a : Run σ α) := fun _ _ h => h

theorem keeps_raise (x : Exception) : Keeps P U B (raise x : Run σ α) := fun _ _ h => h

theorem keeps_get : Keeps P U B (get : Run σ σ) := fun _ _ h => h

theorem keeps_outOfFuel (h : ∀ s, P s → B s) : Keeps P U B (throw .outOfFuel : Run σ α) :=
  fun _ s hs => h s hs.1

theorem Keeps.bind (hm : Keeps P U B m) (hf : ∀ a, Keeps P U B (f a)) : Keeps P U B (m >>= f) :=
  fun b s hs => (hm b s hs).bind fun a t ht => hf a b t ht

theorem Keeps.map (hm : Keeps P U B m) (g : α → β) : Keeps P U B (g <$> m) :=
  fun b s hs => (hm b s hs).map fun _ _ ht => ht

theorem Keeps.attempt (hm : Keeps P U B m) : Keeps P U B (Run.attempt m) := fun b s hs =>
  (hm b s hs).attempt.mono (fun outcome _ ht => by cases outcome <;> exact ht)
    (fun _ _ ht => ht.elim) (fun _ ht => ht) fun _ ht => ht

theorem Meets.onInterruption_keeps
    (hm : Meets (fun _ => Marked P U b) (fun _ => Marked P U b) (Marked P U true) B m s)
    (hc : Keeps P U B c) :
    Meets (fun _ => Marked P U b) (fun _ => Marked P U b) (Marked P U true) B (m.onInterruption c) s :=
  hm.onInterruption (fun _ t ht => hc b t ht) fun t ht =>
    (hc true t ht).mono (fun _ _ hu => hu) (fun _ _ hu => hu.loosen) (fun _ hu => hu) fun _ hu => hu

theorem Meets.ensuring_keeps
    (hm : Meets (fun _ => Marked P U b) (fun _ => Marked P U b) (Marked P U true) B m s)
    (hc : Keeps P U B c) :
    Meets (fun _ => Marked P U b) (fun _ => Marked P U b) (Marked P U true) B (m.ensuring c) s :=
  (hm.onInterruption_keeps hc).bind fun a t ht => (hc.bind fun _ => keeps_pure a) b t ht

theorem Keeps.onInterruption (hm : Keeps P U B m) (hc : Keeps P U B c) :
    Keeps P U B (m.onInterruption c) := fun b s hs => (hm b s hs).onInterruption_keeps hc

theorem Keeps.ensuring (hm : Keeps P U B m) (hc : Keeps P U B c) : Keeps P U B (m.ensuring c) :=
  fun b s hs => (hm b s hs).ensuring_keeps hc

/-- What comes after looking at the state may rely on what holds of it. -/
theorem Keeps.ofGet {f : σ → Run σ β}
    (hf : ∀ b s, Marked P U b s →
      Meets (fun _ => Marked P U b) (fun _ => Marked P U b) (Marked P U true) B (f s) s) :
    Keeps P U B (get >>= f) := fun b s hs => hf b s hs

/-- What comes after a contained computation.  If that was abandoned, it is up to what comes after it to
remove the mark. -/
theorem Keeps.contain_bind {f : Ending α → Run σ β} (hm : Keeps P U B m) (hs : Marked P U b s)
    (hresult : ∀ a, Keeps P U B (f (.result a))) (hraised : ∀ x, Keeps P U B (f (.raised x)))
    (haborted : ∀ t, Marked P U true t →
      Meets (fun _ => Marked P U b) (fun _ => Marked P U b) (Marked P U true) B (f .aborted) t) :
    Meets (fun _ => Marked P U b) (fun _ => Marked P U b) (Marked P U true) B (Run.contain m >>= f) s := by
  refine ((hm b s hs).contain.mono (fun _ _ h => h) (fun _ _ h => h.elim) (fun _ h => h.elim)
    fun _ h => h).bind fun ending t ht => ?_
  cases ending with
  | result a => exact hresult a b t ht
  | raised x => exact hraised x b t ht
  | aborted => exact haborted t ht

/-- Without a mark, and if the fuel makes no difference, to be kept is to be an invariant. -/
theorem keeps_iff_maintains : Keeps P (fun _ => True) P m ↔ Maintains P m := by
  constructor
  · intro h s hs
    have hend := h false s (.unmarked hs)
    unfold Meets at hend
    rcases hx : m s with ⟨a, t⟩ | ⟨_ | _ | _, t⟩ <;> rw [hx] at hend
    · exact hend.1
    · exact hend.1
    · exact hend.1
    · exact hend
  · intro h b s hs
    have hend := h s hs.1
    unfold Meets
    rcases hx : m s with ⟨a, t⟩ | ⟨_ | _ | _, t⟩ <;> rw [hx] at hend
    · exact ⟨hend, fun _ => True.intro⟩
    · exact ⟨hend, fun _ => True.intro⟩
    · exact ⟨hend, fun _ => True.intro⟩
    · exact hend

end Keeps

/-- What holds of the shared half of a state at the beginning holds of it in the end. -/
abbrev Sustains (P U B : ω → Prop) (m : Run (τ × ω) α) : Prop :=
  Keeps (fun s => P s.2) (fun s => U s.2) (fun s => B s.2) m

section Halves

variable {P U B : ω → Prop}

/-- A computation on the shared half. -/
theorem Keeps.beside {m : Run ω α} (hm : Keeps P U B m) :
    Sustains P U B (Run.shared m : Run (τ × ω) α) := fun b s hs =>
  (hm b s.2 hs).shared.mono (fun _ _ h => h.2) (fun _ _ h => h.2) (fun _ h => h.2) fun _ h => h.2

theorem Keeps.withPrivate {m : Run (τ × ω) α} {leave : τ → Run ω Unit} (hm : Sustains P U B m)
    (hleave : ∀ d, Keeps P U B (leave d)) (d : τ) : Keeps P U B (Run.withPrivate d m leave) := by
  intro b w hw
  have hdone := hm b (d, w) hw
  unfold Meets at hdone ⊢
  unfold Run.withPrivate
  rcases hx : m (d, w) with ⟨a, d', t⟩ | ⟨_ | _ | _, d', t⟩ <;> rw [hx] at hdone
  case error.outOfFuel => exact hdone
  case error.aborted =>
    have hleft := hleave d' true t hdone
    unfold Meets at hleft
    simp only
    rcases hy : leave d' t with ⟨_, u⟩ | ⟨_ | _ | _, u⟩ <;> rw [hy] at hleft
    case error.raised => exact Marked.loosen hleft
    all_goals exact hleft
  all_goals
    have hleft := hleave d' b t hdone
    unfold Meets at hleft
    simp only
    rcases hy : leave d' t with ⟨_, u⟩ | ⟨_ | _ | _, u⟩ <;> rw [hy] at hleft <;> exact hleft

end Halves

/-- From a private half, a computation ends as the contract says, whatever the shared half is: `Q` after
a result, `E` after an exception, and `A` if the computation is abandoned or the fuel runs out. -/
def Leaves (Q : α → τ → Prop) (E A : τ → Prop) (m : Run (τ × ω) α) (b : τ) : Prop :=
  ∀ w, Meets (fun a s => Q a s.1) (fun _ s => E s.1) (fun s => A s.1) (fun s => A s.1) m (b, w)

namespace Leaves

variable {Q Q' : α → τ → Prop} {R : β → τ → Prop} {E E' A A' : τ → Prop} {m : Run (τ × ω) α}
  {f : α → Run (τ × ω) β} {c : Run (τ × ω) Unit} {b : τ}

theorem pure {a : α} (h : Q a b) : Leaves Q E A (pure a : Run (τ × ω) α) b := fun _ => h

theorem raise {x : Exception} (h : E b) : Leaves Q E A (Run.raise x : Run (τ × ω) α) b := fun _ => h

theorem outOfFuel (h : A b) : Leaves Q E A (throw .outOfFuel : Run (τ × ω) α) b := fun _ => h

theorem mono (hm : Leaves Q E A m b) (hQ : ∀ a d, Q a d → Q' a d) (hE : ∀ d, E d → E' d)
    (hA : ∀ d, A d → A' d) : Leaves Q' E' A' m b := fun w =>
  (hm w).mono (fun a s => hQ a s.1) (fun _ s => hE s.1) (fun s => hA s.1) fun s => hA s.1

/-- A weaker condition on the result. -/
theorem imp (hm : Leaves Q E A m b) (hQ : ∀ a d, Q a d → Q' a d) : Leaves Q' E A m b :=
  hm.mono hQ (fun _ h => h) fun _ h => h

theorem bind (hm : Leaves Q E A m b) (hf : ∀ a d, Q a d → Leaves R E A (f a) d) :
    Leaves R E A (m >>= f) b := fun w =>
  (hm w).bind fun a s ha => hf a s.1 ha s.2

theorem map (hm : Leaves Q E A m b) {g : α → β} (hQ : ∀ a d, Q a d → R (g a) d) :
    Leaves R E A (g <$> m) b := fun w => (hm w).map fun a s => hQ a s.1

/-- A computation on the shared half leaves the private half as it is. -/
theorem shared {m : Run ω α} (hQ : ∀ a, Q a b) (hE : E b) (hA : A b) :
    Leaves Q E A (Run.shared m) b := by
  intro w
  unfold Meets Run.shared
  simp only
  rcases m w with ⟨a, t⟩ | ⟨_ | _ | _, t⟩
  · exact hQ a
  · exact hE
  · exact hA
  · exact hA

/-- What an attempt comes to. -/
theorem attempt (hm : Leaves Q E A m b) :
    Leaves (fun outcome d => match outcome with | .ok a => Q a d | .error _ => E d) E' A
      (Run.attempt m) b := fun w =>
  (hm w).attempt.mono (fun outcome _ h => by cases outcome <;> exact h) (fun _ _ h => h.elim)
    (fun _ h => h) fun _ h => h

theorem onInterruption (hm : Leaves Q E A m b) (hE : ∀ d, E d → Leaves (fun _ => E) E A c d)
    (hA : ∀ d, A d → Leaves (fun _ => A) E A c d) : Leaves Q E A (m.onInterruption c) b := fun w =>
  (hm w).onInterruption (fun _ s hs => hE s.1 hs s.2) fun s hs => hA s.1 hs s.2

theorem ensuring (hm : Leaves Q E A m b) (hQ : ∀ a d, Q a d → Leaves (fun _ => Q a) E A c d)
    (hE : ∀ d, E d → Leaves (fun _ => E) E A c d) (hA : ∀ d, A d → Leaves (fun _ => A) E A c d) :
    Leaves Q E A (m.ensuring c) b := by
  refine (hm.onInterruption hE hA).bind fun a d h => ?_
  exact (hQ a d h).bind fun _ _ hu => Leaves.pure hu

/-- A clean-up of the shared half leaves the private half as it is. -/
theorem ensuring_shared {c : Run ω Unit} (hm : Leaves Q E A m b) (hQ : ∀ a d, Q a d → E d ∧ A d)
    (hE : ∀ d, E d → A d) (hA : ∀ d, A d → E d) :
    Leaves Q E A (m.ensuring (Run.shared c)) b :=
  hm.ensuring (fun a d h => shared (fun _ => h) (hQ a d h).1 (hQ a d h).2)
    (fun d h => shared (fun _ => h) h (hE d h)) fun d h => shared (fun _ => h) (hA d h) h

/-- What is maintained holds in the end. -/
theorem of_maintains {P : τ → Prop} (hm : Maintains (fun s : τ × ω => P s.1) m) (h : P b) :
    Leaves (fun _ => P) P P m b := by
  intro w
  have hend := hm (b, w) h
  unfold Meets
  rcases hx : m (b, w) with ⟨a, t⟩ | ⟨_ | _ | _, t⟩ <;> rw [hx] at hend <;> exact hend

end Leaves

end Run

end Resumable
