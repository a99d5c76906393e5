import Resumable.Proofs.Raising
import Resumable.Proofs.Stepping

set_option autoImplicit false

/-!
# Computations that end

What a computation does depends on the fuel of its engine only as long as it runs out of it.  A
computation halts if it comes to one and the same end with all engines that have enough fuel
(`Halts`); the end is described by what is known after a result and after an interruption.  There is
one rule for each way of composing computations.

The rules are about objects of a sort: what a computation is given, and what it leaves, refers to
nothing else (`Within`).  Where the objects of the sort are lists and iterators over them, to forget
one disposes of nothing but others of them.  Each of these steps takes an owner away, so it halts, and
it is never interrupted (`release_halts`).
-/

namespace Resumable

variable {P : Object → Prop} {α β τ ω σ : Type}

/-! ## Objects of a sort -/

/-- All that something refers to is of a sort. -/
def Within [Holder α] (P : Object → Prop) (x : α) : Prop := ∀ o, ¬ P o → holds x o = 0

section Within

variable {v : Value} {vs us : List Value} {x : Exception} {f : Frame} {a : Activation}

theorem Within.le [Holder α] [Holder β] {x : α} {y : β} (hy : Within P y) (h : holds x ≤ holds y) :
    Within P x := fun o ho => by
  have := Bag.apply_le h o
  rw [hy o ho] at this
  omega

theorem within_of_holds_zero [Holder α] {x : α} (h : holds x = 0) : Within P x := fun o _ => by
  rw [h]
  rfl

theorem within_value_iff : Within P v ↔ ∀ o ∈ v.objects, P o := by
  constructor
  · intro h o ho
    by_contra hnot
    have := Bag.one_le_of_mem ho
    have hzero := h o hnot
    rw [holds_value] at hzero
    omega
  · intro h o ho
    rw [holds_value]
    exact List.count_eq_zero.2 fun hmem => ho (h o hmem)

theorem within_values_iff : Within P vs ↔ ∀ v ∈ vs, Within P v := by
  constructor
  · exact fun h v hv => h.le (holds_le_of_mem hv)
  · intro h
    induction vs with
    | nil => exact within_of_holds_zero rfl
    | cons v vs ih =>
        intro o ho
        have hv := h v List.mem_cons_self o ho
        have hvs := ih (fun u hu => h u (List.mem_cons_of_mem v hu)) o ho
        rw [holds_values_cons, Pi.add_apply]
        omega

theorem within_cons_iff : Within P (v :: vs) ↔ Within P v ∧ Within P vs := by
  simp only [within_values_iff, List.mem_cons, forall_eq_or_imp]

theorem within_append_iff : Within P (vs ++ us) ↔ Within P vs ∧ Within P us := by
  simp only [within_values_iff, List.mem_append, or_imp, forall_and]

theorem within_subset (h : Within P vs) (hsub : us ⊆ vs) : Within P us :=
  within_values_iff.2 fun v hv => within_values_iff.1 h v (hsub hv)

theorem within_singleton_iff : Within P [v] ↔ Within P v := by
  simp [within_values_iff]

theorem within_toList_iff {x : Option Value} : Within P x.toList ↔ Within P x := by
  unfold Within
  rw [holds_toList]

theorem within_getD {x : Option Value} (h : Within P x) : Within P (x.getD .none) := by
  cases x with
  | none => exact within_of_holds_zero rfl
  | some v => exact h

theorem within_frame_iff : Within P f ↔ Within P f.locals ∧ Within P f.stack ∧ Within P f.delegate ∧
    Within P f.pending ∧ Within P f.input ∧ Within P f.delegationResult := by
  unfold Within
  simp only [holds_frame, Pi.add_apply, Nat.add_eq_zero_iff, forall_and]
  constructor
  · rintro ⟨⟨⟨⟨⟨h₁, h₂⟩, h₃⟩, h₄⟩, h₅⟩, h₆⟩
    exact ⟨h₁, h₂, h₃, h₄, h₅, h₆⟩
  · rintro ⟨h₁, h₂, h₃, h₄, h₅, h₆⟩
    exact ⟨⟨⟨⟨⟨h₁, h₂⟩, h₃⟩, h₄⟩, h₅⟩, h₆⟩

theorem within_activation_iff : Within P a ↔ Within P a.frame ∧ Within P a.sent := by
  unfold Within
  simp only [holds_activation, Pi.add_apply, Nat.add_eq_zero_iff, forall_and]

/-- A change of a frame that puts nothing of another sort into it, nor takes it out. -/
def KeepsWithin (P : Object → Prop) (change : Frame → Frame × List Value) : Prop :=
  ∀ f, Within P f → Within P (change f).1 ∧ Within P (change f).2

theorem keepsWithin_removeDelegate : KeepsWithin P Frame.removeDelegate := by
  intro f hf
  obtain ⟨hlocals, hstack, hdelegate, hrest⟩ := within_frame_iff.1 hf
  exact ⟨within_frame_iff.2 ⟨hlocals, hstack, within_of_holds_zero rfl, hrest⟩,
    within_toList_iff.2 hdelegate⟩

theorem keepsWithin_replaceInput (hv : Within P v) : KeepsWithin P (·.replaceInput v) := by
  intro f hf
  obtain ⟨hlocals, hstack, hdelegate, hpending, hinput, hresult⟩ := within_frame_iff.1 hf
  exact ⟨within_frame_iff.2 ⟨hlocals, hstack, hdelegate, hpending, hv, hresult⟩,
    within_toList_iff.2 hinput⟩

theorem keepsWithin_replaceDelegationResult (hv : Within P v) :
    KeepsWithin P (·.replaceDelegationResult v) := by
  intro f hf
  obtain ⟨hlocals, hstack, hdelegate, hpending, hinput, hresult⟩ := within_frame_iff.1 hf
  exact ⟨within_frame_iff.2 ⟨hlocals, hstack, hdelegate, hpending, hinput, hv⟩,
    within_toList_iff.2 hresult⟩

theorem keepsWithin_replacePending (hx : Within P x) : KeepsWithin P (·.replacePending x) := by
  intro f hf
  obtain ⟨hlocals, hstack, hdelegate, hpending, hinput, hresult⟩ := within_frame_iff.1 hf
  refine ⟨within_frame_iff.2 ⟨hlocals, hstack, hdelegate, hx, hinput, hresult⟩, ?_⟩
  show Within P ((f.pending.map (·.args)).getD [])
  cases hp : f.pending with
  | none => exact within_of_holds_zero rfl
  | some y =>
      rw [hp] at hpending
      exact hpending

theorem keepsWithin_replaceLocal (index : Nat) (hv : Within P v) :
    KeepsWithin P (·.replaceLocal index v) := by
  intro f hf
  obtain ⟨hlocals, hrest⟩ := within_frame_iff.1 hf
  have hgrown : Within P (f.locals ++ List.replicate (index + 1 - f.locals.length) .none) := by
    refine within_append_iff.2 ⟨hlocals, within_values_iff.2 fun u hu => ?_⟩
    rw [(List.mem_replicate.1 hu).2]
    exact within_of_holds_zero rfl
  refine ⟨within_frame_iff.2 ⟨?_, hrest⟩, within_subset hlocals fun u hu => ?_⟩
  · refine within_subset (within_cons_iff.2 ⟨hv, hgrown⟩) fun u hu => ?_
    rcases List.mem_or_eq_of_mem_set hu with hu | rfl
    · exact List.mem_cons_of_mem _ hu
    · exact List.mem_cons_self
  · exact List.mem_of_getElem? (Option.mem_toList.1 hu)

theorem within_above (hf : Within P f) (depth : Nat) : Within P (f.above depth) :=
  within_subset (within_frame_iff.1 hf).2.1 fun _ hu => List.mem_of_mem_take (List.mem_reverse.1 hu)

theorem within_truncate (hf : Within P f) (depth : Nat) : Within P (f.truncate depth) := by
  obtain ⟨hlocals, hstack, hrest⟩ := within_frame_iff.1 hf
  exact within_frame_iff.2
    ⟨hlocals, within_subset hstack fun _ hu => List.mem_of_mem_drop hu, hrest⟩

end Within

/-! ## Coming to one end -/

/-- The end of a computation that did not run out of fuel: `Q` holds after a result, and `J` after an
interruption.  An exception that is raised refers to objects of the sort. -/
inductive Ended (P : Object → Prop) (Q : α → σ → Prop) (J : σ → Prop) :
    EStateM.Result Interruption σ α → Prop where
  | ok {a : α} {t : σ} (h : Q a t) : Ended P Q J (.ok a t)
  | raised {x : Exception} {t : σ} (hx : Within P x) (h : J t) : Ended P Q J (.error (.raised x) t)
  | aborted {t : σ} (h : J t) : Ended P Q J (.error .aborted t)

theorem Ended.ne_outOfFuel {Q : α → σ → Prop} {J : σ → Prop}
    {x : EStateM.Result Interruption σ α} {t : σ} (h : Ended P Q J x) : x ≠ .error .outOfFuel t := by
  cases h <;> nofun

/-- With all engines that have enough fuel, a computation comes to one and the same end. -/
def Halts (P : Object → Prop) (Q : α → σ → Prop) (J : σ → Prop) (m : Nat → Run σ α) (s : σ) : Prop :=
  ∃ x n, (∀ k, n ≤ k → m k s = x) ∧ Ended P Q J x

namespace Halts

variable {Q Q' : α → σ → Prop} {R : β → σ → Prop} {J J' : σ → Prop} {m : Nat → Run σ α}
  {f : α → Nat → Run σ β} {c : Nat → Run σ Unit} {s t : σ} {a : α}

/-- A computation that does not ask its engine. -/
theorem of_eq {x : EStateM.Result Interruption σ α} (h : ∀ k, m k s = x) (hx : Ended P Q J x) :
    Halts P Q J m s := ⟨x, 0, fun k _ => h k, hx⟩

theorem of_ok (h : ∀ k, m k s = .ok a t) (ha : Q a t) : Halts P Q J m s := of_eq h (.ok ha)

theorem pure (h : Q a s) : Halts P Q J (fun _ => (Pure.pure a : Run σ α)) s := of_ok (fun _ => rfl) h

theorem raise {x : Exception} (hx : Within P x) (h : J s) :
    Halts P Q J (fun _ => (Run.raise x : Run σ α)) s := of_eq (fun _ => rfl) (.raised hx h)

theorem mono (h : Halts P Q J m s) (hQ : ∀ a t, Q a t → Q' a t) (hJ : ∀ t, J t → J' t) :
    Halts P Q' J' m s := by
  obtain ⟨x, n, hn, hx⟩ := h
  refine ⟨x, n, hn, ?_⟩
  cases hx with
  | ok h => exact .ok (hQ _ _ h)
  | raised hx h => exact .raised hx (hJ _ h)
  | aborted h => exact .aborted (hJ _ h)

theorem imp (h : Halts P Q J m s) (hQ : ∀ a t, Q a t → Q' a t) : Halts P Q' J m s :=
  h.mono hQ fun _ h => h

/-- More fuel than given changes nothing. -/
theorem of_succ (h : Halts P Q J (fun k => m (k + 1)) s) : Halts P Q J m s := by
  obtain ⟨x, n, hn, hx⟩ := h
  refine ⟨x, n + 1, fun k hk => ?_, hx⟩
  obtain ⟨j, rfl⟩ : ∃ j, k = j + 1 := ⟨k - 1, by omega⟩
  exact hn j (by omega)

theorem congr {f : Nat → Run σ α} (h : Halts P Q J f t) (heq : ∀ k, m k s = f k t) :
    Halts P Q J m s := by
  obtain ⟨x, n, hn, hx⟩ := h
  exact ⟨x, n, fun k hk => (heq k).trans (hn k hk), hx⟩

theorem bind (hm : Halts P Q J m s) (hf : ∀ a t, Q a t → Halts P R J (f a) t) :
    Halts P R J (fun k => m k >>= fun a => f a k) s := by
  obtain ⟨x, n, hn, hx⟩ := hm
  cases hx with
  | @ok a t ha =>
      obtain ⟨y, l, hl, hy⟩ := hf a t ha
      refine ⟨y, max n l, fun k hk => ?_, hy⟩
      exact (Run.bind_ok (hn k (by omega))).trans (hl k (by omega))
  | raised hx h => exact ⟨_, n, fun k hk => Run.bind_error (hn k hk), .raised hx h⟩
  | aborted h => exact ⟨_, n, fun k hk => Run.bind_error (hn k hk), .aborted h⟩

theorem map {g : α → β} (hm : Halts P Q J m s) (hQ : ∀ a t, Q a t → R (g a) t) :
    Halts P R J (fun k => g <$> m k) s := by
  simp only [map_eq_pure_bind]
  exact hm.bind fun a t h => pure (hQ a t h)

theorem attempt (hm : Halts P Q J m s) :
    Halts P (fun outcome t => match outcome with
        | .ok a => Q a t
        | .error x => Within P x ∧ J t) J (fun k => Run.attempt (m k)) s := by
  obtain ⟨x, n, hn, hx⟩ := hm
  cases hx with
  | @ok a t ha =>
      exact ⟨.ok (.ok a) t, n, fun k hk => by simp only [Run.attempt, hn k hk], .ok ha⟩
  | @raised y t hy h =>
      exact ⟨.ok (.error y) t, n, fun k hk => by simp only [Run.attempt, hn k hk], .ok ⟨hy, h⟩⟩
  | @aborted t h =>
      exact ⟨.error .aborted t, n, fun k hk => by simp only [Run.attempt, hn k hk], .aborted h⟩

/-- A computation that is not interrupted has a result. -/
theorem result {Q : ω → Prop} {m : Nat → Run ω Unit} {s : ω}
    (hm : Halts P (fun _ => Q) (fun _ => False) m s) :
    ∃ t n, Q t ∧ ∀ k, n ≤ k → m k s = .ok () t := by
  obtain ⟨x, n, hn, hx⟩ := hm
  cases hx with
  | @ok _ t ht => exact ⟨t, n, ht, hn⟩
  | raised _ h => exact h.elim
  | aborted h => exact h.elim

/-- A clean-up that is not interrupted itself. -/
theorem onInterruption (hm : Halts P Q J m s)
    (hc : ∀ t, J t → Halts P (fun _ => J') (fun _ => False) c t) :
    Halts P Q J' (fun k => (m k).onInterruption (c k)) s := by
  have hclean : ∀ {reason : Interruption} {t u : σ} {k : Nat}, reason ≠ .outOfFuel →
      m k s = .error reason t → c k t = .ok () u → (m k).onInterruption (c k) s = .error reason u := by
    intro reason t u k hreason hm hc
    cases reason <;> simp_all [Run.onInterruption]
  obtain ⟨x, n, hn, hx⟩ := hm
  cases hx with
  | ok ha => exact ⟨_, n, fun k hk => Run.onInterruption_ok (hn k hk), .ok ha⟩
  | @raised y t hy h =>
      obtain ⟨u, l, hu, hl⟩ := (hc t h).result
      exact ⟨.error (.raised y) u, max n l,
        fun k hk => hclean (fun heq => by cases heq) (hn k (by omega)) (hl k (by omega)), .raised hy hu⟩
  | @aborted t h =>
      obtain ⟨u, l, hu, hl⟩ := (hc t h).result
      exact ⟨.error .aborted u, max n l,
        fun k hk => hclean (fun heq => by cases heq) (hn k (by omega)) (hl k (by omega)), .aborted hu⟩

theorem ensuring (hm : Halts P Q J m s)
    (hQ : ∀ a t, Q a t → Halts P (fun _ => Q' a) (fun _ => False) c t)
    (hJ : ∀ t, J t → Halts P (fun _ => J') (fun _ => False) c t) :
    Halts P Q' J' (fun k => (m k).ensuring (c k)) s := by
  refine (hm.onInterruption hJ).bind fun a t ha => ?_
  exact ((hQ a t ha).mono (fun _ _ h => h) fun _ h => h.elim).bind fun _ u hu => pure hu

/-- A clean-up that is not interrupted and keeps what is known. -/
theorem ensuring_of_kept (hm : Halts P Q J m s)
    (hQ : ∀ a t, Q a t → Halts P (fun _ => Q a) (fun _ => False) c t)
    (hJ : ∀ t, J t → Halts P (fun _ => J) (fun _ => False) c t) :
    Halts P Q J (fun k => (m k).ensuring (c k)) s := hm.ensuring hQ hJ

/-- A computation on the shared half of a state leaves the private half as it is. -/
theorem shared {Q : α → ω → Prop} {J : ω → Prop} {m : Nat → Run ω α} {b : τ} {w : ω}
    (hm : Halts P Q J m w) :
    Halts P (fun a s => s.1 = b ∧ Q a s.2) (fun s => s.1 = b ∧ J s.2) (fun k => Run.shared (m k))
      (b, w) := by
  obtain ⟨x, n, hn, hx⟩ := hm
  cases hx with
  | @ok a t ha =>
      exact ⟨.ok a (b, t), n, fun k hk => by simp only [Run.shared, hn k hk], .ok ⟨rfl, ha⟩⟩
  | @raised y t hy h =>
      exact ⟨.error (.raised y) (b, t), n, fun k hk => by simp only [Run.shared, hn k hk],
        .raised hy ⟨rfl, h⟩⟩
  | @aborted t h =>
      exact ⟨.error .aborted (b, t), n, fun k hk => by simp only [Run.shared, hn k hk],
        .aborted ⟨rfl, h⟩⟩

/-- A computation with a private half, which is given back when it ends. -/
theorem withPrivate {Q : α → τ × ω → Prop} {J : τ × ω → Prop} {Q' : α → ω → Prop} {J' : ω → Prop}
    {m : Nat → Run (τ × ω) α} {b : τ} {w : ω} (back : τ → ω → ω) (hm : Halts P Q J m (b, w))
    (hQ : ∀ a d t, Q a (d, t) → Q' a (back d t)) (hJ : ∀ d t, J (d, t) → J' (back d t)) :
    Halts P Q' J' (fun k => Run.withPrivate b (m k) fun d => modify (back d)) w := by
  obtain ⟨x, n, hn, hx⟩ := hm
  cases hx with
  | @ok a s ha =>
      exact ⟨.ok a (back s.1 s.2), n, fun k hk => by
        simp only [Run.withPrivate, hn k hk, Run.modify_apply], .ok (hQ _ _ _ ha)⟩
  | @raised y s hy h =>
      exact ⟨.error (.raised y) (back s.1 s.2), n,
        fun k hk => by simp only [Run.withPrivate, hn k hk, Run.modify_apply], .raised hy (hJ _ _ h)⟩
  | @aborted s h =>
      exact ⟨.error .aborted (back s.1 s.2), n,
        fun k hk => by simp only [Run.withPrivate, hn k hk, Run.modify_apply], .aborted (hJ _ _ h)⟩

end Halts

/-! ## Lists and iterators over them -/

/-- A sort of lists and iterators. -/
structure Listlike (P : Object → Prop) : Prop where
  generator : ∀ g, ¬ P (.generator g)
  frame : ∀ r, ¬ P (.frame r)

namespace World

/-- The lists and iterators of a sort lead to nothing else, and the iterators still to be made are of
the sort. -/
structure Closed (P : Object → Prop) (w : World) : Prop where
  items : ∀ l, P (.list l) → Within P (w.items l)
  iterators : ∀ i, P (.iterator i) → ∀ x, w.iterator? i = some x → x.Tame ∧ Within P x
  fresh : ∀ i : IteratorRef, w.iterators.size ≤ i.index → P (.iterator i)

/-- A generator runs a program; all that it and its frame refer to is of a sort, which is closed. -/
structure Confined (P : Object → Prop) (p : Code.Program) (g : GeneratorRef) (r : FrameRef) (w : World) :
    Prop extends w.Closed P where
  frame : ∀ f, w.frame? r = some f → Within P f
  slot : ∀ s, (w.generator g).frame = some s → s = r
  closure : Within P (w.generator g).closure
  body : (w.code (w.generator g).code).body = .program p

namespace Confined

variable {p : Code.Program} {g : GeneratorRef} {r : FrameRef} {w : World} {v : Value} {vs : List Value}

/-- Whatever reads the same is confined alike. -/
theorem of_same {t : World} (h : w.Confined P p g r) (hitems : ∀ l, t.items l = w.items l)
    (hiterators : ∀ i, t.iterator? i = w.iterator? i) (hsize : w.iterators.size ≤ t.iterators.size)
    (hframe : t.frame? r = w.frame? r) (hgenerator : t.generator g = w.generator g)
    (hcodes : t.codes = w.codes) : t.Confined P p g r where
  items l hl := by
    rw [hitems]
    exact h.items l hl
  iterators i hi x hx := by
    rw [hiterators] at hx
    exact h.iterators i hi x hx
  fresh i hi := h.fresh i (le_trans hsize hi)
  frame f hf := by
    rw [hframe] at hf
    exact h.frame f hf
  slot s hs := by
    rw [hgenerator] at hs
    exact h.slot s hs
  closure := by
    rw [hgenerator]
    exact h.closure
  body := by
    rw [hgenerator, World.code, hcodes]
    exact h.body

theorem setOwners (h : w.Confined P p g r) (n : Nat) (o : Object) :
    (w.setOwners n o).Confined P p g r := by
  refine h.of_same (fun l => items_setOwners w n o l) (fun i => iterator_setOwners w n o i) ?_
    (frame_setOwners w n o r) (generator_setOwners w n o g) ?_ <;> cases o <;> simp [World.setOwners]

theorem addOwners (h : w.Confined P p g r) (os : List Object) : (w.addOwners os).Confined P p g r := by
  induction os generalizing w with
  | nil => exact h
  | cons o os ih => exact ih (h.setOwners _ o)

theorem retain (h : w.Confined P p g r) (v : Value) : (w.retain v).Confined P p g r :=
  h.addOwners v.objects

theorem setThread (h : w.Confined P p g r) (thread : Thread) :
    ({ w with thread := thread } : World).Confined P p g r :=
  h.of_same (fun _ => rfl) (fun _ => rfl) le_rfl rfl rfl rfl

theorem setUnwinding (h : w.Confined P p g r) (b : Bool) :
    ({ w with unwinding := b } : World).Confined P p g r :=
  h.of_same (fun _ => rfl) (fun _ => rfl) le_rfl rfl rfl rfl

theorem setItems (h : w.Confined P p g r) {l : ListRef} (hvs : Within P vs) :
    (w.setItems l vs).Confined P p g r :=
  { h with
    items := fun k hk => by
      rw [items_setItems]
      split
      · exact hvs
      · exact h.items k hk }

theorem setIterator (h : w.Confined P p g r) {i : IteratorRef} {x : Option Iterator}
    (hx : ∀ y, x = some y → y.Tame ∧ Within P y) : (w.setIterator i x).Confined P p g r :=
  { h with
    iterators := fun j hj y hy => by
      rw [iterator_setIterator] at hy
      split at hy
      · exact hx y hy
      · exact h.iterators j hj y hy
    fresh := fun j hj => h.fresh j (le_trans (Store.size_set_le _ _ _) hj) }

/-- An iterator that is taken out of its cell. -/
theorem vacate (h : w.Confined P p g r) (i : IteratorRef) : (w.setIterator i none).Confined P p g r :=
  h.setIterator fun _ hy => by cases hy

/-- An iterator over a list of the sort, at any position. -/
theorem setListIterator (h : w.Confined P p g r) (i : IteratorRef) {l : ListRef} (hl : P (.list l))
    (n : Nat) : (w.setIterator i (some (.list l n))).Confined P p g r := by
  refine h.setIterator fun y hy => ?_
  cases hy
  refine ⟨trivial, fun o ho => ?_⟩
  exact List.count_eq_zero.2 fun hmem => ho (List.mem_singleton.1 hmem ▸ hl)

theorem newIterator (h : w.Confined P p g r) {x : Iterator} (htame : x.Tame) (hx : Within P x) :
    (w.newIterator x).2.Confined P p g r ∧ Within P (.iterator (w.newIterator x).1 : Value) := by
  refine ⟨{ h with iterators := fun j hj y hy => ?_, fresh := fun j hj => ?_ }, ?_⟩
  · rw [iterator_newIterator] at hy
    split at hy
    · cases hy
      exact ⟨htame, hx⟩
    · exact h.iterators j hj y hy
  · have hsize : (w.newIterator x).2.iterators.size = w.iterators.size + 1 :=
      Store.size_alloc w.iterators (some x)
    exact h.fresh j (by omega)
  · refine within_value_iff.2 fun o ho => ?_
    rw [Value.objects, List.mem_singleton] at ho
    exact ho ▸ h.fresh _ le_rfl

theorem setFrame (h : w.Confined P p g r) {x : Option Frame} (hx : ∀ f, x = some f → Within P f) :
    (w.setFrame r x).Confined P p g r :=
  { h with
    frame := fun f hf => by
      rw [frame_setFrame, if_pos rfl] at hf
      exact hx f hf }

/-- The generator is marked, or lets go of its frame. -/
theorem setGenerator (h : w.Confined P p g r) {x : Generator} (hcode : x.code = (w.generator g).code)
    (hclosure : x.closure = (w.generator g).closure)
    (hslot : x.frame = (w.generator g).frame ∨ x.frame = none) :
    (w.setGenerator g x).Confined P p g r :=
  { h with
    slot := fun s hs => by
      rw [generator_setGenerator, if_pos rfl] at hs
      rcases hslot with heq | hnone
      · exact h.slot s (heq ▸ hs)
      · rw [hnone] at hs
        cases hs
    closure := by
      rw [generator_setGenerator, if_pos rfl, hclosure]
      exact h.closure
    body := by
      rw [generator_setGenerator, if_pos rfl, hcode]
      exact h.body }

end Confined

end World

/-! ## Letting go of lists and iterators -/

namespace Store

variable {s : Store α} [Inhabited α]

/-- The number of owners of all objects of a store together. -/
def allOwners (s : Store α) : Nat := ∑ i ∈ Finset.range s.size, s.owners i

/-- Cells beyond the last one have no owners. -/
theorem allOwners_eq {n : Nat} (h : s.size ≤ n) : s.allOwners = ∑ i ∈ Finset.range n, s.owners i := by
  refine Finset.sum_subset (Finset.range_subset_range.2 h) fun i _ hi => ?_
  exact owners_of_size_le (by simpa using hi)

theorem allOwners_setContent (i : Nat) (a : α) : (s.setContent i a).allOwners = s.allOwners := by
  rw [allOwners_eq (s := s.setContent i a) (size_setContent s i a).le,
    allOwners_eq (le_max_left s.size (i + 1))]
  simp only [owners_setContent]

/-- Setting the number of owners of an object exchanges it in the sum. -/
theorem allOwners_setOwners (i n : Nat) :
    (s.setOwners i n).allOwners + s.owners i = s.allOwners + n := by
  have hmem : i ∈ Finset.range (max s.size (i + 1)) := by simp
  rw [allOwners_eq (s := s.setOwners i n) (size_setOwners s i n).le,
    allOwners_eq (le_max_left s.size (i + 1)), ← Finset.add_sum_erase _ _ hmem,
    ← Finset.add_sum_erase _ s.owners hmem]
  have hrest : ∀ j ∈ (Finset.range (max s.size (i + 1))).erase i,
      (s.setOwners i n).owners j = s.owners j := by
    intro j hj
    rw [owners_setOwners, if_neg (Finset.ne_of_mem_erase hj).symm]
  rw [Finset.sum_congr rfl hrest, owners_setOwners, if_pos rfl]
  show n + ∑ j ∈ _, s.owners j + s.owners i = s.owners i + ∑ j ∈ _, s.owners j + n
  omega

end Store

/-- The number of owners of all lists and iterators together. -/
def World.load (w : World) : Nat := w.lists.allOwners + w.iterators.allOwners

section Release

variable {p : Code.Program} {g : GeneratorRef} {r : FrameRef} {w : World} {v : Value} {vs : List Value}
  {o : Object} {os : List Object}

theorem load_setOwners (hP : Listlike P) (ho : P o) (n : Nat) :
    (w.setOwners n o).load + w.owners o = w.load + n := by
  unfold World.load
  cases o with
  | list l =>
      have := w.lists.allOwners_setOwners l.index n
      simp only [World.setOwners, World.owners]
      omega
  | iterator i =>
      have := w.iterators.allOwners_setOwners i.index n
      simp only [World.setOwners, World.owners]
      omega
  | generator g => exact absurd ho (hP.generator g)
  | frame r => exact absurd ho (hP.frame r)

/-- A confined world in which lists and iterators have no more than so many owners together. -/
def World.Light (P : Object → Prop) (p : Code.Program) (g : GeneratorRef) (r : FrameRef) (n : Nat)
    (w : World) : Prop := w.Confined P p g r ∧ w.load ≤ n

variable {n : Nat}

theorem World.Light.setItems {l : ListRef} (hw : w.Light P p g r n) :
    (w.setItems l []).Light P p g r n := by
  refine ⟨hw.1.setItems (within_of_holds_zero rfl), le_of_eq_of_le ?_ hw.2⟩
  unfold World.load World.setItems
  rw [Store.allOwners_setContent]

theorem World.Light.setIterator {i : IteratorRef} (hw : w.Light P p g r n) :
    (w.setIterator i none).Light P p g r n := by
  refine ⟨hw.1.vacate i, le_of_eq_of_le ?_ hw.2⟩
  unfold World.load World.setIterator
  rw [Store.allOwners_setContent]

/-- A list or an iterator that goes away forgets others. -/
theorem reclaim_light (hP : Listlike P) (ho : P o) (hw : w.Light P p g r n)
    (hforget : ∀ (os : List Object) {t : World}, (∀ o ∈ os, P o) → t.Light P p g r n →
      Halts P (fun _ t => t.Light P p g r n) (fun _ => False)
        (fun k => (Machine.engine k).releaseObjects os) t) :
    Halts P (fun _ t => t.Light P p g r n) (fun _ => False)
      (fun k => (Machine.engine k).reclaim o) w := by
  cases o with
  | list l =>
      have hitems := hw.1.items l ho
      refine (hforget (Value.objectsOfAll (w.items l)) (fun u hu => ?_)
        (hw.setItems (l := l))).congr fun k => rfl
      obtain ⟨v, hv, hmem⟩ := Engine.mem_objectsOfAll.1 hu
      exact within_value_iff.1 (within_values_iff.1 hitems v hv) u hmem
  | iterator i =>
      cases hx : w.iterator? i with
      | none =>
          refine (hforget [] nofun (hw.setIterator (i := i))).congr fun k => ?_
          simp only [Engine.reclaim, Run.bind_apply, Run.get_apply, Run.modify_apply, hx]
          rfl
      | some x =>
          obtain ⟨htame, hwithin⟩ := hw.1.iterators i ho x hx
          cases x with
          | scripted s => exact htame.elim
          | list source index =>
              refine (hforget [.list source] (fun u hu => ?_) (hw.setIterator (i := i))).congr
                fun k => ?_
              · exact within_value_iff.1 (show Within P (Value.list source) from hwithin) u hu
              · simp only [Engine.reclaim, Run.bind_apply, Run.get_apply, Run.modify_apply, hx]
                rfl
  | generator g => exact absurd ho (hP.generator g)
  | frame r => exact absurd ho (hP.frame r)

/-- To take an owner away from an object halts if to dispose of the object does. -/
theorem releaseObject_halts {Q : World → Prop}
    (hlast : w.owners o = 1 → Halts P (fun _ => Q) (fun _ => False)
      (fun k => (Machine.engine k).reclaim o) (w.setOwners 0 o))
    (hnone : w.owners o = 0 → Q w) (hless : ∀ n, w.owners o = n + 2 → Q (w.setOwners (n + 1) o)) :
    Halts P (fun _ => Q) (fun _ => False) (fun k => (Machine.engine k).releaseObject o) w := by
  rcases howners : w.owners o with _ | _ | m
  · exact Halts.of_ok (a := ()) (fun k => by simp only [Engine.releaseObject, howners]) (hnone howners)
  · have hperformed : Halts P (fun _ => Q) (fun _ => False)
        (fun k => Machine.perform k (.reclaim o)) (w.setOwners 0 o) :=
      Halts.of_succ ((hlast howners).bind fun _ t ht => .pure ht)
    refine (hperformed.bind (f := fun _ _ => pure ()) fun _ t ht => .pure ht).congr fun k => ?_
    unfold Engine.releaseObject
    rw [Run.bind_apply]
    simp only [howners, Machine.engine]
    cases Machine.perform k (.reclaim o) (w.setOwners 0 o) <;> rfl
  · exact Halts.of_ok (fun k => Engine.releaseObject_of_two_le _ howners) (hless m howners)

/-- To forget objects of the sort halts, because each step takes an owner away. -/
theorem releaseObjects_light (hP : Listlike P) (n : Nat) (hos : ∀ o ∈ os, P o)
    (hw : w.Light P p g r n) :
    Halts P (fun _ t => t.Light P p g r n) (fun _ => False)
      (fun k => (Machine.engine k).releaseObjects os) w := by
  induction n using Nat.strong_induction_on generalizing w os with
  | h n ih =>
    induction os generalizing w with
    | nil => exact Halts.of_ok (fun _ => rfl) hw
    | cons o os ihos =>
        have ho := hos o List.mem_cons_self
        obtain ⟨hconfined, hload⟩ := hw
        have hone : Halts P (fun _ t => t.Light P p g r n) (fun _ => False)
            (fun k => (Machine.engine k).releaseObject o) w := by
          refine releaseObject_halts (fun howners => ?_) (fun _ => ⟨hconfined, hload⟩)
            fun m howners => ⟨hconfined.setOwners _ _, ?_⟩
          · -- the last owner goes, so that there are fewer owners for what the object forgets
            have hless := load_setOwners (w := w) hP ho 0
            obtain ⟨l, rfl⟩ : ∃ l, n = l + 1 := ⟨n - 1, by omega⟩
            have hlight : (w.setOwners 0 o).Light P p g r l := ⟨hconfined.setOwners 0 o, by omega⟩
            exact (reclaim_light hP ho hlight fun _ _ hos ht => ih l (Nat.lt_succ_self l) hos ht).imp
              fun _ t ht => ⟨ht.1, Nat.le_succ_of_le ht.2⟩
          · have hless := load_setOwners (w := w) hP ho (m + 1)
            omega
        exact hone.ensuring (fun _ t ht => ihos (fun u hu => hos u (List.mem_cons_of_mem o hu)) ht)
          fun _ h => h.elim

section Within

variable (hP : Listlike P) (hw : w.Confined P p g r)

include hP hw

theorem releaseAll_halts (hvs : Within P vs) :
    Halts P (fun _ t => t.Confined P p g r) (fun _ => False)
      (fun k => (Machine.engine k).releaseAll vs) w := by
  refine (releaseObjects_light hP w.load (fun o ho => ?_) ⟨hw, le_rfl⟩).imp fun _ t ht => ht.1
  obtain ⟨v, hv, hmem⟩ := Engine.mem_objectsOfAll.1 ho
  exact within_value_iff.1 (within_values_iff.1 hvs v hv) o hmem

theorem release_halts (hv : Within P v) :
    Halts P (fun _ t => t.Confined P p g r) (fun _ => False)
      (fun k => (Machine.engine k).release v) w :=
  (releaseObjects_light hP w.load (within_value_iff.1 hv) ⟨hw, le_rfl⟩).imp fun _ _ ht => ht.1

theorem releaseException_halts {x : Exception} (hx : Within P x) :
    Halts P (fun _ t => t.Confined P p g r) (fun _ => False)
      (fun k => (Machine.engine k).releaseException x) w := releaseAll_halts hP hw hx

theorem releasePending_halts {x : Option Exception} (hx : Within P x) :
    Halts P (fun _ t => t.Confined P p g r) (fun _ => False)
      (fun k => (Machine.engine k).releasePending x) w := by
  cases x with
  | none => exact Halts.of_ok (fun _ => rfl) hw
  | some x => exact releaseException_halts hP hw hx

/-- To forget the frame may dispose of it, and of what it held. -/
theorem releaseFrame_halts :
    Halts P (fun _ t => t.Confined P p g r) (fun _ => False)
      (fun k => (Machine.engine k).release (.frame r)) w := by
  have hone : Halts P (fun _ t => t.Confined P p g r) (fun _ => False)
      (fun k => (Machine.engine k).releaseObject (.frame r)) w := by
    refine releaseObject_halts (fun _ => ?_) (fun _ => hw) fun _ _ => hw.setOwners _ _
    have hgone := (hw.setOwners 0 (.frame r)).setFrame (x := none) nofun
    have howned : Within P (((w.setOwners 0 (.frame r)).frame? r |>.map Frame.owned).getD []) := by
      rw [World.frame_setOwners]
      cases hf : w.frame? r with
      | none => exact within_of_holds_zero rfl
      | some f => exact hw.frame f hf
    exact (releaseAll_halts hP hgone howned).congr fun k => rfl
  exact hone.ensuring (fun _ _ ht => Halts.of_ok (fun _ => rfl) ht) fun _ h => h.elim

end Within

end Release

end Resumable
