import Resumable.Proofs.Nesting

set_option autoImplicit false

/-!
# How computations end in linked worlds

A computation is carried out in each of two linked worlds.  `Ends` says that it comes to the same
end in both: the same result or the same exception, or it is abandoned in both, and the worlds that
are left are linked again, with what the result or the exception holds.  If the fuel runs out in the
left world, all that is said is that this happened on the thread that the computation began on, or
that the run was broken off by the law.  A bond also says whether a computation may be abandoned at
all.

The bag of an `Ends` is what is held by those who wait for the computation, and it is the same before
and after.  A computation that takes something over is started with more than that.

For each way of putting computations together there is a rule.
-/

namespace Resumable

/-- A relation between two states that depends on what is held, and is kept when less is held.  Less
is asked of the left state where the fuel has run out. -/
structure Bond (σ : Type) where
  rel : Bag → σ → σ → Prop
  calm : σ → Prop
  /-- what has to be the case if a computation is abandoned -/
  aborts : Prop
  le : ∀ {F G : Bag} {s s' : σ}, F ≤ G → rel G s s' → rel F s s'

namespace Zone

/-- A world that a run may end in for lack of fuel: it is on the thread of the zone, or the law says
that the run is broken off there. -/
def Calm (Z : Zone) (w : World) : Prop := w.thread.id = Z.leftThread.id ∨ Z.law.broken w

theorem Linked.calm {Z : Zone} {F : Bag} {w w' : World} (h : Z.Linked F w w') : Z.Calm w :=
  Or.inl (congrArg Thread.id h.pinned.thread)

/-- Being linked in a zone, where a computation is abandoned for a reason only. -/
def bondIf (Z : Zone) (A : Prop) : Bond World where
  rel := Z.Linked
  calm := Z.Calm
  aborts := A
  le hle h := h.le hle

/-- Being linked in a zone. -/
abbrev bond (Z : Zone) : Bond World := Z.bondIf Z.Breaks

/-- Being linked in a zone, for what is not abandoned unless an iterator is in use. -/
abbrev quiet (Z : Zone) : Bond World := Z.bondIf Z.Busy

/-- Being linked in a zone, where a generator is known. -/
def bondAt (Z : Zone) (g : GeneratorRef) (x : Generator) : Bond World where
  rel F t t' := Z.Linked F t t' ∧ t.generator g = x
  calm := Z.Calm
  aborts := Z.Breaks
  le hle h := ⟨h.1.le hle, h.2⟩

/-- Being linked in a zone, with equal private halves that belong to the computation. -/
def bondWithIf (Z : Zone) (τ : Type) [Holder τ] (A : Prop) : Bond (τ × World) where
  rel F s s' := s.1 = s'.1 ∧ Z.Linked (holds s.1 + F) s.2 s'.2
  calm s := Z.Calm s.2
  aborts := A
  le hle h := ⟨h.1, h.2.le (add_le_add_right hle _)⟩

/-- Being linked in a zone, with a private half. -/
abbrev bondWith (Z : Zone) (τ : Type) [Holder τ] : Bond (τ × World) := Z.bondWithIf τ Z.Breaks

/-- Being linked in a zone, with a private half, for what is not abandoned unless an iterator is in
use. -/
abbrev quietWith (Z : Zone) (τ : Type) [Holder τ] : Bond (τ × World) := Z.bondWithIf τ Z.Busy

end Zone

/-- Two ends of a computation that are the same. -/
inductive Ends {σ α : Type} (B : Bond σ) (F : Bag) (q : α → Bag) :
    EStateM.Result Interruption σ α → EStateM.Result Interruption σ α → Prop where
  | ok {a : α} {s s' : σ} (h : B.rel (q a + F) s s') : Ends B F q (.ok a s) (.ok a s')
  | raised {e : Exception} {s s' : σ} (h : B.rel (holds e + F) s s') :
      Ends B F q (.error (.raised e) s) (.error (.raised e) s')
  | aborted {s s' : σ} (h : B.rel F s s') (ha : B.aborts) :
      Ends B F q (.error .aborted s) (.error .aborted s')
  | outOfFuel {s : σ} {x : EStateM.Result Interruption σ α} (h : B.calm s) :
      Ends B F q (.error .outOfFuel s) x

/-- A computation comes to an end in a state: with a result, with an exception or abandoned, but not
for lack of fuel. -/
def Run.EndsIn {σ α : Type} (m : Run σ α) (s t : σ) : Prop :=
  (∃ a, m s = .ok a t) ∨ ∃ reason, reason ≠ .outOfFuel ∧ m s = .error reason t

/-- What a computation leaves of the private half, where it ends. -/
theorem Run.Leaves.of_endsIn {τ ω α : Type} {P : τ → Prop} {m : Run (τ × ω) α} {a b : τ} {w t : ω}
    (h : Run.Leaves (fun _ => P) P P m a) (hend : m.EndsIn (a, w) (b, t)) : P b := by
  have hw := h w
  unfold Run.Meets at hw
  rcases hend with ⟨x, hx⟩ | ⟨reason, _, hx⟩ <;> rw [hx] at hw
  · exact hw
  · cases reason <;> exact hw

/-- Where a computation ends, it comes to the same end in a state that is related. -/
theorem Ends.related {σ α : Type} {B : Bond σ} {F : Bag} {q : α → Bag} {m : Run σ α}
    {s t : σ} {x : EStateM.Result Interruption σ α} (h : Ends B F q (m s) x) (ht : m.EndsIn s t) :
    ∃ t', B.rel F t t' := by
  rcases ht with ⟨a, ha⟩ | ⟨reason, hreason, hr⟩
  · rw [ha] at h
    cases h with
    | @ok _ _ t' h => exact ⟨t', B.le le_add_self h⟩
  · rw [hr] at h
    cases h with
    | @raised _ _ t' h => exact ⟨t', B.le le_add_self h⟩
    | @aborted _ t' h _ => exact ⟨t', h⟩
    | outOfFuel => exact absurd rfl hreason

/-- A computation that comes to a result. -/
theorem Ends.of_ok {σ α : Type} {B : Bond σ} {F : Bag} {q : α → Bag} {a : α} {s : σ}
    {x : EStateM.Result Interruption σ α} (h : Ends B F q (.ok a s) x) :
    ∃ s', x = .ok a s' ∧ B.rel (q a + F) s s' := by
  cases h with
  | @ok _ _ s' h => exact ⟨s', rfl, h⟩

/-- A computation that is abandoned. -/
theorem Ends.of_aborted {σ α : Type} {B : Bond σ} {F : Bag} {q : α → Bag} {s : σ}
    {x : EStateM.Result Interruption σ α} (h : Ends B F q (.error .aborted s) x) : B.aborts := by
  cases h with
  | aborted _ ha => exact ha

/-- A computation that raises an exception. -/
theorem Ends.of_raised {σ α : Type} {B : Bond σ} {F : Bag} {q : α → Bag} {e : Exception} {s : σ}
    {x : EStateM.Result Interruption σ α} (h : Ends B F q (.error (.raised e) s) x) :
    ∃ s', x = .error (.raised e) s' ∧ B.rel (holds e + F) s s' := by
  cases h with
  | @raised _ _ s' h => exact ⟨s', rfl, h⟩

instance {α : Type} [Holder α] : Holder (Run.Ending α) where
  holds
    | .result a => holds a
    | .raised e => holds e
    | .aborted => 0

@[simp] theorem holds_ending_result {α : Type} [Holder α] (a : α) :
    holds (Run.Ending.result a) = holds a := rfl

@[simp] theorem holds_ending_raised {α : Type} [Holder α] (e : Exception) :
    holds (Run.Ending.raised e : Run.Ending α) = holds e := rfl

@[simp] theorem holds_ending_aborted {α : Type} [Holder α] :
    holds (Run.Ending.aborted : Run.Ending α) = 0 := rfl

namespace Ends

section Rules

variable {σ α β : Type} {B : Bond σ} {F G C : Bag} {p : α → Bag} {q : β → Bag} {s s' : σ}
  {m m' : Run σ α} {f f' : α → Run σ β} {c d : Run σ Unit}

/-- What is held in the end may count for less. -/
theorem mono {p' : α → Bag} (h : Ends B G p (m s) (m' s')) (hle : F ≤ G)
    (hp : ∀ a, p' a + F ≤ p a + G) : Ends B F p' (m s) (m' s') := by
  generalize m s = x at h ⊢
  generalize m' s' = x' at h ⊢
  cases h with
  | ok h => exact .ok (B.le (hp _) h)
  | raised h => exact .raised (B.le (add_le_add_right hle _) h)
  | aborted h ha => exact .aborted (B.le hle h) ha
  | outOfFuel h => exact .outOfFuel h

/-- The rest of a computation may depend on what the first part can give. -/
theorem bindOf (hm : Ends B G p (m s) (m' s')) (hle : F ≤ G)
    (hf : ∀ a t t', m s = .ok a t → B.rel (p a + G) t t' → Ends B F q (f a t) (f' a t')) :
    Ends B F q ((m >>= f) s) ((m' >>= f') s') := by
  rw [Run.bind_apply, Run.bind_apply]
  generalize m s = x at hm hf ⊢
  generalize m' s' = x' at hm ⊢
  cases hm with
  | ok h => exact hf _ _ _ rfl h
  | raised h => exact .raised (B.le (add_le_add_right hle _) h)
  | aborted h ha => exact .aborted (B.le hle h) ha
  | outOfFuel h => exact .outOfFuel h

theorem bind (hm : Ends B G p (m s) (m' s')) (hle : F ≤ G)
    (hf : ∀ a t t', B.rel (p a + G) t t' → Ends B F q (f a t) (f' a t')) :
    Ends B F q ((m >>= f) s) ((m' >>= f') s') :=
  hm.bindOf hle fun a t t' _ h => hf a t t' h

/-- A step without a result, and the rest of a computation. -/
theorem seq {m m' : Run σ Unit} {f f' : Unit → Run σ β} (hm : Ends B G holds (m s) (m' s'))
    (hle : F ≤ G) (hf : ∀ t t', B.rel G t t' → Ends B F q (f () t) (f' () t')) :
    Ends B F q ((m >>= f) s) ((m' >>= f') s') :=
  hm.bind hle fun _ t t' ht => hf t t' (B.le (by rw [holds_unit, zero_add]) ht)

theorem map [Holder α] [Holder β] (g : α → β) (hg : ∀ a, holds (g a) = holds a)
    (hm : Ends B F holds (m s) (m' s')) : Ends B F holds ((g <$> m) s) ((g <$> m') s') := by
  rw [map_eq_pure_bind, map_eq_pure_bind]
  refine hm.bind le_rfl fun a t t' h => .ok ?_
  rw [hg]
  exact h

theorem attempt [Holder α] (hm : Ends B F holds (m s) (m' s')) :
    Ends B F holds (Run.attempt m s) (Run.attempt m' s') := by
  unfold Run.attempt
  generalize m s = x at hm ⊢
  generalize m' s' = x' at hm ⊢
  cases hm with
  | ok h => exact .ok h
  | raised h => exact .ok h
  | aborted h ha => exact .aborted h ha
  | outOfFuel h => exact .outOfFuel h

/-- A computation that is contained is not abandoned. -/
theorem contain [Holder α] {A : Prop} (hm : Ends B F holds (m s) (m' s')) :
    Ends { B with aborts := A } F holds (Run.contain m s) (Run.contain m' s') := by
  unfold Run.contain
  generalize m s = x at hm ⊢
  generalize m' s' = x' at hm ⊢
  cases hm with
  | ok h => exact .ok h
  | raised h => exact .ok h
  | aborted h _ => exact .ok (by simpa using h)
  | outOfFuel h => exact .outOfFuel h

/-- A clean-up after an interruption gives back what the computation would have kept. -/
theorem onInterruption (hm : Ends B (C + F) p (m s) (m' s'))
    (hc : ∀ G t t', F ≤ G → B.rel (C + G) t t' → Ends B G holds (c t) (d t')) :
    Ends B F (fun a => p a + C) (m.onInterruption c s) (m'.onInterruption d s') := by
  unfold Run.onInterruption
  generalize m s = x at hm ⊢
  generalize m' s' = x' at hm ⊢
  cases hm with
  | ok h => exact .ok (B.le (add_assoc _ _ _).le h)
  | @raised e t t' h =>
      have hend := hc (holds e + F) t t' le_add_self (B.le (add_left_comm _ _ _).le h)
      simp only
      generalize c t = y at hend ⊢
      generalize d t' = y' at hend ⊢
      cases hend with
      | ok h => exact .raised (B.le le_add_self h)
      | raised h => exact .raised (B.le (add_le_add_right le_add_self _) h)
      | aborted h ha => exact .aborted (B.le le_add_self h) ha
      | outOfFuel h => exact .outOfFuel h
  | @aborted t t' h ha =>
      have hend := hc F t t' le_rfl h
      simp only
      generalize c t = y at hend ⊢
      generalize d t' = y' at hend ⊢
      cases hend with
      | ok h => exact .aborted (B.le le_add_self h) ha
      | raised h => exact .raised h
      | aborted h _ => exact .aborted h ha
      | outOfFuel h => exact .outOfFuel h
  | outOfFuel h => exact .outOfFuel h

/-- A clean-up after an exception. -/
theorem handle_raised {B' : Bond σ} {e : Exception} {t t' : σ} (hm : m s = .error (.raised e) t)
    (hm' : m' s' = .error (.raised e) t')
    (hc : Ends B' (holds e + F) holds (c t) (d t')) :
    Ends B' F q ((m.onInterruption c >>= f) s) ((m'.onInterruption d >>= f') s') := by
  rw [Run.bind_apply, Run.bind_apply]
  unfold Run.onInterruption
  rw [hm, hm']
  simp only
  generalize c t = y at hc ⊢
  generalize d t' = y' at hc ⊢
  cases hc with
  | ok h => exact .raised (B'.le le_add_self h)
  | raised h => exact .raised (B'.le (add_le_add_right le_add_self _) h)
  | aborted h ha => exact .aborted (B'.le le_add_self h) ha
  | outOfFuel h => exact .outOfFuel h

/-- A clean-up after an abandonment. -/
theorem handle_aborted {B' : Bond σ} {t t' : σ} (hm : m s = .error .aborted t)
    (hm' : m' s' = .error .aborted t') (hc : Ends B' F holds (c t) (d t')) (ha : B'.aborts) :
    Ends B' F q ((m.onInterruption c >>= f) s) ((m'.onInterruption d >>= f') s') := by
  rw [Run.bind_apply, Run.bind_apply]
  unfold Run.onInterruption
  rw [hm, hm']
  simp only
  generalize c t = y at hc ⊢
  generalize d t' = y' at hc ⊢
  cases hc with
  | ok h => exact .aborted (B'.le le_add_self h) ha
  | raised h => exact .raised h
  | aborted h _ => exact .aborted h ha
  | outOfFuel h => exact .outOfFuel h

/-- A clean-up after an interruption, and the rest of the computation, both of which leave the states
related in another way. -/
theorem handle {B' : Bond σ} (hm : Ends B (C + F) p (m s) (m' s'))
    (hcalm : ∀ s, B.calm s → B'.calm s) (haborts : B.aborts → B'.aborts)
    (hc : ∀ G t t', F ≤ G → B.rel (C + G) t t' → Ends B' G holds (c t) (d t'))
    (hf : ∀ a t t', B.rel (p a + (C + F)) t t' → Ends B' F q (f a t) (f' a t')) :
    Ends B' F q ((m.onInterruption c >>= f) s) ((m'.onInterruption d >>= f') s') := by
  generalize hx : m s = x at hm
  generalize hx' : m' s' = x' at hm
  cases hm with
  | @raised e t t' h =>
      exact handle_raised hx hx'
        (hc (holds e + F) t t' le_add_self (B.le (add_left_comm _ _ _).le h))
  | ok h =>
      rw [Run.bind_ok (Run.onInterruption_ok hx), Run.bind_ok (Run.onInterruption_ok hx')]
      exact hf _ _ _ h
  | @aborted t t' h ha => exact handle_aborted hx hx' (hc F t t' le_rfl h) (haborts ha)
  | outOfFuel h =>
      rw [Run.bind_apply]
      unfold Run.onInterruption
      rw [hx]
      exact .outOfFuel (hcalm _ h)

/-- The rest of a computation, which leaves the states related in another way. -/
theorem followed {B' : Bond σ} (hm : Ends B F p (m s) (m' s'))
    (hcalm : ∀ s, B.calm s → B'.calm s) (haborts : B.aborts → B'.aborts)
    (hB : ∀ G t t', B.rel G t t' → B'.rel G t t')
    (hf : ∀ a t t', B.rel (p a + F) t t' → Ends B' F q (f a t) (f' a t')) :
    Ends B' F q ((m >>= f) s) ((m' >>= f') s') := by
  rw [Run.bind_apply, Run.bind_apply]
  generalize m s = x at hm ⊢
  generalize m' s' = x' at hm ⊢
  cases hm with
  | ok h => exact hf _ _ _ h
  | raised h => exact .raised (hB _ _ _ h)
  | aborted h ha => exact .aborted (hB _ _ _ h) (haborts ha)
  | outOfFuel h => exact .outOfFuel (hcalm _ h)

/-- A clean-up that happens in any case, and after which the states are related in another way. -/
theorem last {B' : Bond σ} (hm : Ends B (C + F) p (m s) (m' s'))
    (hcalm : ∀ s, B.calm s → B'.calm s) (haborts : B.aborts → B'.aborts)
    (hc : ∀ G t t', F ≤ G → B.rel (C + G) t t' → Ends B' G holds (c t) (d t')) :
    Ends B' F p (m.ensuring c s) (m'.ensuring d s') := by
  unfold Run.ensuring
  refine hm.handle hcalm haborts hc fun a t t' h => ?_
  have hend := hc (p a + F) t t' le_add_self (B.le (add_left_comm _ _ _).le h)
  exact hend.seq le_add_self fun u u' hu => .ok hu

/-- A clean-up that happens in any case. -/
theorem ensuring (hm : Ends B (C + F) p (m s) (m' s'))
    (hc : ∀ G t t', F ≤ G → B.rel (C + G) t t' → Ends B G holds (c t) (d t')) :
    Ends B F p (m.ensuring c s) (m'.ensuring d s') :=
  hm.last (fun _ h => h) id hc

/-- The same ends, related in another way. -/
theorem imp {B' : Bond σ} {F' : Bag} {x x' : EStateM.Result Interruption σ α}
    (h : Ends B F' p x x') (hcalm : ∀ s, B.calm s → B'.calm s) (haborts : B.aborts → B'.aborts)
    (hB : ∀ G t t', B.rel (G + F') t t' → B'.rel (G + F) t t') : Ends B' F p x x' := by
  cases h with
  | ok h => exact .ok (hB _ _ _ h)
  | raised h => exact .raised (hB _ _ _ h)
  | aborted h ha =>
      rw [← zero_add F'] at h
      exact .aborted (by simpa using hB _ _ _ h) (haborts ha)
  | outOfFuel h => exact .outOfFuel (hcalm _ h)

/-- A computation between two changes of the state. -/
theorem bracket {B' : Bond σ} {F' : Bag} {g : σ → σ} (hm : Ends B' F' p (m s) (m' s'))
    (hcalm : ∀ s, B'.calm s → B.calm s) (haborts : B'.aborts → B.aborts)
    (hg : ∀ G t t', B'.rel (G + F') t t' → B.rel (G + F) (g t) (g t')) :
    Ends B F p (m.ensuring (modify g) s) (m'.ensuring (modify g) s') := by
  unfold Run.ensuring
  rw [Run.bind_apply, Run.bind_apply]
  unfold Run.onInterruption
  generalize m s = x at hm ⊢
  generalize m' s' = x' at hm ⊢
  cases hm with
  | ok h => exact .ok (hg _ _ _ h)
  | raised h => exact .raised (hg _ _ _ h)
  | aborted h ha =>
      rw [← zero_add F'] at h
      exact .aborted (by simpa using hg _ _ _ h) (haborts ha)
  | outOfFuel h => exact .outOfFuel (hcalm _ h)

/-- Being abandoned for a reason that counts for less. -/
theorem loosen {Z : Zone} {A A' : Prop} {x x' : EStateM.Result Interruption World α}
    (h : Ends (Z.bondIf A) F p x x') (hA : A → A') : Ends (Z.bondIf A') F p x x' :=
  h.imp (fun _ h => h) hA fun _ _ _ h => h

/-- What is quiet may be done where a computation may be abandoned. -/
theorem loud {Z : Zone} {x x' : EStateM.Result Interruption World α} (h : Ends Z.quiet F p x x') :
    Ends Z.bond F p x x' :=
  h.loosen Zone.Busy.breaks

/-- A computation for whose time some of what is held is counted among what others hold. -/
theorem unlend {Z : Zone} {A : Prop} {K : Bag} {x x' : EStateM.Result Interruption World α}
    (h : Ends ((Z.lend K).bondIf A) F p x x') (hK : ∀ o, Z.sealed o → K o = 0) :
    Ends (Z.bondIf A) (K + F) p x x' :=
  h.imp (fun _ h => h) id fun _ _ _ h => (Zone.Linked.unlend h hK).le (add_left_comm _ _ _).le

end Rules

section Shared

variable {α τ : Type} [Holder τ] {Z : Zone} {F G : Bag} {q : α → Bag} {a : τ} {w w' : World}
  {A : Prop}

/-- A computation on the shared half; the private half waits for it. -/
theorem shared {m m' : Run World α} (h : Ends (Z.bondIf A) (holds a + F) q (m w) (m' w')) :
    Ends (Z.bondWithIf τ A) F q (Run.shared m (a, w)) (Run.shared m' (a, w')) := by
  unfold Run.shared
  simp only
  generalize m w = x at h ⊢
  generalize m' w' = x' at h ⊢
  cases h with
  | ok h => exact .ok ⟨rfl, h.le (add_left_comm _ _ _).le⟩
  | raised h => exact .raised ⟨rfl, h.le (add_left_comm _ _ _).le⟩
  | aborted h ha => exact .aborted ⟨rfl, h⟩ ha
  | outOfFuel h => exact .outOfFuel h

/-- Being abandoned for a reason that counts for less. -/
theorem loosenWith {A' : Prop} {x x' : EStateM.Result Interruption (τ × World) α}
    (h : Ends (Z.bondWithIf τ A) F q x x') (hA : A → A') : Ends (Z.bondWithIf τ A') F q x x' :=
  h.imp (fun _ h => h) hA fun _ _ _ h => h

/-- The rest of a computation with a private half. -/
theorem bindWith {β : Type} {p : β → Bag} {m m' : Run (τ × World) α} {f f' : α → Run (τ × World) β}
    {s s' : τ × World} (hm : Ends (Z.bondWithIf τ A) G q (m s) (m' s')) (hle : F ≤ G)
    (hf : ∀ x b t t', Z.Linked (holds b + (q x + G)) t t' →
      Ends (Z.bondWithIf τ A) F p (f x (b, t)) (f' x (b, t'))) :
    Ends (Z.bondWithIf τ A) F p ((m >>= f) s) ((m' >>= f') s') := by
  refine hm.bind hle fun x u u' hu => ?_
  obtain ⟨b, t⟩ := u
  obtain ⟨b', t'⟩ := u'
  obtain ⟨rfl, hu⟩ := hu
  exact hf x b t t' hu

/-- The rest of a computation with a private half, of which the first part maintains an invariant. -/
theorem bindKeeping {β : Type} {p : β → Bag} {P : τ → Prop} {m m' : Run (τ × World) α}
    {f f' : α → Run (τ × World) β}
    (hm : Ends (Z.bondWithIf τ A) G q (m (a, w)) (m' (a, w')))
    (hP : Run.Maintains (fun s => P s.1) m) (ha : P a) (hle : F ≤ G)
    (hf : ∀ x b t t', P b → Z.Linked (holds b + (q x + G)) t t' →
      Ends (Z.bondWithIf τ A) F p (f x (b, t)) (f' x (b, t'))) :
    Ends (Z.bondWithIf τ A) F p ((m >>= f) (a, w)) ((m' >>= f') (a, w')) := by
  refine hm.bindOf hle fun x u u' hx hu => ?_
  obtain ⟨b, t⟩ := u
  obtain ⟨b', t'⟩ := u'
  obtain ⟨rfl, hu⟩ := hu
  have hb := hP (a, w) ha
  rw [hx] at hb
  exact hf x b t t' hb hu

/-- A step without a result, and the rest of a computation with a private half. -/
theorem seqWith {β : Type} {p : β → Bag} {m m' : Run (τ × World) Unit}
    {f f' : Unit → Run (τ × World) β} {s s' : τ × World}
    (hm : Ends (Z.bondWithIf τ A) G holds (m s) (m' s')) (hle : F ≤ G)
    (hf : ∀ b t t', Z.Linked (holds b + G) t t' →
      Ends (Z.bondWithIf τ A) F p (f () (b, t)) (f' () (b, t'))) :
    Ends (Z.bondWithIf τ A) F p ((m >>= f) s) ((m' >>= f') s') :=
  hm.bindWith hle fun _ b t t' ht => hf b t t' (ht.le (by rw [holds_unit, zero_add]))

/-- A computation on the shared half, and the rest: the private half is what it was. -/
theorem bindShared {β : Type} {p : β → Bag} {m m' : Run World α} {f f' : α → Run (τ × World) β}
    (hm : Ends (Z.bondIf A) (holds a + G) q (m w) (m' w')) (hle : F ≤ G)
    (hf : ∀ x t t', Z.Linked (holds a + (q x + G)) t t' →
      Ends (Z.bondWithIf τ A) F p (f x (a, t)) (f' x (a, t'))) :
    Ends (Z.bondWithIf τ A) F p ((Run.shared m >>= f) (a, w)) ((Run.shared m' >>= f') (a, w')) := by
  rw [Run.bind_apply, Run.bind_apply]
  unfold Run.shared
  simp only
  generalize m w = x at hm ⊢
  generalize m' w' = x' at hm ⊢
  cases hm with
  | ok h => exact hf _ _ _ (h.le (add_left_comm _ _ _).le)
  | raised h =>
      exact .raised ⟨rfl, h.le (le_trans (add_left_comm _ _ _).le
        (add_le_add_right (add_le_add_right hle _) _))⟩
  | aborted h ha => exact .aborted ⟨rfl, h.le (add_le_add_right hle _)⟩ ha
  | outOfFuel h => exact .outOfFuel h

/-- Being linked with less of the private half. -/
theorem bondWith_project {υ : Type} [Holder υ] {g : τ → υ} (hg : ∀ b, holds (g b) ≤ holds b)
    {b b' : τ} {t t' : World} (h : (Z.bondWithIf τ A).rel F (b, t) (b', t')) :
    (Z.bondWithIf υ A).rel F (g b, t) (g b', t') :=
  ⟨congrArg g h.1, h.2.le (add_le_add_left (hg b) F)⟩

/-- A private half added for the time of a computation. -/
theorem withPrivate {B : Bond World} {G : Bag} {m m' : Run (τ × World) α}
    {leave : τ → Run World Unit}
    (hm : Ends (Z.bondWithIf τ A) G q (m (a, w)) (m' (a, w')))
    (hcalm : ∀ u, Z.Calm u → B.calm u) (haborts : A → B.aborts)
    (hleave : ∀ H b t t', m.EndsIn (a, w) (b, t) → Z.Linked (holds b + (H + G)) t t' →
      ∃ u u', leave b t = .ok () u ∧ leave b t' = .ok () u' ∧ B.rel (H + F) u u') :
    Ends B F q (Run.withPrivate a m leave w) (Run.withPrivate a m' leave w') := by
  unfold Run.withPrivate
  generalize hx : m (a, w) = x at hm ⊢
  generalize m' (a, w') = x' at hm ⊢
  cases hm with
  | outOfFuel h => exact .outOfFuel (hcalm _ h)
  | @ok y s s' h =>
      obtain ⟨b, t⟩ := s
      obtain ⟨b', t'⟩ := s'
      obtain ⟨rfl, h⟩ := h
      obtain ⟨u, u', hu, hu', hrel⟩ := hleave _ _ _ _ (Or.inl ⟨y, hx⟩) h
      dsimp only at hu hu' ⊢
      rw [hu, hu']
      exact .ok hrel
  | @raised e s s' h =>
      obtain ⟨b, t⟩ := s
      obtain ⟨b', t'⟩ := s'
      obtain ⟨rfl, h⟩ := h
      obtain ⟨u, u', hu, hu', hrel⟩ := hleave _ _ _ _ (Or.inr ⟨_, by simp, hx⟩) h
      dsimp only at hu hu' ⊢
      rw [hu, hu']
      exact .raised hrel
  | @aborted s s' h ha =>
      obtain ⟨b, t⟩ := s
      obtain ⟨b', t'⟩ := s'
      obtain ⟨rfl, h⟩ := h
      obtain ⟨u, u', hu, hu', hrel⟩ :=
        hleave 0 _ _ _ (Or.inr ⟨_, by simp, hx⟩) (by rwa [zero_add])
      dsimp only at hu hu' ⊢
      rw [hu, hu']
      exact .aborted (by rwa [zero_add] at hrel) (haborts ha)

end Shared

end Ends

end Resumable
