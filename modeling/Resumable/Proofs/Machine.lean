import Resumable.Proofs.Disposal

set_option autoImplicit false

/-!
# The machine, and the moments of a run

The machine comes to the same end in linked worlds, with the same fuel or more (`machine_serves`).

An observer is shown every request, however deeply nested the computation is that makes it, before
the request is answered and again afterwards.  It takes notes in place of the levels that are held
from outside, which running code has nothing to do with.  And it may break the run off, which then
ends in the world that it has come to, but on another thread; no run gets there by itself.  That is
what it means to come to a moment (`ComesTo`), and the moments of a run that never ends are included.

At every moment the worlds are linked in some zone (`observed_serves`).
-/

namespace Resumable

/-- What an observer is shown. -/
inductive Event where
  | asked (request : Request)
  /-- the request has been answered, or refused, or its answer was abandoned -/
  | answered (request : Request)
  deriving DecidableEq, Repr, Inhabited

instance : Holder Event where
  holds
    | .asked request => holds request
    | .answered _ => 0

@[simp] theorem holds_asked (request : Request) : holds (Event.asked request) = holds request := rfl

@[simp] theorem holds_answered (request : Request) : holds (Event.answered request) = 0 := rfl

/-- Whether the request that an observer is shown may be made. -/
def Event.Granted (Z : Zone) (F : Bag) (w : World) : Event → Prop
  | .asked request => request.Granted Z F w
  | .answered _ => True

namespace World

variable {w w' : World}

/-- A world with the notes of an observer. -/
def noted (w : World) (notes : List Nat) : World := { w with held := notes }

@[simp] theorem held_noted (w : World) (notes : List Nat) : (w.noted notes).held = notes := rfl

@[simp] theorem noted_held (w : World) : w.noted w.held = w := rfl

/-- The same world on another thread. -/
def elsewhere (w : World) : World :=
  { w with thread := { w.thread with id := w.thread.id + 1 } }

theorem elsewhere_injective : Function.Injective elsewhere := by
  intro w w' h
  have hback : ∀ w : World,
      w = { w.elsewhere with
        thread := { w.elsewhere.thread with id := w.elsewhere.thread.id - 1 } } := fun _ => rfl
  rw [hback w, h, ← hback w']

end World

/-- What an observer notes at an event, and whether it breaks the run off. -/
structure Observer where
  note : Event → World → List Nat
  stops : Event → World → Bool

namespace Observer

/-- Shows an event to an observer. -/
def see (o : Observer) (event : Event) : Run World Unit := fun w =>
  let t := w.noted (o.note event w)
  if o.stops event t then .error .outOfFuel t.elsewhere else .ok () t

/-- The observer that breaks the run off at an event, if the world is to its liking. -/
def breaking (note : Event → World → List Nat) (event : Event) (likes : World → Bool) : Observer where
  note := note
  stops seen w := decide (seen = event) && likes w

end Observer

namespace Machine

/-- The machine under observation. -/
def observed (o : Observer) : Nat → Request → Run World Value
  | 0, _ => throw .outOfFuel
  | n + 1, request => do
      o.see (.asked request)
      (request.answer ⟨n, observed o n⟩).ensuring (o.see (.answered request))

/-- The engine under observation, with the given fuel. -/
def observedEngine (o : Observer) (fuel : Nat) : Engine := ⟨fuel, observed o fuel⟩

/-- A computation comes to an event in a world, where the notes are part of the world: an observer can
break it off there. -/
def ComesTo {α : Type} (note : Event → World → List Nat) (fuel : Nat) (m : Engine → Run World α)
    (w : World) (event : Event) (u : World) : Prop :=
  u.thread.id = w.thread.id ∧
    ∃ likes, m (observedEngine (.breaking note event likes) fuel) w = .error .outOfFuel u.elsewhere

/-! ## The machine in linked worlds -/

/-- The machine comes to the same end in linked worlds, with no less fuel.  It breaks nothing off, so
the zones are of a sort that bars nothing. -/
theorem machine_serves {C : Zone → Prop} (hC : ∀ Z, C Z → Z.law.Free) {n m : Nat}
    (h : n ≤ m) : Serves C (engine n) (engine m) := by
  have hspares : ∀ {Z : Zone}, Z.Fit C → ∀ {o : Object}, ¬ Z.spared o := fun {Z} hZ o ho =>
    (hC Z hZ.property).free (.reclaim o) default (hZ.valid.spared o ho default)
  induction n generalizing m with
  | zero =>
      exact ⟨h, fun _ _ _ _ _ _ ht => .outOfFuel ht.calm, fun hZ _ _ ho => absurd ho (hspares hZ)⟩
  | succ n ih =>
      obtain ⟨m, rfl⟩ : ∃ k, m = k + 1 := ⟨m - 1, by omega⟩
      refine ⟨h, fun {Z} hZ request {F w w'} hgranted hlinked => ?_,
        fun hZ _ _ ho => absurd ho (hspares hZ)⟩
      exact answer_ends (ih (Nat.le_of_succ_le_succ h)) hZ request
        ((hC Z hZ.property).free request w) hgranted hlinked

/-! ## Moments -/

/-- An event may come up in a world, in a zone of a sort. -/
def Moment (C : Zone → Prop) (event : Event) (w : World) : Prop :=
  ∃ Z F w', Zone.Fit C Z ∧ event.Granted Z F w ∧ Z.Linked (holds event + F) w w'

/-- An observer does not disturb the computations in zones of a sort: its notes keep the law of the
zone, and it breaks a run off only where the law says so, and before a request that is barred.  Objects
may be disposed of. -/
structure Discreet (C : Zone → Prop) (o : Observer) : Prop where
  note : ∀ {Z : Zone} {event : Event} {F : Bag} {w w' : World}, Z.Fit C →
    event.Granted Z F w → Z.Linked (holds event + F) w w' →
      Z.law.rule (w.noted (o.note event w))
  stops : ∀ {Z : Zone} {event : Event} {w : World}, C Z → Moment C event w →
    o.stops event w = true → Z.law.broken w.elsewhere
  bars : ∀ {Z : Zone} {request : Request} {w : World}, C Z → Z.law.bars request w →
    o.stops (.asked request) w = true
  disposes : ∀ {Z : Zone} {u : Object} {w : World}, C Z → ¬ Z.law.bars (.reclaim u) w

/-- A request may be answered under another law than that of the zone: the notes before it lead there,
and those afterwards lead back. -/
structure Bridges (C : Zone → Prop) (o : Observer) (Z : Zone) (request : Request) (w : World)
    (L : Law) : Prop where
  fit : (Z.decree L).Fit C
  rule : L.rule (w.noted (o.note (.asked request) w))
  tame : L.tame ↔ Z.law.tame
  admitted : ¬ L.bars request (w.noted (o.note (.asked request) w))
  broken : ∀ x, L.broken x → Z.law.broken x
  back : ∀ {G : Bag} {t t' : World}, (Z.decree L).Linked G t t' →
    Z.law.rule (t.noted (o.note (.answered request) t))
  ends : ∀ {G : Bag} {t t' : World}, (Z.decree L).Linked G t t' →
    o.stops (.answered request) (t.noted (o.note (.answered request) t)) = true →
      Z.law.broken (t.noted (o.note (.answered request) t)).elsewhere

/-- An observer goes along with the computations in zones of a sort.  It breaks a run off where the law
says so, or else the request is answered, if under another law.  It does break the run off before an
object is disposed of that is spared. -/
structure Attends (C : Zone → Prop) (o : Observer) : Prop where
  breaks : ∀ {Z : Zone} {request : Request} {F : Bag} {w w' : World}, Z.Fit C →
    request.Granted Z F w → Z.Linked (holds request + F) w w' →
      o.stops (.asked request) (w.noted (o.note (.asked request) w)) = true →
        Z.law.broken (w.noted (o.note (.asked request) w)).elsewhere
  goesOn : ∀ {Z : Zone} {request : Request} {F : Bag} {w w' : World}, Z.Fit C →
    request.Granted Z F w → Z.Linked (holds request + F) w w' →
      o.stops (.asked request) (w.noted (o.note (.asked request) w)) = false →
        ∃ L, Bridges C o Z request w L
  spares : ∀ {Z : Zone} {u : Object} {w : World}, Z.Fit C → Z.spared u →
    o.stops (.asked (.reclaim u)) (w.noted (o.note (.asked (.reclaim u)) w)) = true ∧
      Z.law.broken (w.noted (o.note (.asked (.reclaim u)) w)).elsewhere

section Observed

variable {C : Zone → Prop} {o : Observer} {Z : Zone} {F : Bag} {w w' : World}

/-- Taking notes, after which another law may hold. -/
theorem linked_noted (h : Z.Linked F w w') {L : Law} {notes : List Nat}
    (hlaw : L.rule (w.noted notes)) (htame : L.tame → Z.law.tame) :
    (Z.decree L).Linked F (w.noted notes) w' where
  pinned := { h.pinned with
    law := hlaw
    stash := fun o ho => { h.pinned.stash o ho with } }
  alike := { h.alike with owners := h.alike.owners }
  accounted := { h.accounted with }
  tame := fun hL => (h.tame (htame hL)).congr rfl (fun _ => rfl) fun _ => rfl

theorem granted_noted {event : Event} (notes : List Nat) (h : event.Granted Z F w) :
    event.Granted Z F (w.noted notes) := by
  cases event with
  | answered _ => trivial
  | asked request =>
      cases request with
      | reclaim o => exact ⟨h.1, by cases o <;> exact h.2⟩
      | _ => exact h

/-- What an observer does when it is shown an event. -/
theorem see_cases (o : Observer) (event : Event) (w : World) :
    (o.stops event (w.noted (o.note event w)) = true ∧
        o.see event w = .error .outOfFuel (w.noted (o.note event w)).elsewhere) ∨
      o.stops event (w.noted (o.note event w)) = false ∧
        o.see event w = .ok () (w.noted (o.note event w)) := by
  unfold Observer.see
  cases hstops : o.stops event (w.noted (o.note event w)) with
  | true => exact Or.inl ⟨rfl, if_pos hstops⟩
  | false => exact Or.inr ⟨rfl, if_neg (by simp [hstops])⟩

/-- A clean-up that does nothing. -/
theorem ensuring_pure {α : Type} (m : Run World α) : m.ensuring (pure ()) = m := by
  funext w
  unfold Run.ensuring
  rw [Run.bind_apply]
  unfold Run.onInterruption
  cases m w with
  | ok a t => rfl
  | error reason t => cases reason <;> rfl

/-- A request under observation comes to the same end as one that is not. -/
theorem attended_ends (ho : Attends C o) {n m : Nat} (hs : Serves C (observedEngine o n) (engine m))
    (hZ : Z.Fit C) (request : Request) (hgranted : request.Granted Z F w)
    (h : Z.Linked (holds request + F) w w') :
    Ends (Z.bondIf (request.Breaks Z)) F holds (observed o (n + 1) request w)
      (perform (m + 1) request w') := by
  show Ends (Z.bondIf (request.Breaks Z)) F holds
    ((o.see (.asked request) >>= fun _ =>
      (request.answer (observedEngine o n)).ensuring (o.see (.answered request))) w)
    (request.answer (engine m) w')
  rw [← ensuring_pure (request.answer (engine m))]
  rcases see_cases o (.asked request) w with ⟨hstops, hbroken⟩ | ⟨hgoes, hw⟩
  · rw [Run.bind_error hbroken]
    exact .outOfFuel (Or.inr (ho.breaks hZ hgranted h hstops))
  · rw [Run.bind_ok hw]
    obtain ⟨L, hL⟩ := ho.goesOn hZ hgranted h hgoes
    have hgranted : request.Granted (Z.decree L) F (w.noted (o.note (.asked request) w)) :=
      @granted_noted (Z.decree L) F w (.asked request) _ (by cases request <;> exact hgranted)
    have hanswered := answer_ends hs hL.fit request hL.admitted hgranted
      (linked_noted h hL.rule hL.tame.1)
    rw [← zero_add F] at hanswered
    have hbreaks : request.Breaks (Z.decree L) → request.Breaks Z := by
      have hweaker : (Z.decree L).Breaks → Z.Breaks := fun h htame => h (hL.tame.2 htame)
      cases request with
      | reclaim u => exact id
      | _ => exact hweaker
    refine hanswered.last (fun t ht => ht.imp_right (hL.broken t)) hbreaks fun G t t' _ ht => ?_
    rw [zero_add] at ht
    have hlaw := hL.back ht
    rcases see_cases o (.answered request) t with ⟨hstops, hbroken⟩ | ⟨_, ht'⟩
    · rw [hbroken]
      exact .outOfFuel (Or.inr (hL.ends ht hstops))
    · rw [ht']
      refine .ok ?_
      rw [holds_unit, zero_add]
      exact linked_noted ht hlaw hL.tame.2

/-- The machine under observation comes to the same end as the machine that is not. -/
theorem attended_serves (ho : Attends C o) {n m : Nat} (h : n ≤ m) :
    Serves C (observedEngine o n) (engine m) := by
  induction n generalizing m with
  | zero =>
      exact ⟨h, fun _ _ _ _ _ _ ht => .outOfFuel ht.calm, fun _ _ w _ hcalm => ⟨w, rfl, hcalm⟩⟩
  | succ n ih =>
      obtain ⟨m, rfl⟩ : ∃ k, m = k + 1 := ⟨m - 1, by omega⟩
      refine ⟨h, fun hZ request _ _ _ hgranted hlinked =>
        attended_ends ho (ih (Nat.le_of_succ_le_succ h)) hZ request hgranted hlinked,
        fun {Z} hZ u w hu _ => ?_⟩
      obtain ⟨hstops, hbroken⟩ := ho.spares (w := w) hZ hu
      refine ⟨_, Run.bind_error ?_, Or.inr hbroken⟩
      unfold Observer.see
      exact if_pos hstops

/-- An observer that does not disturb goes along with the computations under the law of the zone. -/
theorem Discreet.attends (ho : Discreet C o) : Attends C o where
  breaks hZ hgranted h := ho.stops hZ.property
    ⟨_, _, _, hZ, granted_noted _ hgranted, linked_noted h (ho.note hZ hgranted h) id⟩
  goesOn {Z request F w w'} hZ hgranted h hgoes := by
    have hback : ∀ {G : Bag} {t t' : World}, Z.Linked G t t' →
        Z.law.rule (t.noted (o.note (.answered request) t)) := fun {G t t'} ht => by
      have hanswered : Z.Linked (holds (Event.answered request) + G) t t' := by
        rwa [holds_answered, zero_add]
      exact ho.note hZ True.intro hanswered
    exact ⟨Z.law,
      { fit := hZ
        rule := ho.note hZ hgranted h
        tame := Iff.rfl
        admitted := fun hbarred => by simp [ho.bars hZ.property hbarred] at hgoes
        broken := fun _ h => h
        back := hback
        ends := fun {G t t'} ht => by
          refine ho.stops hZ.property ⟨Z, G, t', hZ, True.intro, ?_⟩
          rw [holds_answered, zero_add]
          exact linked_noted ht (hback ht) id }⟩
  spares {Z u w} hZ hu := absurd (hZ.valid.spared u hu w) (ho.disposes hZ.property)

theorem observed_serves (ho : Discreet C o) {n m : Nat} (h : n ≤ m) :
    Serves C (observedEngine o n) (engine m) :=
  attended_serves ho.attends h

end Observed

end Machine

end Resumable
