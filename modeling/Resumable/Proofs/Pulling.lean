import Resumable.Adapter
import Resumable.Proofs.Limit

set_option autoImplicit false

/-!
# Pulls, one after the other

What a history of pulls from a generator gives, if anything at all may happen to the world between one pull
and the next.

As long as every pull has given a value, the next one asks the generator once and gives what comes of that
as an item.  A pull that finds no item, or gives an exception, is the last to ask: every later pull finds
no item and leaves the world alone, whatever the generator could still do (`pulls_fused`).
-/

namespace Resumable

variable {g : GeneratorRef} {w t : World}

namespace Adapter

variable {a b : Adapter} {e : Engine}

/-- How a pull ends that asks for a value or the end of the iteration: an exception is an item too. -/
def itemOf : EStateM.Result Interruption World (Option Value) →
    EStateM.Result Interruption World (Option (Except Exception Value))
  | .ok (some v) t => .ok (some (.ok v)) t
  | .ok none t => .ok none t
  | .error (.raised x) t => .ok (some (.error x)) t
  | .error reason t => .error reason t

/-- A pull: what it was made with, the world it found, and how it ended. -/
structure Pull where
  engine : Engine
  world : World
  ending : EStateM.Result Interruption World (Option (Except Exception Value))

/-- The pull found no item, or gave an exception. -/
def Pull.Last (p : Pull) : Prop :=
  (∃ t, p.ending = .ok none t) ∨ ∃ x t, p.ending = .ok (some (.error x)) t

/-- The pulls from a generator up to some time, in order, with the adapter and the world at that time. -/
inductive History (g : GeneratorRef) : Adapter → World → List Pull → Prop
  | start (w : World) : History g (.new g) w []
  /-- something that is not a pull leads to another world -/
  | elsewhere {a : Adapter} {w : World} {pulls : List Pull} (h : History g a w pulls) (t : World) :
      History g a t pulls
  | pull {a b : Adapter} {w t : World} {pulls : List Pull} {given : Option (Except Exception Value)}
      (h : History g a w pulls) (e : Engine) (hpull : a.pull e w = .ok (given, b) t) :
      History g b t (pulls ++ [⟨e, w, .ok given t⟩])
  /-- a pull that is interrupted leaves the adapter as it is -/
  | brokenOff {a : Adapter} {w t : World} {pulls : List Pull} {reason : Interruption}
      (h : History g a w pulls) (e : Engine) (hpull : a.pull e w = .error reason t) :
      History g a t (pulls ++ [⟨e, w, .error reason t⟩])

/-! ## One pull -/

theorem pull_of_done (h : a.done = true) : a.pull e w = .ok (none, a) w := by
  rw [pull, if_pos h]
  rfl

/-- A pull that asks is the last one just if it does not give a value. -/
theorem pull_of_not_done (h : a.done = false) :
    a.pull e w =
      match itemOf (e.nextOrEnd a.generator w) with
      | .ok (some (.ok v)) t => .ok (some (.ok v), a) t
      | .ok given t => .ok (given, { a with done := true }) t
      | .error reason t => .error reason t := by
  rw [pull, if_neg (Bool.eq_false_iff.1 h), Run.bind_apply, Run.attempt]
  rcases e.nextOrEnd a.generator w with ⟨_ | v, t⟩ | ⟨x | _ | _, t⟩ <;> rfl

/-- What a pull gives, and whether the adapter has none after it. -/
theorem pull_asks {given : Option (Except Exception Value)} (h : a.done = false)
    (hpull : a.pull e w = .ok (given, b) t) :
    itemOf (e.nextOrEnd a.generator w) = .ok given t ∧ b.generator = a.generator ∧
      (b.done = true ↔ ∀ v, given ≠ some (.ok v)) := by
  rw [pull_of_not_done h] at hpull
  rcases hitem : itemOf (e.nextOrEnd a.generator w) with ⟨_ | x | v, s⟩ | ⟨_, s⟩ <;>
    rw [hitem] at hpull <;> cases hpull
  · exact ⟨rfl, rfl, fun _ => nofun, fun _ => rfl⟩
  · exact ⟨rfl, rfl, fun _ => nofun, fun _ => rfl⟩
  · exact ⟨rfl, rfl, fun hdone => (Bool.eq_false_iff.1 h hdone).elim, fun hall => (hall v rfl).elim⟩

/-- A pull that is interrupted was interrupted as it asked. -/
theorem pull_interrupted {reason : Interruption} (hpull : a.pull e w = .error reason t) :
    a.done = false ∧ itemOf (e.nextOrEnd a.generator w) = .error reason t := by
  have h : a.done = false := by
    refine Bool.eq_false_iff.2 fun hdone => ?_
    rw [pull_of_done hdone] at hpull
    cases hpull
  rw [pull_of_not_done h] at hpull
  rcases hitem : itemOf (e.nextOrEnd a.generator w) with ⟨_ | x | v, s⟩ | ⟨_, s⟩ <;>
    rw [hitem] at hpull <;> cases hpull
  exact ⟨h, rfl⟩

theorem Pull.last_iff {given : Option (Except Exception Value)} :
    Pull.Last ⟨e, w, .ok given t⟩ ↔ ∀ v, given ≠ some (.ok v) := by
  constructor
  · rintro (⟨_, h⟩ | ⟨_, _, h⟩) v rfl <;> cases h
  · intro h
    rcases given with _ | x | v
    · exact .inl ⟨t, rfl⟩
    · exact .inr ⟨x, t, rfl⟩
    · exact (h v rfl).elim

theorem Pull.not_last_of_interrupted {reason : Interruption} :
    ¬ Pull.Last ⟨e, w, .error reason t⟩ := by
  rintro (⟨_, h⟩ | ⟨_, _, h⟩) <;> cases h

/-! ## Any number of pulls -/

/-- What a pull should be after the earlier ones: it asks the generator, unless one of them was the last
to ask. -/
structure Pull.Follows (g : GeneratorRef) (earlier : List Pull) (p : Pull) : Prop where
  asks : (¬ ∃ q ∈ earlier, q.Last) → p.ending = itemOf (p.engine.nextOrEnd g p.world)
  leaves : (∃ q ∈ earlier, q.Last) → p.ending = .ok none p.world

namespace History

variable {pulls : List Pull}

/-- The adapter knows whether there has been a last pull. -/
theorem done_iff (h : History g a w pulls) :
    a.generator = g ∧ (a.done = true ↔ ∃ p ∈ pulls, p.Last) := by
  induction h with
  | start w => exact ⟨rfl, nofun, fun ⟨_, hp, _⟩ => (List.not_mem_nil hp).elim⟩
  | elsewhere h t ih => exact ih
  | @pull a b w t pulls given h e hpull ih =>
      obtain ⟨hgenerator, hdone⟩ := ih
      by_cases ha : a.done = true
      · rw [pull_of_done ha] at hpull
        cases hpull
        obtain ⟨q, hq, hlast⟩ := hdone.1 ha
        exact ⟨hgenerator, fun _ => ⟨q, List.mem_append_left _ hq, hlast⟩, fun _ => ha⟩
      · obtain ⟨-, hb, hlast⟩ := pull_asks (Bool.eq_false_iff.2 ha) hpull
        have hnone : ¬ ∃ q ∈ pulls, q.Last := fun hq => ha (hdone.2 hq)
        refine ⟨hb.trans hgenerator, fun hbdone => ?_, ?_⟩
        · exact ⟨_, List.mem_append_right _ (List.mem_singleton_self _),
            Pull.last_iff.2 (hlast.1 hbdone)⟩
        · rintro ⟨q, hq, hqlast⟩
          rcases List.mem_append.1 hq with hq | hq
          · exact (hnone ⟨q, hq, hqlast⟩).elim
          · exact hlast.2 (Pull.last_iff.1 (List.mem_singleton.1 hq ▸ hqlast))
  | brokenOff h e hpull ih =>
      refine ⟨ih.1, fun ha => ?_, ?_⟩
      · obtain ⟨q, hq, hlast⟩ := ih.2.1 ha
        exact ⟨q, List.mem_append_left _ hq, hlast⟩
      · rintro ⟨q, hq, hlast⟩
        rcases List.mem_append.1 hq with hq | hq
        · exact ih.2.2 ⟨q, hq, hlast⟩
        · exact (Pull.not_last_of_interrupted (List.mem_singleton.1 hq ▸ hlast)).elim

/-- The next pull, whichever way it ends. -/
theorem follows (h : History g a w pulls) (e : Engine)
    {ending : EStateM.Result Interruption World (Option (Except Exception Value))}
    (hending : (∃ given b t, a.pull e w = .ok (given, b) t ∧ ending = .ok given t) ∨
      ∃ reason t, a.pull e w = .error reason t ∧ ending = .error reason t) :
    Pull.Follows g pulls ⟨e, w, ending⟩ := by
  obtain ⟨rfl, hdone⟩ := h.done_iff
  constructor
  · intro hnone
    have ha : a.done = false := Bool.eq_false_iff.2 fun ha => hnone (hdone.1 ha)
    obtain ⟨given, b, t, hpull, rfl⟩ | ⟨reason, t, hpull, rfl⟩ := hending
    · exact (pull_asks ha hpull).1.symm
    · exact (pull_interrupted hpull).2.symm
  · intro hlast
    have ha := pull_of_done (e := e) (w := w) (hdone.2 hlast)
    obtain ⟨given, b, t, hpull, rfl⟩ | ⟨reason, t, hpull, rfl⟩ := hending <;> rw [ha] at hpull <;>
      cases hpull
    rfl

end History

/-- One more pull, after pulls that each follow on those before. -/
theorem Pull.Follows.snoc {pulls earlier later : List Pull} {p q : Pull} (hq : q.Follows g pulls)
    (hbefore : ∀ {rest}, pulls = earlier ++ p :: rest → p.Follows g earlier)
    (hpulls : pulls ++ [q] = earlier ++ p :: later) : p.Follows g earlier := by
  rcases List.eq_nil_or_concat later with rfl | ⟨later, q', rfl⟩
  · obtain ⟨rfl, hp⟩ := List.append_inj' hpulls rfl
    exact List.singleton_injective hp ▸ hq
  · rw [List.concat_eq_append, ← List.cons_append, ← List.append_assoc] at hpulls
    exact hbefore (List.append_inj' hpulls rfl).1

/-- Each pull of a history follows on those before it: it asks the generator exactly once for the next
value, unless an earlier one was the last to ask, and then it finds no item and changes nothing. -/
theorem pulls_fused {pulls : List Pull} (h : History g a w pulls) {earlier later : List Pull} {p : Pull}
    (hpulls : pulls = earlier ++ p :: later) : p.Follows g earlier := by
  induction h generalizing later with
  | start w => exact (List.append_ne_nil_of_right_ne_nil _ (List.cons_ne_nil _ _) hpulls.symm).elim
  | elsewhere h t ih => exact ih hpulls
  | pull h e hpull ih => exact (h.follows e (.inl ⟨_, _, _, hpull, rfl⟩)).snoc ih hpulls
  | brokenOff h e hpull ih => exact (h.follows e (.inr ⟨_, _, hpull, rfl⟩)).snoc ih hpulls

/-- With no level left, a pull gives the refusal as an item, and the generator stays as it is.  It would
give a value once the level has been given back, but the next pull leaves it alone. -/
theorem pulls_fused_yieldingOnce :
    ∃ (a : Adapter) (earlier : List Pull) (p : Pull),
      History ⟨0⟩ a (yieldingOnce 1) (earlier ++ [p]) ∧ p.world = yieldingOnce 1 ∧
        p.ending = .ok none (yieldingOnce 1) ∧
        ∃ t, (Machine.engine 20).nextOrEnd ⟨0⟩ (yieldingOnce 1) = .ok (some (.int 1)) t := by
  let e := Machine.engine 20
  obtain ⟨t, hfirst⟩ : ∃ t, (Adapter.new ⟨0⟩).pull e yieldingAtLimit =
      .ok (some (.error .recursionError), ⟨⟨0⟩, true⟩) t := ⟨_, rfl⟩
  have hpulled : History ⟨0⟩ ⟨⟨0⟩, true⟩ t [⟨e, yieldingAtLimit, .ok (some (.error .recursionError)) t⟩] :=
    .pull (.elsewhere (.start (yieldingOnce 1)) yieldingAtLimit) e hfirst
  have hsecond := (hpulled.elsewhere (yieldingOnce 1)).pull e (pull_of_done rfl)
  have hfused := (pulls_fused hsecond rfl).leaves ⟨_, List.mem_singleton_self _, .inr ⟨_, t, rfl⟩⟩
  exact ⟨_, _, _, hsecond, rfl, hfused, _, rfl⟩

end Adapter

end Resumable
