import Resumable.Proofs.Balance
import Resumable.Proofs.Refusal

set_option autoImplicit false

/-!
# Termination

A generator lets go of its frame when its body returns or raises, and never gets a frame again.

The second part is a law in the sense of zones: it is kept by whatever a world may be followed by
(`Law.finished`).  For the first part, the law comes into force when the generator lets go of its
frame, and what is left of the resume is carried out under it (`BodyEnds.finishes`).  A resume may run
the body several times, one level deeper each time, and the last run counts.
-/

namespace Resumable

variable {g i : GeneratorRef} {r : FrameRef} {v : Value} {w w' t t' u : World} {Z : Zone} {F : Bag}

/-! ## Generators without a frame -/

/-- A generator exists and has no frame. -/
def World.HasFinished (w : World) (g : GeneratorRef) : Prop :=
  g.index < w.generators.size ∧ (w.generator g).frame = none

instance (w : World) (g : GeneratorRef) : Decidable (w.HasFinished g) :=
  inferInstanceAs (Decidable (_ ∧ _))

theorem World.HasFinished.mono (h : w.HasFinished g) (hle : w.Precedes t) : t.HasFinished g :=
  ⟨lt_of_lt_of_le h.1 hle.size, hle.lost g h.1 h.2⟩

/-- A generator that was never made has no frame. -/
theorem World.made_of_frame (h : (w.generator g).frame = some r) :
    g.index < w.generators.size := by
  by_contra hsize
  have hnone : w.generator g = default := Store.content_of_size_le (Nat.not_lt.1 hsize)
  rw [hnone] at h
  cases h

namespace Law

/-- The generator exists. -/
def made (g : GeneratorRef) : Law where
  rule w := g.index < w.generators.size
  keeps h hle := lt_of_lt_of_le h hle.size
  broken _ := False
  bars _ _ := False

/-- The generator exists and has no frame. -/
def finished (g : GeneratorRef) : Law where
  rule w := w.HasFinished g
  keeps h hle := h.mono hle
  broken _ := False
  bars _ _ := False

/-- If the notes say so, the generator exists and has no frame. -/
def notedFinished (g : GeneratorRef) : Law where
  rule w := w.held = [1] → w.HasFinished g
  keeps h hle hheld := (h (hle.held ▸ hheld)).mono hle
  broken _ := False
  bars _ _ := False

instance : (made g).Free := ⟨fun _ _ h => h⟩

instance : (finished g).Free := ⟨fun _ _ h => h⟩

instance : (notedFinished g).Free := ⟨fun _ _ h => h⟩

end Law

/-- A generator without a frame is not running. -/
theorem Zone.Linked.idle_of_frameless (h : Z.Linked F w w') (hZ : Z.Valid)
    (hframe : (w.generator g).frame = none) : (w.generator g).running = false := by
  by_contra hrunning
  have hrunning : (w.generator g).running = true := by simpa using hrunning
  obtain ⟨x, hx⟩ := Option.isSome_iff_exists.1 (h.pinned.running g hrunning)
  obtain rfl := h.pinned.fixed g x hx
  obtain ⟨r, c, hr, _⟩ := hZ.slot g _ hx hrunning
  rw [hframe] at hr
  cases hr

/-! ## The end of a body -/

/-- A body has returned or raised. -/
def Final : Except Exception Suspension → Prop
  | .ok (.returned _) => True
  | .error _ => True
  | _ => False

/-- A resume runs the body of a generator, which ends like this in this world. -/
structure Ran (e : Engine) (g : GeneratorRef) (v : Value) (w : World) (r : FrameRef)
    (outcome : Except Exception Suspension) (t : World) : Prop where
  idle : (w.generator g).running = false
  slot : (w.generator g).frame = some r
  room : w.thread.depth < w.thread.limit
  frame : ∃ f, w.frame? r = some f ∧ f.isFinished = false
  ends : e.startBody g r v (w.entered r) = .ok outcome t

/-- The body of a generator that is resumed returns or raises in the end.  After its delegate ran out
it is run again. -/
inductive BodyEnds (g : GeneratorRef) (v : Value) : Nat → World → Prop where
  | final {n : Nat} {w t : World} {r : FrameRef} {outcome : Except Exception Suspension}
      (h : Ran (Machine.engine n) g v w r outcome t) (hfinal : Final outcome) :
      BodyEnds g v (n + 1) w
  | again {n : Nat} {w t u : World} {r : FrameRef} {result : Value}
      (h : Ran (Machine.engine n) g v w r (.ok (.delegateExhausted result)) t)
      (htold : (Machine.engine n).finishDelegation r result t = .ok () u)
      (hrest : BodyEnds g v n u) : BodyEnds g v (n + 1) w

section Letting

variable {C : Zone → Prop} {L : Law} {e e' : Engine} (hs : Serves C e e')
  (hZ : Z.Valid) (hC : (Z.decree L).Fit C) (htame : L.tame → Z.law.tame)
  (hlaw : ∀ t, Z.law.rule t → (t.generator g).frame = none → L.rule t)

include hs hZ hC htame hlaw

/-- A generator lets go of its frame, if it still has one, and what is left to do is done under a law
that may say so. -/
theorem terminate_finishes (hg : ¬ Z.hidden (.generator g)) (hfree : Z.fixed g = none)
    (h : Z.Linked F w w') :
    Ends (Z.decree L).bond F holds (e.terminate g w) (e'.terminate g w') := by
  have hsame := h.alike.generator g hg
  cases hslot : (w.generator g).frame with
  | none =>
      rw [terminate_of_frameless hslot, terminate_of_frameless (by rw [hsame, hslot])]
      exact .ok ((h.decree (hlaw w h.pinned.law hslot) htame).le (by rw [holds_unit, zero_add]))
  | some r =>
      rw [terminate_of_frame hslot, terminate_of_frame (r := r) (by rw [hsame, hslot])]
      have hopen := h.opened (G := holds (Value.frame r) + F) hZ hg (Or.inl hfree) (h.idle hfree)
        hslot (by
          rw [Pi.add_apply, holds_frameRef, Bag.of_singleton_self]
          omega)
      have hset := frameless_linked hg hfree hslot h
      have hfinished : L.rule (w.frameless g) :=
        hlaw _ hset.pinned.law (by simp [World.frameless])
      exact letGo_ends hs hC (hopen.decree htame) (hset.decree hfinished htame)

/-- Once a body has returned or raised, its generator has no frame. -/
theorem settleBody_finishes (hg : ¬ Z.hidden (.generator g)) (hfree : Z.fixed g = none)
    {outcome : Except Exception Suspension} (hfinal : Final outcome)
    (h : Z.Linked (holds outcome + F) w w') :
    Ends (Z.decree L).bond F holds (e.settleBody g r outcome w)
      (e'.settleBody g r outcome w') := by
  have hended := terminate_finishes hs hZ hC htame hlaw hg hfree h
  rcases outcome with x | yielded | returned | result
  · exact (hended.onInterruption fun K s s' _ hss => releaseException_ends hs hC hss).bind
      (p := fun _ => 0 + holds x) le_rfl fun _ s s' hss => .raised (hss.le (by rw [zero_add]))
  · exact hfinal.elim
  · exact (hended.onInterruption fun K s s' _ hss => release_ends hs hC hss).bind
      (p := fun _ => 0 + holds returned) le_rfl fun _ s s' hss => .raised (hss.le (by
        rw [zero_add, holds_stopIterationWith]))
  · exact hfinal.elim

end Letting

theorem Law.finished_of_made (t : World) (h : (Law.made g).rule t)
    (hframe : (t.generator g).frame = none) : (Law.finished g).rule t := ⟨h, hframe⟩

theorem serves_free {L : Law} [L.Free] (n : Nat) :
    Serves (Zone.Level L) (Machine.engine n) (Machine.engine n) :=
  Machine.machine_serves (fun Z hZ => by rwa [hZ.law]) (le_refl n)

/-- What is known once a resume has run the body of a generator. -/
theorem Ran.linked {n : Nat} {outcome : Except Exception Suspension}
    (h : Ran (Machine.engine n) g v w r outcome t) (hZ : Z.Fit (Zone.Level (.made g)))
    (hheld : Z.Held F g) (hw : Z.Linked (holds v + F) w w) :
    Z.fixed g = none ∧ Z.Open (holds v + (holds (Value.frame r) + F)) r ∧
      Z.deeper.Fit (Zone.Level (.made g)) ∧
      Z.deeper.Linked (holds outcome + (holds v + (holds (Value.frame r) + F))) t t := by
  obtain ⟨f, hf, hunfinished⟩ := h.frame
  have hadmits : Z.Admits g := Or.inr (by rw [hZ.property.law]; exact Law.Free.not_barred _ g)
  have hopen := hw.opened (G := holds v + (holds (Value.frame r) + F)) hZ.valid hheld.1 hadmits h.idle
    h.slot (by
      simp only [Pi.add_apply, holds_frameRef, Bag.of_singleton_self]
      omega)
  have hdeep := hZ.deeper (by rw [← hw.pinned.thread]; exact h.room)
  have hentered := (hw.entered hZ.valid hheld.1 h.slot).le (add_left_comm _ _ _).le
  have hstarted := startBody_ends (serves_free n) hdeep (g := g) (r := r) (v := v)
    (hheld.le (le_trans le_add_self le_add_self)) hadmits (by simpa using h.idle) (by simpa using h.slot)
    (by simpa using hf) hunfinished le_self_add hentered
  rw [h.ends] at hstarted
  refine ⟨hw.free hZ.valid hheld.1 hadmits h.idle h.slot hf, hopen, hdeep, ?_⟩
  cases hstarted with
  | ok hafter => exact hafter

/-- What a resume does that runs the body. -/
theorem Ran.proceeds {e : Engine} {outcome : Except Exception Suspension}
    (h : Ran e g v w r outcome t) :
    e.resume g v w = e.owning (.frame r) (e.proceed g r v) (w.entered r) ∧
      e.resumeFrame g r v (w.entered r) = e.settleBody g r outcome t := by
  obtain ⟨f, hf, hunfinished⟩ := h.frame
  refine ⟨resume_of_room h.idle h.slot h.room, ?_⟩
  rw [resumeFrame_of_unfinished (by simpa using hf) hunfinished, Run.bind_ok h.ends]

/-- What a resume does whose delegate runs out: the generator is resumed again, one level deeper. -/
theorem Ran.again {n : Nat} {result : Value}
    (h : Ran (Machine.engine n) g v w r (.ok (.delegateExhausted result)) t)
    (htold : (Machine.engine n).finishDelegation r result t = .ok () u) :
    Machine.perform (n + 1) (.resume g v) w =
      (Machine.engine n).owning (.frame r)
        (fun _ => Run.ensuring (Machine.perform n (.resume g v)) World.leave u) w := by
  obtain ⟨hresume, hframe⟩ := h.proceeds
  have hproceed : (Machine.engine n).proceed g r v (w.entered r) =
      Run.ensuring (Machine.perform n (.resume g v)) World.leave u := by
    refine Run.bind_ok (Run.onInterruption_ok (a := Option.none) ?_)
    rw [hframe]
    exact Run.bind_ok htold
  show (Machine.engine n).resume g v w = _
  rw [hresume]
  exact Run.ensuring_congr hproceed

/-- The world in which the generator is resumed again. -/
theorem Ran.again_linked {n : Nat} {result : Value}
    (h : Ran (Machine.engine n) g v w r (.ok (.delegateExhausted result)) t)
    (htold : (Machine.engine n).finishDelegation r result t = .ok () u)
    (hZ : Z.Fit (Zone.Level (.made g))) (hheld : Z.Held F g) (hw : Z.Linked (holds v + F) w w) :
    Z.deeper.Fit (Zone.Level (.made g)) ∧
      Z.deeper.Linked (holds v + (holds (Value.frame r) + F)) u u := by
  obtain ⟨_, hopen, hdeep, ht⟩ := h.linked hZ hheld hw
  refine ⟨hdeep, ?_⟩
  have hlaw : ¬ Z.deeper.law.tame := by
    rw [hdeep.property.law]
    exact id
  have hopen' : Z.deeper.Open (holds v + (holds (Value.frame r) + F)) r :=
    { hopen with }
  have hfinished := finishDelegation_ends (serves_free n) hdeep hopen' (fun h => absurd h hlaw) ht
  rw [htold] at hfinished
  cases hfinished with
  | ok hafter => exact hafter.le (by rw [holds_unit, zero_add])

/-- A resume whose body returns or raises in the end leaves the generator without a frame. -/
theorem BodyEnds.finishes {n : Nat} (h : BodyEnds g v n w) (hZ : Z.Fit (Zone.Level (.made g)))
    (hheld : Z.Held F g) (hw : Z.Linked (holds v + F) w w) :
    Ends (Z.decree (.finished g)).bond F holds (Machine.perform n (.resume g v) w)
      (Machine.perform n (.resume g v) w) := by
  -- induction on the runs of the body
  induction h generalizing Z F with
  | @final n w t r outcome hran hfinal =>
      obtain ⟨hfree, hopen, hdeep, ht⟩ := hran.linked hZ hheld hw
      obtain ⟨hresume, hframe⟩ := hran.proceeds
      show Ends _ F holds ((Machine.engine n).resume g v w) ((Machine.engine n).resume g v w)
      rw [hresume]
      refine owning_ends (serves_free n) hZ.decree ?_
      refine proceed_of_ends (serves_free n) hZ.decree hdeep.decree (hheld.le le_add_self) ?_
      rw [hframe]
      have hlaw : ∀ t, Z.deeper.law.rule t → (t.generator g).frame = none →
          (Law.finished g).rule t := by
        rw [hdeep.property.law]
        exact Law.finished_of_made
      exact settleBody_finishes (serves_free n) hdeep.valid hdeep.decree False.elim hlaw hheld.1 hfree
        hfinal ht
  | @again n w t u r result hran htold hrest ih =>
      obtain ⟨hdeep, hu⟩ := hran.again_linked htold hZ hheld hw
      rw [hran.again htold]
      refine owning_ends (serves_free n) hZ.decree ?_
      exact (ih hdeep (hheld.le le_add_self) hu).bracket (fun _ h => h) id fun K s s' hss =>
        Zone.Linked.leave (Z := Z.decree (.finished g)) hss

/-! ## What is left of a generator without a frame -/

/-- Nothing happens any more at a generator.  It is not running, its body is not run again, and every
call is the end of an iteration; what a call does beyond that is to forget its arguments. -/
structure World.Spent (w : World) (g : GeneratorRef) : Prop where
  idle : (w.generator g).running = false
  state : w.stateOf g = .finished
  resume : ∀ n v, Refused (Machine.engine n) .stopIteration [v] (Machine.perform (n + 1) (.resume g v)) w
  next : ∀ n, (Machine.engine (n + 1)).next g w = .error (.raised .stopIteration) w
  nextOrEnd : ∀ n, (Machine.engine (n + 1)).nextOrEnd g w = .ok none w
  send : ∀ n v, Refused (Machine.engine n) .stopIteration [v] ((Machine.engine n).send g v) w
  close : ∀ n, (Machine.engine (n + 1)).close g w = .ok .none w
  throw : ∀ n (thrown : Throw) tb, Engine.tracebackOf thrown.traceback = .ok tb →
    Refused (Machine.engine n) .stopIteration (thrown.value.toList ++ [thrown.type])
      ((Machine.engine (n + 1)).throw g thrown) w

theorem World.spent_of_frameless (hidle : (w.generator g).running = false)
    (hframe : (w.generator g).frame = none) : w.Spent g := by
  have hrefusal := World.refusal?_frameless hidle hframe
  refine ⟨hidle, ?_, fun n v => ?_, fun n => ?_, fun n => ?_, fun n v => ?_, fun n => ?_,
    fun n thrown tb htb => ?_⟩
  · simp [World.stateOf, hidle, hframe]
  · exact refused_of_refuse (Engine.resume_refused hrefusal v)
  · exact Engine.next_refused hrefusal
  · exact Engine.nextOrEnd_frameless hidle hframe
  · exact refused_of_refuse (Engine.send_frameless hframe v)
  · exact Engine.close_frameless hidle hframe
  · exact refused_of_refuse (Engine.throw_refused hrefusal htb)

namespace Session

/-- Whatever a session leads to, one command after the other. -/
inductive Leads : World → World → Prop where
  | refl (w : World) : Leads w w
  | step {w t : World} (h : Leads w t) (fuel : Nat) (full : Bool) (c : Command)
      (hdone : (step fuel full t c).1.report ≠ .outOfFuel) : Leads w (step fuel full t c).2

theorem finished_of_leads (hw : Reachable w) (hg : w.HasFinished g) (h : Leads w t) :
    Reachable t ∧ t.HasFinished g := by
  induction h with
  | refl => exact ⟨hw, hg⟩
  | step _ fuel full c hdone ih =>
      obtain ⟨hreachable, hfinished⟩ := ih
      refine ⟨hreachable.step fuel full c hdone, ?_⟩
      exact (step_sound (L := .finished g) (fun _ _ h => h)
        False.elim (hreachable.sound.under hfinished False.elim) hdone).law

/-- Takes a note of it if a generator has no frame. -/
def noteFinished (g : GeneratorRef) (w : World) : List Nat := if w.HasFinished g then [1] else w.held

/-- The observer that takes these notes, and breaks nothing off. -/
def watching (g : GeneratorRef) : Observer := ⟨fun _ => noteFinished g, fun _ _ => false⟩

theorem noteFinished_keeps (h : (Law.notedFinished g).rule w) :
    (Law.notedFinished g).rule (w.noted (noteFinished g w)) := by
  intro hheld
  by_cases hfinished : w.HasFinished g
  · exact hfinished
  · rw [World.held_noted, noteFinished, if_neg hfinished] at hheld
    exact h hheld

/-- At the start of a command, the notes say whether the generator had finished before. -/
theorem noteFinished_fresh (g : GeneratorRef) (w : World) :
    (Law.notedFinished g).rule ((fresh w).noted (if w.HasFinished g then [1] else [])) := by
  intro hheld
  by_cases hfinished : w.HasFinished g
  · exact hfinished
  · rw [World.held_noted, if_neg hfinished] at hheld
    cases hheld

/-- The watched run of a command leads to worlds in which the notes are right. -/
theorem watching_settles {fuel : Nat} {full : Bool} {c : Command} (hw : Reachable w)
    (hc : c.isOfThread = false)
    (ht : (carryOut (Machine.observedEngine (watching g) fuel) full c).EndsIn
      ((fresh w).noted (if w.HasFinished g then [1] else [])) t)
    (hheld : t.held = [1]) : t.HasFinished g := by
  have hdiscreet : Machine.Discreet (Zone.Level (.notedFinished g)) (watching g) := by
    refine ⟨fun {Z event F u u'} hZ _ hu => ?_, fun {Z event u} _ _ hstops => ?_,
      fun {Z request u} hZ hbarred => ?_, fun {Z o u} hZ hbarred => ?_⟩
    · have hlaw := hu.pinned.law
      rw [hZ.property.law] at hlaw ⊢
      exact noteFinished_keeps hlaw
    · cases hstops
    · rw [hZ.law] at hbarred
      exact hbarred.elim
    · rw [hZ.law] at hbarred
      exact hbarred.elim
  have hsettled : Settles (.notedFinished g) (fresh w).thread.id 0 (fun _ => 0)
      (carryOut (Machine.observedEngine (watching g) fuel) full c)
      ((fresh w).noted (if w.HasFinished g then [1] else [])) :=
    carryOut_settles (Machine.observed_serves hdiscreet (le_refl fuel)) hc False.elim
      ⟨hw.begins (noteFinished_fresh g w) id, rfl⟩
  obtain ⟨_, _, hrests⟩ := Ends.related hsettled ht
  exact hrests.sound.law hheld

end Session

end Resumable
