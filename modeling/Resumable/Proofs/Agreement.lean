import Resumable.Proofs.RelayTurns
import Resumable.Proofs.SendingNone

set_option autoImplicit false

/-!
# Looping and delegating

A generator that loops over its argument and yields the items, and one that delegates to it, give the same
outcomes, call after call.

Between two calls the worlds of the two agree but for the generators, which are secluded there.  As long as
items come, they stay so (`Relay.Poised.round`).  When there is no item, both generators come to their end, and
raise what they make of the same end of the iterator (`Relay.Poised.last`).
-/

namespace Resumable

variable {v x it : Value} {w w' s t u : World} {g : GeneratorRef} {r : FrameRef} {c c' : CodeRef}
  {z : Exception} {given : Option Value} {n m : Nat} {keeps : List Bool} {F G : Bag}
  {xs ys : List (Except Exception Value)}

open Engine (Exhausted FailedWith Echoes)

/-! ## Calls, one after the other -/

namespace Engine

/-- Keeps the outcome of a call, or forgets it. -/
def keepOrForget (e : Engine) : Bool → Except Exception Value → Run World Unit
  | true, _ => pure ()
  | false, .ok v => e.release v
  | false, .error z => e.releaseException z

/-- Calls a generator again and again, and keeps or forgets what comes of each call. -/
def calls (e : Engine) (g : GeneratorRef) : List Bool → Run World (List (Except Exception Value))
  | [] => pure []
  | keep :: keeps => do
      let outcome ← Run.attempt (e.next g)
      e.keepOrForget keep outcome
      return outcome :: (← e.calls g keeps)

/-- The outcome of a call, and those of the calls after it. -/
theorem calls_eq_ok {e : Engine} {keep : Bool} :
    e.calls g (keep :: keeps) w = .ok ys t ↔
      ∃ outcome xs s u, Run.attempt (e.next g) w = .ok outcome s ∧ e.keepOrForget keep outcome s = .ok () u ∧
        e.calls g keeps u = .ok xs t ∧ ys = outcome :: xs := by
  rw [calls]
  simp only [Run.bind_eq_ok]
  constructor
  · rintro ⟨outcome, s, hnext, _, u, hforget, xs, t', hrest, heq⟩
    cases heq
    exact ⟨outcome, xs, s, u, hnext, hforget, hrest, rfl⟩
  · rintro ⟨outcome, xs, s, u, hnext, hforget, hrest, rfl⟩
    exact ⟨outcome, s, hnext, (), u, hforget, xs, t, hrest, rfl⟩

/-- A generator that is at its end gives nothing any more. -/
theorem calls_of_finished (hidle : (w.generator g).running = false)
    (hframe : (w.generator g).frame = none) (keeps : List Bool) :
    (Machine.engine (n + 1)).calls g keeps w =
      .ok (List.replicate keeps.length (.error .stopIteration)) w := by
  induction keeps with
  | nil => rfl
  | cons keep keeps ih =>
      have hnext : Run.attempt ((Machine.engine (n + 1)).next g) w = .ok (.error .stopIteration) w := by
        rw [Run.attempt_apply, (World.spent_of_frameless hidle hframe).next]
      refine calls_eq_ok.2 ⟨_, _, _, w, hnext, ?_, ih, rfl⟩
      cases keep <;> rfl

end Engine

section Fuel

variable {C : Zone → Prop} {Z : Zone} {e e' : Engine} (hs : Serves C e e') (hZ : Z.Fit C)

include hs hZ

theorem keepOrForget_ends {keep : Bool} {outcome : Except Exception Value}
    (h : Z.Linked (holds outcome + F) w w') :
    Ends Z.bond F holds (e.keepOrForget keep outcome w) (e'.keepOrForget keep outcome w') := by
  cases keep with
  | true => exact .ok (h.le (by rw [holds_unit, zero_add]; exact le_add_self))
  | false =>
      cases outcome with
      | ok v => exact release_ends hs hZ h
      | error z => exact releaseException_ends hs hZ h

/-- What a generator that is held gives does not depend on the fuel that is left over. -/
theorem calls_ends (hheld : Z.Held F g) (h : Z.Linked F w w') :
    Ends Z.bond F (fun _ => 0) (e.calls g keeps w) (e'.calls g keeps w') := by
  induction keeps generalizing w w' with
  | nil => exact .ok (h.le (by rw [zero_add]))
  | cons keep keeps ih =>
      refine (next_ends hs hZ hheld h).attempt.bind le_rfl fun outcome s s' hss => ?_
      refine (keepOrForget_ends hs hZ hss).bind le_rfl fun _ u u' hu => ?_
      exact (ih (hu.le (by rw [holds_unit, zero_add]))).bind le_rfl fun xs t t' ht => .ok ht

end Fuel

/-- A generator that is held gives the same with more fuel. -/
theorem World.Sound.calls_more (h : w.Sound .trivial (F + holds (Value.generator g))) (hle : n ≤ m)
    (hcalls : (Machine.engine n).calls g keeps w = .ok ys t) :
    ∃ u, (Machine.engine m).calls g keeps w = .ok ys u := by
  have hserves : Serves (Zone.Level .trivial) (Machine.engine n) (Machine.engine m) :=
    Machine.machine_serves (fun Z hZ => by
      rw [hZ.law]
      infer_instance) hle
  have hheld : (Zone.plain .trivial w).Held (F + holds (Value.generator g)) g :=
    ⟨fun ho => ho, Or.inr (by
      rw [Pi.add_apply, holds_generator, Bag.of_singleton_self]
      omega)⟩
  have hends : Ends _ _ _ ((Machine.engine n).calls g keeps w) ((Machine.engine m).calls g keeps w) :=
    calls_ends hserves (Zone.plain_fit .trivial w h.bounded) hheld h.linked
  rw [hcalls] at hends
  cases hcalls' : (Machine.engine m).calls g keeps w with
  | error reason u => rw [hcalls'] at hends; cases hends
  | ok zs u =>
      rw [hcalls'] at hends
      cases hends
      exact ⟨u, rfl⟩

/-! ## New generators -/

/-- A value that is alive is shared. -/
theorem World.Sound.retain (h : w.Sound .trivial F) (hx : ∀ o ∈ x.objects, 1 ≤ w.owners o) :
    (w.retain x).Sound .trivial (holds x + F) := by
  have hcovered : (Zone.plain .trivial w).Covered w (holds x) := fun o ho =>
    ⟨fun hh => hh, hx o (by
      by_contra hnot
      rw [show holds x o = 0 from List.count_eq_zero.2 hnot] at ho
      cases ho)⟩
  exact (h.linked.retain (Zone.plain_valid .trivial w) hcovered).sound h

theorem World.newFrame_fst (w : World) (f : Frame) : (w.newFrame f).1 = ⟨w.frames.size⟩ := rfl

/-- A new generator of such a body over a value that is no iterator. -/
theorem Relay.poised_newGenerator {R : Relay} (hR : R.Framed) (h : w.Sound .trivial (holds x))
    (hx : ∀ i, x ≠ .iterator i) (hc : (w.code c).body = .program R.program) :
    R.Poised (w.newGenerator c [x] .none).2 0 (w.newGenerator c [x] .none).1 ⟨w.frames.size⟩ c x none where
  record := by
    rw [World.newGenerator_eq, World.generator_adopt, if_pos rfl]
    rfl
  frame := by
    rw [hR.first]
    show (w.newFrame (.new c [x])).2.frame? _ = _
    rw [World.frame_newFrame, if_pos (World.newFrame_fst ..).symm]
  body := hc
  generators := by rw [World.newGenerator_eq, World.owners_adopt, if_pos rfl]
  frames := by rw [World.newGenerator_eq, World.owners_adopt, if_neg nofun, World.owners_newFrame,
    if_pos (congrArg Object.frame (World.newFrame_fst ..).symm)]
  sound := by
    have hsound : (w.newGenerator c [x] .none).2.Sound .trivial
        (.of [.generator (w.newGenerator c [x] .none).1] + 0) := World.Sound.newGenerator (h.le (by simp))
    exact hsound.le (by rw [zero_add, add_zero]; rfl)
  source := hx
  iterates := nofun
  iterators := nofun

/-- A new generator of a body over a value, which it shares with whoever holds it. -/
def World.generatorOver (w : World) (c : CodeRef) (x : Value) : GeneratorRef × World :=
  (w.retain x).newGenerator c [x] .none

/-- In a sound world, a new generator over a value that is alive stands before its first turn. -/
theorem Relay.poised_generatorOver {R : Relay} (hR : R.Framed) (h : w.Sound .trivial 0)
    (hx : ∀ i, x ≠ .iterator i) (halive : ∀ o ∈ x.objects, 1 ≤ w.owners o)
    (hc : (w.code c).body = .program R.program) :
    R.Poised (w.generatorOver c x).2 0 (w.generatorOver c x).1 ⟨(w.retain x).frames.size⟩ c x none := by
  refine poised_newGenerator hR ((h.retain halive).le (by rw [add_zero])) hx ?_
  rw [World.code, World.retain, World.codes_addOwners]
  exact hc

/-- Two worlds that differ in the code of a new generator. -/
theorem World.agreeBut_newGenerator (w : World) (c c' : CodeRef) (args : List Value) (closure : Value) :
    (w.newGenerator c args closure).2.AgreeBut (Own (w.newGenerator c args closure).1 ⟨w.frames.size⟩)
      (w.newGenerator c' args closure).2 where
  thread := rfl
  surroundings := rfl
  sizes := by
    simp only [newGenerator_eq, sizes, adopt, newFrame, Store.size_alloc]
  same o ho := by
    have hg : o ≠ .generator ⟨w.generators.size⟩ := fun heq => ho (Or.inl heq)
    have hr : o ≠ .frame ⟨w.frames.size⟩ := fun heq => ho (Or.inr heq)
    have howners : ∀ c, (w.newGenerator c args closure).2.owners o = w.owners o := fun c =>
      (owners_adopt _ _ o).trans ((if_neg hg).trans ((owners_newFrame _ _ o).trans (if_neg hr)))
    refine ⟨(howners c').trans (howners c).symm, ?_⟩
    cases o with
    | list l => rfl
    | iterator i => rfl
    | generator j =>
        have hne : j ≠ ⟨w.generators.size⟩ := fun heq => hg (heq ▸ rfl)
        have hgenerator : ∀ c, (w.newGenerator c args closure).2.generator j = w.generator j := fun c =>
          (generator_adopt _ _ j).trans (if_neg hne)
        exact congrArg Content.generator ((hgenerator c').trans (hgenerator c).symm)
    | frame q =>
        have hne : q ≠ ⟨w.frames.size⟩ := fun heq => hr (heq ▸ rfl)
        have hframe : ∀ c, (w.newGenerator c args closure).2.frame? q = w.frame? q := fun c =>
          (frame_newFrame _ _ q).trans (if_neg hne)
        exact congrArg Content.frame ((hframe c').trans (hframe c).symm)

/-! ## The last item is gone -/

/-- What two bodies make of the same end of an iterator. -/
theorem Echoes.untraced {B : Bond World} {q : Option Value → Bag} {z' : Exception}
    {out out' : EStateM.Result Interruption World (Option Value)} (hends : Ends B F q out out')
    (h : Echoes out z) (h' : Echoes out' z') :
    z.untraced = z'.untraced ∧ (z.kind = .stopIteration → z.args = []) := by
  rcases h with ⟨hstop, rfl⟩ | hfailed
  · refine ⟨?_, fun _ => rfl⟩
    rcases h' with ⟨-, rfl⟩ | hfailed'
    · rfl
    · cases hends with
      | raised => exact absurd hstop hfailed'.1
      | ok => exact False.elim hfailed'
      | _ => exact False.elim hstop
  · cases hends with
    | @raised y _ _ _ =>
        obtain ⟨hkind, htraced⟩ := hfailed
        have hsame : z.untraced.kind = y.untraced.kind := congrArg Exception.kind htraced
        refine ⟨?_, fun hz => absurd (hsame.symm.trans hz) hkind⟩
        rcases h' with ⟨hstop, -⟩ | ⟨-, htraced'⟩
        · exact absurd hstop hkind
        · exact htraced.trans htraced'.symm
    | _ => exact False.elim hfailed

namespace Relay

/-- A generator whose body has come to its end has no frame any more. -/
theorem Poised.finished {R : Relay} (h : R.Poised w F g r c x given) (hends : BodyEnds g .none n w)
    (hnext : Machine.perform n (.resume g .none) w = .error (.raised z) t) :
    t.Sound (.finished g) (holds z) := by
  have hheld : ∀ L, (Zone.plain L w).Held (F + holds (Value.generator g)) g := fun L =>
    ⟨fun ho => ho, Or.inr (by
      rw [Pi.add_apply, holds_generator, Bag.of_singleton_self]
      omega)⟩
  have hmade : w.Sound (.made g) (F + holds (Value.generator g)) :=
    h.sound.under (World.made_of_frame (r := r) (by rw [h.record])) False.elim
  have hfinishes := hends.finishes (Zone.plain_fit (.made g) w hmade.bounded) (hheld _)
    (hmade.linked.le (by simp))
  have hsettles : Settles .trivial w.thread.id (F + holds (Value.generator g)) holds
      ((Machine.engine n).next g) w :=
    Settles.of_ends h.rests fun hw => next_ends (serves_free n) h.rests.fit (hheld _) hw
  unfold Settles at hsettles
  rw [show (Machine.engine n).next g w = _ from hnext] at hsettles
  rw [hnext] at hfinishes
  cases hfinishes with
  | raised hlaw =>
      cases hsettles with
      | raised hafter => exact (hafter.2.sound.under hlaw.pinned.law False.elim).le le_self_add

/-- The calls after the last item. -/
theorem calls_of_last {keep : Bool} (h : t.Sound (.finished g) (holds z))
    (hforget : (Machine.engine (n + 1)).keepOrForget keep (.error z) t = .ok () u) :
    (Machine.engine (n + 1)).calls g keeps u =
      .ok (List.replicate keeps.length (.error .stopIteration)) u := by
  have hu : u.Sound (.finished g) 0 := by
    cases keep with
    | true =>
        cases hforget
        exact h.le bot_le
    | false =>
        have hsettles : Settles (.finished g) t.thread.id 0 (fun _ => 0)
            ((Machine.engine (n + 1)).releaseAll z.args) t :=
          Settles.releaseAll (serves_free (n + 1)) ⟨h.le (by rw [add_zero]; rfl), rfl⟩
        unfold Settles at hsettles
        rw [show (Machine.engine (n + 1)).releaseAll z.args t = _ from hforget] at hsettles
        cases hsettles with
        | ok hafter => exact hafter.2.sound.le bot_le
  exact Engine.calls_of_finished (hu.idle g) hu.law.2 keeps

/-- In the end both generators raise what they make of the same end of the iterator. -/
theorem Poised.last {P Q : Relay} {z' : Exception} (hp : P.Poised w F g r c x given) (hP : P.Faithful)
    (hq : Q.Poised w' G g r c' x given) (hQ : Q.Faithful) (hagree : w.AgreeBut (World.Own g r) w')
    (hnext : (Machine.engine (n + 6)).next g w = .error (.raised z) t)
    (hnext' : (Machine.engine (n + 6)).next g w' = .error (.raised z') u)
    (hz : ¬ w.RunsShort P.levels z) (hz' : ¬ w'.RunsShort Q.levels z') :
    (z.untraced = z'.untraced ∧ (z.kind = .stopIteration → z.args = [])) ∧
      t.Sound (.finished g) (holds z) ∧ u.Sound (.finished g) (holds z') := by
  obtain ⟨hechoes, hends⟩ := (hp.echoes hP hnext).resolve_left hz
  obtain ⟨hechoes', hends'⟩ := (hq.echoes hQ hnext').resolve_left hz'
  obtain ⟨hsecludes, -, hlinked, hcovered⟩ := hp.underway_linked hP.framed hagree
  have hasked := ask_ends (Zone.serves_apart (le_refl (n + 5)))
    (Zone.apart_fit hsecludes (holds x) (w'.underway g r)) hcovered hlinked
  exact ⟨Echoes.untraced hasked hechoes hechoes', hp.finished hends hnext, hq.finished hends' hnext'⟩

/-- What was yielded is kept or forgotten. -/
theorem Poised.keepOrForget {P Q : Relay} {keep : Bool} (hp : P.Poised w (holds v + F) g r c x given)
    (hP : P.Framed) (hq : Q.Poised w' (holds v + G) g r c' x given)
    (hagree : w.AgreeBut (World.Own g r) w')
    (hdone : (Machine.engine n).keepOrForget keep (.ok v) w = .ok () t) :
    ∃ t' F G, (Machine.engine n).keepOrForget keep (.ok v) w' = .ok () t' ∧ P.Poised t F g r c x given ∧
      Q.Poised t' G g r c' x given ∧ t.AgreeBut (World.Own g r) t' ∧ t.thread = w.thread := by
  cases keep with
  | true =>
      cases hdone
      exact ⟨w', _, _, rfl, hp, hq, hagree, rfl⟩
  | false =>
      obtain ⟨t', hdone', hp', hq', hagree', hthread⟩ := hp.release hP hq hagree hdone
      exact ⟨t', F, G, hdone', hp', hq', hagree', hthread⟩

end Relay

/-- The outcomes of two sequences of calls agree: the same values, then the same exception but for its
traceback, which has no arguments if it is the end of the iteration, and the end of the iteration ever after. -/
inductive Agreeing : List (Except Exception Value) → List (Except Exception Value) → Prop where
  | nil : Agreeing [] []
  | item (v : Value) {xs ys : List (Except Exception Value)} (h : Agreeing xs ys) :
      Agreeing (.ok v :: xs) (.ok v :: ys)
  | last {z z' : Exception} (h : z.untraced = z'.untraced) (hstop : z.kind = .stopIteration → z.args = [])
      (k : Nat) : Agreeing (.error z :: .replicate k (.error .stopIteration))
        (.error z' :: .replicate k (.error .stopIteration))

namespace Relay

/-- The outcomes of the calls of a generator that loops and of one that delegates agree, if there are two levels,
or no level is missed. -/
theorem calls_agree (hp : looping.Poised w F g r c x given) (hq : delegating.Poised w' G g r c' x given)
    (hagree : w.AgreeBut (World.Own g r) w')
    (hxs : (Machine.engine (n + 6)).calls g keeps w = .ok xs t)
    (hys : (Machine.engine (n + 6)).calls g keeps w' = .ok ys u)
    (hlevels : w.thread.depth + 2 ≤ w.thread.limit ∨ ∀ z, .error z ∈ ys → z.kind ≠ .recursionError) :
    Agreeing xs ys := by
  induction keeps generalizing w w' F G given xs ys with
  | nil =>
      cases hxs
      cases hys
      exact .nil
  | cons keep keeps ih =>
      obtain ⟨outcome, xs, s, s₁, hnext, hkeep, hrest, rfl⟩ := Engine.calls_eq_ok.1 hxs
      obtain ⟨outcome', ys, s', s₁', hnext', hkeep', hrest', rfl⟩ := Engine.calls_eq_ok.1 hys
      rcases Run.attempt_eq_ok.1 hnext with ⟨v, rfl, hv⟩ | ⟨z, rfl, hz⟩
      · -- both generators yield
        obtain ⟨it, t', hv', hp', hq', hagree', hthread⟩ :=
          hp.round faithful_looping hq faithful_delegating hagree hv
        have hattempt' : Run.attempt ((Machine.engine (n + 6)).next g) w' = .ok (.ok v) t' :=
          Run.attempt_eq_ok.2 (.inl ⟨v, rfl, hv'⟩)
        cases hnext'.symm.trans hattempt'
        obtain ⟨t₁', F', G', hdone', hp'', hq'', hagree'', hthread'⟩ :=
          hp'.keepOrForget framed_looping hq' hagree' hkeep
        cases hkeep'.symm.trans hdone'
        refine .item v (ih hp'' hq'' hagree'' hrest hrest' ?_)
        rw [hthread', hthread]
        exact hlevels.imp_right fun h z hz => h z (List.mem_cons_of_mem _ hz)
      · rcases Run.attempt_eq_ok.1 hnext' with ⟨v, rfl, hv'⟩ | ⟨z', rfl, hz'⟩
        · obtain ⟨_, _, hv, -⟩ := hq.round faithful_delegating hp faithful_looping hagree.symm hv'
          cases hz.symm.trans hv
        · have hraised : z'.kind = .recursionError → w.thread.depth + 2 ≤ w.thread.limit := fun hkind =>
            hlevels.resolve_right fun h => h z' List.mem_cons_self hkind
          have hshort' : ¬ w'.RunsShort delegating.levels z' := fun ⟨hkind, hfull⟩ => by
            have hfull : w'.thread.limit < w'.thread.depth + 2 := hfull
            have := hraised hkind
            rw [hagree.thread] at hfull
            omega
          have hshort : ¬ w.RunsShort looping.levels z := fun ⟨hkind, hfull⟩ => by
            -- there is no level for the other generator either
            have hfull : w.thread.limit < w.thread.depth + 1 := hfull
            have hrefused := hq.refused (n := n + 5) (by rw [hagree.thread]; omega)
            rw [show (Machine.engine (n + 5)).resume g .none w' = _ from hz'] at hrefused
            have := hraised hrefused.1
            omega
          obtain ⟨⟨huntraced, hstop⟩, hsound, hsound'⟩ :=
            hp.last faithful_looping hq faithful_delegating hagree hz hz' hshort hshort'
          cases hrest.symm.trans (calls_of_last hsound hkeep)
          cases hrest'.symm.trans (calls_of_last hsound' hkeep')
          exact .last huntraced hstop keeps.length

/-- As long as one of the two yields, the other one yields the same. -/
theorem calls_follow {P Q : Relay} {vs : List Value} (hp : P.Poised w F g r c x given) (hP : P.Faithful)
    (hq : Q.Poised w' G g r c' x given) (hQ : Q.Faithful) (hagree : w.AgreeBut (World.Own g r) w')
    (hvs : (Machine.engine (n + 6)).calls g keeps w = .ok (vs.map .ok) t) :
    ∃ u, (Machine.engine (n + 6)).calls g keeps w' = .ok (vs.map .ok) u := by
  induction keeps generalizing w w' F G given vs with
  | nil =>
      obtain ⟨hnil, -⟩ := EStateM.Result.ok.inj hvs
      exact ⟨w', by rw [← hnil]; rfl⟩
  | cons keep keeps ih =>
      obtain ⟨outcome, xs, s, s₁, hnext, hkeep, hrest, hcons⟩ := Engine.calls_eq_ok.1 hvs
      obtain ⟨v, vs, rfl, rfl, rfl⟩ := List.map_eq_cons_iff.1 hcons
      have hv : (Machine.engine (n + 5)).resume g .none w = .ok v s := by
        rcases Run.attempt_eq_ok.1 hnext with ⟨_, hv, hv'⟩ | ⟨_, hz, -⟩
        · cases hv
          exact hv'
        · cases hz
      obtain ⟨it, t', hv', hp', hq', hagree', -⟩ := hp.round hP hq hQ hagree hv
      obtain ⟨t₁', F', G', hdone', hp'', hq'', hagree'', -⟩ :=
        hp'.keepOrForget hP.framed hq' hagree' hkeep
      obtain ⟨u, hrest'⟩ := ih hp'' hq'' hagree'' hrest
      exact ⟨u, Engine.calls_eq_ok.2 ⟨_, _, t', t₁', Run.attempt_eq_ok.2 (.inl ⟨v, rfl, hv'⟩), hdone',
        hrest', rfl⟩⟩

end Relay

/-! ## New generators over one value -/

namespace Session

/-- What makes the two bodies, and a generator that yields twice. -/
def relayingCommands : List Command :=
  [.assemble "loop" Code.looping, .assemble "delegation" Code.delegating, .assemble "items" yieldingTwice,
    .makeGenerator "x" "items" [] .none]

end Session

end Resumable
