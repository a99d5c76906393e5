import Resumable.Proofs.Levels
import Resumable.Proofs.Pending

set_option autoImplicit false

/-!
# Requests to finish

A generator that is closed is resumed with a request to finish pending in its frame.  An observer notes
each time that this happens to one of some generators (`Machine.exits`), and keeps count of the objects
that are being reclaimed.  It breaks the run off if meanwhile one of these generators is asked for
anything.

Whatever code runs, a request to finish is raised in one of these generators only if the frame is at
rest and the generator is idle, and the one who closes a generator sees to it that this happens once
(`exits_once`).
-/

namespace Resumable

variable {g i : GeneratorRef} {r : FrameRef} {v : Value} {w w' t t' u : World} {Z : Zone}
  {F G : Bag} {n depth : Nat} {chain dead opened : List GeneratorRef} {seen : List Nat}

/-! ## The observer -/

/-- A resume of the frame raises the request to finish at its resume point. -/
def Frame.raisesExit (f : Frame) : Bool :=
  !f.isFinished && decide (f.pending.map (·.kind) = some .generatorExit)

/-- A resume of the generator raises the request to finish in its body. -/
def World.raisesExit (w : World) (g : GeneratorRef) : Bool :=
  !(w.generator g).running && decide (w.thread.depth < w.thread.limit) &&
    (((w.generator g).frame.bind w.frame?).map Frame.raisesExit).getD false

/-- The observer of some generators.  It notes the number of objects that are being reclaimed and then,
one after the other, the generators in whose bodies the request to finish was raised. -/
def Machine.exits (chain : List GeneratorRef) : Observer where
  note event w :=
    match w.held with
    | [] => []
    | depth :: exits =>
        match event with
        | .asked (.reclaim _) => (depth + 1) :: exits
        | .answered (.reclaim _) => (depth - 1) :: exits
        | .asked (.resume g _) =>
            depth :: (exits ++ if g ∈ chain ∧ w.raisesExit g = true then [g.index] else [])
        | _ => depth :: exits
  stops event w :=
    match event with
    | .asked request => decide (w.held.head? ≠ some 0 ∧ ∃ g ∈ chain, request.addressee = some g)
    | .answered _ => false

/-- The notes are these, the generators that are observed exist, and these generators have no frame.
While objects are being reclaimed, the generators that are observed are not asked for anything. -/
def Law.closing (chain : List GeneratorRef) (depth : Nat) (seen : List Nat)
    (dead : List GeneratorRef) : Law where
  rule w := w.held = depth :: seen ∧ (∀ g ∈ chain, g.index < w.generators.size) ∧
    ∀ g ∈ dead, w.HasFinished g
  keeps h hle := ⟨hle.held.trans h.1, fun g hg => lt_of_lt_of_le (h.2.1 g hg) hle.size,
    fun g hg => (h.2.2 g hg).mono hle⟩
  broken _ := True
  bars request _ := depth ≠ 0 ∧ ∃ g ∈ chain, request.addressee = some g

theorem Law.closing_disposes (o : Object) (w : World) :
    ¬ (Law.closing chain depth seen dead).bars (.reclaim o) w := by
  rintro ⟨_, _, _, haddressee⟩
  cases haddressee

theorem Law.barred_closing_iff :
    (Law.closing chain depth seen dead).Barred g ↔ depth ≠ 0 ∧ g ∈ chain := by
  constructor
  · intro h
    obtain ⟨hdepth, i, hi, haddressee⟩ := h (.close g) default rfl
    obtain rfl : g = i := Option.some.inj haddressee
    exact ⟨hdepth, hi⟩
  · rintro ⟨hdepth, hg⟩ request w haddressee
    exact ⟨hdepth, g, hg, haddressee⟩

namespace Zone

/-- The zones under such a law in which each of the generators has no frame, or does not change, or is
left open. -/
structure Closing (chain : List GeneratorRef) (seen : List Nat) (dead opened : List GeneratorRef)
    (Z : Zone) : Prop where
  level : ∃ depth, Level (.closing chain depth seen dead) Z
  settled : ∀ g ∈ chain, g ∈ dead ∨ g ∈ opened ∨ (Z.fixed g).isSome = true

theorem closing_inherited : Inherited (Closing chain seen dead opened) := by
  intro Z Z' h hext
  obtain ⟨depth, hlevel⟩ := h.level
  refine ⟨⟨depth, level_inherited _ _ _ hlevel hext⟩, fun g hg => ?_⟩
  refine (h.settled g hg).imp_right fun h => h.imp_right fun hfixed => ?_
  obtain ⟨x, hx⟩ := Option.isSome_iff_exists.1 hfixed
  rw [hext.fixed g x hx]
  rfl

/-- Another law of this kind, and other generators that are left open. -/
theorem Fit.closing {L : Law} (h : Z.Fit (Level L)) {seen : List Nat}
    {dead opened : List GeneratorRef}
    (hbars : ∀ g, L.Barred g → depth ≠ 0 ∧ g ∈ chain) (hdisposes : ∀ o w, ¬ L.bars (.reclaim o) w)
    (hsettled : ∀ g ∈ chain, g ∈ dead ∨ g ∈ opened ∨ (Z.fixed g).isSome = true) :
    (Z.decree (.closing chain depth seen dead)).Fit (Closing chain seen dead opened) where
  inherited := closing_inherited
  property := ⟨⟨depth, { h.property with law := rfl }⟩, hsettled⟩
  valid := by
    refine h.valid.decree (fun g hbarred => ?_) fun o ho w => ?_
    · rw [h.property.law] at hbarred
      exact Law.barred_closing_iff.2 (hbars g hbarred)
    · have hbarred := h.valid.spared o ho w
      rw [h.property.law] at hbarred
      exact absurd hbarred (hdisposes o w)
  room := Or.inl h.property.thread

end Zone

/-! ## Going along with a run -/

theorem World.raisesExit_iff :
    w.raisesExit g = true ↔ (w.generator g).running = false ∧ w.thread.depth < w.thread.limit ∧
      ∃ r f, (w.generator g).frame = some r ∧ w.frame? r = some f ∧ f.raisesExit = true := by
  unfold World.raisesExit
  cases (w.generator g).frame with
  | none => simp
  | some r => cases hf : w.frame? r <;> simp [hf, and_assoc]

/-- No request to finish is raised in a generator that has no frame or does not change, unless it is
barred. -/
theorem Zone.Linked.raises_no_exit (h : Z.Linked F w w') (hZ : Z.Fit (Zone.Closing chain seen dead []))
    (hg : g ∈ chain) (hlaw : Z.law = .closing chain 0 seen dead) : w.raisesExit g = false := by
  by_contra hraises
  obtain ⟨hidle, _, r, f, hslot, hf, _⟩ := World.raisesExit_iff.1 (by simpa using hraises)
  have hrule := h.pinned.law
  rw [hlaw] at hrule
  rcases hZ.property.settled g hg with hdead | hopened | hfixed
  · rw [(hrule.2.2 g hdead).2] at hslot
    cases hslot
  · cases hopened
  · obtain ⟨x, hx⟩ := Option.isSome_iff_exists.1 hfixed
    obtain ⟨_, hlevel⟩ := hZ.property.level
    have hfree := h.free hZ.valid (hlevel.hidden _)
      (Or.inr fun hbarred => (Law.barred_closing_iff.1 (hlaw ▸ hbarred)).1 rfl) hidle hslot hf
    rw [hfree] at hx
    cases hx

/-- A request that does not make the observer break the run off. -/
theorem admitted_of_goesOn {request : Request} (hheld : w.held.head? = some depth)
    (hgoes : (Machine.exits chain).stops (.asked request) w = false) :
    ¬ (depth ≠ 0 ∧ ∃ g ∈ chain, request.addressee = some g) := by
  intro h
  have : (Machine.exits chain).stops (.asked request) w = true := by
    simpa [Machine.exits, hheld] using h
  rw [this] at hgoes
  cases hgoes

/-- The observer goes along with the computations that cannot raise the request to finish in one of the
generators. -/
theorem exits_attends : Machine.Attends (Zone.Closing chain seen dead []) (Machine.exits chain) where
  breaks hZ _ _ _ := by
    obtain ⟨_, hlevel⟩ := hZ.property.level
    rw [hlevel.law]
    exact True.intro
  goesOn {Z request F w w'} hZ hgranted h hgoes := by
    obtain ⟨⟨depth, hlevel⟩, hsettled⟩ := hZ.property
    have hrule := h.pinned.law
    rw [hlevel.law] at hrule
    obtain ⟨hheld, hmade⟩ := hrule
    -- the notes before the request and afterwards decide on the law under which it is answered
    have hbridge : ∀ k : Nat, (depth ≠ 0 → k ≠ 0) →
        (Machine.exits chain).note (.asked request) w = k :: seen →
        (∀ t, t.held = k :: seen →
          (Machine.exits chain).note (.answered request) t = depth :: seen) →
        ¬ (k ≠ 0 ∧ ∃ g ∈ chain, request.addressee = some g) →
          ∃ L, Machine.Bridges (Zone.Closing chain seen dead []) (Machine.exits chain) Z request w L := by
      intro k hk hasked hanswered hadmitted
      refine ⟨.closing chain k seen dead, ?_⟩
      exact
        { fit := Zone.Fit.closing ⟨Zone.level_inherited _, hlevel, hZ.valid, hZ.room⟩
            (fun g hbarred => (Law.barred_closing_iff.1 hbarred).imp_left hk) Law.closing_disposes
            hsettled
          rule := by
            rw [hasked]
            exact ⟨rfl, hmade⟩
          tame := by
            rw [hlevel.law]
            exact Iff.rfl
          admitted := hadmitted
          broken := fun _ _ => by
            rw [hlevel.law]
            exact True.intro
          back := fun {G t t'} ht => by
            rw [hlevel.law, hanswered t ht.pinned.law.1]
            exact ⟨rfl, ht.pinned.law.2⟩
          ends := fun _ _ => by
            rw [hlevel.law]
            exact True.intro }
    have hstays : ¬ (depth ≠ 0 ∧ ∃ g ∈ chain, request.addressee = some g) →
        (Machine.exits chain).note (.asked request) w = depth :: seen →
        (∀ t, t.held = depth :: seen →
          (Machine.exits chain).note (.answered request) t = depth :: seen) →
          ∃ L, Machine.Bridges (Zone.Closing chain seen dead []) (Machine.exits chain) Z request w L :=
      fun hadmitted hasked hanswered => hbridge depth id hasked hanswered hadmitted
    cases request with
    | reclaim o =>
        refine hbridge (depth + 1) (fun _ => Nat.succ_ne_zero depth) ?_ (fun t ht => ?_) ?_
        · simp [Machine.exits, hheld]
        · simp [Machine.exits, ht]
        · rintro ⟨_, g, _, haddressee⟩
          cases haddressee
    | throw g thrown =>
        have hasked : (Machine.exits chain).note (.asked (.throw g thrown)) w = depth :: seen := by
          simp [Machine.exits, hheld]
        have hadmitted := admitted_of_goesOn (by rw [hasked]; rfl) hgoes
        exact hstays hadmitted hasked fun t ht => by simp [Machine.exits, ht]
    | close g =>
        have hasked : (Machine.exits chain).note (.asked (.close g)) w = depth :: seen := by
          simp [Machine.exits, hheld]
        have hadmitted := admitted_of_goesOn (by rw [hasked]; rfl) hgoes
        exact hstays hadmitted hasked fun t ht => by simp [Machine.exits, ht]
    | resume g input =>
        have hadmitted : ¬ (depth ≠ 0 ∧ ∃ i ∈ chain, (Request.resume g input).addressee = some i) :=
          admitted_of_goesOn (by simp [Machine.exits, hheld]) hgoes
        have hcalm : ¬ (g ∈ chain ∧ w.raisesExit g = true) := by
          rintro ⟨hg, hraises⟩
          have hdepth : depth = 0 := by
            by_contra hdepth
            exact hadmitted ⟨hdepth, g, hg, rfl⟩
          have := h.raises_no_exit hZ hg (hdepth ▸ hlevel.law)
          rw [hraises] at this
          cases this
        exact hstays hadmitted (by simp [Machine.exits, hheld, hcalm])
          fun t ht => by simp [Machine.exits, ht]
  spares {Z o w} hZ ho := by
    obtain ⟨_, hlevel⟩ := hZ.property.level
    have hbarred := hZ.valid.spared o ho w
    rw [hlevel.law] at hbarred
    exact absurd hbarred (Law.closing_disposes o w)

theorem exits_serves (chain : List GeneratorRef) (seen : List Nat) (dead : List GeneratorRef)
    (n : Nat) : Serves (Zone.Closing chain seen dead [])
      (Machine.observedEngine (Machine.exits chain) n) (Machine.engine n) :=
  Machine.attended_serves exits_attends (le_refl n)

/-! ## Forgetting objects while a generator is closed -/

/-- A generator that is being closed.  It is left open, and so are others. -/
structure Own (chain : List GeneratorRef) (seen : List Nat) (dead opened : List GeneratorRef)
    (g : GeneratorRef) (r : FrameRef) (Z : Zone) (F : Bag) (w : World) : Prop where
  fit : Z.Fit (Zone.Closing chain seen dead (g :: opened))
  law : Z.law = .closing chain 0 seen dead
  mem : g ∈ chain
  held : Z.Held F g
  free : Z.fixed g = none
  cell : ∀ f, Z.cells r ≠ some (some f)
  slot : (w.generator g).frame = some r
  program : (w.generator g).RunsProgram Z.codes

theorem Own.level (h : Own chain seen dead opened g r Z F w) :
    Zone.Level (.closing chain 0 seen dead) Z := by
  obtain ⟨_, hlevel⟩ := h.fit.property.level
  exact { hlevel with law := h.law }

/-- Nothing is asked of the bodies. -/
theorem Own.untame (h : Own chain seen dead opened g r Z F w) : ¬ Z.law.tame := by
  rw [h.law]
  exact id

/-- The cell of the frame may change if the frame is in it. -/
theorem Own.loose (h : Own chain seen dead opened g r Z F w) (hw : Z.Linked G w w) {f : Frame}
    (hf : w.frame? r = some f) : Z.cells r = none :=
  hw.loose h.cell hf

/-- The frame is in its cell unless it is known to be in use. -/
theorem Own.vacant (h : Own chain seen dead opened g r Z F w) (hw : Z.Linked G w w)
    (hvacant : w.frame? r = none) : Z.cells r = some none := by
  have hone : 1 ≤ holds (w.generator g) (.frame r) := by
    rw [holds_generatorObject, h.slot]
    simp [Bag.of_singleton_self]
  have hcovered := hw.covered_of_references (World.holds_generator_le (g := g) (h.level.hidden _))
  exact hw.accounted.seated (.frame r) (h.level.hidden _) (hcovered _ hone).2 hvacant

/-- A generator that does not change is not left open. -/
theorem Zone.Fit.settle (h : Z.Fit (Zone.Closing chain seen dead (g :: opened)))
    (hfixed : (Z.fixed g).isSome = true) : Z.Fit (Zone.Closing chain seen dead opened) where
  inherited := Zone.closing_inherited
  property := by
    refine ⟨h.property.level, fun i hi => (h.property.settled i hi).imp_right fun hrest => ?_⟩
    rcases hrest with hopened | hfixed'
    · rcases List.mem_cons.1 hopened with rfl | hopened
      · exact Or.inr hfixed
      · exact Or.inl hopened
    · exact Or.inr hfixed'
  valid := h.valid
  room := h.room

/-- The zone in which an object is reclaimed meanwhile.  The generator is barred, so it does not
change. -/
def Zone.barring (Z : Zone) (B : Bag) (chain : List GeneratorRef) (seen : List Nat)
    (dead : List GeneratorRef) (g : GeneratorRef) (r : FrameRef) (w : World) : Zone :=
  (((Z.decree (.closing chain 1 seen dead)).lend B).fix g (w.generator g)).pin r (w.frame? r)

/-- Going into such a zone. -/
theorem Own.bar (h : Own chain seen dead [] g r Z F w) (hw : Z.Linked F w w) :
    ∃ B H, B + H = F ∧
      (Z.barring B chain seen dead g r w).Fit (Zone.Closing chain seen dead []) ∧
      (Z.barring B chain seen dead g r w).Linked H (w.noted (1 :: seen)) (w.noted (1 :: seen)) := by
  obtain ⟨B, H, hsplit, hkept⟩ := h.held.split
  have hrule := hw.pinned.law
  rw [h.law] at hrule
  let Y : Zone := Z.decree (.closing chain 1 seen dead)
  have hfit : Y.Fit (Zone.Closing chain seen dead [g]) :=
    Zone.Fit.closing ⟨Zone.level_inherited _, h.level, h.fit.valid, h.fit.room⟩
      (fun i hbarred => absurd rfl (Law.barred_closing_iff.1 hbarred).1) Law.closing_disposes
      h.fit.property.settled
  have hbarred : Y.law.Barred g := Law.barred_closing_iff.2 ⟨Nat.one_ne_zero, h.mem⟩
  have hY : Y.Linked F (w.noted (1 :: seen)) (w.noted (1 :: seen)) :=
    (Machine.linked_noted hw (L := .closing chain 1 seen dead) ⟨rfl, hrule.2⟩ False.elim).self
      { h.level with law := rfl }
  have hlent : (Y.lend B).Linked H (w.noted (1 :: seen)) (w.noted (1 :: seen)) :=
    Zone.Linked.lend (by rwa [hsplit])
  refine ⟨B, H, hsplit, ?_, (hlent.fix (g := g) h.free).pin rfl⟩
  exact ((hfit.lend B).lock hkept h.held.1 (Or.inr hbarred) h.slot h.free
    (hlent.allows r)).settle (by simp [Zone.fix, Zone.pin])

/-- Coming out of such a zone. -/
theorem Own.unbar (h : Own chain seen dead [] g r Z F w) (hw : Z.Linked F w w) {B H : Bag}
    (hsplit : B + H = F) (hu : (Z.barring B chain seen dead g r w).Linked H t t') :
    Z.Linked F (t.noted (0 :: seen)) (t.noted (0 :: seen)) ∧
      t.generator g = w.generator g ∧ t.frame? r = w.frame? r := by
  refine ⟨?_, hu.pinned.fixed g _ (by simp [Zone.barring, Zone.fix, Zone.pin]),
    hu.pinned.cells r _ (by simp [Zone.barring, Zone.pin])⟩
  have hB : ∀ o, Z.sealed o → B o = 0 := hw.unsealed (by rw [← hsplit]; exact le_self_add)
  have hunpinned : (((Z.decree (.closing chain 1 seen dead)).lend B).fix g (w.generator g)).Linked
      H t t' := Zone.Linked.unpin hu (hw.allows r) (h.vacant hw)
  have hback : (Z.decree (.closing chain 1 seen dead)).Linked (B + H) t t' :=
    (hunpinned.unfix h.free (hw.idle h.free)).unlend hB
  rw [hsplit] at hback
  have hend := Machine.linked_noted hback (L := .closing chain 0 seen dead)
    ⟨rfl, hback.pinned.law.2⟩ False.elim
  have hZ : (Z.decree (.closing chain 1 seen dead)).decree (.closing chain 0 seen dead) = Z := by
    rw [← h.law]
    rfl
  rw [hZ] at hend
  exact hend.self h.level

/-- What is reclaimed under observation leaves the generator and its frame as they are. -/
theorem Own.reclaim (h : Own chain seen dead [] g r Z F w) {o : Object} (ho : ¬ Z.sealed o)
    (howners : w.owners o = 0) (hw : Z.Linked F w w)
    (hrun : Machine.observed (Machine.exits chain) n (.reclaim o) w = .ok v t) :
    Z.Linked F t t ∧ t.generator g = w.generator g ∧ t.frame? r = w.frame? r := by
  cases n with
  | zero => cases hrun
  | succ n =>
      obtain ⟨_, u, hanswer, hsee⟩ := observed_eq_ok.1 hrun
      obtain ⟨_, rfl⟩ := see_eq_ok.1 hsee
      have hrule := hw.pinned.law
      rw [h.law] at hrule
      have hasked : (Machine.exits chain).note (.asked (.reclaim o)) w = 1 :: seen := by
        simp [Machine.exits, hrule.1]
      rw [hasked] at hanswer
      obtain ⟨B, H, hsplit, hfit, hbegun⟩ := h.bar hw
      have hgranted : (Request.reclaim o).Granted (Z.barring B chain seen dead g r w) H
          (w.noted (1 :: seen)) := ⟨ho, by cases o <;> exact howners⟩
      have hends := answer_ends (exits_serves chain seen dead n) hfit
        (.reclaim o) (fun hbars => by obtain ⟨_, _, _, heq⟩ := hbars; cases heq) hgranted
        (hbegun.le (by rw [holds_request_reclaim, zero_add]))
      rw [hanswer] at hends
      obtain ⟨_, _, hu⟩ := hends.of_ok
      have hu := hu.le le_add_self
      have hnote : (Machine.exits chain).note (.answered (.reclaim o)) u = 0 :: seen := by
        simp [Machine.exits, hu.pinned.law.1]
      rw [hnote]
      exact h.unbar hw hsplit hu

theorem Own.le (h : Own chain seen dead [] g r Z F w) (hle : F ≤ G) : Own chain seen dead [] g r Z G w :=
  { h with held := h.held.le hle }

theorem Own.next (h : Own chain seen dead [] g r Z F w) (ht : t.generator g = w.generator g) :
    Own chain seen dead [] g r Z F t :=
  { h with
    slot := by rw [ht, h.slot]
    program := by
      rw [ht]
      exact h.program }

theorem Own.unspared (h : Own chain seen dead opened g r Z F w) (o : Object) : ¬ Z.spared o := by
  intro ho
  have hbarred := h.fit.valid.spared o ho w
  rw [h.law] at hbarred
  exact Law.closing_disposes o w hbarred

/-- Forgetting an object under observation. -/
theorem Own.releaseObject {o : Object} (h : Own chain seen dead [] g r Z F w)
    (hw : Z.Linked (.of [o] + F) w w)
    (hrun : (Machine.observedEngine (Machine.exits chain) n).releaseObject o w = .ok () t) :
    Z.Linked F t t ∧ t.generator g = w.generator g ∧ t.frame? r = w.frame? r := by
  have hsealed : ¬ Z.sealed o := hw.not_sealed (by simp [Bag.of_singleton_self])
  unfold Engine.releaseObject at hrun
  cases hn : w.owners o with
  | zero =>
      simp only [hn] at hrun
      cases hrun
      exact ⟨hw.le le_add_self, rfl, rfl⟩
  | succ k =>
      have hdropped := hw.dropOwner h.fit.valid hn hn fun hspared => absurd hspared (h.unspared o)
      cases k with
      | zero =>
          simp only [hn] at hrun
          split at hrun
          · next v u hreclaimed =>
              cases hrun
              have h' : Own chain seen dead [] g r Z F (w.setOwners 0 o) := h.next (by simp)
              obtain ⟨ht, hgenerator, hframe⟩ := h'.reclaim hsealed (by simp) hdropped hreclaimed
              exact ⟨ht, by simpa using hgenerator, by simpa using hframe⟩
          · cases hrun
      | succ k =>
          simp only [hn] at hrun
          cases hrun
          exact ⟨hdropped, by simp, by simp⟩

/-- Forgetting objects under observation leaves the generator and its frame as they are. -/
theorem Own.releaseObjects (os : List Object) (h : Own chain seen dead [] g r Z F w)
    (hw : Z.Linked (.of os + F) w w)
    (hrun : (Machine.observedEngine (Machine.exits chain) n).releaseObjects os w = .ok () t) :
    Z.Linked F t t ∧ t.generator g = w.generator g ∧ t.frame? r = w.frame? r := by
  induction os generalizing w with
  | nil =>
      cases hrun
      exact ⟨hw.le (by simp), rfl, rfl⟩
  | cons o os ih =>
      obtain ⟨u, hfirst, hrest⟩ := Run.ensuring_eq_ok.1 hrun
      rw [Bag.of_cons, add_assoc] at hw
      obtain ⟨hu, hgenerator, hframe⟩ := (h.le le_add_self).releaseObject hw hfirst
      obtain ⟨ht, hgenerator', hframe'⟩ := ih (h.next hgenerator) hu hrest
      exact ⟨ht, hgenerator'.trans hgenerator, hframe'.trans hframe⟩

/-! ## Changing the frame while a generator is closed -/

/-- Taking the frame out of its cell. -/
theorem Own.takeFrame {f : Frame} (h : Own chain seen dead [] g r Z F w) (hw : Z.Linked G w w)
    (hf : w.frame? r = some f) :
    Own chain seen dead [] g r (Z.pin r none) F (w.setFrame r none) ∧
      (Z.pin r none).Linked (holds f + G) (w.setFrame r none) (w.setFrame r none) := by
  have hpinned : Own chain seen dead [] g r (Z.pin r none) F w :=
    { h with
      fit := h.fit.pin_none (h.loose hw hf)
      cell := fun b hb => by simp [Zone.pin] at hb }
  exact ⟨hpinned.next (World.generator_setFrame ..), hw.takeFrame (h.level.hidden _) hf⟩

/-- A change of the frame out of its cell. -/
theorem Own.replace {c : Frame → Frame × List Value} {f b : Frame}
    (hrun : (Machine.observedEngine (Machine.exits chain) n).replace c (f, w) = .ok () (b, t))
    (h : Own chain seen dead [] g r Z F w) (hw : Z.Linked (holds f + (G + F)) w w)
    (hc : holds (c f).1 + holds (c f).2 ≤ G + holds f) :
    b = (c f).1 ∧ Z.Linked (holds b + F) t t ∧ t.generator g = w.generator g ∧
      t.frame? r = w.frame? r := by
  obtain ⟨rfl, hforgotten⟩ := Engine.replace_eq_ok.1 hrun
  refine ⟨rfl, (h.le le_add_self).releaseObjects _ (hw.le fun o => ?_) hforgotten⟩
  have := Bag.apply_le hc o
  simp only [holds_values, Pi.add_apply] at this ⊢
  omega

/-- What a change of the frame leaves. -/
structure Own.Changed (g : GeneratorRef) (r : FrameRef) (Z : Zone) (F : Bag) (w : World) (b : Frame)
    (t : World) : Prop where
  linked : Z.Linked F t t
  generator : t.generator g = w.generator g
  frame : t.frame? r = some b

/-- A change of the frame in its cell. -/
theorem Own.change {c : Frame → Frame × List Value} {f : Frame}
    (hrun : World.withFrame r ((Machine.observedEngine (Machine.exits chain) n).replace c) w
      = .ok () t)
    (h : Own chain seen dead [] g r Z F w) (hw : Z.Linked (G + F) w w) (hf : w.frame? r = some f)
    (hc : holds (c f).1 + holds (c f).2 ≤ G + holds f) :
    Own.Changed g r Z F w (c f).1 t := by
  obtain ⟨f', b, u, hf', hchanged, rfl⟩ := World.withFrame_eq_ok.1 hrun
  obtain rfl : f' = f := Option.some.inj (hf'.symm.trans hf)
  obtain ⟨htaken, hout⟩ := h.takeFrame hw hf
  obtain ⟨rfl, hu, hgenerator, _⟩ := htaken.replace hchanged hout hc
  refine ⟨hu.putFrame (h.level.hidden _) (h.loose hw hf) fun hlaw => absurd hlaw h.untame, ?_, by simp⟩
  simpa using hgenerator

theorem Own.dropDelegate {f : Frame}
    (hrun : (Machine.observedEngine (Machine.exits chain) n).dropDelegate r w = .ok () t)
    (h : Own chain seen dead [] g r Z F w) (hw : Z.Linked F w w) (hf : w.frame? r = some f) :
    Own.Changed g r Z F w f.removeDelegate.1 t :=
  Own.change (G := 0) hrun h (by rwa [zero_add]) hf (by rw [holds_removeDelegate, zero_add])

theorem Own.leavePending {f : Frame} {x : Exception}
    (hrun : (Machine.observedEngine (Machine.exits chain) n).leavePending r x w = .ok () t)
    (h : Own chain seen dead [] g r Z F w) (hw : Z.Linked (holds x + F) w w)
    (hf : w.frame? r = some f) :
    Own.Changed g r Z F w (f.replacePending x).1 t :=
  Own.change (Engine.withFrameFor_eq_ok.1 hrun) h hw hf (holds_replacePending f x).le

/-- Telling the frame that its delegate ran out leaves what is pending as it is. -/
theorem Own.finishDelegation {f : Frame}
    (hrun : (Machine.observedEngine (Machine.exits chain) n).finishDelegation r v w = .ok () t)
    (h : Own chain seen dead [] g r Z F w) (hw : Z.Linked (holds v + F) w w)
    (hf : w.frame? r = some f) :
    ∃ b, b.pending = f.pending ∧ Own.Changed g r Z F w b t := by
  have hrun := Engine.withFrameFor_eq_ok.1 hrun
  obtain ⟨f', b, u, hf', hchanged, rfl⟩ := World.withFrame_eq_ok.1 hrun
  obtain rfl : f' = f := Option.some.inj (hf'.symm.trans hf)
  obtain ⟨⟨⟩, ⟨f₁, u₁⟩, hmoved, hput⟩ := Run.bind_eq_ok.1 hchanged
  obtain ⟨⟨⟩, ⟨f₂, u₂⟩, hremoved, hstepped⟩ := Run.bind_eq_ok.1 (Run.onInterruption_eq_ok.1 hmoved)
  obtain ⟨rfl, rfl⟩ := World.stepOn_eq_ok hstepped
  obtain ⟨htaken, hout⟩ := h.takeFrame hw hf
  obtain ⟨rfl, hu₁, hgenerator₁, _⟩ := (htaken.le (G := holds v + F) le_add_self).replace (G := 0)
    hremoved (by rwa [zero_add]) (by rw [holds_removeDelegate, zero_add])
  obtain ⟨rfl, hu, hgenerator, _⟩ := (htaken.next hgenerator₁).replace hput hu₁
    (holds_replaceDelegationResult _ v).le
  refine ⟨(f'.removeDelegate.1.stepOn.replaceDelegationResult v).1, rfl, ?_, ?_, by simp⟩
  · exact hu.putFrame (h.level.hidden _) (h.loose hw hf) fun hlaw => absurd hlaw h.untame
  · simpa using hgenerator.trans hgenerator₁

/-! ## Resuming a generator that is being closed -/

/-- What is left when the body has been run and has come to this end: nothing is pending in the
frame. -/
theorem Own.startBody {f : Frame} {outcome : Except Exception Suspension}
    (hrun : (Machine.observedEngine (Machine.exits chain) n).startBody g r .none w = .ok outcome t)
    (h : Own chain seen dead [] g r Z F w) (hw : Z.Linked F w w) (hf : w.frame? r = some f) :
    ∃ b, b.pending = none ∧ Z.Linked (holds outcome + F) t t ∧ t.generator g = w.generator g ∧
      t.frame? r = some b := by
  have htaken := takePending_linked hw (h.level.hidden _) (h.loose hw hf) hf
  unfold Engine.startBody at hrun
  rw [takePending_bind hf] at hrun
  generalize hw₁ : (w.setFrame r none).setFrame r (some { f with pending := none }) = w₁ at htaken hrun
  have hgenerator : w₁.generator g = w.generator g := by simp [← hw₁]
  have hf₁ : w₁.frame? r = some { f with pending := none } := by simp [← hw₁]
  have hrun : Run.attempt ((Machine.observedEngine (Machine.exits chain) n).runBody g r f.pending) w₁
      = .ok outcome t := hrun
  have hprogram : (w₁.generator g).RunsProgram w₁.codes := by
    rw [hgenerator, htaken.pinned.codes]
    exact h.program
  obtain ⟨b, hb, hpending⟩ := runBody_pending hprogram hf₁ hrun
  have hends := runBody_keeps (exits_serves chain seen dead n) h.fit
    (fun hY hfixed => hY.settle hfixed) h.held h.free (h.loose hw hf) (hgenerator ▸ h.slot) htaken
  have hends := hends.attempt
  rw [hrun] at hends
  obtain ⟨_, _, ht, hgenerator'⟩ := hends.of_ok
  exact ⟨b, hpending, ht.self h.level, hgenerator'.trans hgenerator, hb⟩

/-- The law once the generator has no frame. -/
theorem Own.law_finished (h : Own chain seen dead [] g r Z F w) (t : World) (ht : Z.law.rule t)
    (hframe : (t.generator g).frame = none) : (Law.closing chain 0 seen (g :: dead)).rule t := by
  rw [h.law] at ht
  refine ⟨ht.1, ht.2.1, fun i hi => ?_⟩
  rcases List.mem_cons.1 hi with rfl | hi
  · exact ⟨ht.2.1 i h.mem, hframe⟩
  · exact ht.2.2 i hi

/-- The zone once the generator has no frame. -/
theorem Own.fit_finished (h : Own chain seen dead [] g r Z F w) (seen' : List Nat) :
    (Z.decree (.closing chain 0 seen' (g :: dead))).Fit
      (Zone.Closing chain seen' (g :: dead) []) := by
  refine Zone.Fit.closing ⟨Zone.level_inherited _, h.level, h.fit.valid, h.fit.room⟩
    (fun i hbarred => absurd rfl (Law.barred_closing_iff.1 hbarred).1) Law.closing_disposes
    fun i hi => ?_
  rcases h.fit.property.settled i hi with hdead | hopened | hfixed
  · exact Or.inl (List.mem_cons_of_mem g hdead)
  · exact Or.inl (by rw [List.mem_singleton.1 hopened]; exact List.mem_cons_self)
  · exact Or.inr (Or.inr hfixed)

theorem Own.level_finished (h : Own chain seen dead [] g r Z F w) (seen' : List Nat) :
    Zone.Level (.closing chain 0 seen' (g :: dead)) (Z.decree (.closing chain 0 seen' (g :: dead))) :=
  { h.level with law := rfl }

/-- Running the body does not raise: how it ended is what it gives. -/
theorem startBody_silent {e : Engine} (g : GeneratorRef) (r : FrameRef) :
    Run.Silent (e.startBody g r .none) := by
  have htake : Run.Silent (Engine.takePending r) :=
    Engine.withFrame_silent fun _ _ _ h => nomatch h
  refine htake.bind fun pending => Run.Silent.bind ?_ fun _ _ _ _ => Run.attempt_ne_raised
  exact fun _ _ _ h => nomatch h

/-- A resume of the frame that ends with an exception is the end of the generator. -/
theorem Own.resumeFrame {f : Frame} {x : Exception}
    (hrun : (Machine.observedEngine (Machine.exits chain) n).resumeFrame g r .none w
      = .error (.raised x) t)
    (h : Own chain seen dead [] g r Z F w) (hw : Z.Linked F w w) (hf : w.frame? r = some f) :
    (Z.decree (.closing chain 0 seen (g :: dead))).Linked (holds x + F) t t := by
  have hs := exits_serves chain seen (g :: dead) n
  have hfit := h.fit_finished seen
  have hhidden : ¬ Z.hidden (.generator g) := h.level.hidden _
  by_cases hfinished : f.isFinished = true
  · -- the frame has finished before, and nothing is run
    rw [resumeFrame_of_finished hf hfinished] at hrun
    have htaken := takePending_linked hw (h.level.hidden _) (h.loose hw hf) hf
    generalize (w.setFrame r none).setFrame r (some { f with pending := none }) = u at htaken hrun
    have hends : Ends (Z.decree (.closing chain 0 seen (g :: dead))).bond F
        (holds : Option Value → Bag)
        (Run.ensuring (do
          (Machine.observedEngine (Machine.exits chain) n).terminate g
          Run.raise .stopIteration)
          ((Machine.observedEngine (Machine.exits chain) n).releasePending f.pending) u)
        (Run.ensuring (do (Machine.engine n).terminate g; Run.raise .stopIteration)
          ((Machine.engine n).releasePending f.pending) u) := by
      refine Ends.ensuring (C := holds f.pending) ?_ fun K t t' _ ht =>
        releasePending_ends hs hfit ht
      exact (terminate_finishes hs h.fit.valid hfit False.elim h.law_finished hhidden h.free htaken).seq
        le_rfl
        fun t t' ht => .raised (ht.le (by rw [holds_stopIteration, zero_add]))
    rw [hrun] at hends
    obtain ⟨_, _, ht⟩ := hends.of_raised
    exact ht.self (h.level_finished seen)
  · rw [resumeFrame_of_unfinished hf (by simpa using hfinished)] at hrun
    obtain hraised | ⟨outcome, u, hstarted, hsettled⟩ := Run.bind_eq_raised.1 hrun
    · exact absurd hraised (startBody_silent g r _ _ _)
    obtain ⟨b, _, hu, _, _⟩ := h.startBody hstarted hw hf
    have hfinal : ∀ {o : Except Exception Suspension}, Final o → Z.Linked (holds o + F) u u →
        (Machine.observedEngine (Machine.exits chain) n).settleBody g r o u = .error (.raised x) t →
        (Z.decree (.closing chain 0 seen (g :: dead))).Linked (holds x + F) t t := by
      intro o ho hu hsettled
      have hends := settleBody_finishes hs h.fit.valid hfit False.elim h.law_finished (r := r) hhidden
        h.free ho hu
      rw [hsettled] at hends
      obtain ⟨_, _, ht⟩ := hends.of_raised
      exact ht.self (h.level_finished seen)
    rcases outcome with y | yielded | returned | result
    · exact hfinal (o := .error y) True.intro hu hsettled
    · cases hsettled
    · exact hfinal (o := .ok (.returned returned)) True.intro hu hsettled
    · obtain hraised | ⟨_, _, _, hreturned⟩ := Run.bind_eq_raised.1 hsettled
      · exact absurd hraised (Engine.finishDelegation_silent (observed_lenient _ n) r result _ _ _)
      · cases hreturned

/-- A resume of the frame without a result leaves it with nothing pending. -/
theorem Own.resumeFrame_again {f : Frame}
    (hrun : (Machine.observedEngine (Machine.exits chain) n).resumeFrame g r .none w = .ok none t)
    (h : Own chain seen dead [] g r Z F w) (hw : Z.Linked F w w) (hf : w.frame? r = some f) :
    ∃ b, b.pending = none ∧ Own.Changed g r Z F w b t := by
  by_cases hfinished : f.isFinished = true
  · rw [resumeFrame_of_finished hf hfinished] at hrun
    obtain ⟨_, hended, _⟩ := Run.ensuring_eq_ok.1 hrun
    obtain ⟨_, _, _, hraised⟩ := Run.bind_eq_ok.1 hended
    cases hraised
  · rw [resumeFrame_of_unfinished hf (by simpa using hfinished)] at hrun
    obtain ⟨outcome, u, hstarted, hsettled⟩ := Run.bind_eq_ok.1 hrun
    obtain ⟨b, hb, hu, hgenerator, hframe⟩ := h.startBody hstarted hw hf
    rcases outcome with y | yielded | returned | result
    · obtain ⟨_, _, _, hraised⟩ := Run.bind_eq_ok.1 hsettled
      cases hraised
    · cases hsettled
    · obtain ⟨_, _, _, hraised⟩ := Run.bind_eq_ok.1 hsettled
      cases hraised
    · obtain ⟨⟨⟩, _, htold, hreturned⟩ := Run.bind_eq_ok.1 hsettled
      cases hreturned
      obtain ⟨b', hb', ht⟩ := (h.next hgenerator).finishDelegation htold hu hframe
      exact ⟨b', hb'.trans hb, ht.linked, ht.generator.trans hgenerator, ht.frame⟩

/-- The generator, if its frame has the request to finish pending. -/
def Frame.exitOf (f : Frame) (g : GeneratorRef) : List Nat :=
  if f.raisesExit = true then [g.index] else []

theorem Frame.exitOf_of_none {f : Frame} (h : f.pending = none) (g : GeneratorRef) :
    f.exitOf g = [] := by
  simp [exitOf, raisesExit, h]

/-- The same under observation, with other notes. -/
theorem Own.note (h : Own chain seen dead [] g r Z F w) (hw : Z.Linked F w w) (seen' : List Nat) :
    Own chain seen' dead [] g r (Z.decree (.closing chain 0 seen' dead)) F (w.noted (0 :: seen')) ∧
      (Z.decree (.closing chain 0 seen' dead)).Linked F (w.noted (0 :: seen'))
        (w.noted (0 :: seen')) := by
  have hrule := hw.pinned.law
  rw [h.law] at hrule
  refine ⟨{ h with
    fit := Zone.Fit.closing ⟨Zone.level_inherited _, h.level, h.fit.valid, h.fit.room⟩
      (fun i hbarred => absurd rfl (Law.barred_closing_iff.1 hbarred).1) Law.closing_disposes
      h.fit.property.settled
    law := rfl }, ?_⟩
  exact (Machine.linked_noted hw (L := .closing chain 0 seen' dead) ⟨rfl, hrule.2⟩ False.elim).self
    { h.level with law := rfl }

/-- The same once a level is taken for a resume. -/
theorem Own.enter (h : Own chain seen dead [] g r Z F w) (hw : Z.Linked F w w)
    (hroom : w.thread.depth < w.thread.limit) :
    Own chain seen dead [] g r Z.deeper (holds (Value.frame r) + F) (w.entered r) ∧
      Z.deeper.Linked (holds (Value.frame r) + F) (w.entered r) (w.entered r) :=
  ⟨{ h with
      fit := h.fit.deeper (by rwa [← hw.pinned.thread])
      held := h.held.le le_add_self
      slot := by rw [World.generator_entered, h.slot]
      program := by
        rw [World.generator_entered]
        exact h.program },
    hw.entered h.fit.valid h.held.1 h.slot⟩

/-- What is left to do once a level is taken, if it ends with an exception, is the end of the
generator.  That is so if it is when the generator is resumed again. -/
theorem Own.proceed {f : Frame} {x : Exception}
    (hrun : (Machine.observedEngine (Machine.exits chain) n).proceed g r .none w
      = .error (.raised x) t)
    (h : Own chain seen dead [] g r Z.deeper F w) (hw : Z.deeper.Linked F w w)
    (hf : w.frame? r = some f)
    (hagain : ∀ {u u' : World} {b : Frame}, b.pending = none → Own.Changed g r Z.deeper F w b u →
      Machine.observed (Machine.exits chain) n (.resume g .none) u = .error (.raised x) u' →
        (Z.deeper.decree (.closing chain 0 seen (g :: dead))).Linked (holds x + F) u' u') :
    (Z.decree (.closing chain 0 seen (g :: dead))).Linked (holds x + F) t t := by
  have hleave : Run.Silent World.leave := fun _ _ _ h => nomatch h
  have hcleanup : Run.Silent (do
      World.leave
      (Machine.observedEngine (Machine.exits chain) n).release .none) := fun _ _ _ h => nomatch h
  rcases Run.bind_eq_raised.1 hrun with hraised | ⟨result, u, hresumed, hrest⟩
  · obtain ⟨u, hresumed, hleft⟩ := (Run.onInterruption_eq_raised hcleanup).1 hraised
    cases hleft
    exact (h.resumeFrame hresumed hw hf).leave (Z := Z.decree (.closing chain 0 seen (g :: dead)))
  · have hresumed := Run.onInterruption_eq_ok.1 hresumed
    cases result with
    | some v => cases hrest
    | none =>
        obtain ⟨b, hb, hu⟩ := h.resumeFrame_again hresumed hw hf
        obtain ⟨u', hraised, hleft⟩ := (Run.ensuring_eq_raised hleave).1 hrest
        cases hleft
        exact (hagain hb hu hraised).leave (Z := Z.decree (.closing chain 0 seen (g :: dead)))

/-- A resume that ends with an exception, where a level is left, is the end of the generator.  If the
request to finish was pending, it was raised in the body once. -/
theorem Own.resume {f : Frame} {x : Exception} (hx : x ≠ .recursionError)
    (hrun : Machine.observed (Machine.exits chain) n (.resume g .none) w = .error (.raised x) t)
    (h : Own chain seen dead [] g r Z F w) (hw : Z.Linked F w w) (hf : w.frame? r = some f) :
    (Z.decree (.closing chain 0 (seen ++ f.exitOf g) (g :: dead))).Linked (holds x + F) t t := by
  induction n generalizing Z F w seen f t with
  | zero => cases hrun
  | succ n ih =>
      obtain ⟨_, u, hanswer, hsee⟩ := observed_eq_raised.1 hrun
      obtain ⟨_, rfl⟩ := see_eq_ok.1 hsee
      have hidle := hw.idle h.free
      by_cases hroom : w.thread.depth < w.thread.limit
      · have hrule := hw.pinned.law
        rw [h.law] at hrule
        have hasked : (Machine.exits chain).note (.asked (.resume g .none)) w =
            0 :: (seen ++ f.exitOf g) := by
          have hraises : w.raisesExit g = f.raisesExit := by
            simp [World.raisesExit, hidle, hroom, h.slot, hf]
          simp [Machine.exits, hrule.1, h.mem, hraises, Frame.exitOf]
        rw [hasked] at hanswer
        obtain ⟨h₁, hw₁⟩ := h.note hw (seen ++ f.exitOf g)
        obtain ⟨hentered, hin⟩ := h₁.enter hw₁ hroom
        have hresume := resume_of_room (e := Machine.observedEngine (Machine.exits chain) n)
          (v := .none) (hw₁.idle h₁.free) h₁.slot hroom
        obtain ⟨u₁, hproceed, hforget⟩ := (Run.ensuring_eq_raised (Engine.releaseObjects_silent
          (observed_lenient _ n) _)).1 (hresume.symm.trans hanswer)
        have hended := hentered.proceed hproceed hin (by rw [World.frame_entered]; exact hf)
          fun {v v' b} hb hv hraised => by
            have hlast := ih hraised (hentered.next hv.generator) hv.linked hv.frame
            rwa [Frame.exitOf_of_none hb, List.append_nil] at hlast
        have hreleased := release_ends (exits_serves chain (seen ++ f.exitOf g) (g :: dead) n)
          (h₁.fit_finished _) (v := .frame r) (hended.le (add_left_comm _ _ _).le)
        rw [show (Machine.observedEngine (Machine.exits chain) n).release (.frame r) u₁ = _
          from hforget] at hreleased
        obtain ⟨_, _, hu⟩ := hreleased.of_ok
        have hu := (hu.self (h₁.level_finished _)).le (F := holds x + F) (by rw [holds_unit, zero_add])
        have hnote : (Machine.exits chain).note (.answered (.resume g .none)) u = u.held := by
          simp [Machine.exits, hu.pinned.law.1]
        rw [hnote, World.noted_held]
        exact hu
      · have hexhausted : (w.noted ((Machine.exits chain).note (.asked (.resume g .none)) w)).isExhausted g = true := by
          have : w.isExhausted g = true := by
            simp [World.isExhausted, hidle, h.slot]
            omega
          exact this
        have honly := resume_exhausted (v := .none) (observed_lenient (Machine.exits chain) n) hexhausted
        rw [show (Machine.observedEngine (Machine.exits chain) n).resume g .none _ = _ from hanswer] at honly
        exact absurd honly hx

end Resumable
