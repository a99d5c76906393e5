import Resumable.Proofs.Delegators
import Resumable.Proofs.Throwing

set_option autoImplicit false

/-!
# Towers of delegations

Fresh generators that delegate each to the next one, over a last one that is fresh as well.  To resume
the topmost of them takes a level for each that is resumed, so the limit decides how far down this goes.

If a level is left for the last one, its body is run in the world that the others have led to
(`World.descend`); what it yields is passed on, and all the others are delegating
(`World.Tower.resume_of_yield`).  Otherwise the first one that finds no level left is refused.  The
refusal passes through those above, which have finished then, and those below are untouched
(`World.Tower.resume_of_limit`).
-/

namespace Resumable

variable {v : Value} {w t u : World} {g i leaf : GeneratorRef} {r q : FrameRef} {x : Exception}
  {gs : List GeneratorRef} {args : List Value} {Z : Zone} {F G : Bag} {n : Nat}

namespace World

/-- Fresh generators that delegate each to the next one, and the last of them to the given one. -/
inductive Tower (w : World) (leaf : GeneratorRef) : List GeneratorRef → Prop where
  | base : Tower w leaf []
  | floor {g : GeneratorRef} {r : FrameRef} {gs : List GeneratorRef}
      (h : w.DelegatesTo g r (gs.headD leaf)) (hrest : Tower w leaf gs) : Tower w leaf (g :: gs)

/-- What a delegating instruction of a generator records. -/
def delegation (w : World) (g : GeneratorRef) : TraceEntry := w.placeIn (w.generator g).code 1

/-- An exception that has passed through generators that delegate each to the next one. -/
def through (w : World) (gs : List GeneratorRef) (x : Exception) : Exception :=
  gs.foldr (fun g y => y.pushEntry (w.delegation g)) x

/-- What an exception leaves behind that passed through fresh generators.  They have finished; others
are what they were, the frames of others as well, and so is the number of owners but for one that
those below may have lost. -/
structure PassedBy (w : World) (below gs : List GeneratorRef) (u : World) : Prop where
  thread : u.thread = w.thread
  codes : ∀ c, u.code c = w.code c
  finished : ∀ g ∈ gs, u.generator g = { w.generator g with frame := none }
  others : ∀ g ∉ gs, u.generator g = w.generator g
  frames : ∀ r, (∀ g ∈ gs, (w.generator g).frame ≠ some r) →
    u.frame? r = w.frame? r ∧ w.owners (.frame r) ≤ u.owners (.frame r)
  owners : ∀ g, w.owners (.generator g) ≤ u.owners (.generator g) + 1
  kept : ∀ g ∉ below, w.owners (.generator g) ≤ u.owners (.generator g)

theorem PassedBy.nobody (w : World) (below : List GeneratorRef) : w.PassedBy below [] w where
  thread := rfl
  codes _ := rfl
  finished := by simp
  others _ _ := rfl
  frames _ _ := ⟨rfl, le_rfl⟩
  owners _ := Nat.le_succ _
  kept _ _ := le_rfl

/-! ## What one generator leaves -/

section Fields

variable {c : CodeRef} {j : GeneratorRef} {o : Object}

theorem generator_passedOn :
    (u.passedOn g r c i).generator j =
      if g = j then { u.generator g with running := false } else u.generator j := by
  simp [passedOn, generator_settled]

theorem frame_passedOn :
    (u.passedOn g r c i).frame? q = if r = q then some (.delegatingTo c i) else u.frame? q := by
  simp [passedOn, frame_settled]

theorem generator_passedThrough :
    (u.passedThrough g r c i).generator j =
      if g = j then { u.generator g with running := false, frame := none } else u.generator j := by
  simp only [passedThrough, generator_forgetting, generator_ended, generator_setOwners]

theorem frame_passedThrough (hne : r ≠ q) : (u.passedThrough g r c i).frame? q = u.frame? q := by
  rw [passedThrough, frame_forgetting hne, frame_ended, if_neg hne, frame_setOwners]

theorem owners_passedThrough (hframe : .frame r ≠ o) (hgenerator : .generator i ≠ o) :
    (u.passedThrough g r c i).owners o = u.owners o := by
  rw [passedThrough, owners_forgetting hframe.symm hgenerator.symm, owners_ended, if_neg hframe,
    owners_setOwners, if_neg hgenerator]

theorem owners_frame_passedThrough (hne : r ≠ q) :
    (u.passedThrough g r c i).owners (.frame q) = u.owners (.frame q) :=
  owners_passedThrough (fun heq => hne (Object.frame.inj heq)) nofun

theorem owners_generator_passedThrough (hne : i ≠ j) :
    (u.passedThrough g r c i).owners (.generator j) = u.owners (.generator j) :=
  owners_passedThrough nofun fun heq => hne (Object.generator.inj heq)

theorem owners_le_passedThrough :
    u.owners (.generator i) ≤ (u.passedThrough g r c i).owners (.generator i) + 3 := by
  refine le_trans ?_ (Nat.add_le_add_right owners_le_forgetting 2)
  rw [owners_ended, if_neg nofun, owners_setOwners, if_pos rfl]
  omega

theorem thread_passedThrough : (u.passedThrough g r c i).thread = u.thread.leave := by
  rw [passedThrough, thread_forgetting, thread_ended, thread_setOwners]

theorem code_passedThrough (d : CodeRef) : (u.passedThrough g r c i).code d = u.code d := by
  rw [code, passedThrough, codes_forgetting, codes_ended]
  rfl

end Fields

/-! ## The tower while its topmost generator is resumed -/

theorem Fresh.congr (h : w.Fresh g r args) (hgenerator : t.generator g = w.generator g)
    (hframe : t.frame? r = w.frame? r) : t.Fresh g r args where
  idle := by rw [hgenerator, h.idle]
  slot := by rw [hgenerator, h.slot]
  frame := by rw [hframe, hgenerator, h.frame]

theorem DelegatesTo.congr (h : w.DelegatesTo g r i) (hgenerator : t.generator g = w.generator g)
    (hframe : t.frame? r = w.frame? r) (hcodes : t.codes = w.codes) : t.DelegatesTo g r i where
  fresh := h.fresh.congr hgenerator hframe
  body := by
    rw [hgenerator, code, hcodes]
    exact h.body

theorem Apart.asking (h : w.Apart) : (w.asking g r i).Apart := by
  have hframe : ∀ j, ((w.asking g r i).generator j).frame = (w.generator j).frame := by
    intro j
    rw [generator_asking]
    split
    · next heq => rw [heq]
    · rfl
  intro j k q hj hk
  rw [hframe] at hj hk
  exact h j k q hj hk

section Asking

variable (hw : w.Apart) (h : w.DelegatesTo g r i)

include hw h

theorem frame_asking_of_apart {j : GeneratorRef} (hj : (w.generator j).frame = some q) (hne : g ≠ j) :
    (w.asking g r i).frame? q = w.frame? q := by
  have hother : r ≠ q := by
    rintro rfl
    exact hne (hw g j r h.fresh.slot hj)
  rw [frame_asking, if_neg hother]

theorem Fresh.asking {j : GeneratorRef} (hj : w.Fresh j q args) (hne : g ≠ j) :
    (w.asking g r i).Fresh j q args :=
  hj.congr (by rw [generator_asking, if_neg hne]) (frame_asking_of_apart hw h hj.slot hne)

theorem Tower.asking (htower : w.Tower leaf gs) (hg : g ∉ gs) : (w.asking g r i).Tower leaf gs := by
  induction htower with
  | base => exact .base
  | @floor j q gs hj _ ih =>
      have hne : g ≠ j := fun heq => hg (heq ▸ List.mem_cons_self)
      have hsame : (w.asking g r i).DelegatesTo j q (gs.headD leaf) :=
        hj.congr (by rw [generator_asking, if_neg hne])
          (frame_asking_of_apart hw h hj.fresh.slot hne) codes_asking
      exact .floor hsame (ih fun hmem => hg (List.mem_cons_of_mem j hmem))

end Asking

/-- The topmost generator of a tower delegates to the next one. -/
theorem Tower.floors (h : w.Tower leaf (g :: gs)) :
    ∃ r, w.DelegatesTo g r (gs.headD leaf) ∧ w.Tower leaf gs := by
  cases h with
  | floor h hrest => exact ⟨_, h, hrest⟩

theorem headD_mem (gs : List GeneratorRef) (leaf : GeneratorRef) : gs.headD leaf ∈ gs ++ [leaf] := by
  cases gs <;> simp

/-- Every generator of a tower has its frame. -/
theorem Tower.slot (h : w.Tower leaf gs) (hleaf : w.Fresh leaf q args) :
    ∀ j ∈ gs ++ [leaf], ∃ r, (w.generator j).frame = some r := by
  induction h with
  | base => simpa using ⟨q, hleaf.slot⟩
  | @floor g r gs h _ ih =>
      intro j hj
      rcases List.mem_cons.1 hj with rfl | hj
      · exact ⟨r, h.fresh.slot⟩
      · exact ih j hj

end World

/-! ## A level is missing -/

namespace World

theorem through_congr {y : Exception} (h : ∀ g ∈ gs, t.delegation g = w.delegation g) :
    t.through gs y = w.through gs y := by
  induction gs with
  | nil => rfl
  | cons g gs ih =>
      show (t.through gs y).pushEntry _ = (w.through gs y).pushEntry _
      rw [ih fun j hj => h j (List.mem_cons_of_mem g hj), h g List.mem_cons_self]

theorem kind_through (w : World) (gs : List GeneratorRef) (x : Exception) :
    (w.through gs x).kind = x.kind := by
  induction gs with
  | nil => rfl
  | cons g gs ih => exact ih

theorem args_through (w : World) (gs : List GeneratorRef) (x : Exception) :
    (w.through gs x).args = x.args := by
  induction gs with
  | nil => rfl
  | cons g gs ih => exact ih

/-- It has recorded the generators that it has passed through, the last one outermost. -/
theorem entries_through (w : World) (gs : List GeneratorRef) (hx : x.traceback = none) :
    ((w.through gs x).traceback.map Traceback.entries).getD [] = gs.map w.delegation := by
  induction gs with
  | nil => simp [through, hx]
  | cons g gs ih =>
      rw [List.map_cons, ← ih]
      show (w.delegation g) :: ((w.through gs x).traceback.getD .empty).entries = _
      cases (w.through gs x).traceback <;> rfl

theorem delegation_asking (w : World) (g : GeneratorRef) (r : FrameRef) (i j : GeneratorRef) :
    (w.asking g r i).delegation j = w.delegation j := by
  have hcode : ((w.asking g r i).generator j).code = (w.generator j).code := by
    rw [generator_asking]
    split
    · next heq => rw [heq]
    · rfl
  unfold delegation placeIn
  rw [hcode, code_asking]

/-- The exception has passed through a generator, and passes through the one above. -/
theorem PassedBy.step {c : CodeRef} {below : List GeneratorRef}
    (hslot : (w.generator g).frame = some r) (hidle : (w.generator g).running = false)
    (hg : g ∉ gs) (hi : i ∉ below)
    (h : (w.asking g r i).PassedBy below gs u) :
    w.PassedBy (i :: below) (g :: gs) (u.passedThrough g r c i) where
  thread := by
    rw [thread_passedThrough, h.thread, thread_asking]
    rfl
  codes d := by rw [code_passedThrough, h.codes, code_asking]
  finished k hk := by
    rw [generator_passedThrough]
    split
    · next heq =>
        subst heq
        rw [h.others g hg, generator_asking, if_pos rfl, ← hidle]
    · next hne =>
        have hmem : k ∈ gs := (List.mem_cons.1 hk).resolve_left (Ne.symm hne)
        rw [h.finished k hmem, generator_asking, if_neg hne]
  others k hk := by
    have hother : g ≠ k := fun heq => hk (heq ▸ List.mem_cons_self)
    rw [generator_passedThrough, if_neg hother,
      h.others k fun hmem => hk (List.mem_cons_of_mem g hmem), generator_asking, if_neg hother]
  frames q hq := by
    have hother : r ≠ q := fun heq => hq g List.mem_cons_self (heq ▸ hslot)
    obtain ⟨hframe, howners⟩ := h.frames q fun k hk => by
      have hkq := hq k (List.mem_cons_of_mem g hk)
      rw [generator_asking]
      split
      · next heq => exact heq ▸ hkq
      · exact hkq
    rw [owners_asking] at howners
    refine ⟨?_, ?_⟩
    · rw [frame_passedThrough hother, hframe, frame_asking, if_neg hother]
    · rw [owners_frame_passedThrough hother]
      omega
  owners k := by
    have howners := h.owners k
    rw [owners_asking] at howners
    by_cases hk : i = k
    · subst hk
      have hkept := h.kept i hi
      rw [owners_asking, if_neg nofun, if_pos rfl] at hkept
      have hlost := owners_le_passedThrough (u := u) (g := g) (r := r) (c := c) (i := i)
      omega
    · rw [owners_generator_passedThrough hk]
      omega
  kept k hk := by
    have hkept := h.kept k fun hmem => hk (List.mem_cons_of_mem i hmem)
    rw [owners_asking] at hkept
    have hother : i ≠ k := by
      rintro rfl
      exact hk List.mem_cons_self
    rw [owners_generator_passedThrough hother]
    omega

/-- Every frame that belongs to a generator has an owner. -/
def Kept (w : World) : Prop :=
  ∀ g r, (w.generator g).frame = some r → 1 ≤ w.owners (.frame r)

theorem Kept.asking (h : w.Kept) : (w.asking g r i).Kept := by
  intro j q hj
  have hslot : (w.generator j).frame = some q := by
    rw [generator_asking] at hj
    split at hj
    · next heq => exact heq ▸ hj
    · exact hj
  rw [owners_asking]
  have := h j q hslot
  omega

/-- A fresh generator that finds no level left is refused, and nothing changes. -/
theorem Fresh.refused (h : w.Fresh g r args) (hkept : w.Kept)
    (hfull : w.thread.limit ≤ w.thread.depth) :
    ∀ k, 1 ≤ k → Machine.perform k (.resume g .none) w = .error (.raised .recursionError) w := by
  intro k hk
  obtain ⟨k, rfl⟩ : ∃ m, k = m + 1 := ⟨k - 1, by omega⟩
  have hlimit : w.AtLimit g r (.new (w.generator g).code args) :=
    ⟨h.idle, h.slot, h.frame, hkept g r h.slot, rfl, rfl, hfull⟩
  exact hlimit.resume k rfl

/-- An exception that has passed through the generators below passes through one more. -/
theorem DelegatesTo.passes {s : FrameRef} {below : List GeneratorRef} (h : w.DelegatesTo g r i)
    (hapart : w.Apart) (hkept : w.Kept) (hroom : w.thread.depth < w.thread.limit)
    (hne : g ≠ i) (hslot : (w.generator i).frame = some s) (howned : 2 ≤ w.owners (.generator i))
    (hg : g ∉ gs) (hi : i ∉ below) (hx : x.kind ≠ .stopIteration)
    (hbelow : ∀ k, n ≤ k → Machine.perform k (.resume i .none) (w.asking g r i) =
      .error (.raised ((w.asking g r i).through gs x)) u)
    (hpassed : (w.asking g r i).PassedBy below gs u) :
    ∃ t, (∀ k, n + 3 ≤ k → Machine.perform k (.resume g .none) w =
        .error (.raised (w.through (g :: gs) x)) t) ∧
      w.PassedBy (i :: below) (g :: gs) t := by
  refine ⟨u.passedThrough g r (w.generator g).code i, fun k hk => ?_,
    hpassed.step h.fresh.slot h.fresh.idle hg hi⟩
  obtain ⟨k, rfl⟩ : ∃ l, k = l + 2 := ⟨k - 2, by omega⟩
  have hthrough : w.through (g :: gs) x =
      ((w.asking g r i).through gs x).pushEntry (u.placeIn (w.generator g).code 1) := by
    rw [through_congr fun j _ => delegation_asking w g r i j]
    unfold placeIn
    rw [hpassed.codes, code_asking]
    rfl
  have hmine : (u.generator g).frame = some r := by
    rw [hpassed.others g hg, generator_asking, if_pos rfl, h.fresh.slot]
  -- the frame of this generator is not one of those below
  have hframe : (w.asking g r i).owners (.frame r) ≤ u.owners (.frame r) := by
    refine (hpassed.frames r fun j hj hslot => ?_).2
    rw [generator_asking] at hslot
    split at hslot
    · next heq => exact hg (heq ▸ hj)
    · next hother => exact hother (hapart g j r h.fresh.slot hslot)
  have hasked := hpassed.kept i hi
  rw [owners_asking, if_pos rfl] at hframe
  rw [owners_asking, if_neg nofun, if_pos rfl] at hasked
  have hmade := hkept g r h.fresh.slot
  have hasking : ((w.asking g r i).generator i).frame = some s := by
    rw [generator_asking, if_neg hne, hslot]
  rw [hthrough]
  exact h.resume_of_raise hroom (by omega) hasking (by omega) (hbelow (k + 1) (by omega))
    (by rwa [kind_through]) (by omega) (by omega) hmine

/-- A refusal passes through as many generators as there are levels left. -/
theorem Tower.resume_of_limit (htower : w.Tower leaf gs) (hleaf : w.Fresh leaf q args)
    (hapart : w.Apart) (hkept : w.Kept) (hdistinct : (gs ++ [leaf]).Nodup)
    (howned : ∀ j ∈ (gs ++ [leaf]).tail, 2 ≤ w.owners (.generator j))
    (hlimit : w.thread.limit ≤ w.thread.depth + gs.length) :
    ∃ n u, (∀ k, n ≤ k → Machine.perform k (.resume (gs.headD leaf) .none) w =
        .error (.raised (w.through (gs.take (w.thread.limit - w.thread.depth)) .recursionError)) u) ∧
      w.PassedBy (gs ++ [leaf]).tail (gs.take (w.thread.limit - w.thread.depth)) u := by
  -- induction on the tower; the generators below are resumed one level deeper
  induction gs generalizing w with
  | nil =>
      rw [List.take_nil]
      exact ⟨1, w, hleaf.refused hkept (by simpa using hlimit), .nobody w _⟩
  | cons g gs ih =>
      obtain ⟨r, h, hrest⟩ := htower.floors
      by_cases hfull : w.thread.limit ≤ w.thread.depth
      · rw [Nat.sub_eq_zero_of_le hfull]
        exact ⟨1, w, h.fresh.refused hkept hfull, .nobody w _⟩
      rw [List.cons_append, List.nodup_cons] at hdistinct
      obtain ⟨hg, hdistinct⟩ := hdistinct
      have hother : g ≠ gs.headD leaf := fun heq => hg (heq ▸ headD_mem gs leaf)
      rw [List.mem_append, not_or, List.mem_singleton] at hg
      have hsplit : gs ++ [leaf] = gs.headD leaf :: (gs ++ [leaf]).tail := by
        cases gs <;> rfl
      have hi : gs.headD leaf ∉ (gs ++ [leaf]).tail := by
        rw [hsplit] at hdistinct
        exact (List.nodup_cons.1 hdistinct).1
      rw [List.cons_append, List.tail_cons] at howned ⊢
      have hmem := headD_mem gs leaf
      generalize hi' : gs.headD leaf = i at h hsplit hi hmem hother
      obtain ⟨n, u, hbelow, hpassed⟩ := ih (hrest.asking hapart h hg.1) (hleaf.asking hapart h hg.2)
        hapart.asking hkept.asking hdistinct (fun j hj => by
          rw [owners_asking]
          have := howned j (List.mem_of_mem_tail hj)
          omega) (by
          rw [limit_asking, depth_asking]
          rw [List.length_cons] at hlimit
          omega)
      have hlevels : w.thread.limit - w.thread.depth =
          (w.asking g r i).thread.limit - (w.asking g r i).thread.depth + 1 := by
        rw [limit_asking, depth_asking]
        omega
      obtain ⟨s, hslot⟩ := hrest.slot hleaf i hmem
      obtain ⟨t, habove, hpassed⟩ := h.passes hapart hkept (by omega) hother hslot (howned i hmem)
        (fun hmem => hg.1 (List.mem_of_mem_take hmem)) hi (by decide) (hi' ▸ hbelow) hpassed
      rw [hlevels, List.take_succ_cons, hsplit]
      exact ⟨n + 3, t, habove, hpassed⟩

end World

/-! ## A level is left -/

namespace World

/-- The frame of a generator that has one. -/
def slotOf (w : World) (g : GeneratorRef) : FrameRef := (w.generator g).frame.getD default

/-- The world in which the body of the last generator is run, when the topmost one of a tower is
resumed. -/
def descend (leaf : GeneratorRef) : List GeneratorRef → World → World
  | [], w => w.underway leaf (w.slotOf leaf)
  | g :: gs, w => descend leaf gs (w.asking g (w.slotOf g) (gs.headD leaf))

/-- A body that has not been run before yields a value. -/
def YieldsFirst (w : World) (g : GeneratorRef) (args : List Value) (v : Value) : Prop :=
  ∃ n f t, ∀ k, n ≤ k → (w.code (w.generator g).code).resume (Machine.engine k)
    (w.generator g).closure none (.new (w.generator g).code args, w) = .ok (.yielded v) (f, t)

theorem Fresh.slotOf (h : w.Fresh g r args) : w.slotOf g = r := by
  rw [World.slotOf, h.slot]
  rfl

end World

namespace Zone

variable {Y : Zone}

/-- The generator is running, its frame is in use, and the computation holds the frame and what is in
it. -/
structure Entered (Z : Zone) (G : Bag) (w : World) (g : GeneratorRef) (r : FrameRef)
    (args : List Value) : Prop where
  fit : Z.Fit (Level .trivial)
  linked : Z.Linked G (w.underway g r) (w.underway g r)
  held : holds args + holds (Value.frame r) ≤ G
  fixed : Z.fixed g = some { w.generator g with running := true }
  cell : Z.cells r = some none

/-- Resuming a fresh generator leads to such a zone. -/
theorem Linked.underway (h : Z.Linked F w w) (hZ : Z.Fit (Level .trivial)) (hheld : Z.Held F g)
    (hfresh : w.Fresh g r args) (hroom : w.thread.depth < w.thread.limit) :
    ∃ Y G, Entered Y G w g r args := by
  have hrest := resting_of_idle hZ hheld h hfresh.idle hfresh.slot hfresh.frame
  have hdeep := hZ.deeper (by rw [← h.pinned.thread]; exact hroom)
  have hentered := h.entered hZ.valid hheld.1 hfresh.slot
  have hvisible : ¬ Z.hidden (.frame r) := hZ.property.hidden _
  obtain ⟨B, H, -, hfit, hrunning⟩ := hentered.startRunning (r := r) hdeep hheld hrest.free hrest.cell
    (by rw [World.generator_entered, hfresh.slot])
  have htaken := hrunning.takeFrame hvisible
    (show ((w.entered r).setRunning g true).frame? r = some (.new (w.generator g).code args) by
      rw [World.setRunning, World.frame_setGenerator, World.frame_entered, hfresh.frame])
  refine ⟨_, _, hfit none (fun _ hnone => by cases hnone), htaken, ?_, ?_, ?_⟩
  · rw [World.holds_newFrame]
    exact add_le_add_right le_self_add _
  · simp [Zone.pin, Zone.fix]
  · simp [Zone.pin]

namespace Entered

variable {H : Bag} (he : Entered Z G w g r args)

include he

theorem untame : ¬ Z.law.tame := by
  rw [he.fit.property.law]
  exact id

/-- The generator and the computation own its frame. -/
theorem owners (hslot : (w.generator g).frame = some r) (h : Z.Linked H u u)
    (hheld : 1 ≤ H (.frame r)) : 2 ≤ u.owners (.frame r) := by
  have hrecord := h.pinned.fixed g _ he.fixed
  have howned := h.accounted.owned (.frame r) (h.not_sealed hheld)
  have hle := Bag.apply_le (World.holds_generator_le (w := u) (he.fit.property.hidden (.generator g)))
    (.frame r)
  have hone : 1 ≤ holds (u.generator g) (.frame r) := by
    rw [holds_generatorObject, hrecord, hslot]
    simp [Bag.of_singleton_self]
  omega

/-- What the body was given as its closure is not disposed of. -/
theorem closure : Z.Secures (holds (w.generator g).closure) := fun {K u u'} hu => by
  refine hu.covered_of_references (le_trans ?_
    (World.holds_generator_le (g := g) (he.fit.property.hidden _)))
  rw [hu.pinned.fixed g _ he.fixed, holds_generatorObject]
  exact le_add_self

/-- The body comes to a result. -/
theorem body {a : Suspension} {f : Frame} {n : Nat}
    (hrun : (w.code (w.generator g).code).resume (Machine.engine n) (w.generator g).closure none
      (.new (w.generator g).code args, w.underway g r) = .ok a (f, u)) :
    Z.Linked (holds (Value.frame r)) u u := by
  have hbegun : Z.Linked (holds (Frame.new (w.generator g).code args) +
      (holds (none : Option Exception) + holds (Value.frame r))) (w.underway g r) (w.underway g r) :=
    he.linked.le (by rw [World.holds_newFrame, holds_none, zero_add]; exact he.held)
  have hends := codeResume_ends (serves_free (L := .trivial) n) he.fit
    (c := w.code (w.generator g).code) (fun htame => absurd htame he.untame) he.closure
    (fun htame => absurd htame he.untame) hbegun
  rw [hrun] at hends
  cases hends with
  | ok h => exact h.2.le (le_trans le_add_self le_add_self)

/-- The delegate is shared twice while it is asked. -/
theorem asking (hargs : args = [.generator i]) :
    ∃ H, Z.Linked H (w.asking g r i) (w.asking g r i) ∧ 2 ≤ H (.generator i) ∧ 1 ≤ H (.frame r) ∧
      1 ≤ w.owners (.generator i) := by
  have hle : holds (Value.generator i) ≤ G := by
    refine le_trans ?_ he.held
    rw [hargs, holds_values_cons, holds_values_nil, add_zero]
    exact le_self_add
  have hframe : holds (Value.frame r) ≤ G := le_trans le_add_self he.held
  have honce := he.linked.retain he.fit.valid (he.linked.covered hle)
  have htwice := honce.retain he.fit.valid (honce.covered (B := holds (Value.generator i)) le_self_add)
  refine ⟨_, htwice, ?_, ?_, ?_⟩
  · rw [show holds (Value.generator i) = .of [.generator i] from rfl]
    simp only [Pi.add_apply, Bag.of_singleton_self]
    omega
  · have := Bag.apply_le hframe (.frame r)
    rw [holds_frameRef, Bag.of_singleton_self] at this
    simp only [Pi.add_apply]
    omega
  · have hone := (he.linked.covered hle (.generator i) (Bag.one_le_of_mem List.mem_cons_self)).2
    rwa [World.owners_underway, if_neg nofun] at hone

end Entered

end Zone

/-- A fresh generator whose body yields, in a zone. -/
theorem World.Fresh.resume_of_yield (hfresh : w.Fresh g r args) (hZ : Z.Fit (Zone.Level .trivial))
    (hheld : Z.Held F g) (h : Z.Linked F w w) (hroom : w.thread.depth < w.thread.limit)
    (hyields : (w.underway g r).YieldsFirst g args v) :
    ∃ n u, ∀ k, n ≤ k → Machine.perform k (.resume g .none) w = .ok v u := by
  obtain ⟨Y, G, hentered⟩ := h.underway hZ hheld hfresh hroom
  obtain ⟨n, f, t, hbody⟩ := hyields
  have hcode : (w.underway g r).code ((w.underway g r).generator g).code
      = w.code (w.generator g).code := by
    rw [generator_underway, if_pos rfl]
    rfl
  have hrecord : ((w.underway g r).generator g).closure = (w.generator g).closure ∧
      ((w.underway g r).generator g).code = (w.generator g).code := by
    rw [generator_underway, if_pos rfl]
    exact ⟨rfl, rfl⟩
  rw [hcode, hrecord.1, hrecord.2] at hbody
  have htwo := hentered.owners hfresh.slot (hentered.body (hbody n le_rfl))
    (by rw [holds_frameRef, Bag.of_singleton_self])
  refine ⟨n + 1, (t.settled g r f).left.setOwners (t.owners (.frame r) - 1) (.frame r),
    fun k hk => ?_⟩
  obtain ⟨k, rfl⟩ : ∃ m, k = m + 1 := ⟨k - 1, by omega⟩
  exact resume_of_yielded hfresh hroom (hbody k (by omega)) htwo

/-- The generator is delegating, and so are those that were before. -/
theorem World.stateOf_passedOn {c : CodeRef} {j : GeneratorRef}
    (hslot : (u.generator g).frame = some r) (hvacant : u.frame? r = none)
    (hj : j = g ∨ u.stateOf j = .delegating) : (u.passedOn g r c i).stateOf j = .delegating := by
  by_cases hg : g = j
  · subst hg
    unfold stateOf
    rw [generator_passedOn, if_pos rfl, hslot]
    simp only [frame_passedOn, if_true]
    rfl
  · have hdelegating := hj.resolve_left (Ne.symm hg)
    obtain ⟨-, s, f, hs, hf, -⟩ := frame_of_delegating hdelegating
    have hother : r ≠ s := by
      rintro rfl
      rw [hvacant] at hf
      cases hf
    rw [← hdelegating]
    unfold stateOf
    rw [generator_passedOn, if_neg hg, hs]
    simp only [frame_passedOn, if_neg hother]

/-- A resume that comes to a result in a zone. -/
theorem resumed_linked (hZ : Z.Fit (Zone.Level .trivial)) (hheld : Z.Held F g) (h : Z.Linked F w w)
    (hrun : Machine.perform n (.resume g .none) w = .ok v u) : Z.Linked F u u := by
  have hanswered := (serves_free (L := .trivial) n).answers hZ (.resume g .none) hheld
    (h.le (by rw [holds_request_resume, holds_value_none, zero_add]))
  rw [show (Machine.engine n).perform = Machine.perform n from rfl, hrun] at hanswered
  cases hanswered with
  | ok hu => exact hu.le le_add_self

/-- While a level is left, what the last generator yields is passed on. -/
theorem World.Tower.resume_of_yield (htower : w.Tower leaf gs) (hleaf : w.Fresh leaf q args)
    (hdistinct : (gs ++ [leaf]).Nodup) (hZ : Z.Fit (Zone.Level .trivial))
    (hheld : Z.Held F (gs.headD leaf)) (h : Z.Linked F w w)
    (hroom : w.thread.depth + gs.length < w.thread.limit)
    (hyields : (w.descend leaf gs).YieldsFirst leaf args v) :
    ∃ n u, (∀ k, n ≤ k → Machine.perform k (.resume (gs.headD leaf) .none) w = .ok v u) ∧
      ∀ g ∈ gs, u.stateOf g = .delegating := by
  -- induction on the tower; the generators below are resumed in the zone that the body leads to
  induction gs generalizing w Z F with
  | nil =>
      rw [descend, hleaf.slotOf] at hyields
      obtain ⟨n, u, hu⟩ := hleaf.resume_of_yield hZ hheld h hroom hyields
      exact ⟨n, u, hu, by simp⟩
  | cons g gs ih =>
      obtain ⟨r, hg, hrest⟩ := htower.floors
      have hapart : w.Apart := fun j k s =>
        h.accounted.slots j k s (hZ.property.hidden _) (hZ.property.hidden _)
      rw [List.cons_append, List.nodup_cons] at hdistinct
      obtain ⟨hnot, hdistinct⟩ := hdistinct
      have hother : g ≠ gs.headD leaf := fun heq => hnot (heq ▸ headD_mem gs leaf)
      rw [List.mem_append, not_or, List.mem_singleton] at hnot
      rw [List.length_cons] at hroom
      rw [descend, hg.fresh.slotOf] at hyields
      have hheld : Z.Held F g := hheld
      obtain ⟨Y, G, hentered⟩ := h.underway hZ hheld hg.fresh (by omega)
      obtain ⟨H, hasking, htwo, hone, howned⟩ := hentered.asking rfl
      have hasked := hasking.held hentered.fit.valid (le_trans (Nat.le_succ 1) htwo)
      obtain ⟨n, u, hbelow, hstates⟩ := ih (hrest.asking hapart hg hnot.1)
        (hleaf.asking hapart hg hnot.2) hdistinct hentered.fit hasked hasking (by
          rw [limit_asking, depth_asking]
          omega) hyields
      -- whatever has happened below, this generator is still running, and its frame is in use
      have hu := resumed_linked hentered.fit hasked hasking (hbelow n le_rfl)
      have hrecord := hu.pinned.fixed g _ hentered.fixed
      have hvacant := hu.pinned.cells r none hentered.cell
      have hinner := hu.accounted.owned _ (hu.not_sealed (le_trans (Nat.le_succ 1) htwo))
      obtain ⟨s, hslot⟩ := hrest.slot hleaf (gs.headD leaf) (headD_mem gs leaf)
      refine ⟨n + 3, u.passedOn g r (w.generator g).code (gs.headD leaf), fun k hk => ?_,
        fun j hj => ?_⟩
      · obtain ⟨k, rfl⟩ : ∃ m, k = m + 1 := ⟨k - 1, by omega⟩
        have hfuel : 2 ≤ (Machine.engine k).fuel := by
          show 2 ≤ k
          omega
        have hnext : ((w.asking g r (gs.headD leaf)).generator (gs.headD leaf)).frame = some s := by
          rw [generator_asking, if_neg hother, hslot]
        exact hg.resume_of_yield (by omega) howned hnext hfuel (hbelow k (by omega)) (by omega)
          (hentered.owners hg.fresh.slot hu hone)
      · refine stateOf_passedOn ?_ hvacant ((List.mem_cons.1 hj).imp_right (hstates j))
        rw [hrecord, hg.fresh.slot]

/-! ## The limit is exact -/

namespace World

/-- What a generator that has not been resumed keeps of itself. -/
structure Unresumed (w : World) (g : GeneratorRef) (u : World) : Prop where
  created : u.stateOf g = .created
  generator : u.generator g = w.generator g
  frame : ∀ r, (w.generator g).frame = some r → u.frame? r = w.frame? r

theorem Fresh.created (h : w.Fresh g r args) : w.stateOf g = .created := by
  rw [stateOf, h.idle, h.slot]
  simp only [h.frame]
  rfl

theorem Tower.fresh (h : w.Tower leaf gs) (hleaf : w.Fresh leaf q args) :
    ∀ j ∈ gs ++ [leaf], ∃ r vs, w.Fresh j r vs := by
  induction h with
  | base => simpa using ⟨q, args, hleaf⟩
  | @floor g r gs h _ ih =>
      intro j hj
      rcases List.mem_cons.1 hj with rfl | hj
      · exact ⟨r, _, h.fresh⟩
      · exact ih j hj

namespace PassedBy

variable {below : List GeneratorRef} (h : w.PassedBy below gs u)

include h

theorem stateOf_finished (hidle : (w.generator g).running = false) (hg : g ∈ gs) :
    u.stateOf g = .finished := by
  rw [stateOf, h.finished g hg, hidle]
  rfl

theorem unresumed (hapart : w.Apart) (hfresh : w.Fresh g r args) (hg : g ∉ gs) :
    w.Unresumed g u := by
  have hgenerator := h.others g hg
  have hframe : u.frame? r = w.frame? r :=
    (h.frames r fun j hj hslot => hg (hapart g j r hfresh.slot hslot ▸ hj)).1
  refine ⟨(hfresh.congr hgenerator hframe).created, hgenerator, fun s hs => ?_⟩
  obtain rfl : r = s := Option.some.inj (hfresh.slot.symm.trans hs)
  exact hframe

end PassedBy

end World

namespace Session

/-- The limit on nested resumptions is exact.  A tower that leaves a level for its last generator passes
on what that one yields.  Otherwise as many generators as there are levels have finished, from the
topmost one downwards, and each of them has recorded where it was; the others have not been resumed.
Those are looked at afterwards, so somebody besides their delegators has them. -/
theorem recursion_limit_exact (hamid : Amid (.asked (.resume (gs.headD leaf) .none)) w)
    (htop : w.thread.depth = 0) (htower : w.Tower leaf gs) (hleaf : w.Fresh leaf q args)
    (hdistinct : (gs ++ [leaf]).Nodup) :
    (gs.length < w.thread.limit → ∀ v, (w.descend leaf gs).YieldsFirst leaf args v →
      ∃ n u, (∀ k, n ≤ k → (Machine.engine k).next (gs.headD leaf) w = .ok v u) ∧
        (∀ g ∈ gs, u.stateOf g = .delegating) ∧ u.thread = w.thread) ∧
    (w.thread.limit ≤ gs.length →
      (∀ g ∈ (gs ++ [leaf]).tail, 2 ≤ w.owners (.generator g)) →
      ∃ n u x, (∀ k, n ≤ k →
          (Machine.engine k).next (gs.headD leaf) w = .error (.raised x) u) ∧
        x.kind = .recursionError ∧ x.args = [.str "maximum recursion depth exceeded"] ∧
        (x.traceback.map Traceback.entries).getD [] = (gs.take w.thread.limit).map w.delegation ∧
        (w.thread.limit = 0 → x.traceback = none) ∧
        (∀ g ∈ gs.take w.thread.limit, u.stateOf g = .finished) ∧
        (∀ g ∈ gs.drop w.thread.limit ++ [leaf], w.Unresumed g u) ∧ u.thread = w.thread) := by
  obtain ⟨Z, F, w', hZ, hgranted, hlinked⟩ := hamid.moment
  have hself : Z.Linked F w w := (hlinked.self hZ.property).le (by simp)
  have hapart : w.Apart := fun g h r =>
    hself.accounted.slots g h r (hZ.property.hidden _) (hZ.property.hidden _)
  have hkept : w.Kept := fun g r => hself.owned_frame (hZ.property.hidden _)
  constructor
  · intro hroom v hyields
    obtain ⟨n, u, hresumed, hstates⟩ := htower.resume_of_yield hleaf hdistinct hZ hgranted hself
      (by omega) hyields
    have hu := resumed_linked hZ hgranted hself (hresumed n le_rfl)
    exact ⟨n, u, hresumed, hstates, hu.pinned.thread.trans hself.pinned.thread.symm⟩
  · intro hlimit howned
    obtain ⟨n, u, hresumed, hpassed⟩ := htower.resume_of_limit hleaf hapart hkept hdistinct howned
      (by omega)
    rw [htop, Nat.sub_zero] at hresumed hpassed
    refine ⟨n, u, _, hresumed, w.kind_through _ _, w.args_through _ _, w.entries_through _ rfl,
      fun hnone => ?_, fun g hg => ?_, fun g hg => ?_, hpassed.thread⟩
    · rw [hnone, List.take_zero]
      rfl
    · obtain ⟨r, vs, hfresh⟩ := htower.fresh hleaf g
        (List.mem_append_left _ (List.mem_of_mem_take hg))
      exact hpassed.stateOf_finished hfresh.idle hg
    · have hall : gs ++ [leaf] = gs.take w.thread.limit ++ (gs.drop w.thread.limit ++ [leaf]) := by
        rw [← List.append_assoc, List.take_append_drop]
      rw [hall] at hdistinct
      obtain ⟨r, vs, hfresh⟩ := htower.fresh hleaf g (hall ▸ List.mem_append_right _ hg)
      exact hpassed.unresumed hapart hfresh fun hmem =>
        (List.nodup_append.1 hdistinct).2.2 g hmem g hg rfl

/-! ### Towers of four and of five, where there are five levels -/

/-- What makes five generators that delegate each to the one before, over one that yields. -/
def towerCommands : List Command :=
  [.assemble "p" yieldingTwice, .assemble "d" delegatingOnce, .makeGenerator "g0" "p" [] .none,
    .makeGenerator "g1" "d" [.variable "g0"] .none, .makeGenerator "g2" "d" [.variable "g1"] .none,
    .makeGenerator "g3" "d" [.variable "g2"] .none, .makeGenerator "g4" "d" [.variable "g3"] .none,
    .makeGenerator "g5" "d" [.variable "g4"] .none]

/-- The moment when one of them is to be resumed. -/
def towerWorld (name : String) (g : GeneratorRef) : World :=
  brokenOffAt (runUpTo towerCommands (.drive name .next none) (.asked (.resume g .none)))

instance (w : World) (g : GeneratorRef) (r : FrameRef) (args : List Value) :
    Decidable (w.Fresh g r args) :=
  decidable_of_iff ((w.generator g).running = false ∧ (w.generator g).frame = some r ∧
      w.frame? r = some (.new (w.generator g).code args))
    ⟨fun ⟨hidle, hslot, hframe⟩ => ⟨hidle, hslot, hframe⟩, fun h => ⟨h.idle, h.slot, h.frame⟩⟩

instance (w : World) (g i : GeneratorRef) (r : FrameRef) : Decidable (w.DelegatesTo g r i) :=
  decidable_of_iff (w.Fresh g r [.generator i] ∧
      (w.code (w.generator g).code).body.IsProgram Code.Program.Delegates)
    ⟨fun ⟨hfresh, hbody⟩ => ⟨hfresh, hbody⟩, fun h => ⟨h.fresh, h.body⟩⟩

/-- A program that begins with yielding a constant. -/
def YieldsConstant (v : Value) (p : Code.Program) : Prop :=
  p.instructions.take 2 = [.loadConst 0, .yieldValue] ∧
    p.constants[0]?.map Code.Constant.toValue = some v

instance (v : Value) : DecidablePred (YieldsConstant v) := fun _ =>
  inferInstanceAs (Decidable (_ ∧ _))

theorem yieldsFirst_of_constant
    (h : (w.code (w.generator g).code).body.IsProgram (YieldsConstant v)) : w.YieldsFirst g args v := by
  obtain ⟨p, hbody, hinstructions, hconstant⟩ := h
  obtain ⟨c, hc, rfl⟩ := Option.map_eq_some_iff.1 hconstant
  have hfirst : p.instructions[0]? = some (.loadConst 0) := by
    rw [← List.getElem?_take_of_lt (show 0 < 2 by decide), hinstructions]
    rfl
  have hsecond : p.instructions[1]? = some .yieldValue := by
    rw [← List.getElem?_take_of_lt (show 1 < 2 by decide), hinstructions]
    rfl
  refine ⟨2, { Frame.new (w.generator g).code args with position := 2 }, w, fun k hk => ?_⟩
  obtain ⟨k, rfl⟩ : ∃ m, k = m + 2 := ⟨k - 2, by omega⟩
  rw [CodeObject.resume_of_program hbody, Code.Program.resume_apply (le_refl 0)]
  have hloaded : Run.attempt (Exec.execute (Machine.engine (k + 2)) p (w.generator g).closure (.loadConst 0))
      (Exec.pastInstruction (⟨.new (w.generator g).code args, 0, .none⟩, w)) =
        .ok (.ok none) (⟨{ Frame.new (w.generator g).code args with stack := [c.toValue] }, 1, .none⟩, w) := by
    simp only [Exec.execute, hc]
    rfl
  show Code.Program.settle _ (Exec.run _ p (w.generator g).closure (k + 2)
    (⟨.new (w.generator g).code args, 0, .none⟩, w)) = _
  rw [Exec.run_succ]
  simp only [hfirst]
  rw [hloaded]
  simp only
  rw [Exec.run_succ]
  simp only [hsecond]
  rfl

/-- Four generators over the last one. -/
def towerOfFour : List GeneratorRef := [⟨4⟩, ⟨3⟩, ⟨2⟩, ⟨1⟩]

theorem tower_of_four : (towerWorld "g4" ⟨4⟩).Tower ⟨0⟩ towerOfFour :=
  .floor (r := ⟨4⟩) (by decide +kernel) <| .floor (r := ⟨3⟩) (by decide +kernel) <|
    .floor (r := ⟨2⟩) (by decide +kernel) <| .floor (r := ⟨1⟩) (by decide +kernel) .base

theorem tower_of_five : (towerWorld "g5" ⟨5⟩).Tower ⟨0⟩ (⟨5⟩ :: towerOfFour) :=
  .floor (r := ⟨5⟩) (by decide +kernel) <| .floor (r := ⟨4⟩) (by decide +kernel) <|
    .floor (r := ⟨3⟩) (by decide +kernel) <| .floor (r := ⟨2⟩) (by decide +kernel) <|
    .floor (r := ⟨1⟩) (by decide +kernel) .base

theorem recursion_limit_exact_of_five :
    (∃ n u, (∀ k, n ≤ k → (Machine.engine k).next ⟨4⟩ (towerWorld "g4" ⟨4⟩) = .ok (.int 1) u) ∧
      ∀ g ∈ towerOfFour, u.stateOf g = .delegating) ∧
    ∃ n u x, (∀ k, n ≤ k →
        (Machine.engine k).next ⟨5⟩ (towerWorld "g5" ⟨5⟩) = .error (.raised x) u) ∧
      ((x.traceback.map Traceback.entries).getD []).length = 5 ∧
      (∀ g ∈ ⟨5⟩ :: towerOfFour, u.stateOf g = .finished) ∧ u.stateOf ⟨0⟩ = .created := by
  have hfour : Amid (.asked (.resume (towerOfFour.headD ⟨0⟩) .none)) (towerWorld "g4" ⟨4⟩) :=
    runUpTo_amid (by decide +kernel) (by decide +kernel) (by decide +kernel)
  have hfive : Amid (.asked (.resume ((⟨5⟩ :: towerOfFour).headD ⟨0⟩) .none)) (towerWorld "g5" ⟨5⟩) :=
    runUpTo_amid (by decide +kernel) (by decide +kernel) (by decide +kernel)
  have hfourLeaf : (towerWorld "g4" ⟨4⟩).Fresh ⟨0⟩ ⟨0⟩ [] := by decide +kernel
  have hfiveLeaf : (towerWorld "g5" ⟨5⟩).Fresh ⟨0⟩ ⟨0⟩ [] := by decide +kernel
  have hfourLevels : (towerWorld "g4" ⟨4⟩).thread.limit = 5 := by decide +kernel
  have hfiveLevels : (towerWorld "g5" ⟨5⟩).thread.limit = 5 := by decide +kernel
  constructor
  · have hexact := recursion_limit_exact hfour (by decide +kernel) tower_of_four hfourLeaf (by decide)
    have hyields : ((towerWorld "g4" ⟨4⟩).descend ⟨0⟩ towerOfFour).YieldsFirst ⟨0⟩ [] (.int 1) :=
      yieldsFirst_of_constant (by decide +kernel)
    obtain ⟨n, u, hresumed, hstates, -⟩ := hexact.1 (by rw [hfourLevels]; decide) _ hyields
    exact ⟨n, u, hresumed, hstates⟩
  · have hexact := recursion_limit_exact hfive (by decide +kernel) tower_of_five hfiveLeaf (by decide)
    rw [hfiveLevels] at hexact
    obtain ⟨n, u, x, hresumed, -, -, hentries, -, hfinished, hcreated, -⟩ :=
      hexact.2 (by decide) (by decide +kernel)
    refine ⟨n, u, x, hresumed, ?_, hfinished, (hcreated ⟨0⟩ (by decide)).created⟩
    rw [hentries]
    rfl

end Session

end Resumable
