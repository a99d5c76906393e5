import Resumable.Proofs.Closing
import Resumable.Proofs.Labels

set_option autoImplicit false

/-!
# Sessions with assembled programs only

In an orderly session, code is assembled from labels and names, iterators step through lists, and
generators are driven through their operations.  What is assembled is sound, so that jumps lead to
positions and frames have room for variables; and an orderly session keeps its world tame.

Then no command is abandoned, and neither is any request that a computation makes, however deeply
nested, as long as nothing is in use at that moment but the frames of running generators.  The
condition cannot be left out: a generator whose delegate ran out is no longer running while its
frame is still in use, and what the delegate held is let go of at that moment.
-/

namespace Resumable

/-! ## Programs that are assembled from labels and names -/

namespace Code

/-- Whether an instruction has no operands. -/
def Instruction.isBare : Instruction → Bool
  | .loadConst _ | .loadFast _ | .storeFast _ | .jump _ | .jumpIfFalse _ | .forIter _
  | .setupExcept _ | .jumpIfNotExcMatch _ _ => false
  | _ => true

/-- Whether a directive leaves the operands to the assembler. -/
def Directive.isSymbolic : Directive → Bool
  | .emit i => i.isBare
  | _ => true

/-- A source with labels and names in place of operands.  No machine holds as many names as would
be too many for a frame. -/
structure Source.IsSymbolic (s : Source) : Prop where
  symbolic : ∀ d ∈ s.directives, d.isSymbolic = true
  fits : s.args.length + s.directives.length < Frame.localCapacity

instance (s : Source) : Decidable s.IsSymbolic :=
  decidable_of_iff ((∀ d ∈ s.directives, d.isSymbolic = true) ∧
      s.args.length + s.directives.length < Frame.localCapacity)
    ⟨fun h => ⟨h.1, h.2⟩, fun h => ⟨h.symbolic, h.fits⟩⟩

section Directives

variable {constants : List Constant} {names : List String} {offset : Int} {d : Directive}
  {i : Instruction}

/-- A variable that a symbolic directive refers to has a name. -/
theorem Directive.storeFast_lt (hd : d.isSymbolic = true) {index : Nat}
    (h : d.instruction? constants names offset = some (.storeFast index)) : index < names.length := by
  cases d with
  | storeFast name =>
      obtain ⟨k, hk, heq⟩ := Option.map_eq_some_iff.1 h
      cases heq
      exact (List.findIdx?_eq_some_iff_getElem.1 hk).1
  | emit j =>
      cases h
      cases hd
  | loadConst c | loadFast name =>
      obtain ⟨_, _, heq⟩ := Option.map_eq_some_iff.1 h
      cases heq
  | _ => cases h

/-- A symbolic directive with a distance is aimed at a label. -/
theorem Directive.aimed_of_offset (hd : d.isSymbolic = true) {distance : Int}
    (h : d.instruction? constants names offset = some i) (hi : i.offset? = some distance) :
    (∃ label, d.aim? = some label) ∧ distance = offset := by
  cases d with
  | emit _ =>
      cases h
      cases i <;> first | (cases hd; done) | cases hi
  | loadConst c | loadFast name | storeFast name =>
      obtain ⟨_, _, rfl⟩ := Option.map_eq_some_iff.1 h
      cases hi
  | constant _ | variableIndex _ | label | bind _ => cases h
  | _ =>
      cases h
      cases hi
      exact ⟨⟨_, rfl⟩, rfl⟩

end Directives

namespace Assembler

theorem length_intern_le {α : Type} [BEq α] (xs : List α) (x : α) :
    (intern xs x).2.length ≤ xs.length + 1 := by
  unfold intern
  split
  · exact Nat.le_succ _
  · simp

/-- A directive adds one name or none; to issue a label adds none. -/
theorem length_apply_le (a : Assembler) (d : Directive) :
    (a.apply d).localNames.length ≤ a.localNames.length + if d != .label then 1 else 0 := by
  cases d with
  | loadFast name | storeFast name | variableIndex name => exact length_intern_le a.localNames name
  | bind label =>
      simp only [apply, bind]
      split <;> exact Nat.le_add_right _ _
  | _ => exact Nat.le_add_right _ _

theorem length_applyAll_le (a : Assembler) (ds : List Directive) :
    (a.applyAll ds).localNames.length ≤ a.localNames.length + ds.countP (· != .label) := by
  induction ds generalizing a with
  | nil => exact Nat.le_add_right _ _
  | cons d ds ih =>
      have hfirst := a.length_apply_le d
      have hrest := ih (a.apply d)
      rw [List.countP_cons]
      change ((a.apply d).applyAll ds).localNames.length ≤ _
      omega

theorem localNames_of_ok {a : Assembler} {p : Program} (h : a.assemble = .ok p) :
    p.localNames = a.localNames := by
  unfold assemble at h
  split at h
  · cases h
  · split at h
    · cases h
    · cases h
      rfl

end Assembler

/-- A program with the instructions that symbolic directives ask for is sound. -/
theorem Lands.sound {ds : List Directive} {p : Program} (h : Lands ds p)
    (hds : ∀ d ∈ ds, d.isSymbolic = true) (hfits : (emissions ds : Int) < Frame.greatestPosition)
    (hnames : p.localNames.length < Frame.localCapacity) : p.Sound := by
  have hasked : ∀ (k : Nat) (i : Instruction), p.instructions[k]? = some i →
      ∃ (before : List Directive) (d : Directive) (offset : Int), d.isSymbolic = true ∧ emissions before = k ∧
        d.instruction? p.constants p.localNames offset = some i ∧
        ∀ label, d.aim? = some label → ∃ position, LeadsTo ds k offset label position := by
    intro k i hi
    have hk : k < emissions ds := by
      rw [← h.length]
      exact (List.getElem?_eq_some_iff.1 hi).1
    obtain ⟨before, d, here, hemits, rfl⟩ := exists_emitting hk
    obtain ⟨offset, j, hj, hinstruction, haim⟩ := h.emitted before d here hemits
    obtain rfl : j = i := Option.some.inj (hj.symm.trans hi)
    exact ⟨before, d, offset, hds d (here.subset (by simp)), rfl, hinstruction, haim⟩
  refine ⟨?_, fun k i distance hi hoffset => ?_, fun index hindex => ?_⟩
  · unfold Program.Fits
    rwa [h.length]
  · obtain ⟨_, d, offset, hd, _, hinstruction, haim⟩ := hasked k i hi
    obtain ⟨⟨label, hlabel⟩, rfl⟩ := Directive.aimed_of_offset hd hinstruction hoffset
    obtain ⟨position, hleads⟩ := haim label hlabel
    have hdistance := hleads.distance
    have hwithin := hleads.within
    push_cast
    omega
  · obtain ⟨k, hk⟩ := List.getElem?_of_mem hindex
    obtain ⟨_, d, offset, hd, _, hinstruction, _⟩ := hasked k _ hk
    have hlt := Directive.storeFast_lt hd hinstruction
    exact decide_eq_true (by omega)

/-- What is assembled from labels and names is sound. -/
theorem Source.IsSymbolic.sound {s : Source} (h : s.IsSymbolic) {p : Program}
    (hp : s.assembler.assemble = .ok p) : p.Sound := by
  obtain ⟨happended, htracks⟩ := Assembler.applyAll_tracks s.name s.args s.filename
    (List.replicate s.labels .label ++ s.directives)
  have hcapacity : ((Frame.localCapacity : Nat) : Int) < Frame.greatestPosition := by decide
  have hfits := h.fits
  refine (Assembler.lands_of_ok happended htracks hp).2.sound (fun d hd => ?_) ?_ ?_
  · rcases List.mem_append.1 hd with hlabel | hdirective
    · rw [List.eq_of_mem_replicate hlabel]
      rfl
    · exact h.symbolic d hdirective
  · have hlabels : emissions (List.replicate s.labels .label ++ s.directives) ≤
        s.directives.length := by
      have hnone : (List.replicate s.labels Directive.label).countP Directive.emits = 0 := by
        simp [List.countP_replicate, Directive.emits]
      rw [emissions, List.countP_append, hnone, Nat.zero_add]
      exact List.countP_le_length
    omega
  · have hlength := (Assembler.new s.name s.args s.filename).length_applyAll_le
      (List.replicate s.labels .label ++ s.directives)
    have hargs : (Assembler.new s.name s.args s.filename).localNames.length = s.args.length := rfl
    have hcount : (List.replicate s.labels Directive.label ++ s.directives).countP (· != .label) ≤
        s.directives.length := by
      rw [List.countP_append, List.countP_replicate]
      simpa using List.countP_le_length
    rw [Assembler.localNames_of_ok hp]
    change (Assembler.applyAll _ _).localNames.length < _
    omega

end Code

/-! ## What is in use -/

/-- The law that worlds are tame. -/
def Law.tamed : Law := { Law.trivial with tame := True }

instance : Law.tamed.Free := ⟨fun _ _ h => h⟩

/-- Nothing is in use but the frames of running generators. -/
structure World.Clear (w : World) : Prop where
  iterators : ∀ r, 1 ≤ w.owners (.iterator r) → w.iterator? r ≠ none
  frames : ∀ r, 1 ≤ w.owners (.frame r) → w.frame? r = none →
    ∃ g, (w.generator g).running = true ∧ (w.generator g).frame = some r

namespace Zone

variable {Z : Zone} {F : Bag} {w w' : World} {L : Law}

/-- The zone that says nothing of frames without an owner and in which no iterator is in use. -/
def tight (Z : Zone) (w : World) : Zone :=
  { Z with
    cells := fun r => if 1 ≤ w.owners (.frame r) then Z.cells r else none
    used := fun _ => False }

theorem tight_owned {r : FrameRef} (h : 1 ≤ w.owners (.frame r)) :
    (Z.tight w).cells r = Z.cells r := if_pos h

theorem tight_cells {r : FrameRef} {c : Option Frame} (h : (Z.tight w).cells r = some c) :
    1 ≤ w.owners (.frame r) ∧ Z.cells r = some c := by
  dsimp only [tight] at h
  split at h
  · next howned => exact ⟨howned, h⟩
  · cases h

/-- The frame of a generator has an owner. -/
theorem Linked.frame_owned (h : Z.Linked F w w') (hhidden : ∀ o, ¬ Z.hidden o) {g : GeneratorRef}
    {r : FrameRef} (hr : (w.generator g).frame = some r) : 1 ≤ w.owners (.frame r) := by
  have hreference : 1 ≤ w.references Z.hidden (.frame r) := by
    have hle := Bag.apply_le (World.holds_generator_le (w := w) (hhidden (.generator g))) (.frame r)
    have hone : Bag.of [Object.frame r] (.frame r) = 1 := Bag.of_singleton_self _
    rw [holds_generatorObject, hr] at hle
    simp only [Pi.add_apply, Option.map_some, Option.toList_some] at hle
    omega
  have howned := h.accounted.owned _ (h.not_sealed_of_reference hreference)
  omega

theorem tight_valid (hZ : Z.Valid) (hhidden : ∀ o, ¬ Z.hidden o) (h : Z.Linked F w w') :
    (Z.tight w).Valid where
  sealed_of_hidden := hZ.sealed_of_hidden
  holders := hZ.holders
  spared := hZ.spared
  sink := hZ.sink
  kept := hZ.kept
  locked g x hx := by
    refine (hZ.locked g x hx).imp_right (Or.imp_right (Or.imp_right ?_))
    rintro ⟨r, hr, hcell⟩
    rw [← h.pinned.fixed g x hx] at hr
    refine ⟨r, by rw [← h.pinned.fixed g x hx, hr], ?_⟩
    rw [tight_owned (h.frame_owned hhidden hr), hcell]
  slot g x hx hrunning := by
    obtain ⟨r, c, hr, hcell⟩ := hZ.slot g x hx hrunning
    refine ⟨r, c, hr, ?_⟩
    rw [← h.pinned.fixed g x hx] at hr
    rw [tight_owned (h.frame_owned hhidden hr), hcell]
  cell r f hr := hZ.cell r f (tight_cells hr).2

theorem Linked.tight (h : Z.Linked F w w') (hclear : w.Clear) : (Z.tight w).Linked F w w' where
  pinned := { h.pinned with cells := fun r c hr => h.pinned.cells r c (tight_cells hr).2 }
  alike := { h.alike with }
  accounted := { h.accounted with
    seated := fun o ho hone => by
      have hold := h.accounted.seated o ho hone
      cases o with
      | frame r =>
          intro hvacant
          rw [tight_owned hone]
          exact hold hvacant
      | iterator r => exact fun hvacant => absurd hvacant (hclear.iterators r hone)
      | _ => trivial }
  tame := h.tame

/-- In a clear world a zone gives no reason to abandon a computation. -/
theorem tight_clear (hhidden : ∀ o, ¬ Z.hidden o) (h : Z.Linked F w w') (hclear : w.Clear) :
    (Z.tight w).Clear := by
  refine ⟨fun ⟨_, hused⟩ => hused, fun r hr => ?_⟩
  obtain ⟨howned, hcell⟩ := tight_cells hr
  obtain ⟨g, hrunning, hslot⟩ := hclear.frames r howned (h.pinned.cells r none hcell)
  obtain ⟨x, hx⟩ := Option.isSome_iff_exists.1 (h.pinned.running g hrunning)
  rw [h.pinned.fixed g x hx] at hrunning hslot
  exact ⟨g, x, hhidden _, hx, hrunning, hslot⟩

end Zone

/-- A request that a computation makes on tame worlds is not abandoned if nothing is in use but the
frames of running generators. -/
theorem Machine.Moment.not_aborted {L : Law} [L.Free] (htame : L.tame) {request : Request}
    {w t : World} (h : Moment (Zone.Level L) (.asked request) w) (hclear : w.Clear) (n : Nat) :
    perform n request w ≠ .error .aborted t := by
  intro haborted
  obtain ⟨Z, F, w', hZ, hgranted, hlinked⟩ := h
  have hlevel := hZ.property
  have hfit : (Z.tight w).Fit (Zone.Level L) :=
    { inherited := hZ.inherited
      property := { hlevel with }
      valid := Zone.tight_valid hZ.valid hlevel.hidden hlinked
      room := hZ.room }
  have hgranted : request.Granted (Z.tight w) F w := by cases request <;> exact hgranted
  have hserves := machine_serves (C := Zone.Level L) (fun Y hY => by rw [hY.law]; infer_instance)
    (le_refl n)
  have hends := hserves.answers hfit request hgranted (hlinked.tight hclear)
  have hbreaks : ¬ (Z.tight w).Breaks := fun hbreaks =>
    hbreaks (by rw [show (Z.tight w).law = L from hlevel.law]; exact htame)
      (Zone.tight_clear hlevel.hidden hlinked hclear)
  change Ends _ _ _ (perform n request w) _ at hends
  rw [haborted] at hends
  generalize Engine.perform _ request w' = x' at hends
  cases hends with
  | aborted _ ha =>
      cases request with
      | reclaim o => exact hbreaks ha.breaks
      | _ => exact hbreaks ha

namespace Session

variable {w u : World} {c : Command} {event : Event}

/-! ## Orderly sessions -/

/-- Code is assembled from labels and names, nothing follows a script, and what concerns frames and
iterators is left to generators. -/
def Command.IsOrderly : Command → Prop
  | .assemble _ source => source.IsSymbolic
  | c => c.IsTame

theorem Command.IsOrderly.tame (h : c.IsOrderly) : c.IsTame := by
  cases c with
  | assemble name source => exact fun _ hp => Code.Source.IsSymbolic.sound h hp
  | _ => exact h

/-- The worlds that a session comes to by orderly commands. -/
inductive Orderly : World → Prop where
  | start (limit : Nat) (sink : Sink) : Orderly (World.new limit sink)
  | step {w : World} (h : Orderly w) (fuel : Nat) (full : Bool) {c : Command} (hc : c.IsOrderly)
      (hdone : (step fuel full w c).1.report ≠ .outOfFuel) : Orderly (step fuel full w c).2

theorem unheld_tamed : Unheld .tamed := fun _ _ _ => True.intro

/-- A world without objects is tame. -/
theorem new_tame (limit : Nat) (sink : Sink) : (World.new limit sink).Tame where
  codes _ := Code.Program.sound_default
  iterators r i hi := by
    have hnone : (World.new limit sink).iterator? r = none := Store.content_of_size_le (Nat.zero_le _)
    rw [hnone] at hi
    cases hi
  frames r f hf := by
    have hnone : (World.new limit sink).frame? r = none := Store.content_of_size_le (Nat.zero_le _)
    rw [hnone] at hf
    cases hf

theorem Orderly.sound (h : Orderly w) : w.Sound .tamed 0 := by
  induction h with
  | start limit sink => exact { new_sound limit sink with tame := fun _ => new_tame limit sink }
  | step _ fuel full hc hdone ih => exact step_sound unheld_tamed (fun _ => hc.tame) ih hdone

end Session

end Resumable
