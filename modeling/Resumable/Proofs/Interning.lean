import Resumable.Proofs.Labels

set_option autoImplicit false

/-!
# Interning

The pools of an assembler only grow at the end and never hold an entry twice.  So the index that a
constant or a name got when it was referred to first is the one it has in the finished program
(`Code.Assembler.Interned`).  The instructions whose operands were all issued by the assembler have
operands that hold good in the finished program (`Code.Program.Addressed`).
-/

namespace Resumable.Code

/-! ## Pools without repetition -/

section Intern

variable {α : Type} [BEq α] [LawfulBEq α] {xs : List α}

/-- Interning adds an entry at the end unless it is there. -/
theorem intern_of_mem {x : α} (h : x ∈ xs) : (intern xs x).2 = xs := by
  unfold intern
  split
  · rfl
  · next hnone => exact absurd (List.findIdx?_eq_none_iff.1 hnone x h) (by simp)

theorem intern_of_not_mem {x : α} (h : x ∉ xs) : intern xs x = (xs.length, xs ++ [x]) := by
  unfold intern
  split
  · next index hindex =>
      obtain ⟨hlt, hequal, _⟩ := List.findIdx?_eq_some_iff_getElem.1 hindex
      exact absurd (beq_iff_eq.1 hequal ▸ List.getElem_mem hlt) h
  · rfl

theorem nodup_intern (h : xs.Nodup) (x : α) : (intern xs x).2.Nodup := by
  by_cases hmem : x ∈ xs
  · rwa [intern_of_mem hmem]
  · rw [intern_of_not_mem hmem, List.nodup_append]
    refine ⟨h, by simp, ?_⟩
    rintro y hy z hz rfl
    exact hmem (List.mem_singleton.1 hz ▸ hy)

theorem getElem?_of_findIdx? {x : α} {index : Nat} (h : xs.findIdx? (· == x) = some index) :
    xs[index]? = some x := by
  obtain ⟨hlt, hequal, _⟩ := List.findIdx?_eq_some_iff_getElem.1 h
  rw [List.getElem?_eq_getElem hlt, beq_iff_eq.1 hequal]

end Intern

/-! ## What the directives refer to -/

/-- The local variable that a directive refers to. -/
def Directive.variable? : Directive → Option String
  | .loadFast name => some name
  | .storeFast name => some name
  | .variableIndex name => some name
  | _ => none

/-- The constant that a directive refers to. -/
def Directive.constant? : Directive → Option Constant
  | .loadConst c => some c
  | .constant c => some c
  | _ => none

/-- The names of the variables that are referred to, in the order of their first use. -/
def firstUses (ds : List Directive) : List String := (ds.filterMap Directive.variable?).eraseDups

theorem firstUses_append (ds : List Directive) (d : Directive) :
    firstUses (ds ++ [d]) =
      firstUses ds ++ d.variable?.toList.filter (· ∉ ds.filterMap Directive.variable?) := by
  rw [firstUses, List.filterMap_append, List.eraseDups_append]
  congr 1
  cases hd : d.variable? with
  | none => simp [hd, List.removeAll]
  | some name =>
      have hlast : [d].filterMap Directive.variable? = [name] := by simp [hd]
      rw [hlast, Option.toList_some]
      by_cases hmem : name ∈ ds.filterMap Directive.variable?
      · rw [List.filter_cons_of_neg (by simpa using hmem), List.removeAll,
          List.filter_cons_of_neg (by simpa using hmem)]
        rfl
      · rw [List.filter_cons_of_pos (by simpa using hmem), List.removeAll,
          List.filter_cons_of_pos (by simpa using hmem)]
        rfl

namespace Assembler

variable {a : Assembler} {ds before : List Directive}

/-- The index that a reference to a constant gets after some directives. -/
def constantAt (a : Assembler) (before : List Directive) (c : Constant) : Nat :=
  ((a.applyAll before).constant c).1

/-- The index that a reference to a variable gets after some directives. -/
def variableAt (a : Assembler) (before : List Directive) (name : String) : Nat :=
  ((a.applyAll before).variableIndex name).1

/-- The operands of the instructions that are emitted as they are: there are no distances among them,
and an entry of the constant pool has been issued. -/
def OperandsIssued (a : Assembler) (ds : List Directive) : Prop :=
  ∀ before i, before ++ [.emit i] <+: ds → i.offset? = none ∧
    ∀ index, i = .loadConst index → index < (a.applyAll before).constants.length

/-- What a finished program has of the references that its directives make. -/
structure Interned (a : Assembler) (ds : List Directive) (p : Program) : Prop where
  constants_nodup : p.constants.Nodup
  /-- the index of a constant selects it in the end -/
  constant : ∀ before d c, before ++ [d] <+: ds → d.constant? = some c →
    p.constants[a.constantAt before c]? = some c
  loadConst : ∀ before c, before ++ [.loadConst c] <+: ds →
    p.instructions[emissions before]? = some (.loadConst (a.constantAt before c))
  /-- the arguments, and then the other variables in the order of their first use -/
  localNames : p.localNames = a.localNames ++ (firstUses ds).filter (· ∉ a.localNames)
  localNames_nodup : p.localNames.Nodup
  localName : ∀ before d name, before ++ [d] <+: ds → d.variable? = some name →
    p.localNames[a.variableAt before name]? = some name
  loadFast : ∀ before name, before ++ [.loadFast name] <+: ds →
    p.instructions[emissions before]? = some (.loadFast (a.variableAt before name))
  storeFast : ∀ before name, before ++ [.storeFast name] <+: ds →
    p.instructions[emissions before]? = some (.storeFast (a.variableAt before name))
  /-- references to variables have the same index if they have the same name -/
  same : ∀ before d name before' d' name', before ++ [d] <+: ds → d.variable? = some name →
    before' ++ [d'] <+: ds → d'.variable? = some name' →
    (a.variableAt before name = a.variableAt before' name' ↔ name = name')
  /-- a reference to an argument has the index of the argument -/
  argument : ∀ before d name i, before ++ [d] <+: ds → d.variable? = some name →
    a.localNames[i]? = some name → a.variableAt before name = i

/-! ### What the pools are in the end -/

theorem Extends.trans {a b c : Assembler} (h : c.Extends b) (h' : b.Extends a) : c.Extends a :=
  ⟨fun x index hx => h.constants x index (h'.constants x index hx),
    fun name index hname => h.localNames name index (h'.localNames name index hname)⟩

theorem extends_applyAll (a : Assembler) (ds : List Directive) : (a.applyAll ds).Extends a := by
  induction ds generalizing a with
  | nil => exact .of_eq rfl rfl
  | cons d ds ih => exact (ih (a.apply d)).trans (a.extends_apply d)

theorem constants_nodup_apply (h : a.constants.Nodup) (d : Directive) :
    (a.apply d).constants.Nodup := by
  cases d with
  | loadConst c | constant c => exact nodup_intern h c
  | bind label =>
      simp only [apply, bind]
      split <;> exact h
  | _ => exact h

theorem constants_nodup_applyAll (h : a.constants.Nodup) (ds : List Directive) :
    (a.applyAll ds).constants.Nodup := by
  induction ds generalizing a with
  | nil => exact h
  | cons d ds ih => exact ih (constants_nodup_apply h d)

/-- One more directive adds the variable it refers to, if there is one and it is new. -/
theorem localNames_apply (a : Assembler) (d : Directive) :
    (a.apply d).localNames = a.localNames ++ d.variable?.toList.filter (· ∉ a.localNames) := by
  have hinterned (name : String) : (intern a.localNames name).2 =
      a.localNames ++ [name].filter (· ∉ a.localNames) := by
    by_cases hmem : name ∈ a.localNames
    · rw [intern_of_mem hmem]
      simp [hmem]
    · rw [intern_of_not_mem hmem]
      simp [hmem]
  cases d with
  | loadFast name | storeFast name | variableIndex name => exact hinterned name
  | bind label =>
      simp only [apply, bind]
      split <;> exact (List.append_nil _).symm
  | _ => exact (List.append_nil _).symm

theorem localNames_applyAll (a : Assembler) (ds : List Directive) :
    (a.applyAll ds).localNames =
      a.localNames ++ (firstUses ds).filter (· ∉ a.localNames) := by
  induction ds using List.reverseRecOn with
  | nil => exact (List.append_nil _).symm
  | append_singleton ds d ih =>
      have hlast : (a.applyAll (ds ++ [d])).localNames = ((a.applyAll ds).apply d).localNames := by
        rw [applyAll_append]
        rfl
      rw [hlast, localNames_apply, ih, firstUses_append, List.filter_append, ← List.append_assoc,
        List.filter_filter]
      refine congrArg _ (List.filter_congr fun name _ => ?_)
      by_cases harg : name ∈ a.localNames <;>
        simp [harg, firstUses, List.mem_eraseDups]

theorem localNames_nodup_applyAll (h : a.localNames.Nodup) (ds : List Directive) :
    (a.applyAll ds).localNames.Nodup := by
  induction ds generalizing a with
  | nil => exact h
  | cons d ds ih =>
      refine ih ?_
      cases d with
      | loadFast name | storeFast name | variableIndex name => exact nodup_intern h name
      | bind label =>
          simp only [apply, bind]
          split <;> exact h
      | _ => exact h

/-! ### Where references lead -/

/-- What is there at a point is there in the end. -/
theorem extends_of_point {d : Directive} (here : before ++ [d] <+: ds) :
    (a.applyAll ds).Extends ((a.applyAll before).apply d) := by
  obtain ⟨rest, rfl⟩ := here
  rw [applyAll_append, applyAll_append]
  exact extends_applyAll _ rest

theorem findIdx?_constant {d : Directive} {c : Constant} (here : before ++ [d] <+: ds)
    (hd : d.constant? = some c) :
    (a.applyAll ds).constants.findIdx? (· == c) = some (a.constantAt before c) := by
  refine (extends_of_point here).constants c _ ?_
  cases d with
  | loadConst c' | constant c' =>
      cases hd
      exact findIdx?_intern (a.applyAll before).constants c
  | _ => cases hd

theorem findIdx?_variable {d : Directive} {name : String} (here : before ++ [d] <+: ds)
    (hd : d.variable? = some name) :
    (a.applyAll ds).localNames.findIdx? (· == name) = some (a.variableAt before name) := by
  refine (extends_of_point here).localNames name _ ?_
  cases d with
  | loadFast name' | storeFast name' | variableIndex name' =>
      cases hd
      exact findIdx?_intern (a.applyAll before).localNames name
  | _ => cases hd

theorem pools_of_ok {p : Program} (h : a.assemble = .ok p) :
    p.constants = a.constants ∧ p.localNames = a.localNames := by
  unfold assemble at h
  split at h
  · cases h
  · split at h
    · cases h
    · cases h
      exact ⟨rfl, rfl⟩

theorem interned_of_ok {name filename : String} {args : List String} {p : Program}
    (hargs : args.Nodup) (h : ((new name args filename).applyAll ds).assemble = .ok p) :
    (new name args filename).Interned ds p := by
  obtain ⟨happended, htracks⟩ := applyAll_tracks name args filename ds
  obtain ⟨_, hlands⟩ := lands_of_ok happended htracks h
  obtain ⟨hconstants, hnames⟩ := pools_of_ok h
  have hnodup : p.localNames.Nodup := hnames ▸ localNames_nodup_applyAll hargs ds
  -- where a reference leads in the finished pools
  have hconstant {before : List Directive} {d : Directive} {c : Constant}
      (here : before ++ [d] <+: ds) (hd : d.constant? = some c) :
      p.constants.findIdx? (· == c) = some ((new name args filename).constantAt before c) :=
    hconstants ▸ findIdx?_constant here hd
  have hvariable {before : List Directive} {d : Directive} {x : String}
      (here : before ++ [d] <+: ds) (hd : d.variable? = some x) :
      p.localNames.findIdx? (· == x) = some ((new name args filename).variableAt before x) :=
    hnames ▸ findIdx?_variable here hd
  refine ⟨hconstants ▸ constants_nodup_applyAll List.nodup_nil ds,
    fun before d c here hd => getElem?_of_findIdx? (hconstant here hd), fun before c here => ?_,
    hnames ▸ localNames_applyAll _ ds, hnodup,
    fun before d x here hd => getElem?_of_findIdx? (hvariable here hd), fun before x here => ?_,
    fun before x here => ?_, fun before d x before' d' x' here hd here' hd' => ?_,
    fun before d x i here hd hi => ?_⟩
  · obtain ⟨_, i, hi, hasked, _⟩ := hlands.emitted before _ here rfl
    obtain ⟨index, hindex, rfl⟩ := Option.map_eq_some_iff.1 hasked
    rw [hi, Option.some.inj (hindex.symm.trans (hconstant here rfl))]
  · obtain ⟨_, i, hi, hasked, _⟩ := hlands.emitted before _ here rfl
    obtain ⟨index, hindex, rfl⟩ := Option.map_eq_some_iff.1 hasked
    rw [hi, Option.some.inj (hindex.symm.trans (hvariable here rfl))]
  · obtain ⟨_, i, hi, hasked, _⟩ := hlands.emitted before _ here rfl
    obtain ⟨index, hindex, rfl⟩ := Option.map_eq_some_iff.1 hasked
    rw [hi, Option.some.inj (hindex.symm.trans (hvariable here rfl))]
  · constructor
    · intro heq
      have hx := getElem?_of_findIdx? (hvariable here hd)
      rw [heq, getElem?_of_findIdx? (hvariable here' hd')] at hx
      exact (Option.some.inj hx).symm
    · rintro rfl
      exact Option.some.inj ((hvariable here hd).symm.trans (hvariable here' hd'))
  · have hx := getElem?_of_findIdx? (hvariable here hd)
    have hlt : i < args.length := (List.getElem?_eq_some_iff.1 hi).1
    have hargument : p.localNames[i]? = some x := by
      rw [hnames, localNames_applyAll]
      exact (List.getElem?_append_left hlt).trans hi
    refine (List.getElem?_inj (List.getElem?_eq_some_iff.1 hx).1 hnodup).1 ?_
    rw [hx, hargument]

end Assembler

/-! ## Operands that hold good -/

/-- Every load of a constant finds one, and no distance leads before the start. -/
structure Program.Addressed (p : Program) : Prop where
  constant : ∀ (k index : Nat), p.instructions[k]? = some (.loadConst index) →
    ∃ c, p.constants[index]? = some c
  distance : ∀ (k : Nat) (i : Instruction) (offset : Int), p.instructions[k]? = some i →
    i.offset? = some offset → 0 ≤ ((k + 1 : Nat) : Int) + offset

/-- An instruction with a distance comes from a directive that is aimed at a label, or is emitted as it
is. -/
theorem Directive.aimed_or_emitted {constants : List Constant} {names : List String}
    {offset distance : Int} {d : Directive} {i : Instruction}
    (h : d.instruction? constants names offset = some i) (hi : i.offset? = some distance) :
    (∃ label, d.aim? = some label ∧ distance = offset) ∨ d = .emit i := by
  cases d with
  | emit _ =>
      cases h
      exact Or.inr rfl
  | loadConst c | loadFast name | storeFast name =>
      obtain ⟨_, _, rfl⟩ := Option.map_eq_some_iff.1 h
      cases hi
  | constant _ | variableIndex _ | label | bind _ => cases h
  | _ =>
      cases h
      cases hi
      exact Or.inl ⟨_, rfl, rfl⟩

/-- A load of a constant comes from a directive that asks for the constant, or is emitted as it is. -/
theorem Directive.constant_or_emitted {constants : List Constant} {names : List String}
    {offset : Int} {d : Directive} {index : Nat}
    (h : d.instruction? constants names offset = some (.loadConst index)) :
    (∃ c, constants[index]? = some c) ∨ d = .emit (.loadConst index) := by
  cases d with
  | emit _ =>
      cases h
      exact Or.inr rfl
  | loadConst c =>
      obtain ⟨_, hindex, heq⟩ := Option.map_eq_some_iff.1 h
      cases heq
      exact Or.inl ⟨c, getElem?_of_findIdx? hindex⟩
  | loadFast name | storeFast name =>
      obtain ⟨_, _, heq⟩ := Option.map_eq_some_iff.1 h
      cases heq
  | _ => cases h

namespace Assembler

variable {a : Assembler} {before ds : List Directive}

/-- The constant pool only grows at the end. -/
theorem constants_prefix_apply (a : Assembler) (d : Directive) :
    a.constants <+: (a.apply d).constants := by
  cases d with
  | loadConst c | constant c =>
      show a.constants <+: (intern a.constants c).2
      by_cases hmem : c ∈ a.constants
      · have hsame : (intern a.constants c).2 = a.constants := by rw [intern_of_mem hmem]
        exact hsame.symm ▸ List.prefix_rfl
      · rw [intern_of_not_mem hmem]
        exact List.prefix_append _ _
  | bind label =>
      simp only [apply, bind]
      split <;> exact List.prefix_rfl
  | _ => exact List.prefix_rfl

theorem constants_prefix_applyAll (a : Assembler) (ds : List Directive) :
    a.constants <+: (a.applyAll ds).constants := by
  induction ds generalizing a with
  | nil => exact List.prefix_rfl
  | cons d ds ih => exact (a.constants_prefix_apply d).trans (ih (a.apply d))

/-- An entry of the pool that has been issued is there in the end. -/
theorem exists_constant (h : before <+: ds) {index : Nat}
    (hindex : index < (a.applyAll before).constants.length) :
    ∃ c, (a.applyAll ds).constants[index]? = some c := by
  obtain ⟨rest, rfl⟩ := h
  rw [applyAll_append]
  obtain ⟨more, hmore⟩ := constants_prefix_applyAll (a.applyAll before) rest
  rw [← hmore]
  exact ⟨_, List.getElem?_eq_getElem (by rw [List.length_append]; omega)⟩

theorem addressed_of_ok {name filename : String} {args : List String} {p : Program}
    (hissued : (new name args filename).OperandsIssued ds)
    (h : ((new name args filename).applyAll ds).assemble = .ok p) : p.Addressed := by
  obtain ⟨happended, htracks⟩ := applyAll_tracks name args filename ds
  obtain ⟨_, hlands⟩ := lands_of_ok happended htracks h
  -- every instruction is what some directive asks for
  have hasked {k : Nat} {i : Instruction} (hi : p.instructions[k]? = some i) :
      ∃ before d offset, before ++ [d] <+: ds ∧ emissions before = k ∧
        d.instruction? p.constants p.localNames offset = some i ∧
        ∀ label, d.aim? = some label → ∃ position, LeadsTo ds k offset label position := by
    have hlt : k < emissions ds := hlands.length ▸ (List.getElem?_eq_some_iff.1 hi).1
    obtain ⟨before, d, here, hd, rfl⟩ := exists_emitting hlt
    obtain ⟨offset, i', hi', hasked, hleads⟩ := hlands.emitted before d here hd
    obtain rfl : i' = i := Option.some.inj (hi'.symm.trans hi)
    exact ⟨before, d, offset, here, rfl, hasked, hleads⟩
  refine ⟨fun k index hi => ?_, fun k i distance hi hdistance => ?_⟩
  · obtain ⟨before, d, offset, here, rfl, hd, _⟩ := hasked hi
    obtain hconstant | rfl := Directive.constant_or_emitted hd
    · exact hconstant
    · rw [(pools_of_ok h).1]
      exact exists_constant ((List.prefix_append before _).trans here)
        ((hissued before _ here).2 index rfl)
  · obtain ⟨before, d, offset, here, rfl, hd, hleads⟩ := hasked hi
    obtain ⟨label, haim, rfl⟩ | rfl := Directive.aimed_or_emitted hd hdistance
    · obtain ⟨position, hposition⟩ := hleads label haim
      have hplace := hposition.distance
      omega
    · rw [(hissued before i here).1] at hdistance
      cases hdistance

end Assembler

end Resumable.Code
