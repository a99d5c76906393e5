import Mathlib.Data.List.Induction
import Resumable.Code.Assembler
import Resumable.Interpreter

set_option autoImplicit false

/-!
# Labels land

A program is written by a list of directives and read by the interpreter.  This module says what
the assembler makes of any list of directives, in terms of the list alone: how many instructions
and labels there are at a point is counted, a label is bound where a `bind` of it stands, and the
fault that is reported is the first one in the list.

The two ends meet in the distance of a jump.  The assembler counts it from the instruction after
the jump to the place of the label, the interpreter adds it to its counter once it has gone past the
jump, and what comes out is the place of the label again.

A point in a list of directives is given by what stands before it: `before ++ [d] <+: ds` says that
the directive `d` stands in `ds` right after `before`.
-/

namespace Resumable.Code

/-! ## Interned entries keep their index -/

section Intern

variable {α : Type} [BEq α]

theorem findIdx?_intern [LawfulBEq α] (xs : List α) (x : α) :
    (intern xs x).2.findIdx? (· == x) = some (intern xs x).1 := by
  unfold intern
  split
  · next index h => exact h
  · next h => simp [List.findIdx?_append, h, List.findIdx?_cons]

theorem findIdx?_intern_of_eq_some {xs : List α} {y : α} {index : Nat}
    (h : xs.findIdx? (· == y) = some index) (x : α) :
    (intern xs x).2.findIdx? (· == y) = some index := by
  unfold intern
  split
  · exact h
  · rw [List.findIdx?_append, h]
    rfl

end Intern

/-! ## What a list of directives says -/

namespace Directive

/-- The label that the instruction of a directive is aimed at. -/
def aim? : Directive → Option Label
  | .jump target => some target
  | .jumpIfFalse target => some target
  | .forIter target => some target
  | .setupExcept target => some target
  | .jumpIfNotExcMatch _ target => some target
  | _ => none

/-- Whether a directive appends an instruction. -/
def emits : Directive → Bool
  | .constant _ => false
  | .variableIndex _ => false
  | .label => false
  | .bind _ => false
  | _ => true

/-- The instruction that a directive asks for, in a program with the given constants and local
variables; one that is aimed at a label jumps over the given distance. -/
def instruction? (constants : List Constant) (names : List String) (offset : Int) :
    Directive → Option Instruction
  | .emit i => some i
  | .loadConst c => (constants.findIdx? (· == c)).map .loadConst
  | .loadFast name => (names.findIdx? (· == name)).map .loadFast
  | .storeFast name => (names.findIdx? (· == name)).map .storeFast
  | .jump _ => some (.jump offset)
  | .jumpIfFalse _ => some (.jumpIfFalse offset)
  | .forIter _ => some (.forIter offset)
  | .setupExcept _ => some (.setupExcept offset)
  | .jumpIfNotExcMatch kind _ => some (.jumpIfNotExcMatch kind offset)
  | _ => none

/-- Two pairs of pools give a directive the same instruction. -/
theorem instruction?_of_grown {constants constants' : List Constant} {names names' : List String}
    (hc : ∀ c index, constants.findIdx? (· == c) = some index →
      constants'.findIdx? (· == c) = some index)
    (hn : ∀ name index, names.findIdx? (· == name) = some index →
      names'.findIdx? (· == name) = some index)
    {d : Directive} {offset : Int} {i : Instruction}
    (h : d.instruction? constants names offset = some i) :
    d.instruction? constants' names' offset = some i := by
  cases d with
  | loadConst c =>
      obtain ⟨index, hi, rfl⟩ := Option.map_eq_some_iff.1 h
      exact Option.map_eq_some_iff.2 ⟨index, hc c index hi, rfl⟩
  | loadFast name =>
      obtain ⟨index, hi, rfl⟩ := Option.map_eq_some_iff.1 h
      exact Option.map_eq_some_iff.2 ⟨index, hn name index hi, rfl⟩
  | storeFast name =>
      obtain ⟨index, hi, rfl⟩ := Option.map_eq_some_iff.1 h
      exact Option.map_eq_some_iff.2 ⟨index, hn name index hi, rfl⟩
  | _ => exact h

theorem emits_of_aim {d : Directive} {label : Label} (h : d.aim? = some label) :
    d.emits = true := by
  cases d with
  | emit _ | loadConst _ | loadFast _ | storeFast _ | constant _ | variableIndex _ | label | bind _ =>
      cases h
  | _ => rfl

/-- Aiming at a label is a matter of the distance. -/
theorem instruction?_withOffset {constants : List Constant} {names : List String}
    {d : Directive} {label : Label} {offset : Int} {i : Instruction} (ha : d.aim? = some label)
    (h : d.instruction? constants names 0 = some i) :
    d.instruction? constants names offset = some (i.withOffset offset) := by
  cases d with
  | emit _ | loadConst _ | loadFast _ | storeFast _ | constant _ | variableIndex _ | label | bind _ =>
      cases ha
  | _ =>
      cases h
      rfl

theorem instruction?_of_aimless {constants : List Constant} {names : List String}
    {d : Directive} (offset : Int) (ha : d.aim? = none) :
    d.instruction? constants names offset = d.instruction? constants names 0 := by
  cases d with
  | jump _ | jumpIfFalse _ | forIter _ | setupExcept _ | jumpIfNotExcMatch _ _ => cases ha
  | _ => rfl

end Directive

/-- The number of labels that are issued; they are the numbers below it. -/
def issued (ds : List Directive) : Nat := ds.count .label

/-- The number of instructions that are appended. -/
def emissions (ds : List Directive) : Nat := ds.countP Directive.emits

/-- A label is bound, after so many instructions: it is bound at a point where it has been
issued. -/
def BoundAt (ds : List Directive) (label : Label) (position : Nat) : Prop :=
  ∃ before, before ++ [.bind label] <+: ds ∧ label < issued before ∧ emissions before = position

/-- What is wrong with binding a label. -/
inductive BindFault (before : List Directive) (label : Label) : AssemblyError → Prop where
  /-- the label was never issued -/
  | unissued (h : issued before ≤ label) : BindFault before label (.unboundLabel label)
  /-- the label is bound already -/
  | duplicate (position : Nat) (h : BoundAt before label position) :
      BindFault before label (.duplicateLabel label)

/-- Nothing is wrong with any `bind`. -/
def WellBound (ds : List Directive) : Prop :=
  ∀ before label fault, before ++ [.bind label] <+: ds → ¬ BindFault before label fault

/-- Every label that is aimed at gets bound somewhere. -/
def WellAimed (ds aiming : List Directive) : Prop :=
  ∀ d ∈ aiming, ∀ label, d.aim? = some label → ∃ position, BoundAt ds label position

/-- The fault that a list of directives has to be refused for. -/
inductive Faulty (ds : List Directive) : AssemblyError → Prop where
  /-- the first `bind` that something is wrong with -/
  | binding {before : List Directive} {label : Label} {fault : AssemblyError}
      (here : before ++ [.bind label] <+: ds) (first : WellBound before)
      (wrong : BindFault before label fault) : Faulty ds fault
  /-- with every `bind` as it should be, the first instruction aimed at a label that is nowhere -/
  | aiming {before : List Directive} {d : Directive} {label : Label} (bound : WellBound ds)
      (here : before ++ [d] <+: ds) (aimed : d.aim? = some label)
      (nowhere : ∀ position, ¬ BoundAt ds label position) (first : WellAimed ds before) :
      Faulty ds (.unboundLabel label)

/-- A jump over a distance, at a place in a program, leads the interpreter to the place of a
label. -/
structure LeadsTo (ds : List Directive) (place : Nat) (offset : Int) (label : Label) (position : Nat) :
    Prop where
  /-- the label is bound at one place only -/
  bound : ∀ q, BoundAt ds label q ↔ q = position
  within : position ≤ emissions ds
  distance : ((place : Int) + 1) + offset = position
  /-- no list of instructions that a machine can hold is longer than its greatest position -/
  target : position ≤ Frame.greatestPosition → ∀ s : Activation × World,
    s.1.counter = place + 1 → Exec.target offset s = .ok position s

/-- A program has one instruction for each directive that appends one, in order, as the directive
asks for it, and its jumps lead to their labels. -/
structure Lands (ds : List Directive) (p : Program) : Prop where
  length : p.instructions.length = emissions ds
  emitted : ∀ before d, before ++ [d] <+: ds → d.emits = true →
    ∃ offset i, p.instructions[emissions before]? = some i ∧
      d.instruction? p.constants p.localNames offset = some i ∧
      ∀ label, d.aim? = some label →
        ∃ position, LeadsTo ds (emissions before) offset label position

/-! ## One more directive -/

theorem emissions_append (ds : List Directive) (d : Directive) :
    emissions (ds ++ [d]) = emissions ds + if d.emits then 1 else 0 := by
  simp [emissions, List.countP_append, List.countP_cons]

theorem emissions_le {before ds : List Directive} (h : before <+: ds) :
    emissions before ≤ emissions ds := h.countP_le

theorem issued_append (ds : List Directive) (d : Directive) :
    issued (ds ++ [d]) = issued ds + if d = .label then 1 else 0 := by
  by_cases h : d = .label <;> simp [issued, h]

/-- A directive of a longer list is its last one or stands in the shorter one. -/
theorem point_append {before ds : List Directive} {d e : Directive} :
    before ++ [d] <+: ds ++ [e] ↔ before = ds ∧ d = e ∨ before ++ [d] <+: ds := by
  rw [List.prefix_concat_iff, List.append_singleton_inj]

theorem boundAt_append {ds : List Directive} {d : Directive} {label : Label} {position : Nat} :
    BoundAt (ds ++ [d]) label position ↔
      BoundAt ds label position ∨
        d = .bind label ∧ label < issued ds ∧ emissions ds = position := by
  constructor
  · rintro ⟨before, here, hissued, hposition⟩
    obtain ⟨rfl, hd⟩ | here := point_append.1 here
    · exact .inr ⟨hd.symm, hissued, hposition⟩
    · exact .inl ⟨before, here, hissued, hposition⟩
  · rintro (⟨before, here, hissued, hposition⟩ | ⟨rfl, hissued, hposition⟩)
    · exact ⟨before, point_append.2 (.inr here), hissued, hposition⟩
    · exact ⟨ds, List.prefix_rfl, hissued, hposition⟩

theorem wellBound_append {ds : List Directive} {d : Directive} :
    WellBound (ds ++ [d]) ↔
      WellBound ds ∧ ∀ label fault, d = .bind label → ¬ BindFault ds label fault := by
  constructor
  · intro h
    constructor
    · intro before label fault here
      exact h before label fault (point_append.2 (.inr here))
    · rintro label fault rfl
      exact h ds label fault List.prefix_rfl
  · rintro ⟨hds, hd⟩ before label fault here
    obtain ⟨rfl, rfl⟩ | here := point_append.1 here
    · exact hd label fault rfl
    · exact hds before label fault here

namespace Assembler

/-! ## What the assembler has appended -/

/-- The pools of one assembler give every entry the index that it has in those of another. -/
structure Extends (a' a : Assembler) : Prop where
  constants : ∀ c index, a.constants.findIdx? (· == c) = some index →
    a'.constants.findIdx? (· == c) = some index
  localNames : ∀ name index, a.localNames.findIdx? (· == name) = some index →
    a'.localNames.findIdx? (· == name) = some index

theorem Extends.of_eq {a' a : Assembler} (hc : a'.constants = a.constants)
    (hn : a'.localNames = a.localNames) : a'.Extends a := by
  constructor
  · intro c index h
    rw [hc]
    exact h
  · intro name index h
    rw [hn]
    exact h

/-- Interning a constant or the name of a local variable moves no entry. -/
theorem extends_apply (a : Assembler) (d : Directive) : (a.apply d).Extends a := by
  cases d with
  | loadConst c | constant c =>
      exact ⟨fun _ _ h => findIdx?_intern_of_eq_some h c, fun _ _ h => h⟩
  | loadFast name | storeFast name | variableIndex name =>
      exact ⟨fun _ _ h => h, fun _ _ h => findIdx?_intern_of_eq_some h name⟩
  | bind label =>
      apply Extends.of_eq <;> (simp only [apply, bind]; split <;> rfl)
  | _ => exact Extends.of_eq rfl rfl

/-- The assembler has appended the instructions that the directives ask for. -/
structure Appended (a : Assembler) (ds : List Directive) : Prop where
  length : a.emitted.length = emissions ds
  emitted : ∀ before d, before ++ [d] <+: ds → d.emits = true →
    ∃ i, a.emitted[emissions before]? = some ⟨i, d.aim?⟩ ∧
      d.instruction? a.constants a.localNames 0 = some i

/-- What one directive appends. -/
theorem emitted_apply (a : Assembler) (d : Directive) :
    (d.emits = true ∧ ∃ i, (a.apply d).emitted = a.emitted ++ [⟨i, d.aim?⟩] ∧
      d.instruction? (a.apply d).constants (a.apply d).localNames 0 = some i) ∨
    (d.emits = false ∧ (a.apply d).emitted = a.emitted) := by
  cases d with
  | loadConst c =>
      refine .inl ⟨rfl, _, rfl, ?_⟩
      exact Option.map_eq_some_iff.2 ⟨_, findIdx?_intern a.constants c, rfl⟩
  | loadFast name | storeFast name =>
      refine .inl ⟨rfl, _, rfl, ?_⟩
      exact Option.map_eq_some_iff.2 ⟨_, findIdx?_intern a.localNames name, rfl⟩
  | constant _ | variableIndex _ | label => exact .inr ⟨rfl, rfl⟩
  | bind label =>
      refine .inr ⟨rfl, ?_⟩
      simp only [apply, bind]
      split <;> rfl
  | _ => exact .inl ⟨rfl, _, rfl, rfl⟩

theorem Appended.apply {a : Assembler} {ds : List Directive} (h : a.Appended ds) (d : Directive) :
    (a.apply d).Appended (ds ++ [d]) := by
  -- what stood there keeps its place, since instructions are only added at the end
  have older {before : List Directive} {d' : Directive} (here : before ++ [d'] <+: ds) (hd' : d'.emits = true)
      {rest : List Emission} (he : (a.apply d).emitted = a.emitted ++ rest) :
      ∃ i, (a.apply d).emitted[emissions before]? = some ⟨i, d'.aim?⟩ ∧
        d'.instruction? (a.apply d).constants (a.apply d).localNames 0 = some i := by
    obtain ⟨i, hi, hasked⟩ := h.emitted before d' here hd'
    have grown := a.extends_apply d
    refine ⟨i, ?_, Directive.instruction?_of_grown grown.constants grown.localNames hasked⟩
    rw [he, List.getElem?_append_left (List.getElem?_eq_some_iff.1 hi).1]
    exact hi
  obtain ⟨hd, i, he, hi⟩ | ⟨hd, he⟩ := a.emitted_apply d
  · constructor
    · rw [he, emissions_append, hd, List.length_append, h.length]
      rfl
    · intro before d' here hd'
      obtain ⟨rfl, rfl⟩ | here := point_append.1 here
      · refine ⟨i, ?_, hi⟩
        rw [he, ← h.length]
        exact List.getElem?_concat_length
      · exact older here hd' he
  · constructor
    · rw [he, emissions_append, hd, h.length]
      rfl
    · intro before d' here hd'
      obtain ⟨rfl, rfl⟩ | here := point_append.1 here
      · rw [hd] at hd'
        cases hd'
      · exact older here hd' (he.trans (List.append_nil _).symm)

/-! ## What the assembler knows of its labels -/

/-- The assembler has counted the labels and keeps the first fault; without one it knows where
each label is bound. -/
structure Tracks (a : Assembler) (ds : List Directive) : Prop where
  issued : a.labels.length = issued ds
  clean : a.fault = none → WellBound ds ∧
    ∀ label position, a.position? label = some position ↔ BoundAt ds label position
  faulty : ∀ fault, a.fault = some fault → ∃ before label, before ++ [.bind label] <+: ds ∧
    WellBound before ∧ BindFault before label fault

/-- A fault stays where it was met. -/
theorem Tracks.faulty_append {a : Assembler} {ds : List Directive} (h : a.Tracks ds) (d : Directive)
    {fault : AssemblyError} (hf : a.fault = some fault) :
    ∃ before label, before ++ [.bind label] <+: ds ++ [d] ∧
      WellBound before ∧ BindFault before label fault := by
  obtain ⟨before, label, here, first, wrong⟩ := h.faulty fault hf
  exact ⟨before, label, point_append.2 (.inr here), first, wrong⟩

/-- A directive that binds nothing changes nothing about what is bound. -/
theorem Tracks.of_no_bind {a a' : Assembler} {ds : List Directive} (h : a.Tracks ds) {d : Directive}
    (hd : ∀ label, d ≠ .bind label) (hf : a'.fault = a.fault)
    (hi : a'.labels.length = Code.issued (ds ++ [d]))
    (hp : ∀ label, a'.position? label = a.position? label) : a'.Tracks (ds ++ [d]) := by
  constructor
  · exact hi
  · intro hclean
    obtain ⟨hwell, hbound⟩ := h.clean (hf ▸ hclean)
    constructor
    · apply wellBound_append.2
      exact ⟨hwell, fun label _ hbind => absurd hbind (hd label)⟩
    · intro label position
      rw [hp, hbound, boundAt_append]
      simp [hd label]
  · intro fault hfault
    exact h.faulty_append d (hf ▸ hfault)

theorem position?_eq_some {a : Assembler} {label : Label} {position : Nat} :
    a.position? label = some position ↔ a.labels[label]? = some (some position) := by
  simp [position?, Option.join_eq_some_iff]

/-- Binding a label that was issued and is not bound. -/
theorem Tracks.bind_fresh {a : Assembler} {ds : List Directive} (h : a.Tracks ds)
    (hlen : a.emitted.length = emissions ds) {label : Label} (hl : a.labels[label]? = some none) :
    Tracks { a with labels := a.labels.set label (some a.emitted.length) } (ds ++ [.bind label]) := by
  have hlt : label < a.labels.length := (List.getElem?_eq_some_iff.1 hl).1
  constructor
  · rw [issued_append]
    simpa using h.issued
  · intro hclean
    obtain ⟨hwell, hbound⟩ := h.clean hclean
    have hnot : ∀ position, ¬ BoundAt ds label position := by
      intro position hb
      rw [← hbound, position?_eq_some, hl] at hb
      cases hb
    constructor
    · apply wellBound_append.2
      refine ⟨hwell, ?_⟩
      intro label' fault heq wrong
      cases heq
      cases wrong with
      | unissued hge => exact absurd (h.issued ▸ hlt) (Nat.not_lt.2 hge)
      | duplicate position hb => exact hnot position hb
    · intro label' position
      rw [position?_eq_some, boundAt_append, ← hbound, position?_eq_some]
      simp only [List.getElem?_set, Directive.bind.injEq]
      by_cases heq : label = label'
      · subst heq
        rw [hl]
        simp [hlt, hlen, ← h.issued]
      · simp [heq]
  · intro fault hfault
    exact h.faulty_append _ hfault

/-- Binding a label that must not be bound. -/
theorem Tracks.bind_fail {a : Assembler} {ds : List Directive} (h : a.Tracks ds) {label : Label}
    {fault : AssemblyError} (wrong : a.fault = none → BindFault ds label fault) :
    (a.fail fault).Tracks (ds ++ [.bind label]) := by
  constructor
  · rw [issued_append]
    exact h.issued
  · intro hclean
    cases hclean
  · intro fault' hfault
    cases hf : a.fault with
    | some first =>
        simp only [fail, hf, Option.getD_some, Option.some.injEq] at hfault
        exact h.faulty_append _ (hfault ▸ hf)
    | none =>
        simp only [fail, hf, Option.getD_none, Option.some.injEq] at hfault
        exact ⟨ds, label, List.prefix_rfl, (h.clean hf).1, hfault ▸ wrong hf⟩

theorem Tracks.apply {a : Assembler} {ds : List Directive} (h : a.Tracks ds)
    (hlen : a.emitted.length = emissions ds) (d : Directive) :
    (a.apply d).Tracks (ds ++ [d]) := by
  cases d with
  | bind label =>
      cases hl : a.labels[label]? with
      | none =>
          simp only [Assembler.apply, bind, hl]
          apply h.bind_fail
          intro _
          apply BindFault.unissued
          rw [← h.issued]
          exact List.getElem?_eq_none_iff.1 hl
      | some slot =>
          cases slot with
          | none =>
              simp only [Assembler.apply, bind, hl]
              exact h.bind_fresh hlen hl
          | some position =>
              simp only [Assembler.apply, bind, hl]
              apply h.bind_fail
              intro hclean
              apply BindFault.duplicate position
              exact ((h.clean hclean).2 label position).1 (position?_eq_some.2 hl)
  | label =>
      refine h.of_no_bind (by simp) rfl ?_ ?_
      · rw [issued_append]
        simp [Assembler.apply, Assembler.label, h.issued]
      · intro label
        simp only [Assembler.apply, Assembler.label, position?, List.getElem?_append,
          List.getElem?_singleton]
        split
        · rfl
        · next hge =>
            rw [List.getElem?_eq_none (Nat.not_lt.1 hge)]
            split <;> rfl
  | _ =>
      refine h.of_no_bind (by simp) rfl ?_ ?_
      · rw [issued_append]
        exact h.issued
      · intro label
        rfl

/-- What the assembler has after carrying out all directives. -/
theorem applyAll_tracks (name : String) (args : List String) (filename : String)
    (ds : List Directive) :
    ((new name args filename).applyAll ds).Appended ds ∧
      ((new name args filename).applyAll ds).Tracks ds := by
  induction ds using List.reverseRecOn with
  | nil =>
      refine ⟨⟨rfl, ?_⟩, ⟨rfl, ?_, ?_⟩⟩
      · intro before d here
        simp at here
      · intro _
        refine ⟨fun before label fault here => by simp at here, ?_⟩
        intro label position
        simp [applyAll, new, position?, BoundAt]
      · intro fault hfault
        cases hfault
  | append_singleton ds d ih =>
      obtain ⟨happended, htracks⟩ := ih
      rw [applyAll_append]
      exact ⟨happended.apply d, htracks.apply happended.length d⟩

/-! ## Turning labels into distances -/

/-- Each instruction of a finished program is the resolution of the one at its place. -/
theorem resolveFrom_eq_ok {a : Assembler} {es : List Emission} {index : Nat}
    {is : List Instruction} (h : a.resolveFrom index es = .ok is) :
    is.length = es.length ∧ ∀ k e, es[k]? = some e →
      ∃ i, is[k]? = some i ∧ a.resolve (index + k) e = .ok i := by
  induction es generalizing index is with
  | nil =>
      cases h
      exact ⟨rfl, by simp⟩
  | cons e rest ih =>
      simp only [resolveFrom] at h
      split at h
      · cases h
      · next i hi =>
          split at h
          · cases h
          · next is' his =>
              cases h
              obtain ⟨hlen, hall⟩ := ih his
              refine ⟨by simp [hlen], ?_⟩
              intro k e' hk
              cases k with
              | zero =>
                  cases hk
                  exact ⟨i, rfl, hi⟩
              | succ k =>
                  obtain ⟨i', hi', hr⟩ := hall k e' hk
                  exact ⟨i', hi', by rw [← hr, Nat.add_right_comm, Nat.add_assoc]⟩

theorem resolve_eq_ok {a : Assembler} {index : Nat} {e : Emission} {i : Instruction} {label : Label}
    (h : a.resolve index e = .ok i) (ht : e.target = some label) :
    ∃ position, a.position? label = some position ∧
      i = e.instruction.withOffset ((position : Int) - ((index : Int) + 1)) := by
  simp only [resolve, ht] at h
  split at h
  · cases h
  · next position hp =>
      cases h
      exact ⟨position, hp, rfl⟩

theorem resolve_eq_error {a : Assembler} {index : Nat} {e : Emission} {fault : AssemblyError}
    (h : a.resolve index e = .error fault) :
    ∃ label, e.target = some label ∧ a.position? label = none ∧ fault = .unboundLabel label := by
  simp only [resolve] at h
  split at h
  · cases h
  · next label ht =>
      split at h
      · next hp =>
          cases h
          exact ⟨label, ht, hp, rfl⟩
      · cases h

/-- The resolution stops at the first instruction aimed at a label that is nowhere. -/
theorem resolveFrom_eq_error {a : Assembler} {es : List Emission} {index : Nat}
    {fault : AssemblyError} (h : a.resolveFrom index es = .error fault) :
    ∃ (k : Nat) (e : Emission) (label : Label), es[k]? = some e ∧ e.target = some label ∧
      a.position? label = none ∧ fault = .unboundLabel label ∧
      ∀ j < k, ∀ (e' : Emission) (label' : Label), es[j]? = some e' → e'.target = some label' →
        ∃ position, a.position? label' = some position := by
  induction es generalizing index with
  | nil => cases h
  | cons e rest ih =>
      simp only [resolveFrom] at h
      split at h
      · next hr =>
          cases h
          obtain ⟨label, ht, hp, hfault⟩ := resolve_eq_error hr
          exact ⟨0, e, label, rfl, ht, hp, hfault, fun j hj => absurd hj (Nat.not_lt_zero j)⟩
      · next i hi =>
          split at h
          · next his =>
              cases h
              obtain ⟨k, e', label, hk, ht, hp, hfault, hbefore⟩ := ih his
              refine ⟨k + 1, e', label, hk, ht, hp, hfault, ?_⟩
              intro j hj e'' label' he'' ht''
              cases j with
              | zero =>
                  cases he''
                  obtain ⟨position, hpos, _⟩ := resolve_eq_ok hi ht''
                  exact ⟨position, hpos⟩
              | succ j => exact hbefore j (Nat.lt_of_succ_lt_succ hj) e'' label' he'' ht''
          · cases h

end Assembler

/-- Every instruction of the program comes from a directive. -/
theorem exists_emitting {ds : List Directive} {k : Nat} (h : k < emissions ds) :
    ∃ before d, before ++ [d] <+: ds ∧ d.emits = true ∧ emissions before = k := by
  induction ds using List.reverseRecOn with
  | nil => cases h
  | append_singleton ds d ih =>
      by_cases hk : k < emissions ds
      · obtain ⟨before, d', here, hd', hbefore⟩ := ih hk
        exact ⟨before, d', point_append.2 (.inr here), hd', hbefore⟩
      · rw [emissions_append] at h
        cases hd : d.emits with
        | true =>
            rw [hd, if_pos rfl] at h
            exact ⟨ds, d, List.prefix_rfl, hd, by omega⟩
        | false =>
            rw [hd, if_neg Bool.false_ne_true] at h
            omega

/-- A directive of a list stands somewhere in it. -/
theorem exists_point {ds : List Directive} {d : Directive} (h : d ∈ ds) :
    ∃ before, before ++ [d] <+: ds := by
  obtain ⟨before, after, rfl⟩ := List.append_of_mem h
  exact ⟨before, after, by simp⟩

/-- Of two directives, the earlier one has fewer instructions before it if it appends one. -/
theorem emissions_lt {before ds : List Directive} {d : Directive} (here : before ++ [d] <+: ds)
    (hd : d.emits = true) : emissions before < emissions ds := by
  have hle := emissions_le here
  rw [emissions_append, hd, if_pos rfl] at hle
  exact hle

theorem BoundAt.le {ds : List Directive} {label : Label} {position : Nat}
    (h : BoundAt ds label position) : position ≤ emissions ds := by
  obtain ⟨before, here, _, rfl⟩ := h
  exact emissions_le ((List.prefix_append before _).trans here)

theorem Faulty.not_well {ds : List Directive} {fault : AssemblyError} (h : Faulty ds fault) :
    ¬ (WellBound ds ∧ WellAimed ds ds) := by
  rintro ⟨hbound, haimed⟩
  cases h with
  | binding here _ wrong => exact hbound _ _ _ here wrong
  | aiming _ here aimed nowhere _ =>
      have hmem := here.subset (List.mem_append_right _ List.mem_cons_self)
      obtain ⟨position, hposition⟩ := haimed _ hmem _ aimed
      exact nowhere position hposition

/-- The interpreter goes over a distance by adding it to its counter. -/
theorem target_of_le {offset : Int} {position : Nat} {s : Activation × World}
    (hsum : (s.1.counter : Int) + offset = position) (hle : position ≤ Frame.greatestPosition) :
    Exec.target offset s = .ok position s := by
  have hnonneg : ¬ (position : Int) < 0 := by omega
  change (if (s.1.counter : Int) + offset < 0 then _ else _ : Exec Nat) s = _
  rw [hsum, if_neg hnonneg, if_pos hle]
  rfl

namespace Assembler

variable {a : Assembler} {ds : List Directive}

/-- The distance that leads from an instruction to a place, as the interpreter goes it. -/
theorem leadsTo_of_position (htracks : a.Tracks ds) (hclean : a.fault = none) {label : Label}
    {position : Nat} (hp : a.position? label = some position) (place : Nat) :
    LeadsTo ds place ((position : Int) - ((place : Int) + 1)) label position := by
  have hbound := (htracks.clean hclean).2
  constructor
  · intro q
    rw [← hbound, hp, Option.some.injEq, eq_comm]
  · exact ((hbound label position).1 hp).le
  · omega
  · intro hle s hs
    exact target_of_le (by omega) hle

/-- A program that is assembled has what the directives ask for. -/
theorem lands_of_ok (happended : a.Appended ds) (htracks : a.Tracks ds) {p : Program}
    (h : a.assemble = .ok p) : (WellBound ds ∧ WellAimed ds ds) ∧ Lands ds p := by
  simp only [assemble] at h
  split at h
  · cases h
  next hclean =>
  split at h
  · cases h
  next instructions hresolved =>
  cases h
  obtain ⟨hlen, hall⟩ := resolveFrom_eq_ok hresolved
  have hbound := (htracks.clean hclean).2
  refine ⟨⟨(htracks.clean hclean).1, ?_⟩, ?_, ?_⟩
  · intro d hd label haim
    obtain ⟨before, here⟩ := exists_point hd
    obtain ⟨i, hi, _⟩ := happended.emitted before d here (Directive.emits_of_aim haim)
    obtain ⟨_, _, hr⟩ := hall _ _ hi
    obtain ⟨position, hp, _⟩ := resolve_eq_ok hr haim
    exact ⟨position, (hbound label position).1 hp⟩
  · exact hlen.trans happended.length
  · intro before d here hd
    obtain ⟨i, hi, hasked⟩ := happended.emitted before d here hd
    obtain ⟨i', hi', hr⟩ := hall _ _ hi
    rw [Nat.zero_add] at hr
    cases haim : d.aim? with
    | none =>
        simp only [resolve, haim, Except.ok.injEq] at hr
        refine ⟨0, i', hi', hr ▸ hasked, ?_⟩
        intro label hl
        cases hl
    | some label =>
        obtain ⟨position, hp, rfl⟩ := resolve_eq_ok hr haim
        refine ⟨_, _, hi', Directive.instruction?_withOffset haim hasked, ?_⟩
        intro label' hl
        cases hl
        exact ⟨position, leadsTo_of_position htracks hclean hp (emissions before)⟩

/-- A program that is refused is refused for the first fault of its directives. -/
theorem faulty_of_error (happended : a.Appended ds) (htracks : a.Tracks ds)
    {fault : AssemblyError} (h : a.assemble = .error fault) : Faulty ds fault := by
  simp only [assemble] at h
  split at h
  · next hfault =>
      cases h
      obtain ⟨before, label, here, first, wrong⟩ := htracks.faulty fault hfault
      exact .binding here first wrong
  next hclean =>
  split at h
  · next hresolved =>
      cases h
      obtain ⟨hwell, hbound⟩ := htracks.clean hclean
      obtain ⟨k, e, label, hk, ht, hp, rfl, hfirst⟩ := resolveFrom_eq_error hresolved
      have hlt : k < emissions ds := by
        rw [← happended.length]
        exact (List.getElem?_eq_some_iff.1 hk).1
      obtain ⟨before, d, here, hd, rfl⟩ := exists_emitting hlt
      obtain ⟨i, hi, _⟩ := happended.emitted before d here hd
      rw [hk] at hi
      cases hi
      refine .aiming hwell here ht ?_ ?_
      · intro position hb
        rw [← hbound, hp] at hb
        cases hb
      · intro d' hd' label' haim'
        obtain ⟨before', here'⟩ := exists_point hd'
        have hemits := Directive.emits_of_aim haim'
        have hds := here'.trans ((List.prefix_append before [d]).trans here)
        obtain ⟨i', hi', _⟩ := happended.emitted before' d' hds hemits
        obtain ⟨position, hposition⟩ :=
          hfirst _ (emissions_lt here' hemits) _ label' hi' haim'
        exact ⟨position, (hbound label' position).1 hposition⟩
  · cases h

/-- Whatever the directives are, the assembler succeeds exactly when every `bind` and every aim is
as it should be.  Then the program has what the directives ask for and its jumps lead to their
labels; otherwise the error is the first fault in the list. -/
theorem assembled_jumps_land (name : String) (args : List String) (filename : String)
    (ds : List Directive) :
    ((∃ p, ((new name args filename).applyAll ds).assemble = .ok p) ↔
      WellBound ds ∧ WellAimed ds ds) ∧
    match ((new name args filename).applyAll ds).assemble with
    | .ok p => Lands ds p
    | .error fault => Faulty ds fault := by
  obtain ⟨happended, htracks⟩ := applyAll_tracks name args filename ds
  cases h : ((new name args filename).applyAll ds).assemble with
  | ok p =>
      obtain ⟨hwell, hlands⟩ := lands_of_ok happended htracks h
      exact ⟨⟨fun _ => hwell, fun _ => ⟨p, rfl⟩⟩, hlands⟩
  | error fault =>
      have hfaulty := faulty_of_error happended htracks h
      refine ⟨⟨?_, fun hwell => absurd hwell hfaulty.not_well⟩, hfaulty⟩
      rintro ⟨p, hp⟩
      cases hp

/-- A jump forward to the end of the program and one back to its start. -/
example : ((new "loop" [] Source.defaultFilename).applyAll
    [.label, .label, .bind 0, .loadConst (.bool true), .jumpIfFalse 1, .jump 0, .bind 1]).assemble =
      .ok ⟨[.loadConst 0, .jumpIfFalse 1, .jump (-3)], [], 0, [.bool true]⟩ := by decide

end Assembler

end Resumable.Code
