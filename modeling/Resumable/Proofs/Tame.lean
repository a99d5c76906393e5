import Resumable.Proofs.Accounts
import Resumable.Proofs.Positions

set_option autoImplicit false

/-!
# Tame worlds

A world is tame if the bodies of its generators are sound programs, its iterators step through lists,
and its frames are tame.  Nothing that a program does makes a tame world other than tame, and every
change of a tame world that keeps to this is listed here.
-/

namespace Resumable

/-- A program whose jumps lead to positions and whose variables frames have room for. -/
structure Code.Program.Sound (p : Code.Program) : Prop where
  fits : p.Fits
  lands : ∀ (k : Nat) (i : Code.Instruction) (offset : Int), p.instructions[k]? = some i →
    i.offset? = some offset → ((k + 1 : Nat) : Int) + offset ≤ Frame.greatestPosition
  rooms : ∀ index, .storeFast index ∈ p.instructions → Frame.hasRoomFor index = true

/-- The program without instructions is sound. -/
theorem Code.Program.sound_default : (default : Code.Program).Sound :=
  ⟨show ((0 : Nat) : Int) < Frame.greatestPosition by decide, fun _ _ _ hi => (nomatch hi),
    fun _ hi => nomatch hi⟩

/-- A code object that executes a sound program. -/
def CodeObject.Tame (c : CodeObject) : Prop :=
  match c.body with
  | .program p => p.Sound
  | .script _ => False

open Run (Leaves) in
/-- A body that is a sound program leaves a ready frame tame, and after a result another position
follows. -/
theorem CodeObject.Tame.resume {c : CodeObject} (hc : c.Tame) (e : Engine) (closure : Value)
    (pending : Option Exception) {f : Frame} (h : f.Ready) :
    Leaves (fun _ b => b.Tame ∧ b.hasNext = true) Frame.Tame Frame.Tame
      (c.resume e closure pending) f := by
  unfold CodeObject.Tame at hc
  unfold CodeObject.resume
  cases hbody : c.body with
  | program p =>
      rw [hbody] at hc
      exact p.resume_tame hc.fits e closure pending h
  | script s =>
      rw [hbody] at hc
      exact hc.elim

/-- An iterator that steps through a list. -/
def Iterator.Tame : Iterator → Prop
  | .list _ _ => True
  | .scripted _ => False

mutual

/-- The expression makes no iterator that follows a script. -/
def Expr.isTame : Expr → Bool
  | .list items => Expr.areTame items
  | .exception _ args _ _ => Expr.areTame args
  | .listIterator source => source.isTame
  | .scripted _ _ _ _ => false
  | _ => true

/-- The expressions make no iterator that follows a script. -/
def Expr.areTame : List Expr → Bool
  | [] => true
  | x :: xs => x.isTame && Expr.areTame xs

end

namespace World

/-- Bodies are sound programs, iterators step through lists, and frames are tame. -/
structure Tame (w : World) : Prop where
  codes : ∀ r, (w.code r).Tame
  iterators : ∀ r i, w.iterator? r = some i → i.Tame
  frames : ∀ r f, w.frame? r = some f → f.Tame

namespace Tame

variable {w t : World}

/-- The same code objects, iterators and frames. -/
theorem congr (h : w.Tame) (hcodes : t.codes = w.codes)
    (hiterators : ∀ r, t.iterator? r = w.iterator? r) (hframes : ∀ r, t.frame? r = w.frame? r) :
    t.Tame where
  codes r := by
    have hcode : t.code r = w.code r := by rw [World.code, hcodes, World.code]
    exact hcode ▸ h.codes r
  iterators r i hi := h.iterators r i (hiterators r ▸ hi)
  frames r f hf := h.frames r f (hframes r ▸ hf)

theorem setItems (h : w.Tame) (r : ListRef) (vs : List Value) : (w.setItems r vs).Tame :=
  h.congr rfl (by simp) (by simp)

theorem setGenerator (h : w.Tame) (g : GeneratorRef) (x : Generator) : (w.setGenerator g x).Tame :=
  h.congr rfl (by simp) (by simp)

theorem setOwners (h : w.Tame) (n : Nat) (o : Object) : (w.setOwners n o).Tame :=
  h.congr (congrArg Surroundings.codes (surroundings_setOwners w n o)) (by simp) (by simp)

theorem addOwners (os : List Object) (h : w.Tame) : (w.addOwners os).Tame := by
  induction os generalizing w with
  | nil => exact h
  | cons o os ih => exact ih (h.setOwners _ o)

theorem newList (h : w.Tame) (vs : List Value) : (w.newList vs).2.Tame :=
  h.congr rfl (fun _ => rfl) fun _ => rfl

theorem setIterator (h : w.Tame) (r : IteratorRef) {x : Option Iterator}
    (hx : ∀ i, x = some i → i.Tame) : (w.setIterator r x).Tame where
  codes := h.codes
  iterators s i hi := by
    rw [iterator_setIterator] at hi
    split at hi
    · exact hx i hi
    · exact h.iterators s i hi
  frames s f hf := h.frames s f (by simpa using hf)

theorem newIterator (h : w.Tame) {x : Iterator} (hx : x.Tame) : (w.newIterator x).2.Tame where
  codes := h.codes
  iterators s i hi := by
    rw [iterator_newIterator] at hi
    split at hi
    · cases hi
      exact hx
    · exact h.iterators s i hi
  frames s f hf := h.frames s f hf

theorem setFrame (h : w.Tame) (r : FrameRef) {x : Option Frame} (hx : ∀ f, x = some f → f.Tame) :
    (w.setFrame r x).Tame where
  codes := h.codes
  iterators s i hi := h.iterators s i (by simpa using hi)
  frames s f hf := by
    rw [frame_setFrame] at hf
    split at hf
    · exact hx f hf
    · exact h.frames s f hf

theorem newCode (h : w.Tame) {c : CodeObject} (hc : c.Tame) : (w.newCode c).2.Tame where
  codes r := by
    show (((w.codes ++ [c])[r.index]?).getD default).Tame
    by_cases hr : r.index < w.codes.length
    · rw [List.getElem?_append_left hr]
      exact h.codes r
    · rw [List.getElem?_append_right (Nat.not_lt.1 hr)]
      rcases hindex : r.index - w.codes.length with _ | k
      · exact hc
      · exact Code.Program.sound_default
  iterators := h.iterators
  frames := h.frames

theorem newFrame (h : w.Tame) {f : Frame} (hf : f.Tame) : (w.newFrame f).2.Tame where
  codes := h.codes
  iterators := h.iterators
  frames s b hb := by
    have hframe : (w.newFrame f).2.frame? s =
        if s = (w.newFrame f).1 then some f else w.frame? s := by
      simp [frame?, World.newFrame, Store.content_alloc, FrameRef.ext_iff]
    rw [hframe] at hb
    split at hb
    · cases hb
      exact hf
    · exact h.frames s b hb

end Tame

end World

end Resumable
