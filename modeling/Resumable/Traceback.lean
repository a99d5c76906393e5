set_option autoImplicit false

/-!
# Tracebacks

The places that an exception escaped through.  Entries are listed outermost first, so recording a
further place puts it at the front and the most recent call stays last.
-/

namespace Resumable

/-- One place that an exception escaped through: the name and the file of the code, and the
offset of the instruction. -/
structure TraceEntry where
  name : String
  filename : String
  offset : Nat
  deriving DecidableEq, Repr, Inhabited

namespace TraceEntry

/-- The entry as one line of text. -/
def text (e : TraceEntry) : String :=
  "File \"" ++ e.filename ++ "\", offset " ++ toString e.offset ++ ", in " ++ e.name

end TraceEntry

/-- The places that an exception escaped through, outermost first. -/
structure Traceback where
  entries : List TraceEntry
  deriving DecidableEq, Repr, Inhabited

namespace Traceback

/-- The traceback without entries. -/
def empty : Traceback := ⟨[]⟩

/-- Records a place further out than all others. -/
def pushOuter (t : Traceback) (e : TraceEntry) : Traceback := ⟨e :: t.entries⟩

/-- Records places one after the other, so that the last of them becomes the outermost. -/
def pushAll (t : Traceback) (es : List TraceEntry) : Traceback := es.foldl pushOuter t

/-- A heading, then one indented line for each entry. -/
def text (t : Traceback) : String :=
  t.entries.foldl (fun s e => s ++ "  " ++ e.text ++ "\n") "Traceback (most recent call last):\n"

theorem entries_pushOuter (t : Traceback) (e : TraceEntry) :
    (t.pushOuter e).entries = e :: t.entries := rfl

theorem entries_pushAll (t : Traceback) (es : List TraceEntry) :
    (t.pushAll es).entries = es.reverse ++ t.entries := by
  induction es generalizing t with
  | nil => rfl
  | cons e es ih => simp [pushAll] at ih ⊢; rw [ih]; simp [pushOuter]

end Traceback

end Resumable
