import LintBridge.Proofs.Partial
import LintBridge.Proofs.Text.Position
import LintBridge.Text.Edit

/-!
Carrying out an edit cuts the text at two places and puts the new text between them.

`applyEdits?` finds its places by offsets in octets, while a text is a list of characters.
`splice?_append` says that the offset of a place cuts at that place, and `splice?_offsets` and
`applyEdits?_singleton` that an edit whose range names two places replaces what lies between them.
Every range names two places after all, so what it covers can be replaced
(`exists_splice?_offsets`).

`Range.offsets` are the places that a range names whether or not they can be counted. They are found
exactly if they can (`Range.offsets?_eq`), and edits are carried out by them (`applyEdits?_eq`).
-/

namespace LintBridge

/-- Where a position lies in a text, in UTF-8 octets. -/
def offsetAt (text : List Char) (p : Position) : Nat := Utf8.size (textBefore text p)

namespace Range

/-- Where a range lies in a text; an end before the start means the start. -/
def offsets (text : List Char) (range : Range) : Nat × Nat :=
  let start := offsetAt text range.start
  (start, max (offsetAt text range.stop) start)

def Counted (text : List Char) (range : Range) : Prop :=
  LintBridge.Counted text range.start ∧ LintBridge.Counted text range.stop

instance (text : List Char) (range : Range) : Decidable (range.Counted text) :=
  inferInstanceAs (Decidable (_ ∧ _))

end Range

/-- What an edit replaces, and by what. -/
def TextEdit.span (text : List Char) (edit : TextEdit) : Span :=
  ⟨(edit.range.offsets text).1, (edit.range.offsets text).2, edit.newText.toList⟩

/-! ## Places that can be counted -/

theorem offsetAt?_eq (text : List Char) (p : Position) :
    offsetAt? text p = if Counted text p then some (offsetAt text p) else none := by
  rw [offsetAt?, textBefore?_eq]
  split <;> rfl

theorem Range.offsets?_eq (text : List Char) (range : Range) :
    range.offsets? text = if range.Counted text then some (range.offsets text) else none := by
  simp only [Range.offsets?, offsetAt?_eq, Range.Counted]
  by_cases hstart : LintBridge.Counted text range.start <;>
    by_cases hstop : LintBridge.Counted text range.stop <;> simp [hstart, hstop, Range.offsets]

theorem TextEdit.span?_eq (text : List Char) (edit : TextEdit) :
    edit.span? text = if edit.range.Counted text then some (edit.span text) else none := by
  rw [TextEdit.span?, Range.offsets?_eq]
  split <;> rfl

/-- Edits are carried out if their places can be counted, and not otherwise. -/
theorem applyEdits?_eq (text : List Char) (edits : List TextEdit) :
    applyEdits? text edits =
      if ∀ edit ∈ edits, edit.range.Counted text then
        ((edits.map (·.span text)).mergeSort Span.goesFirst).foldlM
          (fun text span => splice? text span.start span.stop span.new) text
      else none := by
  have hspans := mapM_ite (fun e : TextEdit => e.range.Counted text) (·.span text) edits
  simp only [applyEdits?, funext (TextEdit.span?_eq text), hspans]
  split <;> rfl

/-! ## Cutting -/

theorem size_cons (c : Char) (text : List Char) :
    Utf8.size (c :: text) = c.utf8Size + Utf8.size text := rfl

theorem size_append (a b : List Char) : Utf8.size (a ++ b) = Utf8.size a + Utf8.size b := by
  induction a with
  | nil => exact (Nat.zero_add _).symm
  | cons c a ih => rw [List.cons_append, size_cons, size_cons, ih, Nat.add_assoc]

theorem size_pos (text : List Char) (h : text ≠ []) : 0 < Utf8.size text := by
  cases text with
  | nil => exact absurd rfl h
  | cons c rest =>
    have hpos := c.utf8Size_pos
    rw [size_cons]
    omega

theorem splitOffset?_append (before after : List Char) :
    splitOffset? (Utf8.size before) (before ++ after) = some (before, after) := by
  induction before with
  | nil =>
    show splitOffset? 0 after = some ([], after)
    rw [splitOffset?]
  | cons c before ih =>
    have hpos := c.utf8Size_pos
    obtain ⟨n, hn⟩ : ∃ n, Utf8.size (c :: before) = n + 1 :=
      ⟨Utf8.size (c :: before) - 1, by rw [size_cons]; omega⟩
    have hrest : n + 1 - c.utf8Size = Utf8.size before := by
      rw [← hn, size_cons]
      omega
    rw [hn, List.cons_append, splitOffset?, if_neg (by rw [← hn, size_cons]; omega), hrest, ih]
    rfl

/-- What stands between two offsets is replaced. -/
theorem splice?_append (left old right new : List Char) :
    splice? (left ++ (old ++ right)) (Utf8.size left) (Utf8.size (left ++ old)) new =
      some (left ++ new ++ right) := by
  have hlen : Utf8.size (left ++ old) - Utf8.size left = Utf8.size old := by
    rw [size_append]
    omega
  have hle : ¬ Utf8.size (left ++ old) < Utf8.size left := by
    rw [size_append]
    omega
  simp only [splice?, if_neg hle, splitOffset?_append, hlen, Option.bind_eq_bind,
    Option.bind_some, Option.pure_def]

/-- What a range covers is replaced, if its ends name two places of the text in their order. -/
theorem splice?_offsets (text left old right new : List Char) (range : Range)
    (htext : text = left ++ (old ++ right)) (hstart : textBefore text range.start = left)
    (hstop : textBefore text range.stop = left ++ old) :
    splice? text (range.offsets text).1 (range.offsets text).2 new =
      some (left ++ new ++ right) := by
  have hle : Utf8.size left ≤ Utf8.size (left ++ old) := by
    rw [size_append]
    omega
  have hcut := splice?_append left old right new
  rw [← htext] at hcut
  simp only [Range.offsets, offsetAt, hstart, hstop, Nat.max_eq_left hle]
  exact hcut

/-- Whatever a range names, its offsets are those of two places of the text. -/
theorem exists_offsets (text : List Char) (range : Range) :
    ∃ left old right, text = left ++ (old ++ right) ∧
      range.offsets text = (Utf8.size left, Utf8.size (left ++ old)) := by
  obtain ⟨right, hright⟩ := textBefore_isPrefix text range.start
  rcases List.prefix_or_prefix_of_prefix (textBefore_isPrefix text range.start)
    (textBefore_isPrefix text range.stop) with hle | hle
  · obtain ⟨old, hold⟩ := hle
    obtain ⟨rest, hrest⟩ := textBefore_isPrefix text range.stop
    rw [← hold, List.append_assoc] at hrest
    refine ⟨_, old, rest, hrest.symm, ?_⟩
    have hsize : offsetAt text range.start ≤ offsetAt text range.stop := by
      rw [offsetAt, offsetAt, ← hold, size_append]
      omega
    rw [Range.offsets, Nat.max_eq_left hsize, hold]
    rfl
  · refine ⟨_, [], right, hright.symm, ?_⟩
    have hsize : offsetAt text range.stop ≤ offsetAt text range.start := by
      obtain ⟨more, hmore⟩ := hle
      rw [offsetAt, offsetAt, ← hmore, size_append]
      omega
    rw [Range.offsets, Nat.max_eq_right hsize, List.append_nil]
    rfl

/-- Whatever a range names, what it covers can be replaced. -/
theorem exists_splice?_offsets (text new : List Char) (range : Range) :
    ∃ result, splice? text (range.offsets text).1 (range.offsets text).2 new = some result := by
  obtain ⟨left, old, right, htext, hoffsets⟩ := exists_offsets text range
  rw [hoffsets, htext]
  exact ⟨_, splice?_append left old right new⟩

theorem applyEdits?_nil (text : List Char) : applyEdits? text [] = some text := by
  simp [applyEdits?]

theorem applyEdits?_one (text : List Char) (edit : TextEdit) (h : edit.range.Counted text) :
    applyEdits? text [edit] = splice? text (edit.range.offsets text).1 (edit.range.offsets text).2
      edit.newText.toList := by
  rw [applyEdits?_eq, if_pos (by simpa using h)]
  simp only [List.map_cons, List.map_nil, List.mergeSort_singleton, List.foldlM_cons,
    List.foldlM_nil, TextEdit.span]
  exact bind_pure _

theorem exists_applyEdits?_one (text : List Char) (edit : TextEdit)
    (h : edit.range.Counted text) : ∃ result, applyEdits? text [edit] = some result := by
  rw [applyEdits?_one text edit h]
  exact exists_splice?_offsets text edit.newText.toList edit.range

theorem counted_of_applyEdits?_one (text result : List Char) (edit : TextEdit)
    (h : applyEdits? text [edit] = some result) : edit.range.Counted text := by
  refine Decidable.byContradiction fun hcounted => ?_
  rw [applyEdits?_eq, if_neg (by simpa using hcounted)] at h
  cases h

theorem applyEdits?_singleton (text left old right : List Char) (edit : TextEdit)
    (hcounted : edit.range.Counted text) (htext : text = left ++ (old ++ right))
    (hstart : textBefore text edit.range.start = left)
    (hstop : textBefore text edit.range.stop = left ++ old) :
    applyEdits? text [edit] = some (left ++ edit.newText.toList ++ right) := by
  rw [applyEdits?_one text edit hcounted]
  exact splice?_offsets text left old right edit.newText.toList edit.range htext hstart hstop

end LintBridge
