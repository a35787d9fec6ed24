import LintBridge.Proofs.Text.Places

/-!
The division of a text into lines.

`IsDivision` says what a division is without saying how to find one: its lines are the text when
they stand one after the other, none of them is empty, each but the last one is some characters that
end no line and one terminator, the last one may do without the terminator, and no CR LF is cut.

* `isDivision_iff`: these are the lists of lines that `IsLines` builds from the front;
* `splitLines_only_division`: so every text has one division, which `splitLines` finds, and what
  `stripTerminator` takes off a line of it is the one terminator that the line has.
-/

namespace LintBridge

/-- A line that ends in a terminator, with no character before it that ends a line. -/
def Terminated (line : List Char) : Prop :=
  ∃ content e, Unbroken content ∧ line = content ++ LineEnding.chars e

/-- A list of lines that divides a text. -/
structure IsDivision (text : List Char) (lines : List (List Char)) : Prop where
  flatten : lines.flatten = text
  ne_nil : ∀ line ∈ lines, line ≠ []
  terminated : ∀ line ∈ lines.dropLast, Terminated line
  last : ∀ line, lines.getLast? = some line → Unbroken line ∨ Terminated line
  uncut : ∀ before after, lines = before ++ after → ¬ Meets before.flatten after.flatten

/-! ## From the front -/

/-- What follows the first line of a division divides the rest of the text. -/
theorem IsDivision.tail {text line : List Char} {rest : List (List Char)}
    (h : IsDivision text (line :: rest)) : IsDivision rest.flatten rest where
  flatten := rfl
  ne_nil other hother := h.ne_nil other (List.mem_cons_of_mem line hother)
  terminated other hother := by
    cases rest with
    | nil => cases hother
    | cons next rest =>
      apply h.terminated
      rw [List.dropLast_cons_cons]
      exact List.mem_cons_of_mem line hother
  last other hother := by
    cases rest with
    | nil => cases hother
    | cons next rest => exact h.last other (by rw [List.getLast?_cons_cons, hother])
  uncut before after hrest := by
    by_cases hnil : before.flatten = []
    · rw [hnil]
      exact not_meets_nil_left _
    · have hcut := h.uncut (line :: before) after (congrArg (line :: ·) hrest)
      rwa [List.flatten_cons, meets_append_left _ _ _ hnil] at hcut

/-- The terminator of the first line does not meet what follows. -/
theorem IsDivision.isLines_cons {text line : List Char} {rest : List (List Char)}
    (h : IsDivision text (line :: rest)) (hline : Terminated line) (hrest : IsLines rest) :
    IsLines (line :: rest) := by
  obtain ⟨content, e, hcontent, rfl⟩ := hline
  have hcut := h.uncut [content ++ e.chars] rest rfl
  rw [List.flatten_singleton, meets_append_left _ _ _ (chars_ne_nil e)] at hcut
  exact .line content e rest hcontent hcut hrest

theorem IsDivision.isLines {text : List Char} {lines : List (List Char)}
    (h : IsDivision text lines) : IsLines lines := by
  induction lines generalizing text with
  | nil => exact .nil
  | cons line rest ih =>
    have hrest := ih h.tail
    cases rest with
    | nil =>
      rcases h.last line rfl with hopen | hended
      · exact .last line (h.ne_nil line List.mem_cons_self) hopen
      · exact h.isLines_cons hended hrest
    | cons next rest => exact h.isLines_cons (h.terminated line List.mem_cons_self) hrest

theorem unbroken_or_terminated {lines : List (List Char)} (h : IsLines lines) :
    ∀ line ∈ lines, Unbroken line ∨ Terminated line := by
  intro line hline
  obtain ⟨ending, hends, hcontent, rfl | ⟨e, rfl⟩⟩ := exists_ending lines h line hline
  · rw [hends, List.append_nil]
    exact .inl hcontent
  · exact .inr ⟨_, e, hcontent, hends⟩

/-- The lists of lines that are built from the front divide the texts that they make up. -/
theorem isDivision_flatten {lines : List (List Char)} (h : IsLines lines) :
    IsDivision lines.flatten lines where
  flatten := rfl
  ne_nil line hline := by
    rw [← splitLines_flatten lines h] at hline
    exact ne_nil_of_mem_splitLines _ line hline
  terminated line hline := by
    rcases unbroken_or_terminated h line (List.dropLast_subset lines hline) with hopen | hended
    · rw [← splitLines_flatten lines h] at hline
      have hends := endsLine_of_mem_dropLast _ line hline
      rw [endsLine_of_unbroken line hopen] at hends
      cases hends
    · exact hended
  last line hline := unbroken_or_terminated h line (List.mem_of_getLast? hline)
  uncut before after hlines := by
    have hcut := h.not_meets before.length
    rwa [hlines, List.take_left, List.drop_left] at hcut

theorem isDivision_iff (text : List Char) (lines : List (List Char)) :
    IsDivision text lines ↔ IsLines lines ∧ lines.flatten = text := by
  constructor
  · exact fun h => ⟨h.isLines, h.flatten⟩
  · rintro ⟨h, rfl⟩
    exact isDivision_flatten h

/-! ## The only division -/

/-- What is left of some characters that end no line and an ending are these characters. -/
theorem stripTerminator_of_ending (content ending : List Char) (hcontent : Unbroken content)
    (hending : IsEnding ending) : stripTerminator (content ++ ending) = content := by
  rcases hending with rfl | ⟨e, rfl⟩
  · rw [List.append_nil]
    exact stripTerminator_of_not_endsLine content (endsLine_of_unbroken content hcontent)
  · exact stripTerminator_append_chars content e (not_meets_of_unbroken content _ hcontent)

/-- Every text has one division into lines and no other, the one that is found. A line of it is its
content, which has no character that ends a line, and its ending, which is one terminator or, in an
unfinished last line, nothing; no other content and ending make up the line, so that taking the
terminator off leaves the content. -/
theorem splitLines_only_division (text : List Char) :
    (∀ lines, IsDivision text lines ↔ lines = splitLines text) ∧
    ∀ line ∈ splitLines text, ∃ ending, IsEnding ending ∧ Unbroken (stripTerminator line) ∧
      line = stripTerminator line ++ ending ∧
      ∀ content other, Unbroken content → IsEnding other → line = content ++ other →
        content = stripTerminator line ∧ other = ending := by
  constructor
  · intro lines
    rw [isDivision_iff]
    constructor
    · rintro ⟨hlines, rfl⟩
      exact (splitLines_flatten lines hlines).symm
    · rintro rfl
      exact ⟨isLines_splitLines text, flatten_splitLines text⟩
  · intro line hline
    obtain ⟨ending, hends, hcontent, hending⟩ :=
      exists_ending (splitLines text) (isLines_splitLines text) line hline
    refine ⟨ending, hending, hcontent, hends, fun content other hother hkind heq => ?_⟩
    have hstrip : stripTerminator line = content := by
      rw [heq, stripTerminator_of_ending content other hother hkind]
    refine ⟨hstrip.symm, ?_⟩
    rw [hstrip, heq] at hends
    exact List.append_cancel_left hends

/-- A CR before a CR LF, a character of two code units, and a lone CR at the end. -/
def mixedTerminators : List Char := "é\r\r\n😀\n\r".toList

/-- The first CR is a terminator of its own, and the CR LF behind it is an empty line that is not
cut. -/
theorem mixedTerminators_divided :
    IsDivision mixedTerminators ["é\r".toList, "\r\n".toList, "😀\n".toList, "\r".toList] ∧
    ¬ IsDivision mixedTerminators ["é\r\r\n".toList, "😀\n".toList, "\r".toList] ∧
    "\r\n".toList ∈ splitLines mixedTerminators ∧
    ∃ ending, IsEnding ending ∧ "\r\n".toList = stripTerminator "\r\n".toList ++ ending := by
  obtain ⟨honly, hlines⟩ := splitLines_only_division mixedTerminators
  have hline : "\r\n".toList ∈ splitLines mixedTerminators := by decide
  refine ⟨(honly _).2 (by decide), fun h => absurd ((honly _).1 h) (by decide), hline, ?_⟩
  obtain ⟨ending, hending, -, hends, -⟩ := hlines _ hline
  exact ⟨ending, hending, hends⟩

end LintBridge
