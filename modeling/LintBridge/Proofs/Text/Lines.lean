import LintBridge.Text.Line

/-!
Texts as lines.

Every text is empty, or a last line without a terminator, or a terminated line in front of another
text (`lines_induction`). `splitLines` follows this:

* `splitLines_unterminated`: a text without terminators is a single line;
* `splitLines_line_append`: a terminated line in front of a text is a line of its own, unless its
  CR and an LF after it would make one terminator (`Meets`);
* `flatten_splitLines`: the lines of a text, one after the other, are the text.
-/

namespace LintBridge

/-! ## Terminators -/

/-- Whether a character ends a line, alone or with a neighbour. -/
def isTerminatorChar (c : Char) : Bool := c == '\n' || c == '\r'

/-- No character of a text ends a line. -/
def Unbroken (text : List Char) : Prop := ∀ c ∈ text, isTerminatorChar c = false

instance (text : List Char) : Decidable (Unbroken text) :=
  List.decidableBAll (fun c => isTerminatorChar c = false) text

/-- The place between two texts lies inside one terminator: the first ends in CR and the second
starts with LF. -/
def Meets (before after : List Char) : Prop :=
  before.getLast? = some '\r' ∧ after.head? = some '\n'

instance (before after : List Char) : Decidable (Meets before after) :=
  inferInstanceAs (Decidable (_ ∧ _))

theorem unbroken_nil : Unbroken [] := by
  intro c hc
  cases hc

theorem unbroken_cons (c : Char) (text : List Char) :
    Unbroken (c :: text) ↔ isTerminatorChar c = false ∧ Unbroken text := by
  simp [Unbroken]

theorem not_meets_nil_left (after : List Char) : ¬ Meets [] after := by
  simp [Meets]

theorem not_meets_of_unbroken (before after : List Char) (h : Unbroken before) :
    ¬ Meets before after := by
  rintro ⟨hlast, -⟩
  have hcr := h '\r' (List.mem_of_getLast? hlast)
  exact absurd hcr (by decide)

/-- Whether a place lies inside a terminator depends on its neighbours only. -/
theorem meets_append_left (more before after : List Char) (h : before ≠ []) :
    Meets (more ++ before) after ↔ Meets before after := by
  have hlast : (more ++ before).getLast? = before.getLast? := by
    cases before with
    | nil => exact absurd rfl h
    | cons c rest => rw [List.getLast?_append, List.getLast?_cons, Option.some_or]
  simp only [Meets, hlast]

theorem meets_append_right (before after more : List Char) (h : after ≠ []) :
    Meets before (after ++ more) ↔ Meets before after := by
  cases after with
  | nil => exact absurd rfl h
  | cons c rest => simp [Meets]

theorem chars_ne_nil (e : LineEnding) : e.chars ≠ [] := by
  cases e <;> simp [LineEnding.chars]

/-- A place somewhere after a terminated line that lies inside no terminator: the line may be read
first, and then the place lies inside no terminator of what follows. -/
theorem not_meets_of_line (content rest after : List Char) (e : LineEnding)
    (hm : ¬ Meets e.chars rest) (h : ¬ Meets (content ++ (e.chars ++ rest)) after) :
    ¬ Meets e.chars (rest ++ after) ∧ ¬ Meets rest after := by
  rw [meets_append_left _ _ _ (by simp [chars_ne_nil])] at h
  by_cases hnil : rest = []
  · rw [hnil, List.append_nil] at h
    rw [hnil, List.nil_append]
    exact ⟨h, not_meets_nil_left after⟩
  · rw [meets_append_left _ _ _ hnil] at h
    rw [meets_append_right _ _ _ hnil]
    exact ⟨hm, h⟩

/-! ## Induction over lines -/

theorem exists_unbroken_append (text : List Char) : ∃ content rest,
    text = content ++ rest ∧ Unbroken content ∧ ∀ c, rest.head? = some c → isTerminatorChar c := by
  induction text with
  | nil => exact ⟨[], [], rfl, unbroken_nil, by simp⟩
  | cons c text ih =>
    cases hc : isTerminatorChar c with
    | true => exact ⟨[], c :: text, rfl, unbroken_nil, by simp [hc]⟩
    | false =>
      obtain ⟨content, rest, htext, hcontent, hrest⟩ := ih
      refine ⟨c :: content, rest, ?_, (unbroken_cons c content).2 ⟨hc, hcontent⟩, hrest⟩
      rw [htext, List.cons_append]

theorem exists_terminator_append (c : Char) (text : List Char) (hc : isTerminatorChar c) :
    ∃ e rest, c :: text = LineEnding.chars e ++ rest ∧ ¬ Meets e.chars rest := by
  have hcases : c = '\n' ∨ c = '\r' := by simpa [isTerminatorChar] using hc
  rcases hcases with rfl | rfl
  · exact ⟨.lf, text, rfl, by simp [Meets, LineEnding.chars]⟩
  · by_cases hlf : text.head? = some '\n'
    · cases text with
      | nil => simp at hlf
      | cons d rest =>
        obtain rfl : d = '\n' := by simpa using hlf
        exact ⟨.crLf, rest, rfl, by simp [Meets, LineEnding.chars]⟩
    · exact ⟨.cr, text, rfl, fun h => hlf h.2⟩

/-- What holds of the empty text, of a last line without a terminator, and of a terminated line in
front of a text that it holds of, holds of all texts. -/
theorem lines_induction {P : List Char → Prop} (nil : P [])
    (last : ∀ content, content ≠ [] → Unbroken content → P content)
    (line : ∀ content e rest, Unbroken content → ¬ Meets (LineEnding.chars e) rest → P rest →
      P (content ++ (e.chars ++ rest))) (text : List Char) : P text := by
  induction hn : text.length using Nat.strongRecOn generalizing text with
  | ind n ih =>
    obtain ⟨content, rest, rfl, hcontent, hrest⟩ := exists_unbroken_append text
    cases rest with
    | nil =>
      rw [List.append_nil]
      by_cases hnil : content = []
      · rw [hnil]
        exact nil
      · exact last content hnil hcontent
    | cons c text =>
      obtain ⟨e, rest, he, hmeets⟩ := exists_terminator_append c text (hrest c rfl)
      rw [he] at hn ⊢
      refine line content e rest hcontent hmeets (ih rest.length ?_ rest rfl)
      have hpos := List.length_pos_iff.2 (chars_ne_nil e)
      simp only [List.length_append] at hn
      omega

/-! ## Lines one after the other -/

theorem splitLines_cr (rest : List Char) (h : rest.head? ≠ some '\n') :
    splitLines ('\r' :: rest) = ['\r'] :: splitLines rest := by
  cases rest with
  | nil => simp [splitLines]
  | cons c rest =>
    have hc : c ≠ '\n' := by simpa using h
    rw [splitLines.eq_def]
    simp [hc]

theorem splitLines_char (c : Char) (rest : List Char) (h : isTerminatorChar c = false) :
    splitLines (c :: rest) = (c :: (splitLines rest).headD []) :: (splitLines rest).tail := by
  have hc : c ≠ '\n' ∧ c ≠ '\r' := by simpa [isTerminatorChar] using h
  rw [splitLines.eq_5 c rest (fun _ h _ => hc.2 h) hc.2 hc.1]
  cases splitLines rest <;> rfl

/-- A text without terminators is a single line. -/
theorem splitLines_unterminated (text : List Char) (hne : text ≠ []) (h : Unbroken text) :
    splitLines text = [text] := by
  induction text with
  | nil => exact absurd rfl hne
  | cons c rest ih =>
    obtain ⟨hc, hrest⟩ := (unbroken_cons c rest).1 h
    rw [splitLines_char c rest hc]
    cases rest with
    | nil => rfl
    | cons d rest =>
      rw [ih (by simp) hrest]
      rfl

/-- Characters that end no line lengthen the first line of what follows them. -/
theorem splitLines_append_of_cons (content rest line : List Char) (lines : List (List Char))
    (h : Unbroken content) (hr : splitLines rest = line :: lines) :
    splitLines (content ++ rest) = (content ++ line) :: lines := by
  induction content with
  | nil => exact hr
  | cons c content ih =>
    obtain ⟨hc, hcontent⟩ := (unbroken_cons c content).1 h
    rw [List.cons_append, splitLines_char c _ hc, ih hcontent]
    rfl

/-- A terminator in front of a text is a line of its own, unless it meets an LF. -/
theorem splitLines_terminator_append (e : LineEnding) (rest : List Char)
    (h : ¬ Meets e.chars rest) : splitLines (e.chars ++ rest) = e.chars :: splitLines rest := by
  cases e with
  | lf => simp [LineEnding.chars, splitLines]
  | crLf => simp [LineEnding.chars, splitLines]
  | cr =>
    have hr : rest.head? ≠ some '\n' := fun hr => h ⟨rfl, hr⟩
    exact splitLines_cr rest hr

/-- A terminated line in front of a text is a line of its own, unless it meets an LF. -/
theorem splitLines_line_append (content rest : List Char) (e : LineEnding)
    (hc : Unbroken content) (h : ¬ Meets e.chars rest) :
    splitLines (content ++ (e.chars ++ rest)) = (content ++ e.chars) :: splitLines rest :=
  splitLines_append_of_cons content _ _ _ hc (splitLines_terminator_append e rest h)

theorem splitLines_eq_nil_iff (text : List Char) : splitLines text = [] ↔ text = [] := by
  refine ⟨fun h => ?_, fun h => by rw [h, splitLines]⟩
  induction text using lines_induction with
  | nil => rfl
  | last content hne hc => simp [splitLines_unterminated content hne hc] at h
  | line content e rest hc hm _ => simp [splitLines_line_append content rest e hc hm] at h

theorem ne_nil_of_mem_splitLines (text line : List Char) (h : line ∈ splitLines text) :
    line ≠ [] := by
  induction text using lines_induction with
  | nil => simp [splitLines] at h
  | last content hne hc =>
    rw [splitLines_unterminated content hne hc, List.mem_singleton] at h
    rwa [h]
  | line content e rest hc hm ih =>
    rw [splitLines_line_append content rest e hc hm] at h
    rcases List.mem_cons.1 h with rfl | hrest
    · simp [chars_ne_nil]
    · exact ih hrest

theorem flatten_splitLines (text : List Char) : (splitLines text).flatten = text := by
  induction text using lines_induction with
  | nil => rfl
  | last content hne h =>
    rw [splitLines_unterminated content hne h]
    simp
  | line content e rest hc hm ih =>
    rw [splitLines_line_append content rest e hc hm, List.flatten_cons, ih, List.append_assoc]

/-! ## Lines without their terminators -/

theorem endsLine_of_unbroken (text : List Char) (h : Unbroken text) : endsLine text = false := by
  unfold endsLine
  cases hc : text.getLast? with
  | none => rfl
  | some c => exact h c (List.mem_of_getLast? hc)

theorem endsLine_append (before after : List Char) (h : after ≠ []) :
    endsLine (before ++ after) = endsLine after := by
  cases after with
  | nil => exact absurd rfl h
  | cons c after =>
    rw [endsLine, List.getLast?_append, List.getLast?_cons, Option.some_or, endsLine,
      List.getLast?_cons]

theorem endsLine_chars (e : LineEnding) : endsLine e.chars = true := by
  cases e <;> rfl

theorem stripTerminator_of_not_endsLine (text : List Char) (h : endsLine text = false) :
    stripTerminator text = text := by
  unfold endsLine at h
  rw [← List.head?_reverse] at h
  unfold stripTerminator
  split <;> simp_all

/-- A terminator at the end of a text is taken off, and nothing else. -/
theorem stripTerminator_append_chars (text : List Char) (e : LineEnding)
    (h : ¬ Meets text e.chars) : stripTerminator (text ++ e.chars) = text := by
  cases e with
  | crLf => simp [stripTerminator, LineEnding.chars]
  | cr => simp [stripTerminator, LineEnding.chars]
  | lf =>
    have hlast : text.reverse.head? ≠ some '\r' := by
      rw [List.head?_reverse]
      exact fun hlast => h ⟨hlast, rfl⟩
    simp only [stripTerminator, LineEnding.chars, List.reverse_append, List.reverse_singleton,
      List.singleton_append]
    split
    · simp_all
    · next heq =>
      rw [← (List.cons.inj heq).2, List.reverse_reverse]
    · simp_all
    · simp_all

theorem endsLine_of_mem_dropLast (text line : List Char) (h : line ∈ (splitLines text).dropLast) :
    endsLine line = true := by
  induction text using lines_induction with
  | nil => simp [splitLines] at h
  | last content hne hc => simp [splitLines_unterminated content hne hc] at h
  | line content e rest hc hm ih =>
    rw [splitLines_line_append content rest e hc hm] at h
    cases hlines : splitLines rest with
    | nil => simp [hlines] at h
    | cons next lines =>
      rw [hlines, List.dropLast_cons_cons, ← hlines] at h
      rcases List.mem_cons.1 h with rfl | hrest
      · rw [endsLine_append _ _ (chars_ne_nil e), endsLine_chars]
      · exact ih hrest

theorem endsLine_of_getLast?_splitLines (text last : List Char)
    (h : (splitLines text).getLast? = some last) : endsLine last = endsLine text := by
  obtain ⟨front, hlines⟩ := List.getLast?_eq_some_iff.1 h
  have hne := ne_nil_of_mem_splitLines text last (List.mem_of_getLast? h)
  rw [← flatten_splitLines text, hlines, List.flatten_append, List.flatten_singleton,
    endsLine_append _ _ hne]

/-- A text that ends with a terminator is what stands before it, and the terminator. -/
theorem exists_stripTerminator_append (text : List Char) (h : endsLine text = true) :
    ∃ e : LineEnding, text = stripTerminator text ++ e.chars ∧
      ¬ Meets (stripTerminator text) e.chars := by
  have hback (rest ending : List Char) (hrev : text.reverse = ending ++ rest) :
      text = rest.reverse ++ ending.reverse := by
    rw [← List.reverse_reverse text, hrev, List.reverse_append]
  unfold stripTerminator
  split
  · next rest hrev => exact ⟨.crLf, hback rest ['\n', '\r'] hrev, by simp [Meets, LineEnding.chars]⟩
  · next rest hcr hrev =>
    refine ⟨.lf, hback rest ['\n'] hrev, fun hmeets => ?_⟩
    obtain ⟨more, hmore⟩ : ∃ more, rest = '\r' :: more := by
      have hhead := hmeets.1
      rw [List.getLast?_reverse] at hhead
      cases rest with
      | nil => cases hhead
      | cons c more => exact ⟨more, by rw [Option.some.inj hhead]⟩
    exact hcr more hmore
  · next rest hrev => exact ⟨.cr, hback rest ['\r'] hrev, by simp [Meets, LineEnding.chars]⟩
  · next hcrLf hlf hcr =>
    unfold endsLine at h
    rw [← List.head?_reverse] at h
    cases hrev : text.reverse with
    | nil => simp [hrev] at h
    | cons c rest =>
      have hc : c = '\n' ∨ c = '\r' := by simpa [hrev] using h
      rcases hc with rfl | rfl
      · exact absurd hrev (hlf rest)
      · exact absurd hrev (hcr rest)

/-- Taking a terminator off leaves the start of a text. -/
theorem stripTerminator_isPrefix (text : List Char) : stripTerminator text <+: text := by
  have hback (rest ending : List Char) (h : text.reverse = ending ++ rest) :
      rest.reverse <+: text := by
    rw [← List.reverse_reverse text, h, List.reverse_append]
    exact List.prefix_append _ _
  unfold stripTerminator
  split
  · exact hback _ ['\n', '\r'] ‹_›
  · exact hback _ ['\n'] ‹_›
  · exact hback _ ['\r'] ‹_›
  · exact List.prefix_rfl

end LintBridge
