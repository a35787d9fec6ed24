import LintBridge.Proofs.Text.Lines
import LintBridge.Text.Position

/-!
Positions name places in a text.

`positionAfter` is the position that an editor states for a place: it reads the text before the
place, a terminator leads to the start of the next line, and each other character its code units
further. `textBefore` is the text that a position names, whether or not the units before it can be
counted; `textBefore?_eq` says that it is read exactly if they can (`Counted`). It takes
`positionAfter` back:

* `textBefore_positionAfter`: the text before the position of a place is what stands before the
  place, unless the place lies inside a terminator;
* `textBefore_lineStart`: the text before the start of a line is the lines before it;
* `textBefore_lastLine`: the end of a last line without a terminator is the end of the text;
* `textBefore_isPrefix`: whatever a position says, the text before it is the start of the text.
-/

namespace LintBridge

/-- The position reached from a position by reading a text. -/
def Position.advance (p : Position) : List Char → Position
  | [] => p
  | '\r' :: '\n' :: rest => Position.advance ⟨p.line + 1, 0⟩ rest
  | '\r' :: rest => Position.advance ⟨p.line + 1, 0⟩ rest
  | '\n' :: rest => Position.advance ⟨p.line + 1, 0⟩ rest
  | c :: rest => Position.advance ⟨p.line, p.character + utf16Width c⟩ rest

/-- The position of the place after a text, at whatever it is the start of. -/
def positionAfter (before : List Char) : Position := Position.advance ⟨0, 0⟩ before

/-- The characters of a line before a number of UTF-16 code units. -/
def takeUnits : Nat → List Char → List Char
  | _, [] => []
  | n, c :: rest => if n = 0 then [] else c :: takeUnits (n - utf16Width c) rest

/-- The text that stands before a position. -/
def textBefore (text : List Char) (p : Position) : List Char :=
  let lines := splitLines text
  match lines[p.line]? with
  | none => text
  | some line => (lines.take p.line).flatten ++ takeUnits p.character (stripTerminator line)

/-- The code units before a position in its line can be counted. -/
def Counted (text : List Char) (p : Position) : Prop :=
  ∀ line ∈ (splitLines text)[p.line]?,
    utf16Size (takeUnits p.character (stripTerminator line)) ≤ maxCount

instance (text : List Char) (p : Position) : Decidable (Counted text p) :=
  inferInstanceAs (Decidable (∀ line ∈ _, _))

/-! ## Code units -/

theorem utf16Width_pos (c : Char) : 0 < utf16Width c := by
  unfold utf16Width
  split <;> decide

theorem utf16Size_cons (c : Char) (text : List Char) :
    utf16Size (c :: text) = utf16Width c + utf16Size text := rfl

theorem utf16Size_append (text more : List Char) :
    utf16Size (text ++ more) = utf16Size text + utf16Size more := by
  induction text with
  | nil => exact (Nat.zero_add _).symm
  | cons c text ih => rw [List.cons_append, utf16Size_cons, utf16Size_cons, ih, Nat.add_assoc]

theorem takeUnits_zero (text : List Char) : takeUnits 0 text = [] := by
  cases text <;> rfl

theorem takeUnits_append (text more : List Char) :
    takeUnits (utf16Size text) (text ++ more) = text := by
  induction text with
  | nil => exact takeUnits_zero more
  | cons c text ih =>
    have hpos := utf16Width_pos c
    rw [utf16Size_cons, List.cons_append, takeUnits, if_neg (by omega), Nat.add_sub_cancel_left, ih]

theorem takeUnits_isPrefix (n : Nat) (text : List Char) : takeUnits n text <+: text := by
  induction text generalizing n with
  | nil => exact List.prefix_rfl
  | cons c text ih =>
    rw [takeUnits]
    split
    · exact List.nil_prefix
    · exact List.cons_prefix_cons.2 ⟨rfl, ih _⟩

/-- So many code units are exceeded by no more than half a surrogate pair. -/
theorem utf16Size_takeUnits_le (n : Nat) (text : List Char) :
    utf16Size (takeUnits n text) ≤ n + 1 := by
  induction text generalizing n with
  | nil => exact Nat.zero_le _
  | cons c text ih =>
    have hwidth : utf16Width c ≤ 2 := by
      unfold utf16Width
      split <;> decide
    rw [takeUnits]
    split
    · exact Nat.zero_le _
    · have hrest := ih (n - utf16Width c)
      rw [utf16Size_cons]
      -- A pair that begins before the last unit leaves nothing to take behind it.
      by_cases hpair : n < utf16Width c
      · rw [Nat.sub_eq_zero_of_le (by omega), takeUnits_zero]
        show utf16Width c + 0 ≤ n + 1
        omega
      · omega

/-- Units are taken off a line as long as they can be counted. -/
theorem takeUnits?_eq (character units : Nat) (line : List Char) (h : units ≤ maxCount) :
    takeUnits? character units line =
      if units + utf16Size (takeUnits (character - units) line) ≤ maxCount then
        some (takeUnits (character - units) line)
      else none := by
  induction line generalizing units with
  | nil =>
    rw [takeUnits?, takeUnits, if_pos]
    exact h
  | cons c rest ih =>
    rw [takeUnits?, takeUnits]
    by_cases hdone : character ≤ units
    · have hnone : character - units = 0 := Nat.sub_eq_zero_of_le hdone
      rw [if_pos hdone, if_pos hnone]
      exact (if_pos h).symm
    · have hsome : character - units ≠ 0 := Nat.sub_ne_zero_iff_lt.2 (Nat.lt_of_not_le hdone)
      rw [if_neg hdone, if_neg hsome, Nat.sub_sub, utf16Size_cons, ← Nat.add_assoc]
      by_cases hcount : units + utf16Width c ≤ maxCount
      · have hrest := ih (units + utf16Width c) hcount
        simp only [counted?, if_pos hcount, Option.bind_eq_bind, Option.bind_some, hrest]
        split <;> rfl
      · have hover : ¬ units + utf16Width c +
            utf16Size (takeUnits (character - (units + utf16Width c)) rest) ≤ maxCount := by omega
        rw [counted?, if_neg hcount, if_neg hover]
        rfl

/-- The text before a position is read exactly if the units before it can be counted. -/
theorem textBefore?_eq (text : List Char) (p : Position) :
    textBefore? text p = if Counted text p then some (textBefore text p) else none := by
  cases hline : (splitLines text)[p.line]? with
  | none =>
    have hcounted : Counted text p := by
      rw [Counted, hline]
      exact fun _ hmem => nomatch hmem
    simp only [textBefore?, textBefore, hline, if_pos hcounted]
  | some line =>
    have hcounted : Counted text p ↔
        utf16Size (takeUnits p.character (stripTerminator line)) ≤ maxCount := by
      rw [Counted, hline]
      simp only [Option.mem_some_iff, forall_eq']
    have htake := takeUnits?_eq p.character 0 (stripTerminator line) (Nat.zero_le _)
    rw [Nat.zero_add, Nat.sub_zero] at htake
    simp only [textBefore?, textBefore, hline, htake, hcounted]
    split <;> rfl

theorem counted_lineStart (text : List Char) (n : Nat) : Counted text ⟨n, 0⟩ := by
  intro line _
  rw [takeUnits_zero]
  exact Nat.zero_le _

/-- Only the greatest count can name a place whose units cannot be counted. -/
theorem counted_of_lt (text : List Char) (p : Position) (h : p.character < maxCount) :
    Counted text p := by
  intro line _
  have hle := utf16Size_takeUnits_le p.character (stripTerminator line)
  omega

theorem counted_of_line (text : List Char) (p : Position)
    (h : ∀ line ∈ (splitLines text)[p.line]?, utf16Size (stripTerminator line) ≤ maxCount) :
    Counted text p := by
  intro line hline
  obtain ⟨rest, hrest⟩ := takeUnits_isPrefix p.character (stripTerminator line)
  have hsize := h line hline
  rw [← hrest, utf16Size_append] at hsize
  omega

/-! ## Reading on -/

theorem advance_char (p : Position) (c : Char) (rest : List Char) (h : isTerminatorChar c = false) :
    p.advance (c :: rest) = Position.advance ⟨p.line, p.character + utf16Width c⟩ rest := by
  have hc : c ≠ '\n' ∧ c ≠ '\r' := by simpa [isTerminatorChar] using h
  exact Position.advance.eq_5 p c rest (fun _ h _ => hc.2 h) hc.2 hc.1

/-- Characters that end no line lead their code units further. -/
theorem advance_unbroken (p : Position) (content rest : List Char) (h : Unbroken content) :
    p.advance (content ++ rest) =
      Position.advance ⟨p.line, p.character + utf16Size content⟩ rest := by
  induction content generalizing p with
  | nil => rfl
  | cons c content ih =>
    obtain ⟨hc, hcontent⟩ := (unbroken_cons c content).1 h
    rw [List.cons_append, advance_char p c _ hc, ih _ hcontent, utf16Size_cons, Nat.add_assoc]

/-- A terminator leads to the start of the next line, unless it meets an LF. -/
theorem advance_terminator (p : Position) (e : LineEnding) (rest : List Char)
    (h : ¬ Meets e.chars rest) :
    p.advance (e.chars ++ rest) = Position.advance ⟨p.line + 1, 0⟩ rest := by
  cases e with
  | lf => rfl
  | crLf => rfl
  | cr =>
    cases rest with
    | nil => rfl
    | cons c rest =>
      have hc : c ≠ '\n' := fun hc => h ⟨rfl, by rw [hc]; rfl⟩
      exact Position.advance.eq_3 p (c :: rest) (fun _ hcons => hc (List.cons.inj hcons).1)

theorem advance_add_line (n : Nat) (p : Position) (text : List Char) :
    Position.advance ⟨p.line + n, p.character⟩ text =
      ⟨(p.advance text).line + n, (p.advance text).character⟩ := by
  fun_induction Position.advance p text with
  | case1 => rfl
  | case2 p rest ih => rw [Position.advance, ← ih, Nat.add_right_comm]
  | case3 p rest h ih => rw [Position.advance.eq_3 _ _ h, ← ih, Nat.add_right_comm]
  | case4 p rest ih => rw [Position.advance, ← ih, Nat.add_right_comm]
  | case5 p c rest h hcr hlf ih => rw [Position.advance.eq_5 _ _ _ h hcr hlf, ← ih]

theorem positionAfter_unbroken (content : List Char) (h : Unbroken content) :
    positionAfter content = ⟨0, utf16Size content⟩ := by
  have hread := advance_unbroken ⟨0, 0⟩ content [] h
  rw [List.append_nil, Nat.zero_add] at hread
  exact hread

theorem positionAfter_line (content rest : List Char) (e : LineEnding) (hc : Unbroken content)
    (h : ¬ Meets e.chars rest) :
    positionAfter (content ++ (e.chars ++ rest)) =
      ⟨(positionAfter rest).line + 1, (positionAfter rest).character⟩ := by
  rw [positionAfter, advance_unbroken _ _ _ hc, advance_terminator _ _ _ h]
  exact advance_add_line 1 ⟨0, 0⟩ rest

/-! ## The text before a position -/

theorem textBefore_firstLine (content rest : List Char) (n : Nat) (hc : Unbroken content)
    (hr : ∀ c, rest.head? = some c → isTerminatorChar c) :
    textBefore (content ++ rest) ⟨0, n⟩ = takeUnits n content := by
  cases rest with
  | nil =>
    rw [List.append_nil]
    by_cases hnil : content = []
    · rw [hnil]
      cases n <;> rfl
    · have hstrip := stripTerminator_of_not_endsLine content (endsLine_of_unbroken content hc)
      simp [textBefore, splitLines_unterminated content hnil hc, hstrip]
  | cons c text =>
    obtain ⟨e, rest, he, hm⟩ := exists_terminator_append c text (hr c rfl)
    have hstrip := stripTerminator_append_chars content e (not_meets_of_unbroken content _ hc)
    rw [he]
    simp [textBefore, splitLines_line_append content rest e hc hm, hstrip]

theorem textBefore_line (content rest : List Char) (e : LineEnding) (line character : Nat)
    (hc : Unbroken content) (h : ¬ Meets e.chars rest) :
    textBefore (content ++ (e.chars ++ rest)) ⟨line + 1, character⟩ =
      content ++ (e.chars ++ textBefore rest ⟨line, character⟩) := by
  simp only [textBefore, splitLines_line_append content rest e hc h, List.getElem?_cons_succ]
  cases (splitLines rest)[line]? with
  | none => rfl
  | some found => simp

theorem textBefore_positionAfter (before after : List Char) (h : ¬ Meets before after) :
    textBefore (before ++ after) (positionAfter before) = before := by
  -- The lines of the text before the place are counted off one by one.
  have hunbroken : ∀ content, Unbroken content →
      textBefore (content ++ after) (positionAfter content) = content := by
    intro content hc
    obtain ⟨more, rest, rfl, hmore, hrest⟩ := exists_unbroken_append after
    have hall : Unbroken (content ++ more) := by
      intro c hmem
      rcases List.mem_append.1 hmem with hmem | hmem
      · exact hc c hmem
      · exact hmore c hmem
    rw [positionAfter_unbroken content hc, ← List.append_assoc,
      textBefore_firstLine _ rest _ hall hrest, takeUnits_append]
  induction before using lines_induction with
  | nil => exact hunbroken [] unbroken_nil
  | last content _ hc => exact hunbroken content hc
  | line content e rest hc hm ih =>
    obtain ⟨hline, hafter⟩ := not_meets_of_line content rest after e hm h
    rw [positionAfter_line content rest e hc hm, List.append_assoc, List.append_assoc,
      textBefore_line content _ e _ _ hc hline, ih hafter]

theorem textBefore_lineStart (text : List Char) (n : Nat) :
    textBefore text ⟨n, 0⟩ = ((splitLines text).take n).flatten := by
  cases hline : (splitLines text)[n]? with
  | none =>
    have hlen : (splitLines text).length ≤ n := List.getElem?_eq_none_iff.1 hline
    rw [List.take_of_length_le hlen, flatten_splitLines]
    simp only [textBefore, hline]
  | some line => simp [textBefore, hline, takeUnits_zero]

theorem textBefore_lastLine (text last : List Char) (hlast : (splitLines text).getLast? = some last)
    (h : endsLine last = false) :
    textBefore text ⟨(splitLines text).length - 1, utf16Size last⟩ = text := by
  obtain ⟨front, hlines⟩ := List.getLast?_eq_some_iff.1 hlast
  have hunits : takeUnits (utf16Size last) (stripTerminator last) = last := by
    have hall := takeUnits_append last []
    rw [List.append_nil] at hall
    rw [stripTerminator_of_not_endsLine last h, hall]
  have htext : text = front.flatten ++ last := by
    rw [← flatten_splitLines text, hlines]
    simp
  simp only [textBefore, hlines, List.length_append, List.length_singleton, Nat.add_sub_cancel,
    List.getElem?_concat_length, List.take_left', hunits]
  exact htext.symm

/-- What stands before a position is the start of the text, whatever the position. -/
theorem textBefore_isPrefix (text : List Char) (p : Position) : textBefore text p <+: text := by
  unfold textBefore
  dsimp only
  split
  · exact List.prefix_rfl
  · next line hline =>
    have hsplit : (splitLines text).take p.line ++ line :: (splitLines text).drop (p.line + 1) =
        splitLines text := by
      obtain ⟨hlt, hget⟩ := List.getElem?_eq_some_iff.1 hline
      rw [← hget, List.getElem_cons_drop, List.take_append_drop]
    have htext := flatten_splitLines text
    rw [← hsplit, List.flatten_append, List.flatten_cons] at htext
    have hline : takeUnits p.character (stripTerminator line) <+:
        line ++ ((splitLines text).drop (p.line + 1)).flatten :=
      ((takeUnits_isPrefix _ _).trans (stripTerminator_isPrefix line)).trans
        (List.prefix_append _ _)
    calc _ <+: ((splitLines text).take p.line).flatten ++
            (line ++ ((splitLines text).drop (p.line + 1)).flatten) :=
          (List.prefix_append_right_inj _).2 hline
      _ = text := htext

end LintBridge
