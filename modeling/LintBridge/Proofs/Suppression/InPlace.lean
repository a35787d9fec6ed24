import LintBridge.Proofs.Finding.Landing
import LintBridge.Proofs.Suppression.Covered
import LintBridge.Proofs.Text.OneLine

/-!
A suppression is put into one line.

The line is looked up by a row that counts from one, and the fix names that row again, with the
code units of the line as its last column. Both ways lead to the same line, also from a row of zero
(`textEdits?_fix`). What is written breaks no line as long as the code breaks none
(`unbroken_suppress`), so `fix_changes_one_line`: carrying the fix out changes the content of that
line, and neither another line nor a terminator.
-/

namespace LintBridge.Suppression

/-! ## What is written -/

theorem unbroken_suppress (line code : List Char) (hline : Unbroken line) (hcode : Unbroken code) :
    Unbroken (suppress line code) := by
  have hcomment : Unbroken "  # noqa: ".toList := by decide
  have hcolon : Unbroken ": ".toList := by decide
  have hcomma : Unbroken ", ".toList := by decide
  unfold suppress
  cases hp : find? line with
  | none =>
    simp only [unbroken_append]
    exact ⟨⟨hline, hcomment⟩, hcode⟩
  | some p =>
    rw [← chars_of_find? line p hp, Parts.chars] at hline
    simp only [unbroken_append] at hline
    obtain ⟨hfront, hmark, hcodes, hrest⟩ := hline
    dsimp only
    split
    · simp only [unbroken_append]
      exact ⟨⟨⟨hfront, hcolon⟩, hcode⟩, hrest⟩
    · simp only [unbroken_append]
      exact ⟨⟨⟨⟨⟨hfront, hmark⟩, hcodes⟩, hcomma⟩, hcode⟩, hrest⟩

theorem suppress_ne_nil (line code : List Char) : suppress line code ≠ [] := by
  unfold suppress
  cases find? line with
  | none => simp
  | some p =>
    dsimp only
    split <;> simp

/-! ## Where it is written -/

/-- A row and a column that a position can carry stay as they are, but for a row of zero, which is
taken for the first one. -/
theorem editPosition?_row (row column : Nat) (hrow : row ≤ maxCount)
    (hcolumn : column ≤ maxCount) :
    Location.editPosition? ⟨row, column⟩ = some ⟨row - 1, column⟩ := by
  unfold maxCount at hrow hcolumn
  have hsigned : Location.Signed ⟨row, column⟩ := by
    constructor <;> exact ⟨by dsimp only; omega, by dsimp only; omega⟩
  have hfloor : Location.AboveFloor ⟨row, column⟩ := by
    constructor <;> dsimp only <;> omega
  have hline : capped ((row : Int) - 1) = row - 1 := by
    unfold capped
    omega
  have hcharacter : capped (column : Int) = column := by
    unfold capped
    omega
  rw [Location.editPosition?_eq, if_pos (Location.signed64_of_mem_lowered _ hsigned hfloor false),
    Location.landing]
  simp [hline, hcharacter]

theorem textEdits?_fix (line : List Char) (row : Nat) (code : String) (h : row ≤ maxCount) :
    (fix line row code).edits.mapM FixEdit.textEdit? =
      some [⟨⟨⟨row - 1, 0⟩, ⟨row - 1, utf16Count line⟩⟩,
        String.ofList (suppress line code.toList)⟩] := by
  have hstart : Location.editPosition? ⟨row, 0⟩ = some ⟨row - 1, 0⟩ :=
    editPosition?_row row 0 h (Nat.zero_le maxCount)
  have hstop := editPosition?_row row (utf16Count line) h (Nat.min_le_right _ _)
  simp [fix, FixEdit.textEdit?, hstart, hstop]

/-- The fix that suppresses a code in a row comes to edits, and carrying these out puts the line
with the code added in the place of the line that was looked up. Its ending stays, and so does every
other line. -/
theorem fix_changes_one_line (text line : List Char) (row : Nat) (code : String)
    (hfits : Fits text) (hline : lineAt? text (row - 1) = some line)
    (hcode : Unbroken code.toList) :
    ∃ edits ending result, (fix line row code).edits.mapM FixEdit.textEdit? = some edits ∧
      IsEnding ending ∧ (splitLines text)[row - 1]? = some (line ++ ending) ∧
      applyEdits? text edits = some result ∧
      splitLines result =
        (splitLines text).set (row - 1) (suppress line code.toList ++ ending) := by
  obtain ⟨_, hread, -, hunbroken, -⟩ := exists_of_lineAt? text line (row - 1) hline
  obtain ⟨hlt, -⟩ := List.getElem?_eq_some_iff.1 hread
  have hcount := hfits.1
  have hnew := unbroken_suppress line code.toList hunbroken hcode
  have hne := suppress_ne_nil line code.toList
  rw [← String.toList_ofList (l := suppress line code.toList)] at hnew hne
  obtain ⟨ending, result, hplace, hending, happly, hlines⟩ :=
    applyEdits?_line text line (row - 1) _ hfits hline hnew hne
  rw [String.toList_ofList] at hlines
  exact ⟨_, ending, result, textEdits?_fix line row code (by omega), hending, hplace, happly,
    hlines⟩

/-- A text whose first line takes two code units for one of its characters and ends in CR alone. -/
def astralText : List Char := "s = '😀'\rx\r\ny".toList

/-- A row of zero suppresses in the first line. -/
theorem astralText_suppressed :
    Fits astralText ∧ lineAt? astralText (0 - 1) = some "s = '😀'".toList ∧
    Unbroken "F841".toList ∧
    ∃ edits ending result,
      (fix "s = '😀'".toList 0 "F841").edits.mapM FixEdit.textEdit? = some edits ∧
      IsEnding ending ∧
      (splitLines astralText)[0 - 1]? = some ("s = '😀'".toList ++ ending) ∧
      applyEdits? astralText edits = some result ∧
      splitLines result = (splitLines astralText).set (0 - 1)
        (suppress "s = '😀'".toList "F841".toList ++ ending) := by
  have hfits : Fits astralText := by decide
  have hline : lineAt? astralText (0 - 1) = some "s = '😀'".toList := by decide
  have hcode : Unbroken "F841".toList := by decide
  exact ⟨hfits, hline, hcode, fix_changes_one_line astralText _ 0 "F841" hfits hline hcode⟩

end LintBridge.Suppression
