import LintBridge.Proofs.Document.Echo
import LintBridge.Proofs.Text.Endings
import LintBridge.Proofs.Text.Window

/-!
A cell rewritten in its notebook and a cell rewritten on its own.

The edits of a cell come from `reconcile` when its whole notebook is rewritten, and from
`reconcileCell`, which drops the terminator at the end of the new text, when the cell is rewritten
on its own. `notebook_agrees_with_cell_iff` says when the two give the cell the same text.

A position counts lines in 32 bits, so the cell may have one line more than the greatest count. Past
that the edits of the two paths may be the same although they should not be
(`paths_agree_past_count`, `manyLines_agree`). How long a line is does not matter, as long as its
end can be counted: what a position cannot reach of the last line (`unreached`) stays on both paths.
-/

namespace LintBridge

/-! ## Edits of a cell on both paths -/

/-- The edits with and without the terminator at the end of the new text can both be carried out.
They give the same text exactly when none is dropped. -/
theorem reconcile_agrees_with_reconcileCell_iff (old new : List Char)
    (hcount : (splitLines old).length ≤ maxCount + 1) (hend : EndCounted old) :
    ∃ one two, applyEdits? old (reconcile old new) = some one ∧
      applyEdits? old (reconcileCell old new) = some two ∧
      (one = two ↔ endsLine old = true ∨ endsLine new = false) := by
  by_cases hkeep : endsLine old = true ∨ endsLine new = false
  · obtain ⟨one, hone⟩ := exists_applyEdits?_reconcile old new hcount hend
    have hsame : reconcileCell old new = reconcile old new := by
      rcases hkeep with hold | hnew
      · rw [reconcileCell, if_pos hold]
      · rw [reconcileCell, stripTerminator_of_not_endsLine new hnew, ite_self]
    exact ⟨one, one, hone, by rw [hsame, hone], iff_of_true rfl hkeep⟩
  · obtain ⟨hopen, hends⟩ : endsLine old = false ∧ endsLine new = true := by simpa using hkeep
    obtain ⟨e, hnew, hmeets⟩ := exists_stripTerminator_append new hends
    obtain ⟨more, hmore, hmoreEnds⟩ := LineEnding.exists_adopt_append old _ e hmeets
    rw [← hnew] at hmore
    have hmoreNe : more ≠ [] := by
      rintro rfl
      cases hmoreEnds
    have hadoptEnds : endsLine (LineEnding.adopt old new) = true := by
      rw [hmore, endsLine_append _ _ hmoreNe, hmoreEnds]
    obtain ⟨one, hone⟩ := exists_applyEdits?_reconcile old new hcount hend
    obtain ⟨two, htwo⟩ := exists_applyEdits?_reconcile old (stripTerminator new) hcount hend
    obtain ⟨rest, rfl, -, hall⟩ := applyEdits?_reconcile_of_open old new one hcount hopen hone
    obtain ⟨rest', rfl, hpart, -⟩ :=
      applyEdits?_reconcile_of_open old (stripTerminator new) two hcount hopen htwo
    have hcell : reconcileCell old new = reconcile old (stripTerminator new) := by
      rw [reconcileCell, hopen, if_neg Bool.false_ne_true]
    refine ⟨_, _, hone, by rw [hcell, htwo], iff_of_false (fun heq => ?_) hkeep⟩
    -- The text with the terminator is the longer one, whatever stays of the last line.
    have hlen := congrArg List.length heq
    have hpos := List.length_pos_iff.2 hmoreNe
    have hrest : rest'.length ≤ (unreached old).length := by
      rcases hpart with rfl | rfl
      · exact Nat.zero_le _
      · exact Nat.le_refl _
    rw [hall hadoptEnds, hmore] at hlen
    simp only [List.length_append] at hlen
    omega

namespace Document

/-- The edits of a notebook have one for each code cell, at its place among the code cells. -/
theorem getElem?_cellEdits (before after : List Cell) (c : Cell) (entries : List CellEntry)
    (entry : CellEntry) (hcode : c.isCode = true) (hentry : entries[before.length]? = some entry) :
    (cellEdits (before ++ c :: after) entries)[(before.filter Cell.isCode).length]? =
      some ⟨c.uri, c.version, reconcile c.source.toList entry.source.toList⟩ := by
  induction before generalizing entries with
  | nil =>
    cases entries with
    | nil => cases hentry
    | cons first entries =>
      obtain rfl := Option.some.inj hentry
      simp [cellEdits, hcode]
  | cons other before ih =>
    cases entries with
    | nil => cases hentry
    | cons first entries =>
      have hrest := ih entries hentry
      cases hother : other.isCode with
      | false => simpa [cellEdits, hother] using hrest
      | true => simpa [cellEdits, hother] using hrest

section Paths

variable (uri : Url) (path alone : Path) (version : Option Int) (before after : List Cell)
  (c : Cell) (output outputAlone : List UInt8) (file fileAlone : NotebookFile)
  (entry entryAlone : CellEntry) (hcode : c.isCode = true)
  (hread : NotebookFile.read? (String.ofList (Utf8.decodeLossy output)) = some file)
  (hlen : file.cells.length = (before ++ c :: after).length)
  (hentry : file.cells[before.length]? = some entry)
  (hreadAlone : NotebookFile.read? (String.ofList (Utf8.decodeLossy outputAlone)) = some fileAlone)
  (hhead : fileAlone.cells.head? = some entryAlone) (hcodeAlone : entryAlone.isCode = true)
  (hsource : entryAlone.source = entry.source)
include hcode hread hlen hentry hreadAlone hhead hcodeAlone hsource

/-- A code cell of a notebook and the same cell as a document of its own, for which a tool returns
the same text in a code cell: each gets its edit. -/
theorem exists_edits_of_both :
    ∃ edits,
      (notebook uri path version (before ++ c :: after)).editsOf output = .ok (some edits) ∧
      edits[(before.filter Cell.isCode).length]? =
        some ⟨c.uri, c.version, reconcile c.source.toList entry.source.toList⟩ ∧
      (cell alone c).editsOf outputAlone =
        .ok (some [⟨c.uri, c.version, reconcileCell c.source.toList entry.source.toList⟩]) := by
  refine ⟨_, ?_, getElem?_cellEdits before after c file.cells entry hcode hentry, ?_⟩
  · rw [editsOf_notebook uri path version _ output file (not_excluded_of_read _ _ file hread) hread,
      notebookEdits, if_pos hlen]
    rfl
  · rw [editsOf_cell alone c outputAlone fileAlone
      (not_excluded_of_read _ _ fileAlone hreadAlone) hreadAlone, singleCellEdits, hhead]
    simp only [hcodeAlone, if_true, hsource]
    rfl

/-- A code cell of a notebook and the same cell as a document of its own, for which a tool returns
the same text in a code cell: both get an edit. Carried out, the two edits give the same text
exactly when the cell ends with a terminator or the text of the tool does not. -/
theorem notebook_agrees_with_cell_iff
    (hcount : (splitLines c.source.toList).length ≤ maxCount + 1)
    (hend : EndCounted c.source.toList) :
    ∃ edits inNotebook onItsOwn one two,
      (notebook uri path version (before ++ c :: after)).editsOf output = .ok (some edits) ∧
      edits[(before.filter Cell.isCode).length]? = some inNotebook ∧
      inNotebook.uri = c.uri ∧
      (cell alone c).editsOf outputAlone = .ok (some [onItsOwn]) ∧
      onItsOwn.uri = c.uri ∧
      applyEdits? c.source.toList inNotebook.edits = some one ∧
      applyEdits? c.source.toList onItsOwn.edits = some two ∧
      (one = two ↔ endsLine c.source.toList = true ∨ endsLine entry.source.toList = false) := by
  obtain ⟨one, two, hone, htwo, hiff⟩ :=
    reconcile_agrees_with_reconcileCell_iff c.source.toList entry.source.toList hcount hend
  obtain ⟨edits, hedits, hplace, halone⟩ := exists_edits_of_both uri path alone version before after
    c output outputAlone file fileAlone entry entryAlone hcode hread hlen hentry hreadAlone hhead
    hcodeAlone hsource
  exact ⟨edits, _, _, one, two, hedits, hplace, rfl, halone, rfl, hone, htwo, hiff⟩

end Paths

theorem read?_encode_render (cells : List Cell) :
    NotebookFile.read? (String.ofList (Utf8.decodeLossy
      (Utf8.encode (NotebookFile.ofCells cells).render.toList))) =
        some (NotebookFile.ofCells cells) := by
  rw [Utf8.decodeLossy_encode, String.ofList_toList]
  exact NotebookFile.read?_render_ofCells cells

def openCell : Cell := ⟨⟨"cell", none, .rootless "b", none, none⟩, .code, "x=1\r'😀'", some 1⟩

def titleCell : Cell := ⟨⟨"cell", none, .rootless "a", none, none⟩, .markup, "# Title", some 1⟩

def closedCell : Cell := { openCell with source := "x = 1\n'😀'\n" }

theorem openCell_disagrees :
    openCell.isCode = true ∧ (splitLines openCell.source.toList).length ≤ maxCount + 1 ∧
    EndCounted openCell.source.toList ∧
    endsLine openCell.source.toList = false ∧ endsLine closedCell.source.toList = true ∧
    ∃ edits inNotebook onItsOwn one two,
      (notebook ⟨"file", none, .segments ["nb.ipynb"], none, none⟩ ⟨"/nb.ipynb"⟩ (some 3)
        [titleCell, openCell]).editsOf (Utf8.encode
          (NotebookFile.ofCells [titleCell, closedCell]).render.toList) = .ok (some edits) ∧
      edits[0]? = some inNotebook ∧
      (cell ⟨"/nb.ipynb"⟩ openCell).editsOf (Utf8.encode
        (NotebookFile.ofCells [closedCell]).render.toList) = .ok (some [onItsOwn]) ∧
      applyEdits? openCell.source.toList inNotebook.edits = some one ∧
      applyEdits? openCell.source.toList onItsOwn.edits = some two ∧ one ≠ two := by
  have hcount : (splitLines openCell.source.toList).length ≤ maxCount + 1 := by decide
  have hend : EndCounted openCell.source.toList := by decide
  have hopen : endsLine openCell.source.toList = false := by decide
  have hends : endsLine closedCell.source.toList = true := by decide
  obtain ⟨edits, inNotebook, onItsOwn, one, two, hedits, hplace, -, halone, -, hone, htwo, hiff⟩ :=
    notebook_agrees_with_cell_iff ⟨"file", none, .segments ["nb.ipynb"], none, none⟩ ⟨"/nb.ipynb"⟩
      ⟨"/nb.ipynb"⟩ (some 3) [titleCell] [] openCell _ _ _ _ (CellEntry.ofCell closedCell)
      (CellEntry.ofCell closedCell) rfl (read?_encode_render [titleCell, closedCell]) rfl rfl
      (read?_encode_render [closedCell]) rfl rfl rfl hcount hend
  refine ⟨rfl, hcount, hend, hopen, hends, edits, inNotebook, onItsOwn, one, two, hedits, hplace,
    halone, hone, htwo, fun hsame => ?_⟩
  rcases hiff.1 hsame with hold | hnew
  · rw [hopen] at hold
    cases hold
  · change endsLine closedCell.source.toList = false at hnew
    rw [hends] at hnew
    cases hnew

end Document

/-! ## Past the greatest count -/

/-- The edit of a text of empty lines and an `x` of which only the first lines are left. -/
theorem reconcile_replicate (n k : Nat) (hk : k ≠ 0) (hle : k ≤ n) :
    reconcile (List.replicate n '\n' ++ ['x']) (List.replicate k '\n') =
      [⟨⟨⟨clampCount k, 0⟩, windowEnd (splitLines (List.replicate n '\n' ++ ['x'])) 0⟩, ""⟩] := by
  have hold := first?_replicate_append n ['x'] (by omega)
  have hnew := first?_replicate_append k [] hk
  rw [List.append_nil] at hnew
  have hadopt : LineEnding.adopt (List.replicate n '\n' ++ ['x']) (List.replicate k '\n') =
      List.replicate k '\n' := by
    simp only [LineEnding.adopt, hold, hnew, if_true]
  have hlines : splitLines (List.replicate n '\n' ++ ['x']) =
      List.replicate k ['\n'] ++ (List.replicate (n - k) ['\n'] ++ splitLines ['x']) := by
    rw [splitLines_replicate_append, ← List.append_assoc, List.replicate_append_replicate,
      Nat.add_sub_cancel' hle]
  have hfront := splitLines_replicate k
  rcases reconcile_cases (List.replicate n '\n' ++ ['x']) (List.replicate k '\n') with
    ⟨hsame, -⟩ | ⟨-, hone⟩
  · rw [hadopt] at hsame
    have hlen := congrArg List.length hsame
    simp only [List.length_append, List.length_replicate, List.length_singleton] at hlen
    omega
  · rw [hone, hadopt, hfront, hlines, windowEdit_of_start, List.length_replicate]

/-- A cell may have more lines than a position can count, and a tool may leave all but the last one.
Such a cell ends inside a line and the text of the tool does not, and still the edits of the two
paths are the same. -/
theorem paths_agree_past_count (n : Nat) (h : maxCount ≤ n) :
    (splitLines (List.replicate (n + 1) '\n' ++ ['x'])).length = n + 2 ∧
    endsLine (List.replicate (n + 1) '\n' ++ ['x']) = false ∧
    endsLine (List.replicate (n + 1) '\n') = true ∧
    reconcileCell (List.replicate (n + 1) '\n' ++ ['x']) (List.replicate (n + 1) '\n') =
      reconcile (List.replicate (n + 1) '\n' ++ ['x']) (List.replicate (n + 1) '\n') := by
  have hopen : endsLine (List.replicate (n + 1) '\n' ++ ['x']) = false := by simp [endsLine]
  have hstrip : stripTerminator (List.replicate (n + 1) '\n') = List.replicate n '\n' := by
    have hmeets : ¬ Meets (List.replicate n '\n') (LineEnding.chars .lf) := by
      simp [Meets, List.getLast?_replicate]
    have happend := stripTerminator_append_chars (List.replicate n '\n') .lf hmeets
    rwa [LineEnding.chars, ← List.replicate_succ'] at happend
  have hclamp : clampCount n = clampCount (n + 1) := by
    unfold clampCount
    omega
  have hpos : 0 < maxCount := by decide
  refine ⟨?_, hopen, by simp [endsLine, List.getLast?_replicate], ?_⟩
  · rw [splitLines_replicate_append, List.length_append, List.length_replicate]
    rfl
  · rw [reconcileCell, hopen, if_neg Bool.false_ne_true, hstrip,
      reconcile_replicate (n + 1) n (by omega) (by omega),
      reconcile_replicate (n + 1) (n + 1) (by omega) (Nat.le_refl _), hclamp]

namespace Document

/-- A cell of empty lines, and perhaps a last one. -/
def linesCell (n : Nat) (last : List Char) : Cell :=
  ⟨⟨"cell", none, .rootless "b", none, none⟩, .code,
    String.ofList (List.replicate n '\n' ++ last), some 1⟩

theorem exists_same_past_count (n : Nat) (h : maxCount ≤ n) :
    let c := linesCell (n + 1) ['x']
    let written := linesCell (n + 1) []
    let output := Utf8.encode (NotebookFile.ofCells [written]).render.toList
    endsLine c.source.toList = false ∧ endsLine written.source.toList = true ∧
    ∃ edits inNotebook onItsOwn t,
      (notebook ⟨"file", none, .segments ["nb.ipynb"], none, none⟩ ⟨"/nb.ipynb"⟩ (some 3)
        [c]).editsOf output = .ok (some edits) ∧
      edits[0]? = some inNotebook ∧
      (cell ⟨"/nb.ipynb"⟩ c).editsOf output = .ok (some [onItsOwn]) ∧
      applyEdits? c.source.toList inNotebook.edits = some t ∧
      applyEdits? c.source.toList onItsOwn.edits = some t := by
  intro c written output
  obtain ⟨-, hopen, hends, hsame⟩ := paths_agree_past_count n h
  have hsource : c.source.toList = List.replicate (n + 1) '\n' ++ ['x'] := String.toList_ofList
  have hwritten : written.source.toList = List.replicate (n + 1) '\n' := by
    rw [← List.append_nil (List.replicate (n + 1) '\n')]
    exact String.toList_ofList
  obtain ⟨t, ht⟩ : ∃ t, applyEdits? c.source.toList
      (reconcile c.source.toList written.source.toList) = some t := by
    rw [hsource, hwritten,
      reconcile_replicate (n + 1) (n + 1) (Nat.succ_ne_zero n) (Nat.le_refl _)]
    apply exists_applyEdits?_one
    refine ⟨counted_lineStart _ _, counted_of_lt _ _ ?_⟩
    have hone : utf16Size ['x'] = 1 := rfl
    rw [splitLines_replicate_append]
    simp [windowEnd, splitLines, endsLine, utf16Count, clampCount, maxCount, hone]
  obtain ⟨edits, hedits, hplace, halone⟩ := exists_edits_of_both
    ⟨"file", none, .segments ["nb.ipynb"], none, none⟩ ⟨"/nb.ipynb"⟩ ⟨"/nb.ipynb"⟩ (some 3) [] []
    c _ _ _ _ (CellEntry.ofCell written) (CellEntry.ofCell written) rfl
    (read?_encode_render [written]) rfl rfl (read?_encode_render [written]) rfl rfl rfl
  refine ⟨by rw [hsource, hopen], by rw [hwritten, hends], edits, _, _, t, hedits, hplace, halone,
    ht, ?_⟩
  show applyEdits? c.source.toList (reconcileCell c.source.toList written.source.toList) = some t
  rw [hsource, hwritten] at ht ⊢
  rw [hsame, ht]

/-- A cell with two lines more than there are counts, of which a tool leaves all but the last one.
The cell ends inside a line and the text of the tool does not, and still its edits in the notebook
and those on its own give the same text. -/
theorem manyLines_agree :
    let c := linesCell 4294967296 ['x']
    let written := linesCell 4294967296 []
    let output := Utf8.encode (NotebookFile.ofCells [written]).render.toList
    endsLine c.source.toList = false ∧ endsLine written.source.toList = true ∧
    ∃ edits inNotebook onItsOwn t,
      (notebook ⟨"file", none, .segments ["nb.ipynb"], none, none⟩ ⟨"/nb.ipynb"⟩ (some 3)
        [c]).editsOf output = .ok (some edits) ∧
      edits[0]? = some inNotebook ∧
      (cell ⟨"/nb.ipynb"⟩ c).editsOf output = .ok (some [onItsOwn]) ∧
      applyEdits? c.source.toList inNotebook.edits = some t ∧
      applyEdits? c.source.toList onItsOwn.edits = some t :=
  exists_same_past_count 4294967295 (Nat.le_refl _)

end Document
end LintBridge
