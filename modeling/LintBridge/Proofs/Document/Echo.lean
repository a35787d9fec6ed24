import LintBridge.Document.Edits
import LintBridge.Proofs.Document.Rewriting
import LintBridge.Proofs.Json.Written
import LintBridge.Proofs.Text.Utf8

/-!
A tool that prints what it was given changes nothing.

`read?_render_ofCells` says that the file of some cells is read back from its text, whatever the
texts of the cells are: the writer and the reader of JSON agree on it (`readable_toJson`), and the
decoder of cells undoes their encoding. With it, `editsOf_echo` gives the answer for every document
whose own input comes back: a list without edits for a text, for each code cell of a notebook, and
for a single cell of code.
-/

namespace LintBridge

open Json (Readable Tree)

/-! ## The file of some cells is read back -/

namespace CellEntry

theorem readable_toJson_ofCell (c : Cell) : Readable 2 (ofCell c).toJson := by
  unfold ofCell
  cases c.kind with
  | code =>
    refine .object 1 _ fun f hf => ?_
    simp only [List.mem_cons, List.not_mem_nil, or_false] at hf
    rcases hf with rfl | rfl | rfl | rfl
    · exact .text 1 _
    · exact .null 1
    · exact .array 0 [] fun _ h => nomatch h
    · exact .text 1 _
  | markup =>
    refine .object 1 _ fun f hf => ?_
    simp only [List.mem_cons, List.not_mem_nil, or_false] at hf
    rcases hf with rfl | rfl | rfl
    · exact .text 1 _
    · exact .null 1
    · exact .text 1 _

theorem ofTree?_toJson_ofCell (c : Cell) : ofTree? (ofCell c).toJson.toTree = some (ofCell c) := by
  unfold ofCell
  cases c.kind with
  | code => rfl
  | markup => rfl

end CellEntry

namespace NotebookFile

theorem readable_toJson_ofCells (cells : List Cell) : Readable 4 (ofCells cells).toJson := by
  refine .object 3 _ fun f hf => ?_
  simp only [List.mem_cons, List.not_mem_nil, or_false] at hf
  rcases hf with rfl | rfl | rfl | rfl
  · exact .object 2 [] fun _ h => nomatch h
  · exact .int 3 4 (by decide) (by decide)
  · exact .int 3 5 (by decide) (by decide)
  · refine .array 2 _ fun v hv => ?_
    obtain ⟨entry, hentry, rfl⟩ := List.mem_map.1 hv
    obtain ⟨c, -, rfl⟩ := List.mem_map.1 hentry
    exact CellEntry.readable_toJson_ofCell c

theorem mapM_itemTrees (cells : List Cell) :
    (Json.itemTrees ((ofCells cells).cells.map CellEntry.toJson)).mapM CellEntry.ofTree? =
      some (ofCells cells).cells := by
  induction cells with
  | nil => rfl
  | cons c cells ih =>
    have hfirst := CellEntry.ofTree?_toJson_ofCell c
    change ((CellEntry.ofCell c).toJson.toTree ::
      Json.itemTrees ((ofCells cells).cells.map CellEntry.toJson)).mapM CellEntry.ofTree? =
        some (CellEntry.ofCell c :: (ofCells cells).cells)
    rw [List.mapM_cons, hfirst, ih]
    rfl

theorem ofTree?_toJson_ofCells (cells : List Cell) :
    ofTree? (ofCells cells).toJson.toTree = some (ofCells cells) := by
  have hcells := mapM_itemTrees cells
  change (do
    let cells ← (Json.itemTrees ((ofCells cells).cells.map CellEntry.toJson)).mapM CellEntry.ofTree?
    return (⟨.object [], 4, 5, cells⟩ : NotebookFile)) = _
  rw [hcells]
  rfl

theorem read?_render_ofCells (cells : List Cell) :
    read? (ofCells cells).render = some (ofCells cells) := by
  have htree := Json.readTree?_render (readable_toJson_ofCells cells) (by decide)
  rw [read?, render, htree]
  exact ofTree?_toJson_ofCells cells

end NotebookFile

/-! ## No edits between a text and itself -/

theorem reconcile_self (text : List Char) : reconcile text text = [] :=
  if_pos rfl

theorem reconcileCell_self (text : List Char) : reconcileCell text text = [] := by
  unfold reconcileCell
  cases hend : endsLine text with
  | true => exact reconcile_self text
  | false =>
    rw [if_neg Bool.false_ne_true, stripTerminator_of_not_endsLine text hend]
    exact reconcile_self text

theorem CellEntry.source_ofCell (c : Cell) : (ofCell c).source = c.source := by
  unfold ofCell
  cases c.kind <;> rfl

theorem CellEntry.isCode_ofCell (c : Cell) : (ofCell c).isCode = c.isCode := by
  cases hkind : c.kind <;> simp [ofCell, isCode, Cell.isCode, hkind]

namespace Document

/-- The answer that changes nothing: a list without edits for each text that the tool may rewrite.
A cell of a text for readers is none that could be asked about. -/
def unchanged : Document → Except Failure (Option (List DocumentEdit))
  | .text uri _ _ version => .ok (some [⟨uri, version, []⟩])
  | .notebook _ _ _ cells =>
    .ok (some ((cells.filter Cell.isCode).map fun c => ⟨c.uri, c.version, []⟩))
  | .cell _ c =>
    if c.isCode then .ok (some [⟨c.uri, c.version, []⟩])
    else .error (.malformedOutput "expected a single code cell")

/-- What the tool is given of a document. -/
def echo (d : Document) : List UInt8 := Utf8.encode d.toolInput.toList

theorem decodeLossy_echo (d : Document) :
    String.ofList (Utf8.decodeLossy d.echo) = d.toolInput := by
  rw [echo, Utf8.decodeLossy_encode, String.ofList_toList]

theorem cellEdits_ofCells (cells : List Cell) :
    cellEdits cells (NotebookFile.ofCells cells).cells =
      (cells.filter Cell.isCode).map fun c => ⟨c.uri, c.version, []⟩ := by
  induction cells with
  | nil => rfl
  | cons c cells ih =>
    have hself : reconcile c.source.toList (CellEntry.ofCell c).source.toList = [] := by
      rw [CellEntry.source_ofCell, reconcile_self]
    have htail : cellEdits cells (cells.map CellEntry.ofCell) =
        (cells.filter Cell.isCode).map fun c => ⟨c.uri, c.version, []⟩ := ih
    unfold cellEdits at htail
    cases hcode : c.isCode with
    | false => simp [cellEdits, NotebookFile.ofCells, hcode, htail]
    | true => simp [cellEdits, NotebookFile.ofCells, hcode, htail, hself]

theorem editsOf_echo_text (uri : Url) (path : Path) (source : String) (version : Option Int) :
    (text uri path source version).editsOf (text uri path source version).echo =
      .ok (some [⟨uri, version, []⟩]) := by
  have hnot : ¬ (text uri path source version).Excluded (text uri path source version).echo := by
    rintro ⟨hempty, hblank⟩
    have hsource : source.toList = [] := (Utf8.encode_eq_nil_iff source.toList).1 hempty
    simp [isBlank, isBlankText, hsource] at hblank
  rw [editsOf_text uri path source version _ hnot, echo, Utf8.decodeLossy_encode, toolInput,
    reconcile_self]

theorem editsOf_echo_notebook (uri : Url) (path : Path) (version : Option Int)
    (cells : List Cell) :
    (notebook uri path version cells).editsOf (notebook uri path version cells).echo =
      .ok (some ((cells.filter Cell.isCode).map fun c => ⟨c.uri, c.version, []⟩)) := by
  have hread : NotebookFile.read? (String.ofList
      (Utf8.decodeLossy (notebook uri path version cells).echo)) =
        some (NotebookFile.ofCells cells) := by
    rw [decodeLossy_echo]
    exact NotebookFile.read?_render_ofCells cells
  have hlen : (NotebookFile.ofCells cells).cells.length = cells.length := List.length_map _
  rw [editsOf_notebook uri path version cells _ _ (not_excluded_of_read _ _ _ hread) hread,
    notebookEdits, if_pos hlen, cellEdits_ofCells]
  rfl

theorem editsOf_echo_cell (path : Path) (c : Cell) :
    (cell path c).editsOf (cell path c).echo = (cell path c).unchanged := by
  have hread : NotebookFile.read? (String.ofList (Utf8.decodeLossy (cell path c).echo)) =
      some (NotebookFile.ofCells [c]) := by
    rw [decodeLossy_echo]
    exact NotebookFile.read?_render_ofCells [c]
  have hself : reconcileCell c.source.toList (CellEntry.ofCell c).source.toList = [] := by
    rw [CellEntry.source_ofCell, reconcileCell_self]
  rw [editsOf_cell path c _ _ (not_excluded_of_read _ _ _ hread) hread, unchanged]
  have hhead : (NotebookFile.ofCells [c]).cells.head? = some (CellEntry.ofCell c) := rfl
  unfold singleCellEdits
  simp only [hhead, CellEntry.isCode_ofCell, hself]
  cases c.isCode <;> rfl

/-- A document whose own input comes back is left as it is, and the file of some cells is read back
as that file, with the kind and the text of every cell in its place. -/
theorem echo_changes_nothing (d : Document) (cells : List Cell) :
    d.editsOf (Utf8.encode d.toolInput.toList) = d.unchanged ∧
    NotebookFile.read? (NotebookFile.ofCells cells).render = some (NotebookFile.ofCells cells) ∧
    (NotebookFile.ofCells cells).cells.map (fun entry => (entry.isCode, entry.source)) =
      cells.map fun c => (c.isCode, c.source) := by
  refine ⟨?_, NotebookFile.read?_render_ofCells cells, ?_⟩
  · cases d with
    | text uri path source version => exact editsOf_echo_text uri path source version
    | notebook uri path version cells => exact editsOf_echo_notebook uri path version cells
    | cell path c => exact editsOf_echo_cell path c
  · rw [NotebookFile.ofCells, List.map_map]
    refine List.map_congr_left fun c _ => ?_
    rw [Function.comp_apply, CellEntry.isCode_ofCell, CellEntry.source_ofCell]

end Document
end LintBridge
