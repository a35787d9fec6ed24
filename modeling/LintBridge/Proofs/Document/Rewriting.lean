import LintBridge.Document.Edits
import LintBridge.Proofs.Text.Reconcile

/-!
What the tool printed arrives in the document.

`Follows` says which edits carry an output over to a document: those of a text give it the output,
those of a notebook give each code cell the text of the cell at its place in the file that came
back, and those of a cell give it the text of the one cell that came back, each with the line
endings of the old text. `editsOf_faithful` says that `Document.editsOf` gives such edits whenever
it gives any, and when it does.
-/

namespace LintBridge

/-- An edit for a name and a version that turns one text into another. -/
structure DocumentEdit.Turns (e : DocumentEdit) (uri : Url) (version : Option Int)
    (old new : List Char) : Prop where
  uri_eq : e.uri = uri
  version_eq : e.version = version
  applyEdits?_eq : applyEdits? old e.edits = some new

/-- Edits that carry the entries of a file over to the cells at the same places: one for each cell
that holds code, in the order of the cells, and none for the others. -/
inductive CellsFollow : List Cell → List CellEntry → List DocumentEdit → Prop
  | nil : CellsFollow [] [] []
  | markup (c : Cell) (entry : CellEntry) {cells : List Cell} {entries : List CellEntry}
      {edits : List DocumentEdit} : c.isCode = false → CellsFollow cells entries edits →
      CellsFollow (c :: cells) (entry :: entries) edits
  | code (c : Cell) (entry : CellEntry) (e : DocumentEdit) {cells : List Cell}
      {entries : List CellEntry} {edits : List DocumentEdit} : c.isCode = true →
      e.Turns c.uri c.version c.source.toList
        (LineEnding.adopt c.source.toList entry.source.toList) →
      CellsFollow cells entries edits → CellsFollow (c :: cells) (entry :: entries) (e :: edits)

/-- Edits that carry an output over to a document. -/
inductive Follows (output : List Char) : Document → List DocumentEdit → Prop
  | text (uri : Url) (path : Path) (source : String) (version : Option Int) (e : DocumentEdit) :
      e.Turns uri version source.toList (LineEnding.adopt source.toList output) →
      Follows output (.text uri path source version) [e]
  | notebook (uri : Url) (path : Path) (version : Option Int) (cells : List Cell)
      (file : NotebookFile) (edits : List DocumentEdit) :
      NotebookFile.read? (String.ofList output) = some file →
      CellsFollow cells file.cells edits →
      Follows output (.notebook uri path version cells) edits
  | cell (path : Path) (c : Cell) (file : NotebookFile) (entry : CellEntry) (e : DocumentEdit) :
      NotebookFile.read? (String.ofList output) = some file →
      file.cells.head? = some entry → entry.isCode = true →
      e.Turns c.uri c.version c.source.toList (LineEnding.adopt c.source.toList
        (if endsLine c.source.toList then entry.source.toList
          else stripTerminator entry.source.toList)) →
      Follows output (.cell path c) [e]

namespace Document

def sources : Document → List String
  | .text _ _ source _ => [source]
  | .notebook _ _ _ cells => cells.map Cell.source
  | .cell _ c => [c.source]

/-- An output that says that the tool leaves a document alone. -/
def Excluded (d : Document) (stdout : List UInt8) : Prop := stdout = [] ∧ d.isBlank = false

/-- An output of the form that a document asks for: any for a text, a file with as many cells for a
notebook, and a file that starts with a code cell for a cell. -/
def Accepts (output : List Char) : Document → Prop
  | .text .. => True
  | .notebook _ _ _ cells => ∃ file, NotebookFile.read? (String.ofList output) = some file ∧
      file.cells.length = cells.length
  | .cell .. => ∃ file entry, NotebookFile.read? (String.ofList output) = some file ∧
      file.cells.head? = some entry ∧ entry.isCode = true

/-! ## The answers of `editsOf` -/

theorem guard_eq_true_iff (d : Document) (stdout : List UInt8) :
    (stdout.isEmpty && !d.isBlank) = true ↔ d.Excluded stdout := by
  simp [Excluded]

theorem editsOf_of_excluded (d : Document) (stdout : List UInt8) (h : d.Excluded stdout) :
    d.editsOf stdout = .ok none := by
  rw [editsOf, if_pos ((guard_eq_true_iff d stdout).2 h)]

theorem editsOf_text (uri : Url) (path : Path) (source : String) (version : Option Int)
    (stdout : List UInt8) (h : ¬ (text uri path source version).Excluded stdout) :
    (text uri path source version).editsOf stdout =
      .ok (some [⟨uri, version, reconcile source.toList (Utf8.decodeLossy stdout)⟩]) := by
  rw [editsOf, if_neg (mt (guard_eq_true_iff _ stdout).1 h)]

theorem editsOf_notebook (uri : Url) (path : Path) (version : Option Int) (cells : List Cell)
    (stdout : List UInt8) (file : NotebookFile)
    (h : ¬ (notebook uri path version cells).Excluded stdout)
    (hread : NotebookFile.read? (String.ofList (Utf8.decodeLossy stdout)) = some file) :
    (notebook uri path version cells).editsOf stdout = (notebookEdits cells file).map some := by
  rw [editsOf, if_neg (mt (guard_eq_true_iff _ stdout).1 h)]
  simp only [hread]
  rfl

theorem editsOf_cell (path : Path) (c : Cell) (stdout : List UInt8) (file : NotebookFile)
    (h : ¬ (cell path c).Excluded stdout)
    (hread : NotebookFile.read? (String.ofList (Utf8.decodeLossy stdout)) = some file) :
    (cell path c).editsOf stdout = (singleCellEdits c file).map some := by
  rw [editsOf, if_neg (mt (guard_eq_true_iff _ stdout).1 h)]
  simp only [hread]
  rfl

theorem editsOf_unreadable (d : Document) (stdout : List UInt8) (h : ¬ d.Excluded stdout)
    (htext : d.isText = false)
    (hread : NotebookFile.read? (String.ofList (Utf8.decodeLossy stdout)) = none) :
    d.editsOf stdout = .error .outputNotJson := by
  rw [editsOf, if_neg (mt (guard_eq_true_iff _ stdout).1 h)]
  cases d with
  | text => exact absurd htext (by simp [isText])
  | notebook =>
    simp only [hread]
    rfl
  | cell =>
    simp only [hread]
    rfl

theorem notebookEdits_of_length_ne (cells : List Cell) (file : NotebookFile)
    (h : file.cells.length ≠ cells.length) :
    notebookEdits cells file = .error (.malformedOutput ("notebook has " ++
      toString cells.length ++ " cells but Ruff returned " ++ toString file.cells.length)) := by
  rw [notebookEdits, if_neg h]

theorem not_excluded_of_read (d : Document) (stdout : List UInt8) (file : NotebookFile)
    (hread : NotebookFile.read? (String.ofList (Utf8.decodeLossy stdout)) = some file) :
    ¬ d.Excluded stdout := by
  rintro ⟨rfl, -⟩
  have hempty : NotebookFile.read? (String.ofList (Utf8.decodeLossy [])) = none := rfl
  rw [hempty] at hread
  cases hread

/-! ## Cells -/

/-- The edits of the code cells of a notebook carry over the entries at their places. -/
theorem cellsFollow_cellEdits (cells : List Cell) (entries : List CellEntry)
    (hlen : entries.length = cells.length) (hfit : ∀ c ∈ cells, Fits c.source.toList) :
    CellsFollow cells entries (cellEdits cells entries) := by
  induction cells generalizing entries with
  | nil =>
    obtain rfl := List.length_eq_zero_iff.1 hlen
    exact .nil
  | cons c cells ih =>
    cases entries with
    | nil => cases hlen
    | cons entry entries =>
      have hrest := ih entries (by simpa using hlen) fun c hc => hfit c (List.mem_cons_of_mem _ hc)
      cases hcode : c.isCode with
      | false =>
        have hedits : cellEdits (c :: cells) (entry :: entries) = cellEdits cells entries := by
          simp [cellEdits, hcode]
        rw [hedits]
        exact .markup c entry hcode hrest
      | true =>
        have hedits : cellEdits (c :: cells) (entry :: entries) =
            ⟨c.uri, c.version, reconcile c.source.toList entry.source.toList⟩ ::
              cellEdits cells entries := by
          simp [cellEdits, hcode]
        rw [hedits]
        have happly := applyEdits?_reconcile c.source.toList entry.source.toList
          (hfit c List.mem_cons_self).reachable
        exact .code c entry _ hcode ⟨rfl, rfl, happly⟩ hrest

theorem follows_notebookEdits (uri : Url) (path : Path) (version : Option Int) (cells : List Cell)
    (output : List Char) (file : NotebookFile) (edits : List DocumentEdit)
    (hread : NotebookFile.read? (String.ofList output) = some file)
    (hfit : ∀ c ∈ cells, Fits c.source.toList) (h : notebookEdits cells file = .ok edits) :
    Follows output (notebook uri path version cells) edits := by
  unfold notebookEdits at h
  split at h
  · next hlen =>
    obtain rfl := Except.ok.inj h
    exact .notebook uri path version cells file _ hread
      (cellsFollow_cellEdits cells file.cells hlen hfit)
  · cases h

theorem follows_singleCellEdits (path : Path) (c : Cell) (output : List Char) (file : NotebookFile)
    (edits : List DocumentEdit) (hread : NotebookFile.read? (String.ofList output) = some file)
    (hfit : Fits c.source.toList) (h : singleCellEdits c file = .ok edits) :
    Follows output (cell path c) edits := by
  unfold singleCellEdits at h
  cases hhead : file.cells.head? with
  | none => simp [hhead] at h
  | some entry =>
    cases hcode : entry.isCode with
    | false => simp [hhead, hcode] at h
    | true =>
      simp only [hhead, hcode, if_true] at h
      obtain rfl := Except.ok.inj h
      exact .cell path c file entry _ hread hhead hcode
        ⟨rfl, rfl, applyEdits?_reconcile c.source.toList _ hfit.reachable⟩

/-! ## Faithfulness -/

theorem follows_of_editsOf (d : Document) (stdout : List UInt8) (edits : List DocumentEdit)
    (hfit : ∀ s ∈ d.sources, Fits s.toList) (h : d.editsOf stdout = .ok (some edits)) :
    Follows (Utf8.decodeLossy stdout) d edits := by
  have hnot : ¬ d.Excluded stdout := by
    intro hex
    rw [editsOf_of_excluded d stdout hex] at h
    cases h
  cases d with
  | text uri path source version =>
    rw [editsOf_text uri path source version stdout hnot] at h
    obtain rfl := Option.some.inj (Except.ok.inj h)
    exact .text uri path source version _
      ⟨rfl, rfl, applyEdits?_reconcile source.toList _
        (hfit source (by simp [sources])).reachable⟩
  | notebook uri path version cells =>
    cases hread : NotebookFile.read? (String.ofList (Utf8.decodeLossy stdout)) with
    | none =>
      rw [editsOf_unreadable _ stdout hnot rfl hread] at h
      cases h
    | some file =>
      rw [editsOf_notebook uri path version cells stdout file hnot hread] at h
      have hcells : ∀ c ∈ cells, Fits c.source.toList := fun c hc =>
        hfit c.source (List.mem_map_of_mem hc)
      cases hedits : notebookEdits cells file with
      | error failure => simp [hedits, Except.map] at h
      | ok found =>
        rw [hedits] at h
        obtain rfl := Option.some.inj (Except.ok.inj h)
        exact follows_notebookEdits uri path version cells _ file found hread hcells hedits
  | cell path c =>
    cases hread : NotebookFile.read? (String.ofList (Utf8.decodeLossy stdout)) with
    | none =>
      rw [editsOf_unreadable _ stdout hnot rfl hread] at h
      cases h
    | some file =>
      rw [editsOf_cell path c stdout file hnot hread] at h
      have hc : Fits c.source.toList := hfit c.source (by simp [sources])
      cases hedits : singleCellEdits c file with
      | error failure => simp [hedits, Except.map] at h
      | ok found =>
        rw [hedits] at h
        obtain rfl := Option.some.inj (Except.ok.inj h)
        exact follows_singleCellEdits path c _ file found hread hc hedits

theorem editsOf_of_accepts (d : Document) (stdout : List UInt8) (h : ¬ d.Excluded stdout)
    (haccepts : d.Accepts (Utf8.decodeLossy stdout)) :
    ∃ edits, d.editsOf stdout = .ok (some edits) := by
  cases d with
  | text uri path source version => exact ⟨_, editsOf_text uri path source version stdout h⟩
  | notebook uri path version cells =>
    obtain ⟨file, hread, hlen⟩ := haccepts
    refine ⟨cellEdits cells file.cells, ?_⟩
    rw [editsOf_notebook uri path version cells stdout file h hread, notebookEdits, if_pos hlen]
    rfl
  | cell path c =>
    obtain ⟨file, entry, hread, hhead, hcode⟩ := haccepts
    refine ⟨[⟨c.uri, c.version, reconcileCell c.source.toList entry.source.toList⟩], ?_⟩
    rw [editsOf_cell path c stdout file h hread]
    simp [singleCellEdits, hhead, hcode, Except.map]

theorem editsOf_of_not_accepts (d : Document) (stdout : List UInt8) (h : ¬ d.Excluded stdout)
    (haccepts : ¬ d.Accepts (Utf8.decodeLossy stdout)) :
    ∃ failure, d.editsOf stdout = .error failure := by
  cases hread : NotebookFile.read? (String.ofList (Utf8.decodeLossy stdout)) with
  | none =>
    cases d with
    | text => exact absurd trivial haccepts
    | notebook => exact ⟨_, editsOf_unreadable _ stdout h rfl hread⟩
    | cell => exact ⟨_, editsOf_unreadable _ stdout h rfl hread⟩
  | some file =>
    cases d with
    | text => exact absurd trivial haccepts
    | notebook uri path version cells =>
      have hlen : file.cells.length ≠ cells.length := fun hlen => haccepts ⟨file, hread, hlen⟩
      rw [editsOf_notebook uri path version cells stdout file h hread,
        notebookEdits_of_length_ne cells file hlen]
      exact ⟨_, rfl⟩
    | cell path c =>
      rw [editsOf_cell path c stdout file h hread, singleCellEdits]
      cases hhead : file.cells.head? with
      | none => exact ⟨_, rfl⟩
      | some entry =>
        cases hcode : entry.isCode with
        | false =>
          refine ⟨.malformedOutput "expected a single code cell", ?_⟩
          simp [hcode, Except.map]
        | true => exact absurd ⟨file, entry, hread, hhead, hcode⟩ haccepts

/-- No answer, edits, or a failure: whether the document is left alone and whether the output has
the form it asks for decide which. -/
theorem editsOf_cases (d : Document) (stdout : List UInt8) :
    (d.Excluded stdout ∧ d.editsOf stdout = .ok none) ∨
    (¬ d.Excluded stdout ∧ d.Accepts (Utf8.decodeLossy stdout) ∧
      ∃ edits, d.editsOf stdout = .ok (some edits)) ∨
    (¬ d.Excluded stdout ∧ ¬ d.Accepts (Utf8.decodeLossy stdout) ∧
      ∃ failure, d.editsOf stdout = .error failure) := by
  by_cases hex : d.Excluded stdout
  · exact .inl ⟨hex, editsOf_of_excluded d stdout hex⟩
  · by_cases haccepts : d.Accepts (Utf8.decodeLossy stdout)
    · exact .inr (.inl ⟨hex, haccepts, editsOf_of_accepts d stdout hex haccepts⟩)
    · exact .inr (.inr ⟨hex, haccepts, editsOf_of_not_accepts d stdout hex haccepts⟩)

/-- Every edit that a document is given carries over what the tool printed. There are edits exactly
when the tool does not leave the document alone and prints what the document asks for; there is no
answer exactly when it leaves the document alone; and a file with another number of cells gives no
edit for any cell. -/
theorem editsOf_faithful (d : Document) (stdout : List UInt8)
    (hfit : ∀ s ∈ d.sources, Fits s.toList) :
    (∀ edits, d.editsOf stdout = .ok (some edits) →
      Follows (Utf8.decodeLossy stdout) d edits) ∧
    ((∃ edits, d.editsOf stdout = .ok (some edits)) ↔
      ¬ d.Excluded stdout ∧ d.Accepts (Utf8.decodeLossy stdout)) ∧
    (d.editsOf stdout = .ok none ↔ stdout = [] ∧ d.isBlank = false) ∧
    (∀ uri path version cells file, d = notebook uri path version cells →
      NotebookFile.read? (String.ofList (Utf8.decodeLossy stdout)) = some file →
      file.cells.length ≠ cells.length →
      d.editsOf stdout = .error (.malformedOutput ("notebook has " ++
        toString cells.length ++ " cells but Ruff returned " ++ toString file.cells.length))) := by
  have hcases := editsOf_cases d stdout
  refine ⟨fun edits => follows_of_editsOf d stdout edits hfit, ?_, ?_, ?_⟩
  · rcases hcases with ⟨hex, hans⟩ | ⟨hex, haccepts, edits, hans⟩ | ⟨hex, haccepts, failure, hans⟩
    · simp [hans, hex]
    · simp [hans, hex, haccepts]
    · simp [hans, haccepts]
  · change d.editsOf stdout = .ok none ↔ d.Excluded stdout
    rcases hcases with ⟨hex, hans⟩ | ⟨hex, haccepts, edits, hans⟩ | ⟨hex, haccepts, failure, hans⟩
    · simp [hans, hex]
    · simp [hans, hex]
    · simp [hans, hex]
  · rintro uri path version cells file rfl hread hlen
    have hnot := not_excluded_of_read (notebook uri path version cells) stdout file hread
    rw [editsOf_notebook uri path version cells stdout file hnot hread,
      notebookEdits_of_length_ne cells file hlen]
    rfl

deriving instance DecidableEq for Except

/-- A notebook with a text for readers between two cells of code. -/
def mixedNotebook : Document :=
  .notebook ⟨"file", none, .segments ["nb.ipynb"], none, none⟩ ⟨"/nb.ipynb"⟩ (some 3)
    [⟨⟨"cell", none, .rootless "a", none, none⟩, .code, "x=1\r\ny\r\n", some 1⟩,
      ⟨⟨"cell", none, .rootless "b", none, none⟩, .markup, "# Title", some 1⟩,
      ⟨⟨"cell", none, .rootless "c", none, none⟩, .code, "'😀'", none⟩]

/-- A file with as many cells: new texts for the cells of code, and none for the reader. -/
def mixedOutput : List UInt8 :=
  Utf8.encode
    "[0,4,5,[[\"code\",0,[],\"x = 1\\ny\\n\"],[\"raw\",0,\"\"],[\"code\",0,[],\"1\"]]]".toList

def mixedEdits : List DocumentEdit :=
  [⟨⟨"cell", none, .rootless "a", none, none⟩, some 1, [⟨⟨⟨0, 0⟩, ⟨1, 0⟩⟩, "x = 1\r\n"⟩]⟩,
    ⟨⟨"cell", none, .rootless "c", none, none⟩, none, [⟨⟨⟨0, 0⟩, ⟨0, 4⟩⟩, "1"⟩]⟩]

theorem mixedNotebook_follows :
    (∀ s ∈ mixedNotebook.sources, Fits s.toList) ∧
    mixedNotebook.editsOf mixedOutput = .ok (some mixedEdits) ∧
    Follows (Utf8.decodeLossy mixedOutput) mixedNotebook mixedEdits := by
  have hfit : ∀ s ∈ mixedNotebook.sources, Fits s.toList := by decide +kernel
  have hedits : mixedNotebook.editsOf mixedOutput = .ok (some mixedEdits) := by decide +kernel
  exact ⟨hfit, hedits, (editsOf_faithful mixedNotebook mixedOutput hfit).1 mixedEdits hedits⟩

end Document
end LintBridge
