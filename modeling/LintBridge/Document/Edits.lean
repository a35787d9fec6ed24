import LintBridge.Document.NotebookFile
import LintBridge.Failure
import LintBridge.Text.Edit
import LintBridge.Text.Utf8

/-!
The edits that turn a document into what the tool printed.

A text gets one list of edits, a notebook one for each of its code cells, a single cell one. No
output for a document that is not blank means that the tool leaves the file alone.
-/

namespace LintBridge

/-- The edits of one text. An empty list means that nothing changes. -/
structure DocumentEdit where
  uri : Url
  version : Option Int
  edits : List TextEdit
  deriving DecidableEq, Repr, Inhabited

namespace Document

/-- The edits of the code cells of a notebook, each from the cell at its place in the file. -/
def cellEdits (cells : List Cell) (entries : List CellEntry) : List DocumentEdit :=
  ((cells.zip entries).filter fun (c, _) => c.isCode).map fun (c, entry) =>
    ⟨c.uri, c.version, reconcile c.source.toList entry.source.toList⟩

/-- The edits of a notebook from the file that came back, which has to have as many cells. -/
def notebookEdits (cells : List Cell) (file : NotebookFile) : Except Failure (List DocumentEdit) :=
  if file.cells.length = cells.length then .ok (cellEdits cells file.cells)
  else .error (.malformedOutput ("notebook has " ++ toString cells.length ++
    " cells but Ruff returned " ++ toString file.cells.length))

/-- The edits of a single cell from the file that came back, which has to start with a code
cell. -/
def singleCellEdits (c : Cell) (file : NotebookFile) : Except Failure (List DocumentEdit) :=
  match file.cells.head? with
  | some entry =>
    if entry.isCode then
      .ok [⟨c.uri, c.version, reconcileCell c.source.toList entry.source.toList⟩]
    else .error (.malformedOutput "expected a single code cell")
  | none => .error (.malformedOutput "expected a single code cell")

/-- The edits that turn a document into what the tool printed; none if the tool leaves the document
alone. -/
def editsOf (d : Document) (stdout : List UInt8) : Except Failure (Option (List DocumentEdit)) :=
  if stdout.isEmpty && !d.isBlank then .ok none
  else
    let output := Utf8.decodeLossy stdout
    let file : Except Failure NotebookFile :=
      match NotebookFile.read? (String.ofList output) with
      | some file => .ok file
      | none => .error .outputNotJson
    match d with
    | .text uri _ source version => .ok (some [⟨uri, version, reconcile source.toList output⟩])
    | .notebook _ _ _ cells => do return some (← notebookEdits cells (← file))
    | .cell _ c => do return some (← singleCellEdits c (← file))

end Document
end LintBridge
