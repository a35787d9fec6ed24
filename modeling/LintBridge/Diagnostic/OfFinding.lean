import LintBridge.Diagnostic.Basic
import LintBridge.Finding.Reading

/-!
The diagnostics of findings.

A diagnostic carries what the server has to know when the diagnostic comes back: the fix, the row of
a suppression, and the cell. `FindingData.ofJson` takes back what `FindingData.toJson` has written,
and takes all else for nothing.
-/

namespace LintBridge

open Json (Tree)

def Location.toJson (l : Location) : Json :=
  .ofFields [("row", .int l.row), ("column", .int l.column)]

def FixEdit.toJson (e : FixEdit) : Json :=
  .ofFields [("content", .text e.content), ("location", e.start.toJson),
    ("end_location", e.stop.toJson)]

/-- A fix as JSON, with null for what is not known. -/
def Fix.toJson (f : Fix) : Json :=
  .ofFields [("applicability", (f.applicability.map fun a => .text a.name).getD .null),
    ("message", (f.message.map .text).getD .null), ("edits", .list FixEdit.toJson f.edits)]

structure FindingData where
  fix : Option Fix
  noqaRow : Option Nat
  cell : Option Nat
  deriving DecidableEq, Repr, Inhabited

namespace FindingData

def empty : FindingData := ⟨none, none, none⟩

/-- The data as JSON; what is not known is left out. -/
def toJson (d : FindingData) : Json :=
  .ofGiven [("fix", d.fix.map Fix.toJson), ("noqa_row", d.noqaRow.map .nat),
    ("cell", d.cell.map .nat)]

def ofTree? (t : Tree) : Option FindingData := do
  let slot ← t.slots? ["fix", "noqa_row", "cell"]
  return ⟨← (slot "fix").optionalOr Fix.ofTree?, ← (slot "noqa_row").optionalOr Tree.count32?,
    ← (slot "cell").optionalOr Tree.count64?⟩

/-- Reads data. Data that is not there or is somebody else's says nothing. -/
def ofJson (data : Option Json) : FindingData :=
  (data.bind fun v => ofTree? v.toTree).getD empty

end FindingData

def Finding.data (f : Finding) : FindingData := ⟨f.fix, f.noqaRow, f.cell⟩

def Severity.number : Severity → Int
  | .error => 1
  | .warning => 2

namespace Diagnostic

def ownSource : String := "Ruff"

def unnecessaryTag : Int := 1

/-- The diagnostic of a finding. A description whose address is no URL is left out. -/
def ofFinding (f : Finding) : Diagnostic where
  range := f.range
  severity := some f.severity.number
  code := f.code.map .text
  href := f.url.bind Url.ofString?
  source := some ownSource
  message := f.message
  related := none
  tags := if f.isUnnecessary then some [unnecessaryTag] else none
  data := some f.data.toJson

/-- Whether a diagnostic is one of the server's own. -/
def isOwn (d : Diagnostic) : Bool := decide (d.source = some ownSource)

/-- The code of the rule that a diagnostic is about; a number is no such code. -/
def rule? (d : Diagnostic) : Option String :=
  match d.code with
  | some (.text code) => some code
  | _ => none

def findingData (d : Diagnostic) : FindingData := FindingData.ofJson d.data

end Diagnostic

/-- The cell that a finding of a notebook belongs to, counted from one: the first if it names
none. -/
def Finding.cellNumber (f : Finding) : Nat := f.cell.getD 1

/-- The findings in a cell of a notebook, counted from one. -/
def findingsInCell (findings : List Finding) (number : Nat) : List Finding :=
  findings.filter fun f => f.cellNumber = number

end LintBridge
