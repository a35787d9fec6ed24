import LintBridge.Text.Position
import LintBridge.Text.Edit

/-!
What the tool finds in a document, and how it would mend it.

A `Location` is the tool's own way to name a place: rows count from one, and columns from one in a
finding but from zero in the edits of a fix. It becomes a `Position` only towards the editor, and
has none if counting from zero takes it out of 64 bits.
-/

namespace LintBridge

/-- A number cut to what a position can carry. -/
def clampPosition (n : Int) : Nat := clampCount n.toNat

structure Location where
  row : Int
  column : Int
  deriving DecidableEq, Repr, Inhabited

namespace Location

/-- The position of a place whose row and column count from one. -/
def position? (l : Location) : Option Position := do
  let row ← signed64? (l.row - 1)
  let column ← signed64? (l.column - 1)
  return ⟨clampPosition row, clampPosition column⟩

/-- The position of a place whose row counts from one and whose column from zero. -/
def editPosition? (l : Location) : Option Position := do
  let row ← signed64? (l.row - 1)
  return ⟨clampPosition row, clampPosition l.column⟩

/-- The place with its column counted from zero instead of from one. -/
def columnFromZero? (l : Location) : Option Location := do
  return ⟨l.row, ← signed64? (l.column - 1)⟩

end Location

inductive Severity where
  | error
  | warning
  deriving DecidableEq, Repr, Inhabited

def errorCodes : List String := ["E902", "E999", "F821"]

def unnecessaryCodes : List String := ["F401", "F841"]

/-- A finding without a code is a syntax error; else the code decides. -/
def Severity.ofCode : Option String → Severity
  | none => .error
  | some code => if errorCodes.contains code then .error else .warning

/-- How far a fix can be trusted. -/
inductive Applicability where
  | safe
  | risky
  | displayOnly
  | automatic
  | suggested
  | manual
  | unspecified
  deriving DecidableEq, Repr, Inhabited

namespace Applicability

def name : Applicability → String
  | .safe => "safe"
  | .risky => "unsafe"
  | .displayOnly => "display-only"
  | .automatic => "Automatic"
  | .suggested => "Suggested"
  | .manual => "Manual"
  | .unspecified => "Unspecified"

/-- The applicability with a name, old names included. An unknown name specifies nothing. -/
def ofName : String → Applicability
  | "safe" | "Safe" => .safe
  | "unsafe" | "Unsafe" => .risky
  | "display-only" | "DisplayOnly" | "display" => .displayOnly
  | "Automatic" | "automatic" => .automatic
  | "Suggested" | "suggested" => .suggested
  | "Manual" | "manual" => .manual
  | _ => .unspecified

@[simp] theorem ofName_name (a : Applicability) : ofName a.name = a := by
  cases a <;> rfl

end Applicability

structure FixEdit where
  content : String
  start : Location
  stop : Location
  deriving DecidableEq, Repr, Inhabited

structure Fix where
  applicability : Option Applicability
  message : Option String
  edits : List FixEdit
  deriving DecidableEq, Repr, Inhabited

def FixEdit.textEdit? (e : FixEdit) : Option TextEdit := do
  return ⟨⟨← e.start.editPosition?, ← e.stop.editPosition?⟩, e.content⟩

def FixEdit.columnsFromZero? (e : FixEdit) : Option FixEdit := do
  return ⟨e.content, ← e.start.columnFromZero?, ← e.stop.columnFromZero?⟩

structure Finding where
  range : Range
  message : String
  /-- The code of the rule; a syntax error has none. -/
  code : Option String
  /-- Where the rule is described. -/
  url : Option String
  fix : Option Fix
  /-- The row, counted from one, that a suppression comment belongs in. -/
  noqaRow : Option Nat
  /-- The cell of the notebook, counted from one. -/
  cell : Option Nat
  deriving DecidableEq, Repr, Inhabited

namespace Finding

def severity (f : Finding) : Severity := Severity.ofCode f.code

def isUnnecessary (f : Finding) : Bool := f.code.any unnecessaryCodes.contains

def isSyntaxError (f : Finding) : Bool := f.code.isNone

def displayMessage (f : Finding) : String :=
  match f.code with
  | some code => code ++ " " ++ f.message
  | none => f.message

end Finding
end LintBridge
