import LintBridge.Finding.Basic
import LintBridge.Failure
import LintBridge.Json.Decode
import LintBridge.Json.Reader

/-!
Reading the findings that the tool prints as JSON.

A finding may state its fix as one edit or as a list of edits; the version of the tool decides how
the columns of a list count. One finding that cannot be read makes the whole output unreadable, and
one that is shown and whose places have no positions leaves all of it without a result.
-/

namespace LintBridge

open Json (Tree)

def Location.ofTree? (t : Tree) : Option Location := do
  let slot ← t.slots? ["row", "column"]
  return ⟨← (slot "row").required Tree.int64?, ← (slot "column").required Tree.int64?⟩

def FixEdit.ofTree? (t : Tree) : Option FixEdit := do
  let slot ← t.slots? ["content", "location", "end_location"]
  return ⟨← (slot "content").required Tree.text?,
    ← (slot "location").required Location.ofTree?,
    ← (slot "end_location").required Location.ofTree?⟩

def Applicability.ofTree? (t : Tree) : Option Applicability :=
  t.text?.map Applicability.ofName

def Fix.names : List String := ["applicability", "message", "edits"]

def Fix.ofSlots? (slot : String → Json.Slot) : Option Fix := do
  return ⟨← (slot "applicability").optionalOr Applicability.ofTree?,
    ← (slot "message").optionalOr Tree.text?,
    ← (slot "edits").required (Tree.list? FixEdit.ofTree?)⟩

def Fix.ofTree? (t : Tree) : Option Fix := (t.slots? names).bind ofSlots?

namespace Finding

/-- A fix as a finding states it. -/
inductive StatedFix where
  | edits (fix : Fix)
  | single (message : Option String) (edit : FixEdit)
  deriving DecidableEq, Repr

def StatedFix.edits? (t : Tree) : Option StatedFix :=
  ((t.objectSlots? Fix.names).bind Fix.ofSlots?).map .edits

def StatedFix.single? (t : Tree) : Option StatedFix := do
  let slot ← t.objectSlots? ["message", "content", "location", "end_location"]
  return .single (← (slot "message").optionalOr Tree.text?)
    ⟨← (slot "content").required Tree.text?,
      ← (slot "location").required Location.ofTree?,
      ← (slot "end_location").required Location.ofTree?⟩

/-- Reads a fix, which has to be an object: a list of edits if it can be read so, else one edit. -/
def StatedFix.ofTree? (t : Tree) : Option StatedFix :=
  t.firstOf? [StatedFix.edits?, StatedFix.single?]

/-- A fix with its columns counted from zero. The columns of a list count from one in the schema
that says so; those of a single edit count from zero. -/
def StatedFix.fix? (schema : FixSchema) : StatedFix → Option Fix
  | .single message edit => some ⟨none, message, [edit]⟩
  | .edits fix =>
    if schema = .editsOneBased then do
      return { fix with edits := ← fix.edits.mapM FixEdit.columnsFromZero? }
    else some fix

/-- A finding as the tool states it. -/
structure Stated where
  code : Option String
  message : String
  start : Location
  stop : Location
  fix : Option StatedFix
  noqaRow : Option Nat
  cell : Option Nat
  url : Option String
  deriving DecidableEq, Repr

def Stated.ofTree? (t : Tree) : Option Stated := do
  let slot ← t.slots?
    ["code", "message", "location", "end_location", "fix", "noqa_row", "cell", "url"]
  return {
    code := ← (slot "code").optionalOr Tree.text?
    message := ← (slot "message").orElse "" Tree.text?
    start := ← (slot "location").required Location.ofTree?
    stop := ← (slot "end_location").required Location.ofTree?
    fix := ← (slot "fix").optionalOr StatedFix.ofTree?
    noqaRow := ← (slot "noqa_row").optionalOr Tree.count32?
    cell := ← (slot "cell").optionalOr Tree.count64?
    url := ← (slot "url").optionalOr Tree.text? }

/-- A finding for the editor: its range does not end before it starts, and the columns of its fix
count from zero. -/
def Stated.finding? (c : Capabilities) (s : Stated) : Option Finding := do
  let start ← s.start.position?
  let stop ← s.stop.position?
  return {
    range := ⟨start, stop.latest start⟩
    message := s.message
    code := s.code
    url := s.url
    fix := ← s.fix.mapM (·.fix? c.fixSchema)
    noqaRow := s.noqaRow
    cell := s.cell }

/-- Whether an octet is one of the blanks that an output without findings is made of. -/
def isBlankOctet (b : UInt8) : Bool :=
  b == 0x20 || b == 0x09 || b == 0x0A || b == 0x0C || b == 0x0D

/-- The findings of a list of stated ones, without syntax errors if these are not to be shown. -/
def ofStated? (c : Capabilities) (showSyntaxErrors : Bool) (stated : List Stated) :
    Option (List Finding) :=
  (stated.filter fun s => showSyntaxErrors || !c.isSyntaxError s.code).mapM (·.finding? c)

/-- What the tool states in what it printed; blank output states nothing. -/
def statedIn? (octets : List UInt8) : Option (List Stated) :=
  if octets.all isBlankOctet then some []
  else (Json.readOctets? octets).bind fun t => t.list? Stated.ofTree?

def ofOctets (c : Capabilities) (showSyntaxErrors : Bool) (octets : List UInt8) :
    Except Stop (List Finding) :=
  match statedIn? octets with
  | none => .error (.failed .outputNotJson)
  | some stated => orOverflow (ofStated? c showSyntaxErrors stated)

end Finding
end LintBridge
