import LintBridge.Message.Requests
import LintBridge.Session.Basic
import LintBridge.Suppression

/-!
Formatted text, commands and explanations, as an editor asks for them.
-/

namespace LintBridge

inductive Command where
  | fixAll
  | organizeImports
  | format
  deriving DecidableEq, Repr, Inhabited

namespace Command

def all : List Command := [.fixAll, .organizeImports, .format]

def name : Command → String
  | .fixAll => "ruff.applyAutofix"
  | .organizeImports => "ruff.applyOrganizeImports"
  | .format => "ruff.applyFormat"

def ofName? (name : String) : Option Command := all.find? (·.name = name)

end Command

inductive Refusal where
  | unknownCommand (name : String)
  | noDocument (command : Command)
  deriving DecidableEq, Repr, Inhabited

namespace Refusal

def message : Refusal → String
  | .unknownCommand name => "Unknown command: " ++ name
  | .noDocument command => command.name ++ " expects a text document argument"

/-- The number of a refusal: that of parameters that cannot be used. -/
def code (_ : Refusal) : Int := -32602

end Refusal

def CommandRequest.target? (r : CommandRequest) : Except Refusal (Command × Url) :=
  match Command.ofName? r.name with
  | none => .error (.unknownCommand r.name)
  | some command =>
    match r.arguments.head?.bind fun argument => documentName? argument.toTree with
    | some uri => .ok (command, uri)
    | none => .error (.noDocument command)

def Suppression.codeAtPosition? (text : List Char) (p : Position) : Option String :=
  ((lineAt? text p.line).bind (codeAt? · p.character)).map String.ofList

namespace Session

def format (r : FormatRequest) : SessionStep (Option (List TextEdit)) := do
  let s ← get
  if s.isShuttingDown then return none
  else
    match s.documents.cellOrText? r.uri with
    | none => return none
    | some d =>
      let operation := if r.range.isSome then Operation.rangeFormat else .format
      let edits ← requestEdits operation (Linter.format d r.range)
      return edits.map fun edits => (edits.filter (·.uri = r.uri)).flatMap DocumentEdit.edits

def commandEdits (command : Command) (d : Document) : SessionStep (Option (List DocumentEdit)) :=
  match command with
  | .fixAll => requestEdits .fix (Linter.fix d none)
  | .organizeImports => requestEdits .organizeImports (Linter.organizeImports d)
  | .format => requestEdits .format (Linter.format d none)

/-- Runs a command on a whole document: the editor is told the edit that it is to carry out. -/
def runCommand (command : Command) (uri : Url) : SessionStep Unit := do
  let s ← get
  if s.isShuttingDown then return
  else
    match s.documents.document? uri with
    | none => return
    | some d =>
      match ← commandEdits command d with
      | some edits => sendIfConnected (.applyEdit (.ofDocumentEdits edits))
      | none => return

def execute (r : CommandRequest) : SessionStep (Except Refusal Unit) := do
  match r.target? with
  | .error refusal => return .error refusal
  | .ok (command, uri) => return .ok (← runCommand command uri)

/-- The rule at a position inside a suppression, and the file whose settings hold for it. -/
def ruleAt? (s : Session) (uri : Url) (p : Position) : Option (String × Path) := do
  let text ← s.documents.text? uri
  let code ← Suppression.codeAtPosition? text.toList p
  let d ← s.documents.cellOrText? uri
  return (code, d.path)

/-- The explanation of the rule at a position inside a suppression. -/
def hover (r : HoverRequest) : SessionStep (Option String) := do
  let s ← get
  match s.ruleAt? r.uri r.position with
  | none => return none
  | some (code, path) =>
    if s.isShuttingDown then return none
    else
      match ← request (Linter.explain path code) with
      | .ok text => return text
      | .error failure =>
        report .explain failure
        return none

end Session
end LintBridge
