import LintBridge.CodeAction.Kind
import LintBridge.Diagnostic.OfFinding
import LintBridge.WorkspaceEdit

/-!
Code actions: what the user may have done to a text, and how the server makes them.

Each action of the server carries the name of its document, so that its edit can be worked out
later.
-/

namespace LintBridge

open Json (Tree)

structure ActionCommand where
  title : String
  command : String
  arguments : Option (List Json)
  deriving Repr, Inhabited

structure CodeAction where
  title : String
  kind : Option ActionKind
  /-- The diagnostics that the action resolves. -/
  diagnostics : Option (List Diagnostic)
  edit : Option WorkspaceEdit
  command : Option ActionCommand
  isPreferred : Option Bool
  /-- Why the action is not available. -/
  disabledReason : Option String
  /-- What the server wants to be told when the action comes back. -/
  data : Option Json
  deriving Repr, Inhabited

namespace ActionCommand

def toJson (c : ActionCommand) : Json :=
  .ofGiven [("title", some (.text c.title)), ("command", some (.text c.command)),
    ("arguments", c.arguments.map .array)]

def ofTree? (t : Tree) : Option ActionCommand := do
  let slot ← t.slots? ["title", "command", "arguments"]
  return ⟨← (slot "title").required Tree.text?, ← (slot "command").required Tree.text?,
    ← (slot "arguments").optional (Tree.list? Tree.value?)⟩

end ActionCommand

def ActionKind.ofTree? (t : Tree) : Option ActionKind := t.text?.map ActionKind.mk

namespace CodeAction

def disabledReason? (t : Tree) : Option String := do
  let slot ← t.slots? ["reason"]
  (slot "reason").required Tree.text?

/-- An action as JSON; what is not known is left out. -/
def toJson (a : CodeAction) : Json :=
  .ofGiven
    [("title", some (.text a.title)),
      ("kind", a.kind.map fun k => .text k.text),
      ("diagnostics", a.diagnostics.map (.list Diagnostic.toJson)),
      ("edit", a.edit.map WorkspaceEdit.toJson),
      ("command", a.command.map ActionCommand.toJson),
      ("isPreferred", a.isPreferred.map .bool),
      ("disabled", a.disabledReason.map fun reason => .ofFields [("reason", .text reason)]),
      ("data", a.data)]

def ofTree? (t : Tree) : Option CodeAction := do
  let slot ← t.slots? ["title", "kind", "diagnostics", "edit", "command", "isPreferred",
    "disabled", "data"]
  return {
    title := ← (slot "title").required Tree.text?
    kind := ← (slot "kind").optional ActionKind.ofTree?
    diagnostics := ← (slot "diagnostics").optional (Tree.list? Diagnostic.ofTree?)
    edit := ← (slot "edit").optional WorkspaceEdit.ofTree?
    command := ← (slot "command").optional ActionCommand.ofTree?
    isPreferred := ← (slot "isPreferred").optional Tree.bool?
    disabledReason := ← (slot "disabled").optional disabledReason?
    data := ← (slot "data").optional Tree.value? }

def uri? (a : CodeAction) : Option Url :=
  match a.data with
  | some (.text s) => Url.ofString? s
  | _ => none

def fixEdit? (uri : Url) (version : Option Int) (fix : Fix) : Option WorkspaceEdit := do
  return .ofDocumentEdits [⟨uri, version, ← fix.edits.mapM FixEdit.textEdit?⟩]

/-- An action that does something about one diagnostic. -/
def forDiagnostic (title : String) (uri : Url) (edit : WorkspaceEdit) (d : Diagnostic) :
    CodeAction where
  title := title
  kind := some .quickFix
  diagnostics := some [d]
  edit := some edit
  command := none
  isPreferred := none
  disabledReason := none
  data := some uri.toJson

/-- The title of an action that mends a finding: the message of the fix if it has one, else the
rule. -/
def fixTitle (fix : Fix) (d : Diagnostic) : String :=
  match fix.message.filter (· != ""), d.rule? with
  | some message, rule => "Ruff (" ++ rule.getD "" ++ "): " ++ message
  | none, some rule => "Ruff: Fix " ++ rule
  | none, none => "Ruff: Fix"

/-- The action that mends a finding. -/
def quickFix? (uri : Url) (version : Option Int) (fix : Fix) (d : Diagnostic) :
    Option CodeAction := do
  return forDiagnostic (fixTitle fix d) uri (← fixEdit? uri version fix) d

def disableRule? (uri : Url) (version : Option Int) (suppression : Fix) (d : Diagnostic) :
    Option CodeAction := do
  return forDiagnostic ("Ruff (" ++ d.rule?.getD "" ++ "): Disable for this line") uri
    (← fixEdit? uri version suppression) d

/-- An action on a whole document. Without an edit, the edit is left for later. -/
def source (action : SourceAction) (kind : ActionKind) (uri : Url) (edit : Option WorkspaceEdit)
    (diagnostics : List Diagnostic) : CodeAction where
  title := action.title
  kind := some kind
  diagnostics := some diagnostics
  edit := edit
  command := none
  isPreferred := none
  disabledReason := none
  data := some uri.toJson

end CodeAction
end LintBridge
