import LintBridge.Message.Requests
import LintBridge.Session.Basic
import LintBridge.Suppression

/-!
The code actions that a session offers, and their edits.

For each of the server's own diagnostics there may be an action that mends the finding and one that
suppresses its rule; source actions are about the whole document. An editor that asks for edits
later gets source actions without them. A request for one kind that names a source action is
answered with that action alone and its edit.
-/

namespace LintBridge

def SourceAction.isEnabled (settings : WorkspaceSettings) : SourceAction → Bool
  | .organizeImports => settings.organizeImports
  | .fixAll => settings.fixAll

/-- The diagnostics that an action resolves, of those a request brings. -/
def SourceAction.resolved (own : List Diagnostic) : SourceAction → List Diagnostic
  | .organizeImports => []
  | .fixAll => own.filter fun d => d.findingData.fix.isSome

namespace CodeAction

def fixed (fixOf? : Diagnostic → Option Fix) (own : List Diagnostic) : List (Fix × Diagnostic) :=
  own.filterMap fun d => (fixOf? d).map fun fix => (fix, d)

def quickFixes? (uri : Url) (version : Option Int) (own : List Diagnostic) :
    Option (List CodeAction) :=
  (fixed (·.findingData.fix) own).mapM fun (fix, d) => quickFix? uri version fix d

/-- The suppression of the rule of a diagnostic in its line of a text. -/
def suppression? (text : List Char) (d : Diagnostic) : Option Fix := do
  let row ← d.findingData.noqaRow
  let code ← d.rule?
  let line ← lineAt? text (row - 1)
  return Suppression.fix line row code

def suppressions? (uri : Url) (version : Option Int) (text : Option String)
    (own : List Diagnostic) : Option (List CodeAction) :=
  match text with
  | none => some []
  | some text =>
    (fixed (suppression? text.toList) own).mapM fun (fix, d) => disableRule? uri version fix d

end CodeAction

namespace Session

/-- The document that an action of a kind is about: a whole notebook, or the text or cell
itself. -/
def target? (s : Session) (kind : ActionKind) (uri : Url) : Option Document :=
  if kind.isForNotebook then s.documents.document? uri else s.documents.cellOrText? uri

def sourceEdits (action : SourceAction) (d : Document) : SessionStep (Option (List DocumentEdit)) :=
  match action with
  | .organizeImports => requestEdits .organizeImports (Linter.organizeImports d)
  | .fixAll => requestEdits .fix (Linter.fix d none)

def sourceEdit (action : SourceAction) (kind : ActionKind) (uri : Url) :
    SessionStep (Option WorkspaceEdit) := do
  let s ← get
  if s.isShuttingDown then return none
  else
    match s.target? kind uri with
    | none => return none
    | some d => return (← sourceEdits action d).map WorkspaceEdit.ofDocumentEdits

def eagerAction (action : SourceAction) (kind : ActionKind) (uri : Url) (own : List Diagnostic) :
    SessionStep (List CodeAction) := do
  match ← sourceEdit action kind uri with
  | some edit => return [.source action kind uri (some edit) (action.resolved own)]
  | none => return []

/-- A source action as an answer to a request that is not for it alone. -/
def offer (uri : Url) (own : List Diagnostic) (action : SourceAction) :
    SessionStep (List CodeAction) := do
  if (← get).resolvesEdits then return [.source action action.kind uri none []]
  else eagerAction action action.kind uri own

def diagnosticActions? (s : Session) (settings : WorkspaceSettings) (r : ActionRequest)
    (version : Option Int) (own : List Diagnostic) : Option (List CodeAction) :=
  if ActionKind.quickFix.isRequested r.only then do
    let mending ←
      (if settings.fixViolation then CodeAction.quickFixes? r.uri version own else some [])
    let suppressing ←
      (if settings.disableRuleComment then
        CodeAction.suppressions? r.uri version (s.documents.text? r.uri) own
      else some [])
    return mending ++ suppressing
  else some []

def offeredActions (settings : WorkspaceSettings) (r : ActionRequest) : List SourceAction :=
  SourceAction.all.filter fun action =>
    action.isEnabled settings && action.kind.isRequested r.only

/-- The source action that a request is for alone, if it is enabled. -/
def exclusiveAction? (settings : WorkspaceSettings) (r : ActionRequest) :
    Option (SourceAction × ActionKind) :=
  (SourceAction.exclusive? r.only).filter fun (action, _) => action.isEnabled settings

/-- The answer to a request for actions on a document that is not left alone. -/
def actionsFor (settings : WorkspaceSettings) (r : ActionRequest) (d : Document) :
    SessionStep (Option (List CodeAction)) := do
  let own := r.diagnostics.filter Diagnostic.isOwn
  match exclusiveAction? settings r with
  | some (action, kind) => return some (← eagerAction action kind r.uri own)
  | none =>
    let single ← (← get).diagnosticActions? settings r d.version own
    let offered ← (offeredActions settings r).mapM (offer r.uri own)
    let actions := single ++ offered.flatten
    return if actions.isEmpty then none else some actions

def codeActions (r : ActionRequest) : SessionStep (Option (List CodeAction)) := do
  let s ← get
  match s.documents.cellOrText? r.uri with
  | none => return none
  | some d =>
    let settings := s.linter.settingsFor d.path
    if ← onLinter (Linter.isSkipped d.path settings) then return none
    else actionsFor settings r d

/-- The source action that an action of the server stands for, with its kind and its document. -/
def sourceOf? (a : CodeAction) : Option (SourceAction × ActionKind × Url) := do
  let uri ← a.uri?
  let kind ← a.kind
  let action ← SourceAction.ofKind? kind
  return (action, kind, uri)

/-- Gives a source action its edit, if the action is enabled for its document. All other actions
stay as they are. -/
def resolve (a : CodeAction) : SessionStep CodeAction := do
  match sourceOf? a with
  | none => return a
  | some (action, kind, uri) =>
    match (← get).settingsFor? uri with
    | none => return a
    | some settings =>
      if action.isEnabled settings then return { a with edit := ← sourceEdit action kind uri }
      else return a

end Session
end LintBridge
