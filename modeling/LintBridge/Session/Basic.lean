import LintBridge.Lifecycle
import LintBridge.Linter.Requests
import LintBridge.Session.Event
import LintBridge.Settings.Payload
import LintBridge.Store

/-!
A session of an editor with the server.

A session holds the open documents, the linter, and what it has told the editor so far. What an
editor says or asks is a step of the session. Nothing is run once the session is shut down, and
before the editor has introduced itself it is told of messages only. A step in which something
breaks off ends the program; it has no result.
-/

namespace LintBridge

/-- A session. -/
structure Session where
  linter : Linter
  documents : Store
  lifecycle : Lifecycle
  /-- Whether the editor asks for the edit of an action only when the user has chosen it. -/
  resolvesEdits : Bool
  policy : NoticePolicy
  /-- Whether the editor has introduced itself. -/
  connected : Bool
  /-- What the editor has been told, in order. -/
  sent : List Event

/-- A step of a session. -/
abbrev SessionStep (α : Type) := StateT Session Option α

def Operation.attempt : Operation → String
  | .explain => "Explaining rule"
  | o => o.label

namespace Session

/-- The variable of the environment that names the policy for messages. -/
def policyVariable : String := "LS_SHOW_NOTIFICATION"

def ofToolbox (toolbox : Toolbox) : Session where
  linter := .ofToolbox toolbox
  documents := .empty
  lifecycle := .fresh
  resolvesEdits := false
  policy := ((toolbox.host.valueOf? policyVariable).map NoticePolicy.ofName).getD .never
  connected := false
  sent := []

def send (e : Event) : SessionStep Unit := modify fun s => { s with sent := s.sent ++ [e] }

/-- Tells the editor something, if it has introduced itself. -/
def sendIfConnected (e : Event) : SessionStep Unit := do
  if (← get).connected then send e

/-- Logs a message, after showing it if the policy is to do so. -/
def notice (kind : MessageKind) (text : String) : SessionStep Unit := do
  if (← get).policy.shows kind then send (.showMessage kind text)
  send (.logMessage kind text)

/-- Reports that an operation failed. The user sees what he can do something about, and of the rest
what the policy says. -/
def report (operation : Operation) (failure : Failure) : SessionStep Unit := do
  let text := operation.attempt ++ " failed: " ++ failure.message
  if failure.isUserVisible then
    send (.showMessage .error text)
    send (.logMessage .error text)
  else if failure.isMissingExecutable || failure.isMalformedOutput then notice .warning text
  else notice .error text

def onLinter {α : Type} (action : StateM Linter α) : SessionStep α := do
  let s ← get
  let (a, linter) := action.run s.linter
  set { s with linter := linter }
  return a

def request {α : Type} (r : Request α) : SessionStep (Except Failure α) := do
  match ← onLinter r.run with
  | .ok a => return .ok a
  | .error (.failed failure) => return .error failure
  | .error .overflow => failure

/-- Makes a request for edits, and reports its failure. -/
def requestEdits (operation : Operation) (r : Request (Option (List DocumentEdit))) :
    SessionStep (Option (List DocumentEdit)) := do
  match ← request r with
  | .ok edits => return edits
  | .error failure =>
    report operation failure
    return none

def isShuttingDown (s : Session) : Bool := s.lifecycle.isShuttingDown

def settingsFor? (s : Session) (uri : Url) : Option WorkspaceSettings :=
  uri.filePath?.map s.linter.settingsFor

def applySettings (payload : SettingsPayload) : SessionStep Unit :=
  modify fun s =>
    let (global, folders) := payload.layers
    let cwd := FileSystem.pathOf s.linter.toolbox.host.cwd
    { s with linter := s.linter.configure global folders cwd }

end Session
end LintBridge
