import LintBridge.WorkspaceEdit
import LintBridge.Diagnostic.OfFinding

/-!
What the server tells an editor of its own accord, and which messages the user gets to see at once.
-/

namespace LintBridge

inductive MessageKind where
  | error
  | warning
  | info
  | log
  deriving DecidableEq, Repr, Inhabited

def MessageKind.number : MessageKind → Int
  | .error => 1
  | .warning => 2
  | .info => 3
  | .log => 4

/-- Which messages the user is shown besides their being logged. -/
inductive NoticePolicy where
  | never
  | onError
  | onWarning
  | always
  deriving DecidableEq, Repr, Inhabited

namespace NoticePolicy

/-- The policy with a name; by any other name, nothing is shown. -/
def ofName : String → NoticePolicy
  | "onError" => .onError
  | "onWarning" => .onWarning
  | "always" => .always
  | _ => .never

def shows : NoticePolicy → MessageKind → Bool
  | .never, _ => false
  | .onError, kind => kind == .error
  | .onWarning, kind => kind == .error || kind == .warning
  | .always, kind => kind != .log

end NoticePolicy

inductive Event where
  | logMessage (kind : MessageKind) (text : String)
  | showMessage (kind : MessageKind) (text : String)
  /-- The diagnostics of a text, in place of all that were published for it before. -/
  | publishDiagnostics (uri : Url) (diagnostics : List Diagnostic) (version : Option Int)
  | applyEdit (edit : WorkspaceEdit)
  deriving Repr, Inhabited

namespace Event

def method : Event → String
  | .logMessage .. => "window/logMessage"
  | .showMessage .. => "window/showMessage"
  | .publishDiagnostics .. => "textDocument/publishDiagnostics"
  | .applyEdit _ => "workspace/applyEdit"

def params : Event → Json
  | .logMessage kind text | .showMessage kind text =>
    .ofFields [("type", .int kind.number), ("message", .text text)]
  | .publishDiagnostics uri diagnostics version =>
    .ofGiven [("uri", some uri.toJson), ("diagnostics", some (.list Diagnostic.toJson diagnostics)),
      ("version", version.map .int)]
  | .applyEdit edit => .ofFields [("edit", edit.toJson)]

def toJson (e : Event) : Json :=
  .ofFields [("method", .text e.method), ("params", e.params)]

end Event
end LintBridge
