import LintBridge.Session.Actions
import LintBridge.Session.Documents
import LintBridge.Session.Requests

/-!
Messages of an editor by their names, and the answers to them.
-/

namespace LintBridge

open Json (Tree)

/-- The answer to a message. A message that asks for nothing is answered with null. -/
inductive Answer where
  | result (v : Json)
  | refused (r : Refusal)
  /-- The contents of the message cannot be read. -/
  | unreadable
  /-- There is no message of that name. -/
  | unknown
  deriving Repr, Inhabited

namespace Session

/-- What the server can do, as it tells an editor that introduces itself. -/
def announcement : Json :=
  .ofFields
    [("capabilities", .ofFields
      [("textDocumentSync", .ofFields
          [("openClose", .bool true), ("change", .int 1), ("save", .bool true)]),
        ("experimental", .ofFields
          [("notebookDocumentSync", .ofFields
            [("notebookSelector", .array [.ofFields
                [("cells", .array [.ofFields [("language", .text "python")]])]]),
              ("save", .bool true)])]),
        ("codeActionProvider", .ofFields
          [("codeActionKinds", .list (fun k => .text k.text) ActionKind.supported),
            ("resolveProvider", .bool true)]),
        ("executeCommandProvider", .ofFields
          [("commands", .list (fun c => .text c.name) Command.all)]),
        ("documentFormattingProvider", .bool true),
        ("documentRangeFormattingProvider", .bool true),
        ("hoverProvider", .bool true)]),
      ("serverInfo", .ofFields [("name", .text "rufflink-lsp"), ("version", .text "0.1.0")])]

/-- The property of code actions that the server can work out later. -/
def editProperty : String := "edit"

def introduced (i : Introduction) : SessionStep Json := do
  modify fun s => { s with
    connected := true
    lifecycle := s.lifecycle.setUp.2
    resolvesEdits := i.resolvable.contains editProperty }
  applySettings (.ofJson i.options)
  return announcement

def activated : SessionStep Unit := do
  modify fun s => { s with lifecycle := s.lifecycle.activate }
  send (.logMessage .info "rufflink-lsp initialized")

def shutDown : SessionStep Unit := modify fun s => { s with lifecycle := s.lifecycle.shutDown }

def hoverJson (text : String) : Json :=
  .ofFields [("contents", .ofFields [("kind", .text "markdown"), ("value", .text text)])]

def orNull {α : Type} (toJson : α → Json) (value : Option α) : Json :=
  (value.map toJson).getD .null

/-- Answers a message with contents that `read` reads. -/
def answer {α : Type} (read : Tree → Option α) (step : α → SessionStep Answer) (params : Tree) :
    SessionStep Answer :=
  match read params with
  | some contents => step contents
  | none => return .unreadable

def noted {α : Type} (read : Tree → Option α) (step : α → SessionStep Unit) :
    Tree → SessionStep Answer :=
  answer read fun contents => do
    step contents
    return .result .null

def asked {α β : Type} (read : Tree → Option α) (toJson : β → Json) (step : α → SessionStep β) :
    Tree → SessionStep Answer :=
  answer read fun contents => do return .result (toJson (← step contents))

def executed : Tree → SessionStep Answer :=
  answer Message.commandRequest? fun r => do
    match ← execute r with
    | .ok () => return .result .null
    | .error refusal => return .refused refusal

def handle (method : String) (params : Tree) : SessionStep Answer :=
  match method with
  | "initialize" => asked Message.introduction? id introduced params
  | "initialized" => noted some (fun _ => activated) params
  | "shutdown" => noted some (fun _ => shutDown) params
  | "textDocument/didOpen" => noted Message.textOpened? textOpened params
  | "textDocument/didChange" => noted Message.textChanged? textChanged params
  | "textDocument/didSave" => noted Message.textSaved? textSaved params
  | "textDocument/didClose" => noted Message.textClosed? textClosed params
  | "notebookDocument/didOpen" => noted Message.notebookOpened? notebookOpened params
  | "notebookDocument/didChange" => noted Message.notebookChanged? notebookChanged params
  | "notebookDocument/didSave" => noted Message.notebookSaved? notebookSaved params
  | "notebookDocument/didClose" => noted Message.notebookClosed? notebookClosed params
  | "workspace/didChangeConfiguration" => noted Message.settingsChanged? settingsChanged params
  | "workspace/executeCommand" => executed params
  | "textDocument/codeAction" =>
    asked Message.actionRequest? (orNull (.list CodeAction.toJson)) codeActions params
  | "codeAction/resolve" => asked CodeAction.ofTree? CodeAction.toJson resolve params
  | "textDocument/formatting" =>
    asked Message.formatRequest? (orNull (.list TextEdit.toJson)) format params
  | "textDocument/rangeFormatting" =>
    asked Message.rangeFormatRequest? (orNull (.list TextEdit.toJson)) format params
  | "textDocument/hover" => asked Message.hoverRequest? (orNull hoverJson) hover params
  | _ => return .unknown

end Session
end LintBridge
