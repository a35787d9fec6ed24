import LintBridge.CodeAction.Basic
import LintBridge.Message.Documents

/-!
What an editor asks the server for.

Every request may carry marks under which the editor wants to hear of progress; they are read and do
not matter.
-/

namespace LintBridge

open Json (Tree Slot)

structure Introduction where
  /-- Settings, if the editor sends any. -/
  options : Option Json
  /-- The properties of code actions that the editor can ask for later. -/
  resolvable : List String
  deriving Repr, Inhabited

structure ActionRequest where
  uri : Url
  range : Range
  diagnostics : List Diagnostic
  /-- The kinds that are asked for, if not all are. -/
  only : Option (List ActionKind)
  deriving Repr, Inhabited

structure CommandRequest where
  name : String
  arguments : List Json
  deriving Repr, Inhabited

structure FormatRequest where
  uri : Url
  range : Option Range
  deriving DecidableEq, Repr, Inhabited

structure HoverRequest where
  uri : Url
  position : Position
  deriving DecidableEq, Repr, Inhabited

namespace Message

def progressMark? (t : Tree) : Option DiagnosticCode := DiagnosticCode.ofTree? t

def workMark : String := "workDoneToken"

def partMark : String := "partialResultToken"

/-- Reads a record that may carry marks of progress besides its own fields. -/
def markedSlots? (marks names : List String) (t : Tree) : Option (String → Slot) := do
  let slot ← t.objectSlots? (names ++ marks)
  let _ ← marks.mapM fun name => (slot name).optional progressMark?
  return slot

/-- Reads which properties of code actions an editor can ask for later. -/
def resolveSupport? (t : Tree) : Option (List String) := do
  let slot ← t.slots? ["properties"]
  (slot "properties").required Tree.texts?

def actionSupport? (t : Tree) : Option (List String) := do
  let slot ← t.objectSlots? ["resolveSupport"]
  return (← (slot "resolveSupport").optional resolveSupport?).getD []

def textSupport? (t : Tree) : Option (List String) := do
  let slot ← t.objectSlots? ["codeAction"]
  return (← (slot "codeAction").optional actionSupport?).getD []

def support? (t : Tree) : Option (List String) := do
  let slot ← t.objectSlots? ["textDocument"]
  return (← (slot "textDocument").optional textSupport?).getD []

def introduction? (t : Tree) : Option Introduction := do
  let slot ← t.objectSlots? ["initializationOptions", "capabilities"]
  return ⟨← (slot "initializationOptions").optional Tree.value?,
    ← (slot "capabilities").required support?⟩

def settingsChanged? (t : Tree) : Option Json := do
  let slot ← t.slots? ["settings"]
  (slot "settings").required Tree.value?

def actionRequest? (t : Tree) : Option ActionRequest := do
  let slot ← markedSlots? [workMark, partMark] ["textDocument", "range", "context"] t
  let (diagnostics, only) ← (slot "context").required fun t => do
    let slot ← t.slots? ["diagnostics", "only", "triggerKind"]
    let diagnostics ← (slot "diagnostics").required (Tree.list? Diagnostic.ofTree?)
    let only ← (slot "only").optional (Tree.list? ActionKind.ofTree?)
    let _ ← (slot "triggerKind").optional Tree.int32?
    return (diagnostics, only)
  return ⟨← (slot "textDocument").required documentName?, ← (slot "range").required Range.ofTree?,
    diagnostics, only⟩

def commandRequest? (t : Tree) : Option CommandRequest := do
  let slot ← markedSlots? [workMark] ["command", "arguments"] t
  return ⟨← (slot "command").required Tree.text?,
    ← (slot "arguments").orElse [] (Tree.list? Tree.value?)⟩

/-- Reads a wish about formatted text that has no name of its own. -/
def formatWish? (t : Tree) : Option Unit :=
  t.firstOf? [fun t => t.bool?.map fun _ => (), fun t => t.int32?.map fun _ => (),
    fun t => t.text?.map fun _ => ()]

/-- Reads the wishes of an editor about formatted text. They do not matter, since the tool goes by
its own settings. -/
def formatWishes? (t : Tree) : Option Unit := do
  let switches := ["trimTrailingWhitespace", "insertFinalNewline", "trimFinalNewlines"]
  let slot ← t.objectSlots? (["tabSize", "insertSpaces"] ++ switches)
  let _ ← (slot "tabSize").required Tree.count32?
  let _ ← (slot "insertSpaces").required Tree.bool?
  let _ ← switches.mapM fun name => (slot name).optional Tree.bool?
  match t with
  | .object fields =>
    let others := fields.filter fun (name, _) =>
      !(["tabSize", "insertSpaces"] ++ switches).contains name
    let _ ← others.mapM fun (_, t) => formatWish? t
    return ()
  | _ => none

def formatRequest? (t : Tree) : Option FormatRequest := do
  let slot ← markedSlots? [workMark] ["textDocument", "options"] t
  let _ ← (slot "options").required formatWishes?
  return ⟨← (slot "textDocument").required documentName?, none⟩

def rangeFormatRequest? (t : Tree) : Option FormatRequest := do
  let slot ← markedSlots? [workMark] ["textDocument", "range", "options"] t
  let _ ← (slot "options").required formatWishes?
  return ⟨← (slot "textDocument").required documentName?,
    some (← (slot "range").required Range.ofTree?)⟩

def hoverRequest? (t : Tree) : Option HoverRequest := do
  let slot ← markedSlots? [workMark] ["textDocument", "position"] t
  return ⟨← (slot "textDocument").required documentName?,
    ← (slot "position").required Position.ofTree?⟩

end Message
end LintBridge
