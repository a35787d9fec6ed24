import LintBridge.Json.Decode
import LintBridge.Text.Edit
import LintBridge.Url.Reading

/-!
Positions, ranges, edits and names of documents, as they stand in messages between an editor and
the server.
-/

namespace LintBridge

open Json (Tree)

def Position.toJson (p : Position) : Json :=
  .ofFields [("line", .nat p.line), ("character", .nat p.character)]

def Position.ofTree? (t : Tree) : Option Position := do
  let slot ← t.slots? ["line", "character"]
  return ⟨← (slot "line").required Tree.count32?, ← (slot "character").required Tree.count32?⟩

def Range.toJson (r : Range) : Json :=
  .ofFields [("start", r.start.toJson), ("end", r.stop.toJson)]

def Range.ofTree? (t : Tree) : Option Range := do
  let slot ← t.slots? ["start", "end"]
  return ⟨← (slot "start").required Position.ofTree?, ← (slot "end").required Position.ofTree?⟩

def TextEdit.toJson (e : TextEdit) : Json :=
  .ofFields [("range", e.range.toJson), ("newText", .text e.newText)]

def TextEdit.ofTree? (t : Tree) : Option TextEdit := do
  let slot ← t.slots? ["range", "newText"]
  return ⟨← (slot "range").required Range.ofTree?, ← (slot "newText").required Tree.text?⟩

def Url.toJson (u : Url) : Json := .text u.render

def Url.ofTree? (t : Tree) : Option Url := t.text?.bind Url.ofString?

end LintBridge
