import LintBridge.Message.Place
import LintBridge.Store

/-!
The messages of an editor about texts that it opens, changes, saves and closes.
-/

namespace LintBridge

open Json (Tree)

structure TextItem where
  uri : Url
  languageId : String
  version : Int
  text : String
  deriving DecidableEq, Repr, Inhabited

structure VersionedName where
  uri : Url
  version : Int
  deriving DecidableEq, Repr, Inhabited

structure TextChange where
  name : VersionedName
  changes : List ContentChange
  deriving DecidableEq, Repr, Inhabited

def TextItem.ofTree? (t : Tree) : Option TextItem := do
  let slot ← t.slots? ["uri", "languageId", "version", "text"]
  return ⟨← (slot "uri").required Url.ofTree?, ← (slot "languageId").required Tree.text?,
    ← (slot "version").required Tree.int32?, ← (slot "text").required Tree.text?⟩

def documentName? (t : Tree) : Option Url := do
  let slot ← t.slots? ["uri"]
  (slot "uri").required Url.ofTree?

def VersionedName.ofTree? (t : Tree) : Option VersionedName := do
  let slot ← t.slots? ["uri", "version"]
  return ⟨← (slot "uri").required Url.ofTree?, ← (slot "version").required Tree.int32?⟩

/-- Reads a change of a text. The length of the range may be given and does not matter. -/
def ContentChange.ofTree? (t : Tree) : Option ContentChange := do
  let slot ← t.slots? ["range", "rangeLength", "text"]
  let range ← (slot "range").optional Range.ofTree?
  let _ ← (slot "rangeLength").optional Tree.count32?
  return ⟨range, ← (slot "text").required Tree.text?⟩

def ContentChange.toJson (c : ContentChange) : Json :=
  .ofGiven [("range", c.range.map Range.toJson), ("text", some (.text c.text))]

namespace Message

def textOpened? (t : Tree) : Option TextItem := do
  let slot ← t.slots? ["textDocument"]
  (slot "textDocument").required TextItem.ofTree?

def textChanged? (t : Tree) : Option TextChange := do
  let slot ← t.slots? ["textDocument", "contentChanges"]
  return ⟨← (slot "textDocument").required VersionedName.ofTree?,
    ← (slot "contentChanges").required (Tree.list? ContentChange.ofTree?)⟩

/-- Reads that a text is saved. The text may come with it and does not matter. -/
def textSaved? (t : Tree) : Option Url := do
  let slot ← t.slots? ["textDocument", "text"]
  let uri ← (slot "textDocument").required documentName?
  let _ ← (slot "text").optional Tree.text?
  return uri

def textClosed? (t : Tree) : Option Url := do
  let slot ← t.slots? ["textDocument"]
  (slot "textDocument").required documentName?

end Message
end LintBridge
