import LintBridge.Message.Documents

/-!
The messages of an editor about notebooks that it opens, changes, saves and closes.

A change of a notebook may replace cells, give cells other kinds, and change the texts of cells, all
in one message.
-/

namespace LintBridge

open Json (Tree)

structure OpenedNotebook where
  name : VersionedName
  cells : List CellSlot
  texts : List TextItem
  deriving DecidableEq, Repr, Inhabited

structure NotebookChange where
  name : VersionedName
  structural : Option CellChange
  kinds : List CellSlot
  texts : List TextChange
  deriving DecidableEq, Repr, Inhabited

def TextItem.openedCell (item : TextItem) : OpenedCell := ⟨item.uri, item.text, item.version⟩

/-- The number of the kind of cells for readers; all other cells hold code. -/
def CellKind.markupNumber : Int := 1

def CellKind.ofNumber (n : Int) : CellKind := if n = markupNumber then .markup else .code

def CellSlot.ofTree? (t : Tree) : Option CellSlot := do
  let slot ← t.slots? ["kind", "document"]
  let kind ← (slot "kind").required Tree.int32?
  return ⟨← (slot "document").required Url.ofTree?, .ofNumber kind⟩

namespace CellChange

def ofWindow? (t : Tree) : Option (Nat × Nat × List CellSlot) := do
  let slot ← t.slots? ["start", "deleteCount", "cells"]
  return (← (slot "start").required Tree.count64?, ← (slot "deleteCount").required Tree.count64?,
    (← (slot "cells").optionalOr (Tree.list? CellSlot.ofTree?)).getD [])

def ofTree? (t : Tree) : Option CellChange := do
  let slot ← t.slots? ["array", "didOpen", "didClose"]
  let (start, deleteCount, cells) ← (slot "array").required ofWindow?
  let opened ← (slot "didOpen").optionalOr (Tree.list? TextItem.ofTree?)
  let closed ← (slot "didClose").optionalOr (Tree.list? documentName?)
  return ⟨start, deleteCount, cells, (opened.getD []).map TextItem.openedCell, closed.getD []⟩

end CellChange

def TextChange.ofTree? (t : Tree) : Option TextChange := do
  let slot ← t.slots? ["document", "changes"]
  return ⟨← (slot "document").required VersionedName.ofTree?,
    ← (slot "changes").required (Tree.list? ContentChange.ofTree?)⟩

namespace NotebookChange

/-- What is changed about the cells of a notebook. -/
abbrev Parts := Option CellChange × List CellSlot × List TextChange

def cellParts? (t : Tree) : Option Parts := do
  let slot ← t.slots? ["structure", "data", "textContent"]
  return (← (slot "structure").optionalOr CellChange.ofTree?,
    (← (slot "data").optionalOr (Tree.list? CellSlot.ofTree?)).getD [],
    (← (slot "textContent").optionalOr (Tree.list? TextChange.ofTree?)).getD [])

/-- Reads what is changed. A change of what the server does not know changes nothing about the
cells. -/
def parts? (t : Tree) : Option Parts := do
  let slot ← t.slots? ["cells"]
  return (← (slot "cells").optionalOr cellParts?).getD (none, [], [])

end NotebookChange

namespace Message

def notebookOpened? (t : Tree) : Option OpenedNotebook := do
  let slot ← t.slots? ["notebookDocument", "cellTextDocuments"]
  let (name, cells) ← (slot "notebookDocument").required fun t => do
    let slot ← t.slots? ["uri", "version", "cells"]
    let name : VersionedName :=
      ⟨← (slot "uri").required Url.ofTree?, ← (slot "version").required Tree.int32?⟩
    return (name, ← (slot "cells").orElse [] (Tree.list? CellSlot.ofTree?))
  return ⟨name, cells, ← (slot "cellTextDocuments").orElse [] (Tree.list? TextItem.ofTree?)⟩

def notebookChanged? (t : Tree) : Option NotebookChange := do
  let slot ← t.slots? ["notebookDocument", "change"]
  let name ← (slot "notebookDocument").required VersionedName.ofTree?
  let (structural, kinds, texts) ←
    (slot "change").orElse (none, [], []) NotebookChange.parts?
  return ⟨name, structural, kinds, texts⟩

def notebookSaved? (t : Tree) : Option Url := do
  let slot ← t.slots? ["notebookDocument"]
  (slot "notebookDocument").required documentName?

/-- Reads that a notebook is closed. The texts of its cells are listed as well, and close with
it. -/
def notebookClosed? (t : Tree) : Option Url := do
  let slot ← t.slots? ["notebookDocument", "cellTextDocuments"]
  let uri ← (slot "notebookDocument").required documentName?
  let _ ← (slot "cellTextDocuments").orElse [] (Tree.list? documentName?)
  return uri

end Message
end LintBridge
