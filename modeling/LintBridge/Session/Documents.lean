import LintBridge.Message.Notebooks
import LintBridge.Session.Publishing

/-!
What a session does when the editor opens, changes, saves and closes documents.
-/

namespace LintBridge.Session

/-- Does something with the open documents that may break off. -/
def tryDocuments {α : Type} (action? : Store → Option (α × Store)) : SessionStep α := do
  let s ← get
  let (a, documents) ← action? s.documents
  set { s with documents := documents }
  return a

def onDocuments {α : Type} (action : Store → α × Store) : SessionStep α :=
  tryDocuments fun store => some (action store)

def changeText (change : TextChange) : SessionStep Bool :=
  tryDocuments fun store =>
    store.changeText? change.name.uri change.name.version change.changes

def textOpened (item : TextItem) : SessionStep Unit := do
  onDocuments fun store => ((), store.openText item.uri item.text item.version)
  lintAndPublish item.uri

def textChanged (change : TextChange) : SessionStep Unit := do
  if ← changeText change then lintAfterChange change.name.uri

def textSaved (uri : Url) : SessionStep Unit := lintAndPublish uri

def textClosed (uri : Url) : SessionStep Unit := do
  let _ ← onDocuments fun store => store.closeText uri
  clear [uri]

def notebookOpened (n : OpenedNotebook) : SessionStep Unit := do
  onDocuments fun store =>
    ((), store.openNotebook n.name.uri n.name.version n.cells (n.texts.map TextItem.openedCell))
  lintAndPublish n.name.uri

def changeCells (uri : Url) (change : CellChange) : SessionStep Unit := do
  let _ ← tryDocuments fun store => store.changeCells? uri change

/-- The editor changes a notebook: its cells, then their kinds, then their texts. What was published
for the texts that are closed is taken back. -/
def notebookChanged (n : NotebookChange) : SessionStep Unit := do
  let uri := n.name.uri
  if ← onDocuments fun store => store.setNotebookVersion uri n.name.version then
    n.structural.forM (changeCells uri)
    onDocuments fun store => ((), store.changeCellKinds uri n.kinds)
    n.texts.forM fun change => do let _ ← changeText change
    clear ((n.structural.map CellChange.closed).getD [])
    lintAfterChange uri

def notebookSaved (uri : Url) : SessionStep Unit := lintAndPublish uri

def notebookClosed (uri : Url) : SessionStep Unit := do
  clear (← onDocuments fun store => store.closeNotebook uri)

/-- The settings have changed: they are put in force, and all documents are linted again. A change
that brings no settings changes nothing. -/
def settingsChanged (value : Json) : SessionStep Unit := do
  let payload := SettingsPayload.ofJson (some value)
  if payload.isEmpty then return
  else
    applySettings payload
    (← get).documents.openDocuments.forM lintAndPublish

end LintBridge.Session
