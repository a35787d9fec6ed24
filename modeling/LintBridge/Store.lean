import LintBridge.Document.Basic
import LintBridge.Table
import LintBridge.Text.Edit

/-!
The documents that are open in the editor.

The store holds texts, notebooks as lists of cells, and for each cell the notebook it belongs to.
The text of a cell is a text like any other, so a cell whose text is not open counts as empty.
-/

namespace LintBridge

structure ContentChange where
  range : Option Range
  text : String
  deriving DecidableEq, Repr, Inhabited

structure OpenText where
  text : String
  version : Int
  deriving DecidableEq, Repr, Inhabited

structure OpenNotebook where
  version : Int
  cells : List CellSlot
  deriving DecidableEq, Repr, Inhabited

structure OpenedCell where
  uri : Url
  text : String
  version : Int
  deriving DecidableEq, Repr, Inhabited

/-- A change of the cells of a notebook: `deleteCount` cells from `start` on make way for others,
and texts are opened and closed. -/
structure CellChange where
  start : Nat
  deleteCount : Nat
  cells : List CellSlot
  opened : List OpenedCell
  closed : List Url
  deriving DecidableEq, Repr, Inhabited

/-- The cells that a change replaces, as the first one and the one after the last, cut to the cells
there are. The sum of the counts has to be a count as well. -/
def CellChange.window? (c : CellChange) (size : Nat) : Option (Nat × Nat) := do
  let start := min c.start size
  let stop ← counted? maxSize (start + c.deleteCount)
  return (start, min stop size)

def ContentChange.applyAll? : List ContentChange → List Char → Option (List Char)
  | [], text => some text
  | c :: rest, text =>
    match c.range with
    | none => applyAll? rest c.text.toList
    | some range => do
      let (start, stop) ← range.offsets? text
      applyAll? rest (← splice? text start stop c.text.toList)

structure Store where
  texts : Table Url OpenText
  notebooks : Table Url OpenNotebook
  /-- The notebook that each cell belongs to. -/
  owners : Table Url Url
  deriving DecidableEq, Repr, Inhabited

namespace Store

def empty : Store := ⟨.empty, .empty, .empty⟩

/-- Opens a text, in place of the one that was open under its name. -/
def openText (s : Store) (uri : Url) (text : String) (version : Int) : Store :=
  { s with texts := s.texts.insert uri ⟨text, version⟩ }

/-- Changes a text, and says whether it is open; if it is not, nothing changes. -/
def changeText? (s : Store) (uri : Url) (version : Int) (changes : List ContentChange) :
    Option (Bool × Store) :=
  match s.texts.get? uri with
  | none => some (false, s)
  | some entry => do
    let text ← ContentChange.applyAll? changes entry.text.toList
    return (true, s.openText uri (String.ofList text) version)

def closeText (s : Store) (uri : Url) : Bool × Store :=
  (s.texts.contains uri, { s with texts := s.texts.erase uri })

def text? (s : Store) (uri : Url) : Option String := (s.texts.get? uri).map OpenText.text

def openCells (s : Store) (opened : List OpenedCell) : Store :=
  opened.foldl (fun s c => s.openText c.uri c.text c.version) s

/-- Notes that cells belong to a notebook. -/
def own (s : Store) (notebook : Url) (cells : List CellSlot) : Store :=
  { s with owners := s.owners.insertAll (cells.map fun c => (c.uri, notebook)) }

def openNotebook (s : Store) (uri : Url) (version : Int) (cells : List CellSlot)
    (opened : List OpenedCell) : Store :=
  let s := (s.own uri cells).openCells opened
  { s with notebooks := s.notebooks.insert uri ⟨version, cells⟩ }

def setNotebookVersion (s : Store) (uri : Url) (version : Int) : Bool × Store :=
  match s.notebooks.get? uri with
  | none => (false, s)
  | some entry =>
    (true, { s with notebooks := s.notebooks.insert uri { entry with version := version } })

/-- Replaces cells of a notebook, and says whether it is open. Cells that are taken out belong to
none, unless they are put in again; then texts are closed, and then opened. -/
def changeCells? (s : Store) (uri : Url) (change : CellChange) : Option (Bool × Store) :=
  match s.notebooks.get? uri with
  | none => some (false, s)
  | some entry => do
    let (start, stop) ← change.window? entry.cells.length
    let removed := (entry.cells.take stop).drop start
    let cells := entry.cells.take start ++ change.cells ++ entry.cells.drop stop
    let freed : Store := { s with
      notebooks := s.notebooks.insert uri { entry with cells := cells }
      owners := s.owners.eraseAll (removed.map CellSlot.uri) }
    let owned := freed.own uri change.cells
    let closed : Store := { owned with texts := owned.texts.eraseAll change.closed }
    return (true, closed.openCells change.opened)

def setKind (cells : List CellSlot) (update : CellSlot) : List CellSlot :=
  match cells with
  | [] => []
  | c :: rest =>
    if c.uri = update.uri then { c with kind := update.kind } :: rest
    else c :: setKind rest update

def changeCellKinds (s : Store) (uri : Url) (updates : List CellSlot) : Store :=
  match s.notebooks.get? uri with
  | none => s
  | some entry =>
    let cells := updates.foldl setKind entry.cells
    { s with notebooks := s.notebooks.insert uri { entry with cells := cells } }

/-- Closes a notebook and the texts of its cells, and gives the names of these. -/
def closeNotebook (s : Store) (uri : Url) : List Url × Store :=
  match s.notebooks.get? uri with
  | none => ([], s)
  | some entry =>
    let cells := entry.cells.map CellSlot.uri
    (cells, ⟨s.texts.eraseAll cells, s.notebooks.erase uri, s.owners.eraseAll cells⟩)

def isNotebook (s : Store) (uri : Url) : Bool := s.notebooks.contains uri

def notebookOf? (s : Store) (cell : Url) : Option Url := s.owners.get? cell

def notebookCells? (s : Store) (uri : Url) : Option (List CellSlot) :=
  (s.notebooks.get? uri).map OpenNotebook.cells

/-- The documents that are open on their own account: the texts that are no cells, and the
notebooks. -/
def openDocuments (s : Store) : List Url :=
  s.texts.keys.filter (fun uri => !s.owners.contains uri) ++ s.notebooks.keys

def cell (s : Store) (slot : CellSlot) : Cell :=
  let entry := s.texts.get? slot.uri
  ⟨slot.uri, slot.kind, (entry.map OpenText.text).getD "", entry.map OpenText.version⟩

/-- The document of a notebook; only a notebook that is a file has one. -/
def notebookDocument? (s : Store) (uri : Url) : Option Document := do
  let entry ← s.notebooks.get? uri
  let path ← uri.filePath?
  return .notebook uri path (some entry.version) (entry.cells.map s.cell)

/-- The document of a text; only a text that is a file has one. -/
def textDocument? (s : Store) (uri : Url) : Option Document := do
  let entry ← s.texts.get? uri
  let path ← uri.filePath?
  return .text uri path entry.text (some entry.version)

/-- The whole document that a name belongs to: the notebook of a cell, a notebook, or a text. -/
def document? (s : Store) (uri : Url) : Option Document :=
  match s.owners.get? uri with
  | some owner => s.notebookDocument? owner
  | none => if s.isNotebook uri then s.notebookDocument? uri else s.textDocument? uri

/-- The document under a name, a cell by itself. -/
def cellOrText? (s : Store) (uri : Url) : Option Document :=
  match s.owners.get? uri with
  | none => s.document? uri
  | some owner => do
    let path ← owner.filePath?
    let entry ← s.notebooks.get? owner
    let slot ← entry.cells.find? (·.uri = uri)
    return .cell path (s.cell slot)

end Store
end LintBridge
