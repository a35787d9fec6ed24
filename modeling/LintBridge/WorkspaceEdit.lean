import LintBridge.Document.Edits
import LintBridge.Message.Place

/-!
Edits of several documents at once, as an editor carries them out.

The server itself writes edits of documents only. An edit that comes back from the editor may also
create, rename and delete files; such an edit is kept as it is.
-/

namespace LintBridge

open Json (Tree)

structure VersionedEdits where
  uri : Url
  version : Option Int
  edits : List TextEdit
  deriving DecidableEq, Repr, Inhabited

structure OverwriteOptions where
  overwrite : Option Bool
  ignoreIfExists : Option Bool
  deriving DecidableEq, Repr, Inhabited

/-- What is done when a directory is deleted, or nothing is there to be deleted. -/
structure DeleteOptions where
  recursive : Option Bool
  ignoreIfNotExists : Option Bool
  note : Option String
  deriving DecidableEq, Repr, Inhabited

/-- One step of an edit that may touch files. -/
inductive FileChange where
  | create (uri : Url) (options : Option OverwriteOptions) (note : Option String)
  | rename (old new : Url) (options : Option OverwriteOptions) (note : Option String)
  | delete (uri : Url) (options : Option DeleteOptions)
  | edit (edits : VersionedEdits)
  deriving DecidableEq, Repr, Inhabited

/-- The steps of an edit: edits of documents only, or changes of files among them. -/
inductive DocumentChanges where
  | documents (edits : List VersionedEdits)
  | steps (steps : List FileChange)
  deriving DecidableEq, Repr, Inhabited

/-- What an editor may tell the user about a part of an edit. -/
structure ChangeNote where
  label : String
  needsConfirmation : Option Bool
  description : Option String
  deriving DecidableEq, Repr, Inhabited

structure WorkspaceEdit where
  changes : Option (List (Url × List TextEdit))
  documentChanges : Option DocumentChanges
  notes : Option (List (String × ChangeNote))
  deriving DecidableEq, Repr, Inhabited

namespace VersionedEdits

def toJson (e : VersionedEdits) : Json :=
  .ofFields
    [("textDocument",
        .ofFields [("uri", e.uri.toJson), ("version", (e.version.map .int).getD .null)]),
      ("edits", .list TextEdit.toJson e.edits)]

def ofTree? (t : Tree) : Option VersionedEdits := do
  let slot ← t.slots? ["textDocument", "edits"]
  let (uri, version) ← (slot "textDocument").required fun t => do
    let slot ← t.slots? ["uri", "version"]
    return (← (slot "uri").required Url.ofTree?, ← (slot "version").optional Tree.int32?)
  return ⟨uri, version, ← (slot "edits").required (Tree.list? TextEdit.ofTree?)⟩

end VersionedEdits

def OverwriteOptions.toJson (o : OverwriteOptions) : Json :=
  .ofGiven [("overwrite", o.overwrite.map .bool), ("ignoreIfExists", o.ignoreIfExists.map .bool)]

def OverwriteOptions.ofTree? (t : Tree) : Option OverwriteOptions := do
  let slot ← t.slots? ["overwrite", "ignoreIfExists"]
  return ⟨← (slot "overwrite").optional Tree.bool?, ← (slot "ignoreIfExists").optional Tree.bool?⟩

def DeleteOptions.toJson (o : DeleteOptions) : Json :=
  .ofGiven [("recursive", o.recursive.map .bool),
    ("ignoreIfNotExists", o.ignoreIfNotExists.map .bool), ("annotationId", o.note.map .text)]

def DeleteOptions.ofTree? (t : Tree) : Option DeleteOptions := do
  let slot ← t.slots? ["recursive", "ignoreIfNotExists", "annotationId"]
  return ⟨← (slot "recursive").optional Tree.bool?,
    ← (slot "ignoreIfNotExists").optional Tree.bool?, ← (slot "annotationId").optional Tree.text?⟩

namespace FileChange

def toJson : FileChange → Json
  | .create uri options note =>
    .ofGiven [("kind", some (.text "create")), ("uri", some uri.toJson),
      ("options", options.map OverwriteOptions.toJson), ("annotationId", note.map .text)]
  | .rename old new options note =>
    .ofGiven [("kind", some (.text "rename")), ("oldUri", some old.toJson),
      ("newUri", some new.toJson), ("options", options.map OverwriteOptions.toJson),
      ("annotationId", note.map .text)]
  | .delete uri options =>
    .ofGiven [("kind", some (.text "delete")), ("uri", some uri.toJson),
      ("options", options.map DeleteOptions.toJson)]
  | .edit edits => edits.toJson

/-- Reads a step that changes a file: its kind decides which fields it has. -/
def fileStep? (t : Tree) : Option FileChange := do
  let kind ← ((← t.objectSlots? ["kind"]) "kind").required Tree.text?
  match kind with
  | "create" => do
    let slot ← t.objectSlots? ["uri", "options", "annotationId"]
    return .create (← (slot "uri").required Url.ofTree?)
      (← (slot "options").optional OverwriteOptions.ofTree?)
      (← (slot "annotationId").optional Tree.text?)
  | "rename" => do
    let slot ← t.objectSlots? ["oldUri", "newUri", "options", "annotationId"]
    return .rename (← (slot "oldUri").required Url.ofTree?)
      (← (slot "newUri").required Url.ofTree?)
      (← (slot "options").optional OverwriteOptions.ofTree?)
      (← (slot "annotationId").optional Tree.text?)
  | "delete" => do
    let slot ← t.objectSlots? ["uri", "options"]
    return .delete (← (slot "uri").required Url.ofTree?)
      (← (slot "options").optional DeleteOptions.ofTree?)
  | _ => none

def ofTree? (t : Tree) : Option FileChange :=
  t.firstOf? [fileStep?, fun t => (VersionedEdits.ofTree? t).map .edit]

end FileChange

namespace DocumentChanges

def toJson : DocumentChanges → Json
  | .documents edits => .list VersionedEdits.toJson edits
  | .steps changes => .list FileChange.toJson changes

/-- Reads steps: as edits of documents if they can be read so. -/
def ofTree? (t : Tree) : Option DocumentChanges :=
  t.firstOf? [fun t => (t.list? VersionedEdits.ofTree?).map .documents,
    fun t => (t.list? FileChange.ofTree?).map .steps]

end DocumentChanges

namespace ChangeNote

def toJson (n : ChangeNote) : Json :=
  .ofGiven [("label", some (.text n.label)), ("needsConfirmation", n.needsConfirmation.map .bool),
    ("description", n.description.map .text)]

def ofTree? (t : Tree) : Option ChangeNote := do
  let slot ← t.slots? ["label", "needsConfirmation", "description"]
  return ⟨← (slot "label").required Tree.text?, ← (slot "needsConfirmation").optional Tree.bool?,
    ← (slot "description").optional Tree.text?⟩

end ChangeNote

namespace WorkspaceEdit

def entries? {κ α : Type} (key : String → Option κ) (decode : Tree → Option α) :
    Tree → Option (List (κ × α))
  | .object fields => fields.mapM fun (name, t) => do return (← key name, ← decode t)
  | _ => none

def toJson (e : WorkspaceEdit) : Json :=
  .ofGiven
    [("changes", e.changes.map fun entries =>
        .ofFields (entries.map fun (uri, edits) => (uri.render, .list TextEdit.toJson edits))),
      ("documentChanges", e.documentChanges.map DocumentChanges.toJson),
      ("changeAnnotations", e.notes.map fun entries =>
        .ofFields (entries.map fun (name, note) => (name, note.toJson)))]

def ofTree? (t : Tree) : Option WorkspaceEdit := do
  let slot ← t.slots? ["changes", "documentChanges", "changeAnnotations"]
  return ⟨
    ← (slot "changes").optionalOr (entries? Url.ofString? (Tree.list? TextEdit.ofTree?)),
    ← (slot "documentChanges").optional DocumentChanges.ofTree?,
    ← (slot "changeAnnotations").optional (entries? some ChangeNote.ofTree?)⟩

/-- The edit of some documents. A document whose version is not known counts as being of
version 0. -/
def ofDocumentEdits (edits : List DocumentEdit) : WorkspaceEdit :=
  ⟨none, some (.documents (edits.map fun e => ⟨e.uri, some (e.version.getD 0), e.edits⟩)), none⟩

end WorkspaceEdit
end LintBridge
