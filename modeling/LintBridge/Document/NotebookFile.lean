import LintBridge.Document.Basic
import LintBridge.Json.Decode
import LintBridge.Json.Printer
import LintBridge.Json.Reader

/-!
Notebooks as files, in the format 4.5, as far as the tool reads and writes them.

`NotebookFile.ofCells` is what the tool is given for a notebook or a cell, and `NotebookFile.read?`
reads what it gives back.
-/

namespace LintBridge

open Json (Tree)

/-- The text of a cell in a file: whole, or in lines that keep their terminators. -/
inductive SourceText where
  | whole (s : String)
  | lines (parts : List String)
  deriving DecidableEq, Repr, Inhabited

namespace SourceText

def text : SourceText → String
  | .whole s => s
  | .lines parts => String.join parts

def toJson : SourceText → Json
  | .whole s => .text s
  | .lines parts => .array (parts.map .text)

def ofTree? (t : Tree) : Option SourceText :=
  t.firstOf? [fun t => t.text?.map .whole, fun t => t.texts?.map .lines]

end SourceText

inductive CellEntry where
  | code (metadata : Json) (outputs : List Json) (source : SourceText)
  | markdown (metadata : Json) (source : SourceText)
  | raw (metadata : Json) (source : SourceText)
  deriving Repr, Inhabited

namespace CellEntry

def isCode : CellEntry → Bool
  | .code .. => true
  | _ => false

def source : CellEntry → String
  | .code _ _ s => s.text
  | .markdown _ s => s.text
  | .raw _ s => s.text

/-- The field that says what kind of cell it is. -/
def tagField : String := "cell_type"

def toJson : CellEntry → Json
  | .code metadata outputs source =>
    .object [(tagField, .text "code"), ("metadata", metadata), ("outputs", .array outputs),
      ("source", source.toJson)]
  | .markdown metadata source =>
    .object [(tagField, .text "markdown"), ("metadata", metadata), ("source", source.toJson)]
  | .raw metadata source =>
    .object [(tagField, .text "raw"), ("metadata", metadata), ("source", source.toJson)]

def ofFields? (tag : String) (t : Tree) : Option CellEntry :=
  match tag with
  | "code" => do
    let slot ← t.slots? ["metadata", "outputs", "source"]
    return .code (← (slot "metadata").orElse .null Tree.value?)
      (← (slot "outputs").orElse [] (Tree.list? Tree.value?))
      (← (slot "source").required SourceText.ofTree?)
  | "markdown" => do
    let slot ← t.slots? ["metadata", "source"]
    return .markdown (← (slot "metadata").orElse .null Tree.value?)
      (← (slot "source").required SourceText.ofTree?)
  | "raw" => do
    let slot ← t.slots? ["metadata", "source"]
    return .raw (← (slot "metadata").orElse .null Tree.value?)
      (← (slot "source").required SourceText.ofTree?)
  | _ => none

/-- Reads a cell: an object that says its kind once, or an array that starts with it. No part of it
may be unusable. -/
def ofTree? (t : Tree) : Option CellEntry :=
  if t.isUsable then
    match t with
    | .object fields =>
      match fields.filter (·.1 == tagField) with
      | [(_, .text tag)] => ofFields? tag (.object (fields.filter (·.1 != tagField)))
      | _ => none
    | .array (.text tag :: rest) => ofFields? tag (.array rest)
    | _ => none
  else none

def ofCell (c : Cell) : CellEntry :=
  match c.kind with
  | .code => .code .null [] (.whole c.source)
  | .markup => .markdown .null (.whole c.source)

end CellEntry

structure NotebookFile where
  metadata : Json
  format : Nat
  formatMinor : Nat
  cells : List CellEntry
  deriving Repr, Inhabited

namespace NotebookFile

def ofCells (cells : List Cell) : NotebookFile := ⟨.object [], 4, 5, cells.map CellEntry.ofCell⟩

def toJson (n : NotebookFile) : Json :=
  .object [("metadata", n.metadata), ("nbformat", .nat n.format),
    ("nbformat_minor", .nat n.formatMinor), ("cells", .array (n.cells.map CellEntry.toJson))]

def render (n : NotebookFile) : String := n.toJson.render

def ofTree? (t : Tree) : Option NotebookFile := do
  let slot ← t.slots? ["metadata", "nbformat", "nbformat_minor", "cells"]
  return ⟨← (slot "metadata").orElse .null Tree.value?,
    ← (slot "nbformat").required Tree.count32?,
    ← (slot "nbformat_minor").required Tree.count32?,
    ← (slot "cells").required (Tree.list? CellEntry.ofTree?)⟩

def read? (text : String) : Option NotebookFile := (Json.readTree? text).bind ofTree?

end NotebookFile

/-- What the tool is given on standard input: a text as it is, cells as a notebook file. -/
def Document.toolInput : Document → String
  | .text _ _ source _ => source
  | .notebook _ _ _ cells => (NotebookFile.ofCells cells).render
  | .cell _ c => (NotebookFile.ofCells [c]).render

end LintBridge
