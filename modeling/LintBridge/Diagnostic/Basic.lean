import LintBridge.Message.Place

/-!
Diagnostics, as an editor shows them under a text.

The server sends them, and the editor sends them back when it asks what can be done about them. So a
diagnostic that is read and written again is the same, even if it comes from another server.
-/

namespace LintBridge

open Json (Tree)

inductive DiagnosticCode where
  | number (n : Int)
  | text (s : String)
  deriving DecidableEq, Repr, Inhabited

structure RelatedPlace where
  uri : Url
  range : Range
  message : String
  deriving DecidableEq, Repr, Inhabited

structure Diagnostic where
  range : Range
  severity : Option Int
  code : Option DiagnosticCode
  /-- Where the code is described. -/
  href : Option Url
  source : Option String
  message : String
  related : Option (List RelatedPlace)
  tags : Option (List Int)
  /-- What the server wants to be told when the diagnostic comes back. -/
  data : Option Json
  deriving Repr, Inhabited

namespace DiagnosticCode

def toJson : DiagnosticCode → Json
  | .number n => .int n
  | .text s => .text s

def ofTree? (t : Tree) : Option DiagnosticCode :=
  t.firstOf? [fun t => t.int32?.map .number, fun t => t.text?.map .text]

end DiagnosticCode

namespace RelatedPlace

def toJson (p : RelatedPlace) : Json :=
  .ofFields
    [("location", .ofFields [("uri", p.uri.toJson), ("range", p.range.toJson)]),
      ("message", .text p.message)]

def ofTree? (t : Tree) : Option RelatedPlace := do
  let slot ← t.slots? ["location", "message"]
  let (uri, range) ← (slot "location").required fun t => do
    let slot ← t.slots? ["uri", "range"]
    return (← (slot "uri").required Url.ofTree?, ← (slot "range").required Range.ofTree?)
  return ⟨uri, range, ← (slot "message").required Tree.text?⟩

end RelatedPlace

namespace Diagnostic

def href? (t : Tree) : Option Url := do
  let slot ← t.slots? ["href"]
  (slot "href").required Url.ofTree?

/-- A diagnostic as JSON; what is not known is left out. -/
def toJson (d : Diagnostic) : Json :=
  .ofGiven
    [("range", some d.range.toJson),
      ("severity", d.severity.map .int),
      ("code", d.code.map DiagnosticCode.toJson),
      ("codeDescription", d.href.map fun url => .ofFields [("href", url.toJson)]),
      ("source", d.source.map .text),
      ("message", some (.text d.message)),
      ("relatedInformation", d.related.map (.list RelatedPlace.toJson)),
      ("tags", d.tags.map (.list .int)),
      ("data", d.data)]

def ofTree? (t : Tree) : Option Diagnostic := do
  let slot ← t.slots? ["range", "severity", "code", "codeDescription", "source", "message",
    "relatedInformation", "tags", "data"]
  return {
    range := ← (slot "range").required Range.ofTree?
    severity := ← (slot "severity").optional Tree.int32?
    code := ← (slot "code").optional DiagnosticCode.ofTree?
    href := ← (slot "codeDescription").optional href?
    source := ← (slot "source").optional Tree.text?
    message := ← (slot "message").required Tree.text?
    related := ← (slot "relatedInformation").optional (Tree.list? RelatedPlace.ofTree?)
    tags := ← (slot "tags").optional (Tree.list? Tree.int32?)
    data := ← (slot "data").optional Tree.value? }

end Diagnostic
end LintBridge
