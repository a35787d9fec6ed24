import LintBridge.Text.Position

/-!
Edits of a text, and the least edit that turns one text into another.

`reconcile` keeps the common lines at both ends and replaces what lies between them by one edit.
`applyEdits?` carries edits out. Its offsets are octets of the text as edited so far, so edits
that overlap may name an offset that is no place between two characters; then there is no result,
and neither is there if a position has no offset.
-/

namespace LintBridge

structure TextEdit where
  range : Range
  newText : String
  deriving DecidableEq, Repr, Inhabited

/-- Cuts a text after a number of octets, if that is a place between two characters. -/
def splitOffset? : Nat → List Char → Option (List Char × List Char)
  | 0, text => some ([], text)
  | _ + 1, [] => none
  | n + 1, c :: rest =>
    if n + 1 < c.utf8Size then none
    else (splitOffset? (n + 1 - c.utf8Size) rest).map fun (left, right) => (c :: left, right)

/-- Replaces the octets from `start` to `stop` of a text. -/
def splice? (text : List Char) (start stop : Nat) (new : List Char) : Option (List Char) :=
  if stop < start then none
  else do
    let (left, rest) ← splitOffset? start text
    let (_, right) ← splitOffset? (stop - start) rest
    return left ++ new ++ right

structure Span where
  start : Nat
  stop : Nat
  new : List Char
  deriving DecidableEq, Repr

/-- The offsets of a range; an end before the start means the start. -/
def Range.offsets? (text : List Char) (range : Range) : Option (Nat × Nat) := do
  let start ← offsetAt? text range.start
  let stop ← offsetAt? text range.stop
  return (start, max stop start)

def TextEdit.span? (text : List Char) (edit : TextEdit) : Option Span := do
  let (start, stop) ← edit.range.offsets? text
  return ⟨start, stop, edit.newText.toList⟩

/-- Whether a span is to be carried out before another one: later starts first, and of two with
one start the longer first. -/
def Span.goesFirst (a b : Span) : Bool :=
  decide (b.start < a.start ∨ (a.start = b.start ∧ b.stop ≤ a.stop))

/-- Carries out edits that all refer to the text as given, from the end of the text to its start. -/
def applyEdits? (text : List Char) (edits : List TextEdit) : Option (List Char) := do
  let spans ← edits.mapM (TextEdit.span? text)
  (spans.mergeSort Span.goesFirst).foldlM
    (fun text span => splice? text span.start span.stop span.new) text

/-- The number of elements two lists share at their starts. -/
def commonCount {α : Type} [DecidableEq α] : List α → List α → Nat
  | a :: as, b :: bs => if a = b then commonCount as bs + 1 else 0
  | _, _ => 0

/-- The place where the last of the old lines ends that an edit replaces, when `kept` lines
before the end stay: inside the last line if the text ends without a terminator and no line stays,
else at the start of the line after. -/
def windowEnd (lines : List (List Char)) (kept : Nat) : Position :=
  match lines.getLast? with
  | some last =>
    if kept = 0 ∧ endsLine last = false then ⟨clampCount (lines.length - 1), utf16Count last⟩
    else ⟨clampCount (lines.length - kept), 0⟩
  | none => ⟨clampCount (lines.length - kept), 0⟩

/-- The edit between two texts given as lines: the lines they share at the start and then at the
end stay, and the rest is replaced. -/
def windowEdit (old new : List (List Char)) : TextEdit :=
  let head := commonCount old new
  let tail := commonCount (old.drop head).reverse (new.drop head).reverse
  ⟨⟨⟨clampCount head, 0⟩, windowEnd old tail⟩,
    String.ofList (((new.drop head).take (new.length - tail - head)).flatten)⟩

/-- The edits that turn `old` into `new`, after `new` has been given the line endings of `old`: none
if nothing differs then, else one. -/
def reconcile (old new : List Char) : List TextEdit :=
  if old = new then []
  else
    let new := LineEnding.adopt old new
    if old = new then [] else [windowEdit (splitLines old) (splitLines new)]

/-- The edits for the text of a single notebook cell. Such a text has no terminator at its end as
a rule, while a formatted text has one, so one is dropped when the old text has none. -/
def reconcileCell (old new : List Char) : List TextEdit :=
  reconcile old (if endsLine old then new else stripTerminator new)

end LintBridge
