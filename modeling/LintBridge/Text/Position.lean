import LintBridge.Counting
import LintBridge.Text.Line
import LintBridge.Text.Utf8

/-!
Positions in a text, as editors state them.

A position is a line, counted from zero, and a number of UTF-16 code units from the start of
that line. `offsetAt?` turns it into an offset in UTF-8 octets; positions past the end of a line
or of the text mean that end. The units of the line are counted on the way, so there is no offset
where their number outgrows a count.
-/

namespace LintBridge

/-- A line and an offset in UTF-16 code units, both counted from zero. -/
structure Position where
  line : Nat
  character : Nat
  deriving DecidableEq, Repr, Inhabited

namespace Position

/-- The order of positions: by line, then by character. -/
def before (p q : Position) : Bool :=
  decide (p.line < q.line ∨ (p.line = q.line ∧ p.character < q.character))

/-- The later of two positions. -/
def latest (p q : Position) : Position :=
  if p.before q then q else p

end Position

structure Range where
  start : Position
  stop : Position
  deriving DecidableEq, Repr, Inhabited

def utf16Width (c : Char) : Nat :=
  if c.toNat < 0x10000 then 1 else 2

def utf16Size (text : List Char) : Nat :=
  text.foldr (fun c n => utf16Width c + n) 0

/-- The number of UTF-16 code units of a text, cut to what a position can carry. -/
def utf16Count (text : List Char) : Nat :=
  clampCount (utf16Size text)

/-- The characters of a line before a number of UTF-16 code units, when some units have been
counted already. A number inside a surrogate pair counts for the whole pair. -/
def takeUnits? (character : Nat) : Nat → List Char → Option (List Char)
  | _, [] => some []
  | units, c :: rest =>
    if character ≤ units then some []
    else do
      let units ← counted? maxCount (units + utf16Width c)
      return c :: (← takeUnits? character units rest)

def textBefore? (text : List Char) (p : Position) : Option (List Char) :=
  let lines := splitLines text
  match lines[p.line]? with
  | none => some text
  | some line => do
    return (lines.take p.line).flatten ++ (← takeUnits? p.character 0 (stripTerminator line))

/-- The offset of a position, in UTF-8 octets. -/
def offsetAt? (text : List Char) (p : Position) : Option Nat := do
  return Utf8.size (← textBefore? text p)

end LintBridge
