import LintBridge.Host.Basic
import LintBridge.Text.Word

/-!
Paths in settings, which may name variables of the environment and start at the home directory.

`$NAME` and `$` with a name in braces stand for the value of a variable, if it has one. A name
between percent signs is left as it is, and so is what it would mean inside.
-/

namespace LintBridge.Expansion

/-- A part of a text: characters that stay, or a variable with its text as it was written. -/
inductive Part where
  | plain (c : Char)
  | variable (name written : List Char)
  | fixed (written : List Char)
  deriving DecidableEq, Repr

/-- Reads a part that starts with a mark at the start of a text. -/
def readMarked? (text : List Char) : Option (Part × List Char) :=
  match text with
  | '$' :: '\x7b' :: rest =>
    let name := rest.takeWhile isWordChar
    match name, rest.dropWhile isWordChar with
    | _ :: _, '\x7d' :: after =>
      some (.variable name ('$' :: '\x7b' :: name ++ ['\x7d']), after)
    | _, _ => none
  | '$' :: rest =>
    let name := rest.takeWhile isWordChar
    if name = [] then none
    else some (.variable name ('$' :: name), rest.dropWhile isWordChar)
  | '%' :: rest =>
    let name := rest.takeWhile isWordChar
    match name, rest.dropWhile isWordChar with
    | _ :: _, '%' :: after => some (.fixed ('%' :: name ++ ['%']), after)
    | _, _ => none
  | _ => none

/-- The parts of a text. Each part takes a character at least, so the length of the text bounds
their number. -/
def parts : Nat → List Char → List Part
  | 0, _ => []
  | _ + 1, [] => []
  | n + 1, c :: rest =>
    match readMarked? (c :: rest) with
    | some (part, after) => part :: parts n after
    | none => .plain c :: parts n rest

def Part.value (h : Host) : Part → List Char
  | .plain c => [c]
  | .variable name written => ((h.valueOf? (String.ofList name)).map String.toList).getD written
  | .fixed written => written

/-- A text with its variables replaced. -/
def withVariables (h : Host) (text : List Char) : List Char :=
  (parts text.length text).flatMap (Part.value h)

def isSeparator (c : Char) : Bool := c == '/' || c == '\\'

/-- A path as settings give it, with its variables and the home directory at its start replaced. -/
def path (h : Host) (raw : String) : Path :=
  let text := withVariables h raw.toList
  match text, h.home? with
  | '~' :: rest, some home =>
    if rest = [] ∨ (rest.head?.any isSeparator) then
      home.join (String.ofList (rest.dropWhile isSeparator))
    else ⟨String.ofList text⟩
  | _, _ => ⟨String.ofList text⟩

end LintBridge.Expansion
