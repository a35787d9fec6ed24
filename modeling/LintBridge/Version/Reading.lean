import LintBridge.Version.Basic
import LintBridge.Text.Blank

/-!
Reading versions.

`ofChars?` reads the strict form. `find?` reads what a tool prints about itself: the first word,
or the second if the first is the tool's name, without `v` before it, and with `.0` for the numbers
that are left out.
-/

namespace LintBridge.Version

def maxNumber : Nat := 18446744073709551615

def isDigit (c : Char) : Bool := decide ('0' ≤ c ∧ c ≤ '9')

def ofDigits (ds : List Char) : Nat := ds.foldl (fun n c => n * 10 + (c.toNat - 48)) 0

/-- Whether a text is a number without needless zeros. -/
def isPlainNumber (ds : List Char) : Bool :=
  ds ≠ [] && ds.all isDigit && (ds.length == 1 || ds.head? != some '0')

def readNumber? (ds : List Char) : Option Nat :=
  if isPlainNumber ds ∧ ofDigits ds ≤ maxNumber then some (ofDigits ds) else none

def isIdentifier (cs : List Char) : Bool :=
  cs ≠ [] && cs.all fun c => c.isAlphanum || c == '-'

/-- Reads an identifier of a pre-release; a number has no needless zeros. -/
def readPreId? (cs : List Char) : Option PreId :=
  if isIdentifier cs then
    if cs.all isDigit then
      if isPlainNumber cs then some (.number (ofDigits cs)) else none
    else some (.word (String.ofList cs))
  else none

def readBuildId? (cs : List Char) : Option BuildId :=
  if isIdentifier cs then
    if cs.all isDigit then some (.number (ofDigits cs) cs.length)
    else some (.word (String.ofList cs))
  else none

/-- Reads the identifiers after a mark, if the text is not empty; else there are none. -/
def readIds? {α : Type} (read : List Char → Option α) : List Char → Option (List α)
  | [] => some []
  | _ :: rest => (splitAtChar '.' rest).mapM read

/-- Reads a version in its strict form. -/
def ofChars? (text : List Char) : Option Version := do
  let numbers := text.takeWhile fun c => c ≠ '-' && c ≠ '+'
  let rest := text.dropWhile fun c => c ≠ '-' && c ≠ '+'
  let pre ← readIds? readPreId? (rest.takeWhile (· ≠ '+'))
  let build ← readIds? readBuildId? (rest.dropWhile (· ≠ '+'))
  match splitAtChar '.' numbers with
  | [a, b, c] => return ⟨← readNumber? a, ← readNumber? b, ← readNumber? c, pre, build⟩
  | _ => none

def ofString? (text : String) : Option Version := ofChars? text.toList

def toolName : List Char := "ruff".toList

/-- The word that should be a version: the first one, or the second after the tool's name in any
case. -/
def versionWord? (text : List Char) : Option (List Char) := do
  let (word, rest) ← firstWord? text
  if word.map Char.toLower = toolName then
    let (next, _) ← firstWord? rest
    return next
  else return word

/-- Adds `.0` for each of the three numbers that a text leaves out; none if it has more than three
or one of them is not made of digits. -/
def padNumbers? (numbers : List Char) : Option (List Char) :=
  let parts := splitAtChar '.' numbers
  if parts.length ≤ 3 ∧ parts.all (fun p => p ≠ [] && p.all isDigit) then
    some (joinWith ['.'] (parts ++ List.replicate (3 - parts.length) ['0']))
  else none

/-- Reads a word as a version that may leave out its last numbers. -/
def ofLooseWord? (word : List Char) : Option Version :=
  let isMark (c : Char) : Bool := c == '-' || c == '+'
  match ofChars? word with
  | some v => some v
  | none => do
    let padded ← padNumbers? (word.takeWhile (!isMark ·))
    ofChars? (padded ++ word.dropWhile (!isMark ·))

def find? (text : List Char) : Option Version := do
  let word ← versionWord? text
  ofLooseWord? (word.dropWhile (· = 'v'))

end LintBridge.Version
