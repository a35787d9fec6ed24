import LintBridge.Finding.Basic
import LintBridge.Text.Blank

/-!
Comments that suppress findings on their line: `# noqa`, perhaps followed by a list of codes.

`Suppression.find?` takes a line apart at its first such comment. `suppress` adds a code to a line,
and `codeAt?` says which listed code lies at a place.
-/

namespace LintBridge.Suppression

/-- Whether a character is a given small letter or sign, in any case. The sign of the unit kelvin
is a large `k`. -/
def matchesLetter (small c : Char) : Bool :=
  c.toLower == small || (small == 'k' && c == '\u212A')

/-- What follows a word in any case at the start of a text. -/
def afterWord? : List Char → List Char → Option (List Char)
  | [], text => some text
  | w :: word, c :: text => if matchesLetter w c then afterWord? word text else none
  | _ :: _, [] => none

/-- What may stand between the mark of a comment and the word that suppresses. -/
def toolMarks : List (List Char) := ["ruff: ".toList, "flake8: ".toList, []]

/-- What follows a suppression, as far as its word, at the start of a text. -/
def afterMark? (text : List Char) : Option (List Char) := do
  let rest ← afterWord? "# ".toList text
  toolMarks.findSome? fun mark => (afterWord? mark rest).bind (afterWord? "noqa".toList)

/-- A code in a list, with the commas and blanks after it. -/
structure ListedCode where
  code : List Char
  gap : List Char
  deriving DecidableEq, Repr

def isLarge (c : Char) : Bool := decide ('A' ≤ c ∧ c ≤ 'Z')

def isDigit (c : Char) : Bool := decide ('0' ≤ c ∧ c ≤ '9')

def isGap (c : Char) : Bool := c == ',' || isBlank c

/-- Reads a code at the start of a text: large letters, then digits, then what separates it from
the next. -/
def readCode? (text : List Char) : Option (ListedCode × List Char) :=
  let letters := text.takeWhile isLarge
  let afterLetters := text.dropWhile isLarge
  let digits := afterLetters.takeWhile isDigit
  let rest := afterLetters.dropWhile isDigit
  if letters = [] ∨ digits = [] then none
  else some (⟨letters ++ digits, rest.takeWhile isGap⟩, rest.dropWhile isGap)

/-- Reads codes at the start of a text until there is none. Each takes characters, so the length
of the text bounds their number. -/
def readCodes : Nat → List Char → List ListedCode × List Char
  | 0, text => ([], text)
  | n + 1, text =>
    match readCode? text with
    | none => ([], text)
    | some (code, rest) =>
      let (codes, after) := readCodes n rest
      (code :: codes, after)

/-- A line taken apart at its first suppression. -/
structure Parts where
  /-- The line as far as the word that suppresses. -/
  front : List Char
  /-- The colon before the codes and the blank after it; empty if there are no codes. -/
  colon : List Char
  codes : List ListedCode
  rest : List Char
  deriving DecidableEq, Repr

def readList? (text : List Char) : Option (List Char × List ListedCode × List Char) :=
  match text with
  | ':' :: rest =>
    let blank := (rest.take 1).filter isBlank
    match readCodes rest.length (rest.drop blank.length) with
    | ([], _) => none
    | (codes, after) => some (':' :: blank, codes, after)
  | _ => none

/-- Takes what follows the word apart. -/
def Parts.ofRest (front rest : List Char) : Parts :=
  match readList? rest with
  | some (colon, codes, after) => ⟨front, colon, codes, after⟩
  | none => ⟨front, [], [], rest⟩

/-- Takes a line apart at its first suppression; `done` holds the characters before, from the last
on. -/
def findFrom? (done : List Char) : List Char → Option Parts
  | [] => none
  | c :: text =>
    match afterMark? (c :: text) with
    | some rest =>
      some (Parts.ofRest (done.reverse ++ (c :: text).take ((c :: text).length - rest.length)) rest)
    | none => findFrom? (c :: done) text

def find? (line : List Char) : Option Parts := findFrom? [] line

/-- Codes and what separates them, as they were written. -/
def codeChars (codes : List ListedCode) : List Char :=
  codes.flatMap fun c => c.code ++ c.gap

/-- A line whose suppression covers a code as well: the code joins the list there is, becomes the
list of a suppression without one, or comes with a suppression at the end. -/
def suppress (line code : List Char) : List Char :=
  match find? line with
  | none => line ++ "  # noqa: ".toList ++ code
  | some p =>
    if p.codes = [] then p.front ++ ": ".toList ++ code ++ p.rest
    else p.front ++ p.colon ++ codeChars p.codes ++ ", ".toList ++ code ++ p.rest

def fix (line : List Char) (row : Nat) (code : String) : Fix :=
  ⟨none, none, [⟨String.ofList (suppress line code.toList), ⟨row, 0⟩, ⟨row, utf16Count line⟩⟩]⟩

/-- The code that covers a number of UTF-16 code units, when the first one starts at `start`. A code
covers the units that a position can carry. -/
def codeFrom? (start character : Nat) : List ListedCode → Option (List Char)
  | [] => none
  | c :: rest =>
    let stop := start + utf16Size c.code
    if clampCount start ≤ character ∧ character < clampCount stop then some c.code
    else codeFrom? (stop + utf16Size c.gap) character rest

/-- The code listed in the first suppression of a line at a number of UTF-16 code units. -/
def codeAt? (line : List Char) (character : Nat) : Option (List Char) := do
  let p ← find? line
  codeFrom? (utf16Size p.front + utf16Size p.colon) character p.codes

end LintBridge.Suppression
