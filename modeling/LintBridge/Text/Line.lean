/-!
Lines of a text and their terminators.

A line ends after the two characters CR LF, after a lone CR, or after a lone LF,
which are the terminators that editors count. `splitLines` cuts a text into its
lines and keeps every terminator with the line it ends.
-/

namespace LintBridge

inductive LineEnding where
  | lf
  | crLf
  | cr
  deriving DecidableEq, Repr, Inhabited

namespace LineEnding

def chars : LineEnding → List Char
  | .lf => ['\n']
  | .crLf => ['\r', '\n']
  | .cr => ['\r']

/-- The first terminator that appears in a text. -/
def first? : List Char → Option LineEnding
  | [] => none
  | '\r' :: '\n' :: _ => some .crLf
  | '\r' :: _ => some .cr
  | '\n' :: _ => some .lf
  | _ :: rest => first? rest

/-- Replaces, from left to right, each occurrence of the characters of `old` by those of `new`.
An LF after a CR counts as an occurrence of LF, since only characters are compared. -/
def replaceAll (old new : LineEnding) : List Char → List Char
  | [] => []
  | '\r' :: '\n' :: rest =>
    (match old with
      | .lf => '\r' :: new.chars
      | .crLf => new.chars
      | .cr => new.chars ++ ['\n']) ++ replaceAll old new rest
  | '\r' :: rest => (if old = .cr then new.chars else ['\r']) ++ replaceAll old new rest
  | '\n' :: rest => (if old = .lf then new.chars else ['\n']) ++ replaceAll old new rest
  | c :: rest => c :: replaceAll old new rest

/-- Gives `text` the terminators of `model`: when both have one and their first ones differ,
every occurrence of the first terminator of `text` becomes the first one of `model`. -/
def adopt (model text : List Char) : List Char :=
  match first? model, first? text with
  | some expected, some actual =>
    if expected = actual then text else replaceAll actual expected text
  | _, _ => text

end LineEnding

/-- The lines of a text, each with the terminator that ends it. -/
def splitLines : List Char → List (List Char)
  | [] => []
  | '\r' :: '\n' :: rest => ['\r', '\n'] :: splitLines rest
  | '\r' :: rest => ['\r'] :: splitLines rest
  | '\n' :: rest => ['\n'] :: splitLines rest
  | c :: rest =>
    match splitLines rest with
    | [] => [[c]]
    | line :: lines => (c :: line) :: lines

/-- Whether the last character of a text is a terminator or ends one. -/
def endsLine (text : List Char) : Bool :=
  match text.getLast? with
  | some c => c == '\n' || c == '\r'
  | none => false

/-- A text without the one terminator at its end, if there is one. -/
def stripTerminator (text : List Char) : List Char :=
  match text.reverse with
  | '\n' :: '\r' :: rest => rest.reverse
  | '\n' :: rest => rest.reverse
  | '\r' :: rest => rest.reverse
  | _ => text

/-- The line of a given number, counted from zero, without its terminator. -/
def lineAt? (text : List Char) (line : Nat) : Option (List Char) :=
  (splitLines text)[line]?.map stripTerminator

end LintBridge
