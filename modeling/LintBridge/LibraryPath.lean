import LintBridge.Path
import LintBridge.Text.Decimal

/-!
Files that belong to an installed library, which the user does not want to see linted.
-/

namespace LintBridge.LibraryPath

def packageDirectories : List String := ["site-packages", "dist-packages"]

/-- The directories that hold a standard library in a directory named after a version. -/
def libraryDirectories : List String := ["lib", "Lib", "lib64"]

/-- Digits at the start of a text, at least one, and what follows them. -/
def readDigits? (text : List Char) : Option (List Char) :=
  match text.takeWhile isDecimal with
  | [] => none
  | _ => some (text.dropWhile isDecimal)

/-- Whether a text is what may follow a version: nothing, or the mark of a build without a global
lock. -/
def isVersionEnd (text : List Char) : Bool := text == [] || text == ['t']

/-- Whether a directory is named after a version of the interpreter: `python` in any case, a
number, perhaps a point and another number, and perhaps a `t`. -/
def isVersionDirectory (name : String) : Bool :=
  let cs := name.toList
  (cs.take 6).map Char.toLower == "python".toList &&
    match readDigits? (cs.drop 6) with
    | none => false
    | some ('.' :: rest) => (readDigits? rest).any isVersionEnd
    | some rest => isVersionEnd rest

def names (p : Path) : List String :=
  p.components.filterMap fun
    | .name s => some s
    | _ => none

/-- Whether a library directory comes right before a directory named after a version. -/
def hasVersionPair : List String → Bool
  | a :: b :: rest =>
    (libraryDirectories.contains a && isVersionDirectory b) || hasVersionPair (b :: rest)
  | _ => false

/-- Whether a file belongs to a library: it lies under one of the given directories, or its path
says so by itself. -/
def isLibrary (p : Path) (directories : List Path) : Bool :=
  directories.any (fun d => d.text != "" && p.startsWith d) ||
    (names p).any packageDirectories.contains ||
    hasVersionPair (names p)

end LintBridge.LibraryPath
