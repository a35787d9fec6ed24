import LintBridge.Json.Decode
import LintBridge.Url.Reading

/-!
Settings as the user gives them, in layers. Every setting may be left out, and a layer on top of
another one replaces the settings that it names.
-/

namespace LintBridge

open Json (Tree)

inductive LintTime where
  | onType
  | onSave
  deriving DecidableEq, Repr, Inhabited

inductive ImportStrategy where
  | fromEnvironment
  | useBundled
  deriving DecidableEq, Repr, Inhabited

inductive LogLevel where
  | error
  | warning
  | info
  | debug
  deriving DecidableEq, Repr, Inhabited

namespace LintTime

def name : LintTime → String
  | .onType => "onType"
  | .onSave => "onSave"

def ofTree? (t : Tree) : Option LintTime :=
  match t.choice? with
  | some "onType" => some .onType
  | some "onSave" => some .onSave
  | _ => none

end LintTime

namespace ImportStrategy

def name : ImportStrategy → String
  | .fromEnvironment => "fromEnvironment"
  | .useBundled => "useBundled"

def ofTree? (t : Tree) : Option ImportStrategy :=
  match t.choice? with
  | some "fromEnvironment" => some .fromEnvironment
  | some "useBundled" => some .useBundled
  | _ => none

end ImportStrategy

namespace LogLevel

def name : LogLevel → String
  | .error => "error"
  | .warning => "warning"
  | .info => "info"
  | .debug => "debug"

/-- The name in a filter of log messages. -/
def filterName : LogLevel → String
  | .warning => "warn"
  | level => level.name

/-- How much a level logs in comparison to others. -/
def rank : LogLevel → Nat
  | .error => 0
  | .warning => 1
  | .info => 2
  | .debug => 3

def louder (a b : LogLevel) : LogLevel := if a.rank ≤ b.rank then b else a

def ofTree? (t : Tree) : Option LogLevel :=
  match t.choice? with
  | some "error" => some .error
  | some "warning" => some .warning
  | some "info" => some .info
  | some "debug" => some .debug
  | _ => none

end LogLevel

structure LintOptions where
  enable : Option Bool
  args : Option (List String)
  run : Option LintTime
  deriving DecidableEq, Repr, Inhabited

structure FormatOptions where
  args : Option (List String)
  deriving DecidableEq, Repr, Inhabited

/-- A setting that switches something on or off. -/
structure Toggle where
  enable : Option Bool
  deriving DecidableEq, Repr, Inhabited

structure CodeActionOptions where
  fixViolation : Option Toggle
  disableRuleComment : Option Toggle
  deriving DecidableEq, Repr, Inhabited

structure UserSettings where
  logLevel : Option LogLevel
  path : Option (List String)
  interpreter : Option (List String)
  importStrategy : Option ImportStrategy
  organizeImports : Option Bool
  fixAll : Option Bool
  ignoreStandardLibrary : Option Bool
  showSyntaxErrors : Option Bool
  lint : Option LintOptions
  format : Option FormatOptions
  codeAction : Option CodeActionOptions
  /-- The old place of the arguments of linting. -/
  args : Option (List String)
  /-- The old place of the time of linting. -/
  run : Option LintTime
  /-- The folder that the layer is for, as a URL or a path. -/
  workspace : Option String
  deriving DecidableEq, Repr, Inhabited

namespace LintOptions

def ofTree? (t : Tree) : Option LintOptions := do
  let slot ← t.slots? ["enable", "args", "run"]
  return ⟨← (slot "enable").optionalOr Tree.bool?, ← (slot "args").optionalOr Tree.texts?,
    ← (slot "run").optionalOr LintTime.ofTree?⟩

end LintOptions

namespace FormatOptions

def ofTree? (t : Tree) : Option FormatOptions := do
  let slot ← t.slots? ["args"]
  return ⟨← (slot "args").optionalOr Tree.texts?⟩

end FormatOptions

namespace Toggle

def ofTree? (t : Tree) : Option Toggle := do
  let slot ← t.slots? ["enable"]
  return ⟨← (slot "enable").optionalOr Tree.bool?⟩

end Toggle

namespace CodeActionOptions

def ofTree? (t : Tree) : Option CodeActionOptions := do
  let slot ← t.slots? ["fixViolation", "disableRuleComment"]
  return ⟨← (slot "fixViolation").optionalOr Toggle.ofTree?,
    ← (slot "disableRuleComment").optionalOr Toggle.ofTree?⟩

end CodeActionOptions

namespace UserSettings

def empty : UserSettings := default

/-- Whether a layer names nothing. -/
def isEmpty (s : UserSettings) : Bool := decide (s = empty)

def names : List String :=
  ["logLevel", "path", "interpreter", "importStrategy", "organizeImports", "fixAll",
    "ignoreStandardLibrary", "showSyntaxErrors", "lint", "format", "codeAction", "args", "run",
    "workspace"]

def ofTree? (t : Tree) : Option UserSettings := do
  let slot ← t.slots? names
  return {
    logLevel := ← (slot "logLevel").optionalOr LogLevel.ofTree?
    path := ← (slot "path").optionalOr Tree.texts?
    interpreter := ← (slot "interpreter").optionalOr Tree.texts?
    importStrategy := ← (slot "importStrategy").optionalOr ImportStrategy.ofTree?
    organizeImports := ← (slot "organizeImports").optionalOr Tree.bool?
    fixAll := ← (slot "fixAll").optionalOr Tree.bool?
    ignoreStandardLibrary := ← (slot "ignoreStandardLibrary").optionalOr Tree.bool?
    showSyntaxErrors := ← (slot "showSyntaxErrors").optionalOr Tree.bool?
    lint := ← (slot "lint").optionalOr LintOptions.ofTree?
    format := ← (slot "format").optionalOr FormatOptions.ofTree?
    codeAction := ← (slot "codeAction").optionalOr CodeActionOptions.ofTree?
    args := ← (slot "args").optionalOr Tree.texts?
    run := ← (slot "run").optionalOr LintTime.ofTree?
    workspace := ← (slot "workspace").optionalOr Tree.text? }

/-- A layer with another one on top: each setting that `top` names replaces that of `base` as a
whole. -/
def overlay (base top : UserSettings) : UserSettings where
  logLevel := top.logLevel <|> base.logLevel
  path := top.path <|> base.path
  interpreter := top.interpreter <|> base.interpreter
  importStrategy := top.importStrategy <|> base.importStrategy
  organizeImports := top.organizeImports <|> base.organizeImports
  fixAll := top.fixAll <|> base.fixAll
  ignoreStandardLibrary := top.ignoreStandardLibrary <|> base.ignoreStandardLibrary
  showSyntaxErrors := top.showSyntaxErrors <|> base.showSyntaxErrors
  lint := top.lint <|> base.lint
  format := top.format <|> base.format
  codeAction := top.codeAction <|> base.codeAction
  args := top.args <|> base.args
  run := top.run <|> base.run
  workspace := top.workspace <|> base.workspace

/-- The folder that a layer is for. A text that is no URL is taken for a path; a URL that names no
file gives none. -/
def workspacePath? (s : UserSettings) : Option Path :=
  match s.workspace with
  | none => none
  | some text =>
    match Url.ofString? text with
    | some url => url.filePath?
    | none => some ⟨text⟩

end UserSettings
end LintBridge
