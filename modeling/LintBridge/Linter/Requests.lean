import LintBridge.Linter.Basic
import LintBridge.Document.Edits
import LintBridge.Finding.Reading

/-!
The requests that an editor has: findings, fixes, sorted imports, formatted text, and the
explanation of a rule.

An answer of `none` means that the document was left alone on purpose. A number that outgrows its
width stops a request without an answer.
-/

namespace LintBridge.Linter

/-- Refuses a run for findings that did not end in order: with 0, or with 1 if something was
found. -/
def requireCheckCode (r : RunResult) : Except Failure Unit :=
  if r.code = 0 ∨ r.code = 1 then .ok ()
  else .error (.toolFailed r.code (String.ofList r.stderrText))

/-- Refuses a run for formatted text that did not end in order. -/
def requireFormatCode (r : RunResult) : Except Failure Unit :=
  if r.code = 0 then .ok () else .error (.toolFailed r.code (String.ofList r.stderrText))

/-- The findings in a document; there are none when linting is switched off. -/
def lint (d : Document) : Request (Option (List Finding)) := do
  let settings := (← get).settingsFor d.path
  if settings.lintEnabled = false then return some []
  else if ← isSkipped d.path settings then return none
  else
    let (program, c) ← executable settings .lint
    if accepts c d then
      let args := CommandLine.check c settings.lintArgs [] none d.path
      let result ← runOn program args settings d
      requireCheckCode result
      return some (← Finding.ofOctets c settings.showSyntaxErrors result.stdout)
    else return none

def fix (d : Document) (only : Option String) : Request (Option (List DocumentEdit)) := do
  let settings := (← get).settingsFor d.path
  if ← isSkipped d.path settings then return none
  else
    let operation := if only.isSome then Operation.organizeImports else .fix
    let (program, c) ← executable settings operation
    if accepts c d then
      let args := CommandLine.check c settings.lintArgs ["--fix"] only d.path
      let result ← runOn program args settings d
      requireCheckCode result
      d.editsOf result.stdout
    else return none

/-- The rule that sorts imports. -/
def importRule : String := "I001"

def organizeImports (d : Document) : Request (Option (List DocumentEdit)) := fix d (some importRule)

def format (d : Document) (range : Option Range) : Request (Option (List DocumentEdit)) := do
  let settings := (← get).settingsFor d.path
  if ← isSkipped d.path settings then return none
  else
    let operation := if range.isSome then Operation.rangeFormat else .format
    let (program, c) ← executable settings operation
    if range.isSome && !d.isText then return none
    else if accepts c d then
      let args ← orOverflow (CommandLine.format? settings.formatArgs d.path range)
      let result ← runOn program args settings d
      requireFormatCode result
      d.editsOf result.stdout
    else return none

/-- The explanation of a rule, with the settings that hold for a file. There is none if the tool
does not know the rule. -/
def explain (file : Path) (code : String) : Request (Option String) := do
  let settings := (← get).settingsFor file
  let (program, _) ← executable settings .explain
  let result ← askToolbox (Toolbox.run program (CommandLine.explain code) settings.cwd "")
  if result.code = 0 then
    let text := trim result.stdoutText
    return if text = [] then none else some (String.ofList text)
  else return none

end LintBridge.Linter
