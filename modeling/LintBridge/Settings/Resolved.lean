import LintBridge.Settings.User

/-!
Settings in which nothing is left open, for the files of one folder.
-/

namespace LintBridge

structure WorkspaceSettings where
  workspacePath : Path
  /-- The directory that the tool runs in; a file of no folder has none of its own. -/
  cwd : Option Path
  logLevel : LogLevel
  path : List String
  interpreter : List String
  importStrategy : ImportStrategy
  organizeImports : Bool
  fixAll : Bool
  ignoreStandardLibrary : Bool
  showSyntaxErrors : Bool
  lintEnabled : Bool
  lintArgs : List String
  lintTime : LintTime
  formatArgs : List String
  fixViolation : Bool
  disableRuleComment : Bool
  deriving DecidableEq, Repr, Inhabited

namespace WorkspaceSettings

/-- A switch that is on unless it is switched off. -/
def isOn (t : Option Toggle) : Bool := (t.bind Toggle.enable).getD true

/-- Fills what a layer leaves open. The places of old for the arguments and the time of linting
count where the new ones are left open. -/
def ofUser (s : UserSettings) (workspacePath : Path) (cwd : Option Path) : WorkspaceSettings where
  workspacePath := workspacePath
  cwd := cwd
  logLevel := s.logLevel.getD .error
  path := s.path.getD []
  interpreter := s.interpreter.getD []
  importStrategy := s.importStrategy.getD .fromEnvironment
  organizeImports := s.organizeImports.getD true
  fixAll := s.fixAll.getD true
  ignoreStandardLibrary := s.ignoreStandardLibrary.getD true
  showSyntaxErrors := s.showSyntaxErrors.getD true
  lintEnabled := (s.lint.bind LintOptions.enable).getD true
  lintArgs := ((s.lint.bind LintOptions.args) <|> s.args).getD []
  lintTime := ((s.lint.bind LintOptions.run) <|> s.run).getD .onType
  formatArgs := (s.format.bind FormatOptions.args).getD []
  fixViolation := isOn (s.codeAction.bind CodeActionOptions.fixViolation)
  disableRuleComment := isOn (s.codeAction.bind CodeActionOptions.disableRuleComment)

/-- The settings of a file that lies in no known folder. -/
def ofOrphan (global : UserSettings) (file : Path) : WorkspaceSettings :=
  ofUser global (file.parent?.getD file) none

end WorkspaceSettings
end LintBridge
