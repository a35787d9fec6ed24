import LintBridge.Toolbox.Interpreter

/-!
Finding the tool.

The first of these that is there: the paths in the settings; the bundled executable, if the settings
prefer it; the tool of the first interpreter; the tool beside the server; the tool in the search
path; the bundled executable. If none is, the place beside the server is answered all the same, so
that the failure to run it can name a place.
-/

namespace LintBridge.Toolbox

def executableName : String := "ruff"

def fromSettings? (box : Toolbox) (settings : WorkspaceSettings) : Option Path :=
  (settings.path.map (Expansion.path box.host)).find? box.host.pathExists

def preferredBundle? (box : Toolbox) (settings : WorkspaceSettings) : Option Path :=
  if settings.importStrategy = .useBundled then box.bundle else none

def fromInterpreter (settings : WorkspaceSettings) : StateM Toolbox (Option Path) := do
  match settings.interpreter with
  | [] => return none
  | interpreter :: _ =>
    let info ← interpreterInfo interpreter
    let box ← get
    let candidate := info.map fun i => i.scripts.join executableName
    return candidate.filter box.host.pathExists

def besideServer? (box : Toolbox) : Option Path := box.installDir.map (·.join executableName)

/-- The tool that is there without regard to settings, or else a place to name. -/
def fallback (box : Toolbox) : Path :=
  let beside := box.besideServer?
  let found :=
    (beside.filter box.host.pathExists) <|> (box.host.which? executableName) <|> box.bundle <|>
      beside
  found.getD ⟨executableName⟩

/-- Where the tool is, or would be. -/
def locate (settings : WorkspaceSettings) : StateM Toolbox Path := do
  let box ← get
  match (box.fromSettings? settings) <|> (box.preferredBundle? settings) with
  | some path => return path
  | none =>
    match ← fromInterpreter settings with
    | some path => return path
    | none => return (← get).fallback

end LintBridge.Toolbox
