import LintBridge.Toolbox.Location
import LintBridge.Toolbox.Version
import LintBridge.Settings.Registry
import LintBridge.LibraryPath
import LintBridge.Document.NotebookFile
import LintBridge.CommandLine

/-!
The parts that all requests to the tool share: which settings hold for a document, whether the
document is left alone, which executable is run, and the run itself.
-/

namespace LintBridge

/-- What requests need: settings, programs, and the capabilities worked out so far. -/
structure Linter where
  toolbox : Toolbox
  registry : SettingsRegistry
  capabilities : CapabilityCache

/-- A request: it may stop early, and what it has learned by then is kept. -/
abbrev Request (α : Type) := ExceptT Stop (StateM Linter) α

namespace Linter

def ofToolbox (toolbox : Toolbox) : Linter := ⟨toolbox, .empty, .empty⟩

/-- Replaces the settings for all folders, if there are new ones, and registers folders in place of
all others. -/
def configure (l : Linter) (global : Option UserSettings) (folders : List UserSettings)
    (cwd : Path) : Linter :=
  let registry :=
    match global with
    | some global => l.registry.setGlobal global
    | none => l.registry
  { l with registry := registry.registerAll folders cwd }

def settingsFor (l : Linter) (file : Path) : WorkspaceSettings := l.registry.resolve file

def onToolbox {α : Type} (action : StateM Toolbox α) : StateM Linter α := do
  let l ← get
  let (a, toolbox) := action.run l.toolbox
  set { l with toolbox := toolbox }
  return a

def askToolbox {α : Type} (action : StateM Toolbox (Except Failure α)) : Request α :=
  ExceptT.mk (Except.mapError .failed <$> onToolbox action)

/-- Whether a file is left alone because it belongs to a library. A file that is there counts by its
path without detours. -/
def isSkipped (file : Path) (settings : WorkspaceSettings) : StateM Linter Bool := do
  if settings.ignoreStandardLibrary then
    let host := (← get).toolbox.host
    let libraries ← onToolbox (Toolbox.libraryPaths settings)
    return LibraryPath.isLibrary ((host.canonical? file).getD file) libraries
  else return false

def capabilitiesOf (v : Version) : StateM Linter Capabilities := do
  let l ← get
  let (c, cache) := l.capabilities.get v
  set { l with capabilities := cache }
  return c

/-- The executable for an operation, and its capabilities; fails if its version does not support the
operation. -/
def executable (settings : WorkspaceSettings) (operation : Operation) :
    Request (Path × Capabilities) := do
  let path ← (onToolbox (Toolbox.locate settings) : StateM Linter Path)
  let v ← askToolbox (Toolbox.version path)
  let c ← (capabilitiesOf v : StateM Linter Capabilities)
  c.require operation path
  return (path, c)

/-- Whether a version of the tool reads a document: any reads texts, but not any reads notebooks. -/
def accepts (c : Capabilities) (d : Document) : Bool := d.isText || c.cellAttribution

/-- Runs the tool on a document, in the directory that the settings name. -/
def runOn (program : Path) (args : List String) (settings : WorkspaceSettings) (d : Document) :
    Request RunResult :=
  askToolbox (Toolbox.run program args settings.cwd d.toolInput)

end Linter
end LintBridge
