import LintBridge.Settings.Resolved
import LintBridge.Table

/-!
The settings of all known folders. A file gets the settings of the nearest folder above it, or those
for files without a folder.
-/

namespace LintBridge

/-- A registered folder: its path as it was first written, and its settings. -/
structure Registration where
  root : Path
  settings : WorkspaceSettings
  deriving DecidableEq, Repr, Inhabited

/-- The layer for all folders, and the settings of each, by the components of its path. -/
structure SettingsRegistry where
  global : UserSettings
  folders : Table (List Path.Component) Registration
  deriving DecidableEq, Repr, Inhabited

namespace SettingsRegistry

def empty : SettingsRegistry := ⟨.empty, .empty⟩

/-- Replaces the layer for all folders. Settings of folders that are registered already do not
change. -/
def setGlobal (r : SettingsRegistry) (global : UserSettings) : SettingsRegistry :=
  { r with global := global }

/-- The settings that a folder gets from a layer of its own. -/
def settingsFor (r : SettingsRegistry) (root : Path) (own : UserSettings) : WorkspaceSettings :=
  .ofUser (r.global.overlay own) root (some root)

/-- Registers a folder. A folder registered before keeps the spelling of its root. -/
def register (r : SettingsRegistry) (root : Path) (own : UserSettings) : SettingsRegistry :=
  let key := root.components
  let spelling := ((r.folders.get? key).map Registration.root).getD root
  { r with folders := r.folders.insert key ⟨spelling, r.settingsFor root own⟩ }

/-- Registers some folders in place of all others. A layer that names no folder is for `cwd`, and
so is the empty layer when there is none. -/
def registerAll (r : SettingsRegistry) (layers : List UserSettings) (cwd : Path) :
    SettingsRegistry :=
  let start : SettingsRegistry := { r with folders := .empty }
  match layers with
  | [] => start.register cwd .empty
  | layers => layers.foldl (fun r s => r.register (s.workspacePath?.getD cwd) s) start

def resolve (r : SettingsRegistry) (file : Path) : WorkspaceSettings :=
  match file.ancestors.findSome? fun dir => r.folders.get? dir.components with
  | some folder => folder.settings
  | none => .ofOrphan r.global file

def roots (r : SettingsRegistry) : List Path := r.folders.entries.map (·.2.root)

def logLevel (r : SettingsRegistry) : LogLevel :=
  ((r.folders.entries.map (·.2.settings.logLevel)) ++ r.global.logLevel.toList).foldl
    LogLevel.louder .error

end SettingsRegistry
end LintBridge
