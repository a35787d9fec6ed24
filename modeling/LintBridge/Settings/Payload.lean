import LintBridge.Settings.User

/-!
The settings that an editor sends, when a session starts and when the user changes them.

An editor sends a list with a layer for each folder, or one layer alone. A layer that comes alone is
for all folders as well, unless there is another one for all.
-/

namespace LintBridge

open Json (Tree)

inductive FolderLayers where
  | list (layers : List UserSettings)
  | single (layer : UserSettings)
  deriving DecidableEq, Repr, Inhabited

structure SettingsPayload where
  settings : Option FolderLayers
  globalSettings : Option UserSettings
  deriving DecidableEq, Repr, Inhabited

def FolderLayers.ofTree? (t : Tree) : Option FolderLayers :=
  t.firstOf? [fun t => (t.list? UserSettings.ofTree?).map .list,
    fun t => (UserSettings.ofTree? t).map .single]

namespace SettingsPayload

def empty : SettingsPayload := ⟨none, none⟩

def isEmpty (p : SettingsPayload) : Bool := decide (p = empty)

def ofTree? (t : Tree) : Option SettingsPayload := do
  let slot ← t.slots? ["settings", "globalSettings"]
  return ⟨← (slot "settings").optionalOr FolderLayers.ofTree?,
    ← (slot "globalSettings").optionalOr UserSettings.ofTree?⟩

/-- The settings in a value; a value that holds none, or cannot be read, counts as none sent. -/
def ofJson (value : Option Json) : SettingsPayload :=
  (value.bind fun v => ofTree? v.toTree).getD empty

/-- The layer for all folders that is sent as such; one that names nothing does not count. -/
def global? (p : SettingsPayload) : Option UserSettings := p.globalSettings.filter (!·.isEmpty)

def layers (p : SettingsPayload) : Option UserSettings × List UserSettings :=
  match p.settings with
  | none => (p.global?, [])
  | some (.list layers) => (p.global?, layers)
  | some (.single layer) => (p.global?.or (some layer), [layer])

end SettingsPayload
end LintBridge
