import LintBridge.Proofs.Linter.Purpose
import LintBridge.Proofs.Session.Asides
import LintBridge.Proofs.Settings.Configuring
import LintBridge.Session.Dispatch

/-!
A layer of settings that comes alone holds for all files.

An editor that sends one layer instead of a list means it for every file: the layer is registered
for its own folder, or the directory of the server, and it is the layer for all folders as well. A
file under the folder gets the two merged, another file the layer for all alone.
`single_layer_everywhere` says that both give the same, whatever was configured before and whichever
message brought the layer: settings differ in the folder that they name and in the directory that
the tool runs in, and in nothing else.
-/

namespace LintBridge

/-! ## One layer -/

@[simp] theorem UserSettings.overlay_self (layer : UserSettings) :
    layer.overlay layer = layer := by
  simp [overlay]

/-- The settings that a layer gives a file if it holds for one folder and for all others. -/
def UserSettings.everywhere (layer : UserSettings) (root file : Path) : WorkspaceSettings :=
  if root.components ∈ file.ancestors.map Path.components then .ofUser layer root (some root)
  else .ofUser layer (file.parent?.getD file) none

/-- A layer that comes alone is the layer for all, unless there is another one for all that names
something. -/
theorem SettingsPayload.layers_of_single {payload : SettingsPayload} {layer : UserSettings}
    (hsingle : payload.settings = some (.single layer))
    (hglobal : ∀ g ∈ payload.globalSettings, g.isEmpty = true) :
    payload.layers = (some layer, [layer]) := by
  have hnone : payload.global? = none := by
    cases hg : payload.globalSettings with
    | none => simp [global?, hg]
    | some g => simp [global?, hg, hglobal g hg]
  simp [layers, hsingle, hnone]

/-- The first of some directories that is a folder, where there is one folder only. -/
theorem findSome?_components {α : Type} (root : Path) (a : α) (dirs : List Path) :
    (dirs.findSome? fun dir => if root.components = dir.components then some a else none) =
      if root.components ∈ dirs.map Path.components then some a else none := by
  induction dirs with
  | nil => simp
  | cons dir rest ih => by_cases h : root.components = dir.components <;> simp [h, ih]

theorem SettingsRegistry.resolve_single (layer : UserSettings) (root file : Path) :
    (registerEach ⟨layer, .empty⟩ [(root, layer)]).resolve file = layer.everywhere root file := by
  have hknown (dir : Path) :
      (registerEach ⟨layer, .empty⟩ [(root, layer)]).known? dir.components =
        if root.components = dir.components then some (.ofUser layer root (some root))
        else none := by
    rw [known?_registerEach]
    by_cases h : root.components = dir.components <;> simp [h, known?]
  simp only [resolve_eq, hknown, findSome?_components, global_registerEach]
  rw [UserSettings.everywhere]
  split <;> rfl

/-- Settings that come from one layer differ in the folder and in the directory only. -/
theorem UserSettings.everywhere_eq (layer : UserSettings) (root a b : Path) :
    layer.everywhere root b = { layer.everywhere root a with
      workspacePath := (layer.everywhere root b).workspacePath
      cwd := (layer.everywhere root b).cwd } := by
  unfold everywhere
  split <;> split <;> rfl

namespace Session

/-! ## What linting leaves alone -/

variable {r : SettingsRegistry}

/-- The settings in force are given ones. -/
def InForce (r : SettingsRegistry) (s : Session) : Prop := s.linter.registry = r

theorem stable_registry (r : SettingsRegistry) : Linter.Stable fun l => l.registry = r :=
  ⟨fun _ _ h => h, fun _ _ h => h⟩

theorem hears_inForce (r : SettingsRegistry) : Hears (fun _ => True) (InForce r) :=
  fun _ _ _ h => h

theorem keeps_inForce_publish (d : Document) (findings : List Finding) :
    Keeps (InForce r) (publish d findings) :=
  Leads.forM _ fun e _ => .of_answers ((hears_inForce r).sendIfConnected e trivial)

theorem keeps_inForce_lintAndPublish (uri : Url) : Keeps (InForce r) (lintAndPublish uri) := by
  refine keeps_round uri ?_ ?_ ?_
  · intro d
    exact leads_request ((stable_registry r).ask .lint d)
  · intro failure
    exact .of_answers
      ((hears_inForce r).report (fun _ _ => trivial) (fun _ _ => trivial) .lint failure)
  · intro s d findings _ _
    exact keeps_inForce_publish d findings

/-! ## Settings from messages -/

/-- A linter with the settings of a payload in force. -/
def withSettings (l : Linter) (payload : SettingsPayload) : Linter :=
  l.configure payload.layers.1 payload.layers.2 (FileSystem.pathOf l.toolbox.host.cwd)

theorem applySettings_run (payload : SettingsPayload) (s : Session) :
    (applySettings payload).run s =
      some ((), { s with linter := withSettings s.linter payload }) := rfl

/-- An editor that introduces itself puts its settings in force. -/
theorem introduced_registry (i : Introduction) (s : Session) :
    ∃ reply t, (introduced i).run s = some (reply, t) ∧
      t.linter.registry = (withSettings s.linter (.ofJson i.options)).registry :=
  ⟨_, _, rfl, rfl⟩

/-- Settings that have changed are put in force, and stay so while documents are linted. -/
theorem settingsChanged_registry (value : Json) (s t : Session)
    (h : (SettingsPayload.ofJson (some value)).isEmpty = false)
    (ht : (settingsChanged value).run s = some ((), t)) :
    t.linter.registry = (withSettings s.linter (.ofJson (some value))).registry := by
  have hsome : ¬ (SettingsPayload.ofJson (some value)).isEmpty = true := by
    rw [h]
    exact Bool.false_ne_true
  unfold settingsChanged at ht
  dsimp only at ht
  rw [if_neg hsome, run_bind_of_eq_some (applySettings_run _ s), run_get_bind] at ht
  have hlinted (s : Session) : Keeps (InForce s.linter.registry)
      (s.documents.openDocuments.forM lintAndPublish) :=
    Leads.forM _ fun uri _ => keeps_inForce_lintAndPublish uri
  exact (hlinted _).of_run rfl ht

/-- Whatever was configured before: once a layer that came alone has been put in force, every file
has the settings that this layer gives, under the folder of the layer and elsewhere, and those of
two files differ in the folder and in the directory of the tool only. The same holds after each
message that brings the layer. -/
theorem single_layer_everywhere (s : Session) (payload : SettingsPayload) (layer : UserSettings)
    (hsingle : payload.settings = some (.single layer))
    (hglobal : ∀ g ∈ payload.globalSettings, g.isEmpty = true) :
    let root := layer.workspacePath?.getD (FileSystem.pathOf s.linter.toolbox.host.cwd)
    ∃ applied, (applySettings payload).run s = some ((), { s with linter := applied }) ∧
      (∀ file, applied.settingsFor file = layer.everywhere root file) ∧
      (∀ a b, applied.settingsFor b = { applied.settingsFor a with
        workspacePath := (applied.settingsFor b).workspacePath
        cwd := (applied.settingsFor b).cwd }) ∧
      (∀ i : Introduction, SettingsPayload.ofJson i.options = payload →
        ∃ reply t, (introduced i).run s = some (reply, t) ∧
          t.linter.registry = applied.registry) ∧
      ∀ value, SettingsPayload.ofJson (some value) = payload →
        ∀ t, (settingsChanged value).run s = some ((), t) →
          t.linter.registry = applied.registry := by
  intro root
  have hregistry : (withSettings s.linter payload).registry =
      SettingsRegistry.registerEach ⟨layer, .empty⟩ [(root, layer)] := by
    have happlied := Linter.registry_configure s.linter
      ⟨payload.layers.1, payload.layers.2, FileSystem.pathOf s.linter.toolbox.host.cwd⟩
    rw [payload.layers_of_single hsingle hglobal] at happlied
    have hfolder : Configuration.folderOf ⟨some layer, [layer],
        FileSystem.pathOf s.linter.toolbox.host.cwd⟩ layer = root :=
      (Configuration.folderOf_eq _ layer).symm
    rw [withSettings, payload.layers_of_single hsingle hglobal, happlied, ← hfolder]
    rfl
  have hfile (file : Path) :
      (withSettings s.linter payload).settingsFor file = layer.everywhere root file := by
    rw [Linter.settingsFor, hregistry, SettingsRegistry.resolve_single]
  refine ⟨_, applySettings_run payload s, hfile, ?_, ?_, ?_⟩
  · intro a b
    rw [hfile a, hfile b]
    exact layer.everywhere_eq root a b
  · rintro i rfl
    exact introduced_registry i s
  · rintro value rfl t ht
    refine settingsChanged_registry value s t (decide_eq_false fun hempty => ?_) ht
    rw [hempty] at hsingle
    cases hsingle

def oldNames : UserSettings :=
  { UserSettings.empty with args := some ["--x"], run := some .onSave, workspace := some "/w" }

def oldNamesMessage : Json :=
  .ofFields [("globalSettings", .ofFields []), ("settings", .ofFields
    [("args", .list .text ["--x"]), ("run", .text "onSave"), ("workspace", .text "/w")])]

def configuredSession : Session :=
  let s := ofToolbox Linter.bareToolbox
  { s with linter := withSettings s.linter ⟨some (.list [Linter.cautious]),
    some { UserSettings.empty with args := some ["--y"] }⟩ }

theorem oldNames_everywhere :
    ∃ t, (settingsChanged oldNamesMessage).run configuredSession = some ((), t) ∧
      t.linter.settingsFor ⟨"/w/a.py"⟩ = .ofUser oldNames ⟨"/w"⟩ (some ⟨"/w"⟩) ∧
      t.linter.settingsFor ⟨"/v/b.py"⟩ = .ofUser oldNames ⟨"/v"⟩ none ∧
      (t.linter.settingsFor ⟨"/w/a.py"⟩).lintArgs = ["--x"] ∧
      (t.linter.settingsFor ⟨"/v/b.py"⟩).lintArgs = ["--x"] ∧
      (t.linter.settingsFor ⟨"/v/b.py"⟩).lintTime = .onSave := by
  have hread : SettingsPayload.ofJson (some oldNamesMessage) =
      ⟨some (.single oldNames), some .empty⟩ := by
    decide +kernel
  have hempty : ∀ g ∈ (some UserSettings.empty), g.isEmpty = true := by decide +kernel
  have hruns : ((settingsChanged oldNamesMessage).run configuredSession).isSome = true := by
    decide +kernel
  obtain ⟨⟨_, t⟩, hrun⟩ := Option.isSome_iff_exists.1 hruns
  obtain ⟨applied, -, hfile, -, -, hmessage⟩ := single_layer_everywhere configuredSession
    ⟨some (.single oldNames), some .empty⟩ oldNames rfl hempty
  have hchanged (file : Path) : t.linter.settingsFor file = oldNames.everywhere ⟨"/w"⟩ file := by
    rw [Linter.settingsFor, hmessage oldNamesMessage hread t hrun]
    exact hfile file
  refine ⟨t, hrun, ?_⟩
  have hinside := hchanged ⟨"/w/a.py"⟩
  have houtside := hchanged ⟨"/v/b.py"⟩
  have hw : oldNames.everywhere ⟨"/w"⟩ ⟨"/w/a.py"⟩ = .ofUser oldNames ⟨"/w"⟩ (some ⟨"/w"⟩) := by
    decide +kernel
  have hv : oldNames.everywhere ⟨"/w"⟩ ⟨"/v/b.py"⟩ = .ofUser oldNames ⟨"/v"⟩ none := by
    decide +kernel
  rw [hinside, houtside, hw, hv]
  exact ⟨rfl, rfl, rfl, rfl, rfl⟩

end Session
end LintBridge
