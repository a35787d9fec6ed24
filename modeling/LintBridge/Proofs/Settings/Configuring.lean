import LintBridge.Linter.Basic

/-!
The settings in force after any number of calls that configure the linter.

A call may bring a layer for all folders, brings layers of single folders, and names the directory
of the server. `Configuration.Governs` says which settings a file has to have by the last call and
the last layer for all folders, without a look at the linter: those of the nearest folder of the
call above the file, made of the last layer for that folder on top of the layer for all, or, under
no folder, those of the layer for all alone. `UserSettings.Combines` says setting by setting what a
layer on top of another one comes to. `settings_of_last_call` says that the linter gives every file
exactly these, whatever was configured before, and that it knows no other folder.
-/

namespace LintBridge

/-! ## Layers on top of each other -/

/-- The settings that a layer may name, each with the type of its values. -/
inductive Setting : Type → Type
  | logLevel : Setting LogLevel
  | path : Setting (List String)
  | interpreter : Setting (List String)
  | importStrategy : Setting ImportStrategy
  | organizeImports : Setting Bool
  | fixAll : Setting Bool
  | ignoreStandardLibrary : Setting Bool
  | showSyntaxErrors : Setting Bool
  | lint : Setting LintOptions
  | format : Setting FormatOptions
  | codeAction : Setting CodeActionOptions
  | args : Setting (List String)
  | run : Setting LintTime
  | workspace : Setting String

namespace UserSettings

def value? {α : Type} (s : UserSettings) : Setting α → Option α
  | .logLevel => s.logLevel
  | .path => s.path
  | .interpreter => s.interpreter
  | .importStrategy => s.importStrategy
  | .organizeImports => s.organizeImports
  | .fixAll => s.fixAll
  | .ignoreStandardLibrary => s.ignoreStandardLibrary
  | .showSyntaxErrors => s.showSyntaxErrors
  | .lint => s.lint
  | .format => s.format
  | .codeAction => s.codeAction
  | .args => s.args
  | .run => s.run
  | .workspace => s.workspace

theorem ext_value? {s t : UserSettings}
    (h : ∀ {α : Type} (x : Setting α), s.value? x = t.value? x) : s = t := by
  cases s
  cases t
  simp only [mk.injEq]
  exact ⟨h .logLevel, h .path, h .interpreter, h .importStrategy, h .organizeImports, h .fixAll,
    h .ignoreStandardLibrary, h .showSyntaxErrors, h .lint, h .format, h .codeAction, h .args,
    h .run, h .workspace⟩

/-- A layer combines two others: of each setting it says what the upper one says, and what the lower
one says where the upper one says nothing. -/
def Combines (combined lower upper : UserSettings) : Prop :=
  ∀ {α : Type} (x : Setting α),
    (∀ a, upper.value? x = some a → combined.value? x = some a) ∧
      (upper.value? x = none → combined.value? x = lower.value? x)

theorem value?_overlay {α : Type} (lower upper : UserSettings) (x : Setting α) :
    (lower.overlay upper).value? x = (upper.value? x).or (lower.value? x) := by
  cases x <;> exact Option.orElse_eq_or

theorem combines_iff (combined lower upper : UserSettings) :
    combined.Combines lower upper ↔ combined = lower.overlay upper := by
  constructor
  · intro h
    refine ext_value? fun x => ?_
    rw [value?_overlay]
    cases hupper : upper.value? x with
    | none => exact (h x).2 hupper
    | some a => exact (h x).1 a hupper
  · rintro rfl α x
    rw [value?_overlay]
    refine ⟨fun a ha => ?_, fun hnone => ?_⟩
    · rw [ha, Option.some_or]
    · rw [hnone, Option.none_or]

@[simp] theorem overlay_empty (base : UserSettings) : base.overlay .empty = base := by
  cases base
  rfl

end UserSettings

/-! ## Calls -/

/-- The last layer for a folder is the first one found from the end. -/
theorem find?_reverse_eq_some_iff (entries : List (Path × UserSettings)) (root : Path)
    (layer : UserSettings) :
    entries.reverse.find? (fun e => e.1.components = root.components) = some (root, layer) ↔
      ∃ before after, entries = before ++ (root, layer) :: after ∧
        ∀ e ∈ after, e.1.components ≠ root.components := by
  rw [List.find?_eq_some_iff_append]
  constructor
  · rintro ⟨-, after, before, hentries, hafter⟩
    refine ⟨before.reverse, after.reverse, ?_, ?_⟩
    · rw [← List.reverse_reverse entries, hentries]
      simp
    · intro e he
      simpa using hafter e (List.mem_reverse.1 he)
  · rintro ⟨before, after, hentries, hafter⟩
    refine ⟨by simp, after.reverse, before.reverse, ?_, ?_⟩
    · rw [hentries]
      simp
    · intro e he
      simpa using hafter e (List.mem_reverse.1 he)

/-- A call that configures the linter. -/
structure Configuration where
  global : Option UserSettings
  layers : List UserSettings
  cwd : Path
  deriving DecidableEq, Repr

namespace Configuration

/-- The folder that a layer of a call is for: the file that its text names as a URL, or its text as
a path if that is no URL. A layer without a text, or with a URL of no file, is for the directory of
the server. -/
def folderOf (c : Configuration) (layer : UserSettings) : Path :=
  match layer.workspace with
  | none => c.cwd
  | some text =>
    match Url.ofString? text with
    | none => ⟨text⟩
    | some url =>
      match url.filePath? with
      | none => c.cwd
      | some path => path

/-- The folders of a call with their layers. The layer that names nothing is for the directory of
the server when there is no other. -/
def folders (c : Configuration) : List (Path × UserSettings) :=
  match c.layers with
  | [] => [(c.cwd, .empty)]
  | layers => layers.map fun s => (c.folderOf s, s)

/-- The last layer for all folders of some calls; the one that names nothing if none has any. -/
def lastGlobal (calls : List Configuration) : UserSettings :=
  (calls.filterMap Configuration.global).getLast?.getD .empty

/-- A layer is the last one of a call for a folder, however the path of the folder is written. -/
def LastLayer (c : Configuration) (root : Path) (layer : UserSettings) : Prop :=
  ∃ before after, c.folders = before ++ (root, layer) :: after ∧
    ∀ e ∈ after, e.1.components ≠ root.components

/-- A directory is no folder of a call. -/
def Misses (c : Configuration) (dir : Path) : Prop :=
  ∀ e ∈ c.folders, e.1.components ≠ dir.components

/-- The settings that a file has to have by a call and a layer for all folders. -/
inductive Governs (c : Configuration) (global : UserSettings) (file : Path) :
    WorkspaceSettings → Prop
  | folder (nearer further : List Path) (dir root : Path) (layer combined : UserSettings) :
      file.ancestors = nearer ++ dir :: further → (∀ p ∈ nearer, c.Misses p) →
      c.LastLayer root layer → root.components = dir.components →
      combined.Combines global layer →
      Governs c global file (.ofUser combined root (some root))
  | orphan : (∀ p ∈ file.ancestors, c.Misses p) →
      Governs c global file (.ofUser global (file.parent?.getD file) none)

theorem lastLayer_iff (c : Configuration) (root : Path) (layer : UserSettings) :
    c.LastLayer root layer ↔
      c.folders.reverse.find? (fun e => e.1.components = root.components) =
        some (root, layer) :=
  (find?_reverse_eq_some_iff c.folders root layer).symm

theorem folderOf_eq (c : Configuration) (layer : UserSettings) :
    layer.workspacePath?.getD c.cwd = c.folderOf layer := by
  unfold UserSettings.workspacePath? folderOf
  cases layer.workspace with
  | none => rfl
  | some text =>
    dsimp only
    cases Url.ofString? text with
    | none => rfl
    | some url =>
      dsimp only
      cases url.filePath? <;> rfl

end Configuration

/-! ## Registering folders -/

namespace SettingsRegistry

def registerEach (r : SettingsRegistry) (folders : List (Path × UserSettings)) :
    SettingsRegistry :=
  folders.foldl (fun r e => r.register e.1 e.2) r

theorem registerAll_eq (r : SettingsRegistry) (c : Configuration) :
    r.registerAll c.layers c.cwd = { r with folders := .empty }.registerEach c.folders := by
  obtain ⟨global, layers, cwd⟩ := c
  cases layers with
  | nil => rfl
  | cons s layers =>
    simp only [registerAll, registerEach, Configuration.folders, List.foldl_map,
      ← Configuration.folderOf_eq]

@[simp] theorem global_registerEach (r : SettingsRegistry)
    (folders : List (Path × UserSettings)) : (r.registerEach folders).global = r.global := by
  induction folders generalizing r with
  | nil => rfl
  | cons e rest ih => exact ih (r.register e.1 e.2)

def known? (r : SettingsRegistry) (key : List Path.Component) : Option WorkspaceSettings :=
  (r.folders.get? key).map Registration.settings

/-- A folder that is registered again gets the settings of its last layer; all others keep
theirs. -/
theorem known?_registerEach (r : SettingsRegistry) (folders : List (Path × UserSettings))
    (key : List Path.Component) :
    (r.registerEach folders).known? key =
      ((folders.reverse.find? fun e => e.1.components = key).map fun e =>
        WorkspaceSettings.ofUser (r.global.overlay e.2) e.1 (some e.1)).or (r.known? key) := by
  induction folders generalizing r with
  | nil => rfl
  | cons e rest ih =>
    have hrest := ih (r.register e.1 e.2)
    have hglobal : (r.register e.1 e.2).global = r.global := rfl
    rw [hglobal] at hrest
    rw [List.reverse_cons, List.find?_append, Option.map_or, Option.or_assoc]
    refine hrest.trans (congrArg _ ?_)
    by_cases hkey : e.1.components = key
    · simp [known?, register, hkey, settingsFor]
    · simp [known?, register, hkey]

/-- The settings of the nearest known folder, or of none. -/
theorem resolve_eq (r : SettingsRegistry) (file : Path) :
    r.resolve file =
      (file.ancestors.findSome? fun dir => r.known? dir.components).getD
        (.ofOrphan r.global file) := by
  have hfound : (file.ancestors.findSome? fun dir => r.known? dir.components) =
      (file.ancestors.findSome? fun dir => r.folders.get? dir.components).map
        Registration.settings := by
    rw [List.map_findSome?]
    rfl
  rw [resolve, hfound]
  cases file.ancestors.findSome? fun dir => r.folders.get? dir.components <;> rfl

end SettingsRegistry

/-! ## A run of calls -/

namespace Linter

def configureAll (l : Linter) (calls : List Configuration) : Linter :=
  calls.foldl (fun l c => l.configure c.global c.layers c.cwd) l

theorem configureAll_append (l : Linter) (calls : List Configuration) (c : Configuration) :
    l.configureAll (calls ++ [c]) = (l.configureAll calls).configure c.global c.layers c.cwd := by
  rw [configureAll, List.foldl_append]
  rfl

/-- A call registers its folders in place of all others, under the layer for all folders that holds
from then on. -/
theorem registry_configure (l : Linter) (c : Configuration) :
    (l.configure c.global c.layers c.cwd).registry =
      SettingsRegistry.registerEach ⟨c.global.getD l.registry.global, .empty⟩ c.folders := by
  cases hglobal : c.global with
  | none => exact SettingsRegistry.registerAll_eq l.registry c
  | some global => exact SettingsRegistry.registerAll_eq (l.registry.setGlobal global) c

theorem global_configureAll (l : Linter) (calls : List Configuration) :
    (l.configureAll calls).registry.global =
      (calls.filterMap Configuration.global).getLast?.getD l.registry.global := by
  induction calls generalizing l with
  | nil => rfl
  | cons c rest ih =>
    have hrest := ih (l.configure c.global c.layers c.cwd)
    rw [registry_configure, SettingsRegistry.global_registerEach] at hrest
    refine hrest.trans ?_
    cases hglobal : c.global with
    | none => simp [hglobal]
    | some global => simp [hglobal, List.getLast?_cons]

/-- The registry after a run of calls is that of the last call alone. -/
theorem registry_configureAll (toolbox : Toolbox) (earlier : List Configuration)
    (last : Configuration) :
    ((ofToolbox toolbox).configureAll (earlier ++ [last])).registry =
      SettingsRegistry.registerEach ⟨Configuration.lastGlobal (earlier ++ [last]), .empty⟩
        last.folders := by
  have hglobal : ((ofToolbox toolbox).configureAll (earlier ++ [last])).registry.global =
      Configuration.lastGlobal (earlier ++ [last]) := global_configureAll _ _
  rw [configureAll_append, registry_configure] at hglobal ⊢
  rw [SettingsRegistry.global_registerEach] at hglobal
  rw [← hglobal]

end Linter

namespace Configuration

variable (c : Configuration) (global : UserSettings)

/-- The settings known after a call are those of its folders, each by its last layer. -/
theorem known?_eq_some_iff (key : List Path.Component) (settings : WorkspaceSettings) :
    (SettingsRegistry.registerEach ⟨global, .empty⟩ c.folders).known? key = some settings ↔
      ∃ root layer combined, c.LastLayer root layer ∧ root.components = key ∧
        combined.Combines global layer ∧ settings = .ofUser combined root (some root) := by
  rw [SettingsRegistry.known?_registerEach]
  simp only [SettingsRegistry.known?, Table.get?_empty, Option.map_none, Option.or_none,
    Option.map_eq_some_iff]
  constructor
  · rintro ⟨⟨root, layer⟩, hfind, rfl⟩
    have hkey : root.components = key := by simpa using List.find?_some hfind
    subst hkey
    exact ⟨root, layer, _, (c.lastLayer_iff root layer).2 hfind, rfl,
      (UserSettings.combines_iff _ global layer).2 rfl, rfl⟩
  · rintro ⟨root, layer, combined, hlast, rfl, hcombined, rfl⟩
    obtain rfl := (UserSettings.combines_iff combined global layer).1 hcombined
    exact ⟨(root, layer), (c.lastLayer_iff root layer).1 hlast, rfl⟩

theorem known?_eq_none_iff (dir : Path) :
    (SettingsRegistry.registerEach ⟨global, .empty⟩ c.folders).known? dir.components = none ↔
      c.Misses dir := by
  rw [SettingsRegistry.known?_registerEach]
  simp [SettingsRegistry.known?, Misses]

theorem resolve_eq_iff (file : Path) (settings : WorkspaceSettings) :
    (SettingsRegistry.registerEach ⟨global, .empty⟩ c.folders).resolve file = settings ↔
      c.Governs global file settings := by
  rw [SettingsRegistry.resolve_eq, SettingsRegistry.global_registerEach]
  constructor
  · rintro rfl
    cases hfound : file.ancestors.findSome? fun dir =>
        (SettingsRegistry.registerEach ⟨global, .empty⟩ c.folders).known? dir.components with
    | none =>
      refine .orphan fun dir hdir => ?_
      exact (c.known?_eq_none_iff global dir).1 (List.findSome?_eq_none_iff.1 hfound dir hdir)
    | some found =>
      obtain ⟨nearer, dir, further, hsplit, hknown, hnearer⟩ :=
        List.findSome?_eq_some_iff.1 hfound
      obtain ⟨root, layer, combined, hlast, hroot, hcombined, rfl⟩ :=
        (c.known?_eq_some_iff global _ _).1 hknown
      exact .folder nearer further dir root layer combined hsplit
        (fun p hp => (c.known?_eq_none_iff global p).1 (hnearer p hp)) hlast hroot hcombined
  · intro hgoverns
    cases hgoverns with
    | folder nearer further dir root layer combined hsplit hnearer hlast hroot hcombined =>
      have hknown := (c.known?_eq_some_iff global dir.components _).2
        ⟨root, layer, combined, hlast, hroot, hcombined, rfl⟩
      rw [List.findSome?_eq_some_iff.2 ⟨nearer, dir, further, hsplit, hknown, fun p hp =>
        (c.known?_eq_none_iff global p).2 (hnearer p hp)⟩]
      rfl
    | orphan hmisses =>
      rw [List.findSome?_eq_none_iff.2 fun dir hdir =>
        (c.known?_eq_none_iff global dir).2 (hmisses dir hdir)]
      rfl

end Configuration

namespace Linter

/-- After any calls, the settings depend on nothing but the last layer for all folders and the last
call. Exactly the folders of the last call are known, each by what its last layer says of each
setting, and the layer for all where that says nothing; without layers that is the directory of the
server, with the layer for all alone; and every file has the settings that govern it. -/
theorem settings_of_last_call (toolbox : Toolbox) (earlier : List Configuration)
    (last : Configuration) :
    let l := (ofToolbox toolbox).configureAll (earlier ++ [last])
    let global := Configuration.lastGlobal (earlier ++ [last])
    (∀ key settings, l.registry.known? key = some settings ↔
      ∃ root layer combined, last.LastLayer root layer ∧ root.components = key ∧
        combined.Combines global layer ∧ settings = .ofUser combined root (some root)) ∧
    (last.layers = [] → l.registry.folders =
      ⟨[(last.cwd.components, ⟨last.cwd, .ofUser global last.cwd (some last.cwd)⟩)]⟩) ∧
    ∀ file settings, l.settingsFor file = settings ↔ last.Governs global file settings := by
  intro l global
  have hregistry : l.registry = SettingsRegistry.registerEach ⟨global, .empty⟩ last.folders :=
    registry_configureAll toolbox earlier last
  refine ⟨?_, ?_, ?_⟩
  · rw [hregistry]
    exact last.known?_eq_some_iff global
  · intro hlayers
    have hfolders : last.folders = [(last.cwd, .empty)] := by
      rw [Configuration.folders, hlayers]
    rw [hregistry, hfolders]
    simp [SettingsRegistry.registerEach, SettingsRegistry.register, SettingsRegistry.settingsFor]
    rfl
  · intro file settings
    rw [settingsFor, hregistry]
    exact last.resolve_eq_iff global file settings

def bareToolbox : Toolbox := .ofHost ⟨.empty, .empty, []⟩ none none

def cautious : UserSettings :=
  { UserSettings.empty with fixAll := some false, organizeImports := some false }

def daring : UserSettings := { UserSettings.empty with fixAll := some true, workspace := some "/v" }

def folderCall : Configuration := ⟨some cautious, [daring], ⟨"/"⟩⟩

def bareCall : Configuration := ⟨none, [], ⟨"/w/"⟩⟩

/-- A later call without layers forgets the folder of a call before, and keeps its layer for all
folders. Before that, the layer of the folder counts for the one setting that it names, and the
layer for all for the other one. -/
theorem bareCall_forgets :
    let before := (ofToolbox bareToolbox).configureAll ([] ++ [folderCall])
    let after := (ofToolbox bareToolbox).configureAll ([folderCall] ++ [bareCall])
    (before.settingsFor ⟨"/v/a.py"⟩).fixAll = true ∧
    (before.settingsFor ⟨"/v/a.py"⟩).organizeImports = false ∧
    bareCall.layers = [] ∧
    after.registry.folders = ⟨[([.root, .name "w"],
      ⟨⟨"/w/"⟩, .ofUser cautious ⟨"/w/"⟩ (some ⟨"/w/"⟩)⟩)]⟩ ∧
    after.settingsFor ⟨"/w/a.py"⟩ = .ofUser cautious ⟨"/w/"⟩ (some ⟨"/w/"⟩) ∧
    after.settingsFor ⟨"/v/a.py"⟩ = .ofUser cautious ⟨"/v"⟩ none := by
  obtain ⟨-, -, hbefore⟩ := settings_of_last_call bareToolbox [] folderCall
  obtain ⟨-, hbare, hfile⟩ := settings_of_last_call bareToolbox [folderCall] bareCall
  have hcombined : UserSettings.Combines
      { cautious with fixAll := some true, workspace := some "/v" } cautious daring :=
    (UserSettings.combines_iff _ cautious daring).2 rfl
  have hdaring : folderCall.Governs cautious ⟨"/v/a.py"⟩ (.ofUser
      { cautious with fixAll := some true, workspace := some "/v" } ⟨"/v"⟩ (some ⟨"/v"⟩)) :=
    .folder [⟨"/v/a.py"⟩] [⟨"/"⟩] ⟨"/v"⟩ ⟨"/v"⟩ daring _ (by decide +kernel)
      (by unfold Configuration.Misses; decide +kernel) ⟨[], [], by decide +kernel, by simp⟩ rfl
      hcombined
  have hgoverned : bareCall.Governs cautious ⟨"/w/a.py"⟩
      (.ofUser cautious ⟨"/w/"⟩ (some ⟨"/w/"⟩)) :=
    .folder [⟨"/w/a.py"⟩] [⟨"/"⟩] ⟨"/w"⟩ ⟨"/w/"⟩ .empty cautious (by decide +kernel)
      (by unfold Configuration.Misses; decide +kernel) ⟨[], [], rfl, by simp⟩ (by decide +kernel)
      ((UserSettings.combines_iff _ _ _).2 (UserSettings.overlay_empty cautious).symm)
  have horphan : bareCall.Governs cautious ⟨"/v/a.py"⟩ (.ofUser cautious ⟨"/v"⟩ none) :=
    .orphan (by unfold Configuration.Misses; decide +kernel)
  have hsettings := (hbefore _ _).2 hdaring
  exact ⟨congrArg WorkspaceSettings.fixAll hsettings,
    congrArg WorkspaceSettings.organizeImports hsettings, rfl, hbare rfl, (hfile _ _).2 hgoverned,
    (hfile _ _).2 horphan⟩

end Linter
end LintBridge
