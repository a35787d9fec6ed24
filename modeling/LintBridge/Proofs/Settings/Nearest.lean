import Mathlib.Data.List.Induction
import LintBridge.Proofs.Path.Ancestors
import LintBridge.Proofs.Settings.Configuring

/-!
The nearest folder gives a file its settings.

A registry is changed by new settings for all folders, by one folder more, and by folders in place
of all others. `Registered` reads off the changes which folders are registered and what was
registered for each of them last, without a look at the registry; `known?_afterAll` says that the
registry knows the same. Of the folders whose components are a start of those of a file, the longest
one `Owns` the file, and `nearest_folder_wins` says that the file gets the settings of this folder,
or those for files without a folder if there is none.
-/

namespace LintBridge

inductive RegistryChange where
  /-- Another layer for all folders. -/
  | everywhere (layer : UserSettings)
  /-- One folder with its layer. -/
  | folder (root : Path) (layer : UserSettings)
  /-- Folders in place of all others. -/
  | folders (layers : List UserSettings) (cwd : Path)
  deriving DecidableEq, Repr

namespace RegistryChange

/-- The folders that a change registers with their layers, in order. -/
def entries : RegistryChange → List (Path × UserSettings)
  | everywhere _ => []
  | folder root layer => [(root, layer)]
  | folders layers cwd => Configuration.folders ⟨none, layers, cwd⟩

/-- Whether a change drops the folders that were registered before. -/
def dropsOthers : RegistryChange → Bool
  | folders _ _ => true
  | _ => false

/-- The layer for all folders that a change brings. -/
def everywhere? : RegistryChange → Option UserSettings
  | everywhere layer => some layer
  | _ => none

/-- The layer for all folders after some changes: the last one, or that which names nothing. -/
def layerAfter (changes : List RegistryChange) : UserSettings :=
  (changes.filterMap everywhere?).getLast?.getD .empty

/-- A change leaves a folder as it was registered before. -/
def Leaves (c : RegistryChange) (root : Path) : Prop :=
  c.dropsOthers = false ∧ ∀ e ∈ c.entries, e.1.components ≠ root.components

/-- What some changes registered last for a folder, however its path is written: none of the changes
after that drops it or registers it again. The settings are those of its layer on top of the layer
for all folders at that time. -/
def Registered (changes : List RegistryChange) (root : Path) (settings : WorkspaceSettings) :
    Prop :=
  ∃ before change after earlier layer later,
    changes = before ++ change :: after ∧ (∀ c ∈ after, c.Leaves root) ∧
    change.entries = earlier ++ (root, layer) :: later ∧
    (∀ e ∈ later, e.1.components ≠ root.components) ∧
    settings = .ofUser ((layerAfter before).overlay layer) root (some root)

/-- A registered folder has a file: its components are a start of those of the file, and every other
registered folder of which this holds is a start of it in turn. -/
structure Owns (changes : List RegistryChange) (file root : Path) (settings : WorkspaceSettings) :
    Prop where
  registered : Registered changes root settings
  above : root.components <+: file.components
  nearest : ∀ other otherSettings, Registered changes other otherSettings →
    other.components <+: file.components → other.components <+: root.components

theorem Registered.mem_entries {changes : List RegistryChange} {root : Path}
    {settings : WorkspaceSettings} (h : Registered changes root settings) :
    ∃ c ∈ changes, ∃ e ∈ c.entries, e.1 = root := by
  obtain ⟨before, change, after, earlier, layer, later, rfl, -, hentries, -⟩ := h
  refine ⟨change, by simp, (root, layer), ?_, rfl⟩
  rw [hentries]
  simp

theorem Registered.workspacePath {changes : List RegistryChange} {root : Path}
    {settings : WorkspaceSettings} (h : Registered changes root settings) :
    settings.workspacePath = root := by
  obtain ⟨_, _, _, _, _, _, _, _, _, _, rfl⟩ := h
  rfl

theorem not_registered_nil (root : Path) (settings : WorkspaceSettings) :
    ¬Registered [] root settings := by
  rintro ⟨before, change, after, _, _, _, hnil, -⟩
  simp at hnil

/-- What is registered after one change more: what this one registers, or what was registered and is
left by it. -/
theorem registered_append (changes : List RegistryChange) (c : RegistryChange) (root : Path)
    (settings : WorkspaceSettings) :
    Registered (changes ++ [c]) root settings ↔
      (∃ layer, c.entries.reverse.find? (fun e => e.1.components = root.components) =
          some (root, layer) ∧
        settings = .ofUser ((layerAfter changes).overlay layer) root (some root)) ∨
      (c.Leaves root ∧ Registered changes root settings) := by
  constructor
  · rintro ⟨before, change, after, earlier, layer, later, hchanges, hafter, hentries, hlater,
      hsettings⟩
    rcases List.eq_nil_or_concat after with rfl | ⟨front, last, rfl⟩
    · obtain ⟨rfl, hlast⟩ := List.append_inj' hchanges rfl
      obtain rfl := List.singleton_inj.1 hlast
      left
      refine ⟨layer, ?_, hsettings⟩
      exact (find?_reverse_eq_some_iff _ _ _).2 ⟨earlier, later, hentries, hlater⟩
    · rw [List.concat_eq_append, ← List.cons_append, ← List.append_assoc] at hchanges
      obtain ⟨rfl, hlast⟩ := List.append_inj' hchanges rfl
      obtain rfl := List.singleton_inj.1 hlast
      rw [List.concat_eq_append] at hafter
      right
      refine ⟨hafter c (by simp), before, change, front, earlier, layer, later, rfl, ?_, hentries,
        hlater, hsettings⟩
      intro d hd
      exact hafter d (List.mem_append_left _ hd)
  · rintro (⟨layer, hfind, hsettings⟩ | ⟨hleaves, before, change, after, earlier, layer, later, rfl,
      hafter, hentries, hlater, hsettings⟩)
    · obtain ⟨earlier, later, hentries, hlater⟩ := (find?_reverse_eq_some_iff _ _ _).1 hfind
      exact ⟨changes, c, [], earlier, layer, later, rfl, by simp, hentries, hlater, hsettings⟩
    · refine ⟨before, change, after ++ [c], earlier, layer, later, by simp, ?_, hentries, hlater,
        hsettings⟩
      intro d hd
      rcases List.mem_append.1 hd with hd | hd
      · exact hafter d hd
      · rw [List.mem_singleton.1 hd]
        exact hleaves

/-- A folder that a change registers has the settings of its last layer there. -/
theorem registered_of_find?_eq_some {changes : List RegistryChange} {c : RegistryChange}
    {key : List Path.Component} {e : Path × UserSettings} {settings : WorkspaceSettings}
    (hfind : c.entries.reverse.find? (fun e => e.1.components = key) = some e) :
    (∃ root, root.components = key ∧ Registered (changes ++ [c]) root settings) ↔
      settings = .ofUser ((layerAfter changes).overlay e.2) e.1 (some e.1) := by
  obtain ⟨root, layer⟩ := e
  have hroot : root.components = key := by simpa using List.find?_some hfind
  subst hroot
  constructor
  · rintro ⟨other, hother, hregistered⟩
    rcases (registered_append changes c other settings).1 hregistered with
      ⟨otherLayer, hotherFind, hsettings⟩ | ⟨⟨-, hleaves⟩, -⟩
    · rw [hother, hfind] at hotherFind
      obtain ⟨rfl, rfl⟩ := Prod.mk.inj (Option.some.inj hotherFind)
      exact hsettings
    · have hmem := List.mem_reverse.1 (List.mem_of_find?_eq_some hfind)
      exact absurd hother.symm (hleaves _ hmem)
  · intro hsettings
    exact ⟨root, rfl, (registered_append changes c root settings).2
      (.inl ⟨layer, hfind, hsettings⟩)⟩

/-- A folder that a change does not register keeps what it has, unless all are dropped. -/
theorem registered_of_find?_eq_none {changes : List RegistryChange} {c : RegistryChange}
    {key : List Path.Component} {settings : WorkspaceSettings}
    (hfind : c.entries.reverse.find? (fun e => e.1.components = key) = none) :
    (∃ root, root.components = key ∧ Registered (changes ++ [c]) root settings) ↔
      c.dropsOthers = false ∧ ∃ root, root.components = key ∧ Registered changes root settings := by
  have hmisses : ∀ e ∈ c.entries, e.1.components ≠ key := by
    intro e he
    simpa using List.find?_eq_none.1 hfind e (List.mem_reverse.2 he)
  constructor
  · rintro ⟨root, rfl, hregistered⟩
    rcases (registered_append changes c root settings).1 hregistered with
      ⟨layer, hlast, -⟩ | ⟨⟨hkeeps, -⟩, hregistered⟩
    · rw [hfind] at hlast
      cases hlast
    · exact ⟨hkeeps, root, rfl, hregistered⟩
  · rintro ⟨hkeeps, root, rfl, hregistered⟩
    exact ⟨root, rfl, (registered_append changes c root settings).2
      (.inr ⟨⟨hkeeps, hmisses⟩, hregistered⟩)⟩

end RegistryChange

namespace SettingsRegistry

open RegistryChange

def after (r : SettingsRegistry) : RegistryChange → SettingsRegistry
  | .everywhere layer => r.setGlobal layer
  | .folder root layer => r.register root layer
  | .folders layers cwd => r.registerAll layers cwd

def afterAll (r : SettingsRegistry) (changes : List RegistryChange) : SettingsRegistry :=
  changes.foldl after r

theorem afterAll_append (r : SettingsRegistry) (changes : List RegistryChange)
    (c : RegistryChange) : r.afterAll (changes ++ [c]) = (r.afterAll changes).after c := by
  rw [afterAll, List.foldl_append]
  rfl

/-- A change registers its folders one after the other, perhaps in place of all others. -/
theorem known?_after (r : SettingsRegistry) (c : RegistryChange) (key : List Path.Component) :
    (r.after c).known? key =
      ((c.entries.reverse.find? fun e => e.1.components = key).map fun e =>
        WorkspaceSettings.ofUser (r.global.overlay e.2) e.1 (some e.1)).or
        (if c.dropsOthers then none else r.known? key) := by
  cases c with
  | everywhere layer => rfl
  | folder root layer => exact known?_registerEach r [(root, layer)] key
  | folders layers cwd =>
    rw [after, registerAll_eq r ⟨none, layers, cwd⟩, known?_registerEach]
    rfl

theorem global_after (r : SettingsRegistry) (c : RegistryChange) :
    (r.after c).global = c.everywhere?.getD r.global := by
  cases c with
  | everywhere layer => rfl
  | folder root layer => rfl
  | folders layers cwd =>
    rw [after, registerAll_eq r ⟨none, layers, cwd⟩, global_registerEach]
    rfl

theorem global_afterAll (changes : List RegistryChange) :
    (empty.afterAll changes).global = layerAfter changes := by
  induction changes using List.reverseRecOn with
  | nil => rfl
  | append_singleton changes c ih =>
    rw [afterAll_append, global_after, ih, layerAfter, layerAfter, List.filterMap_append]
    cases c with
    | everywhere layer => simp [everywhere?]
    | folder root layer => simp [everywhere?]
    | folders layers cwd => simp [everywhere?]

/-- The registry knows the folders that are registered, with what was registered last for each. -/
theorem known?_afterAll (changes : List RegistryChange) (key : List Path.Component)
    (settings : WorkspaceSettings) :
    (empty.afterAll changes).known? key = some settings ↔
      ∃ root, root.components = key ∧ Registered changes root settings := by
  induction changes using List.reverseRecOn with
  | nil =>
    constructor
    · intro hnone
      cases hnone
    · rintro ⟨root, -, hregistered⟩
      exact absurd hregistered (not_registered_nil root settings)
  | append_singleton changes c ih =>
    rw [afterAll_append, known?_after, global_afterAll]
    cases hfind : c.entries.reverse.find? fun e => e.1.components = key with
    | some e =>
      rw [registered_of_find?_eq_some hfind, Option.map_some, Option.some_or, Option.some.injEq]
      exact eq_comm
    | none =>
      rw [registered_of_find?_eq_none hfind, Option.map_none, Option.none_or, ← ih]
      cases c.dropsOthers <;> simp

/-! ## The folder of a file -/

section

variable {changes : List RegistryChange} {file : Path}

theorem known?_of_registered {root : Path} {settings : WorkspaceSettings}
    (h : Registered changes root settings) :
    (empty.afterAll changes).known? root.components = some settings :=
  (known?_afterAll changes _ _).2 ⟨root, rfl, h⟩

/-- The longest start of a file that the registry knows is the folder that owns the file. -/
theorem exists_owns {key : List Path.Component} {settings : WorkspaceSettings}
    (h : Path.IsLongestStart (empty.afterAll changes).known? file.components key settings) :
    ∃ root, root.components = key ∧ Owns changes file root settings := by
  obtain ⟨root, rfl, hregistered⟩ := (known?_afterAll changes key settings).1 h.value
  refine ⟨root, rfl, hregistered, h.start, ?_⟩
  intro other otherSettings hother habove
  apply h.longest _ habove
  rw [known?_of_registered hother]
  exact Option.some_ne_none _

/-- Only one folder owns a file, up to the way in which its path is written. -/
theorem owns_unique {root other : Path} {settings otherSettings : WorkspaceSettings}
    (h : Owns changes file root settings) (hother : Owns changes file other otherSettings) :
    settings = otherSettings := by
  have hsame : root.components = other.components := by
    apply (hother.nearest root settings h.registered h.above).eq_of_length_le
    exact (h.nearest other otherSettings hother.registered hother.above).length_le
  have hknown := known?_of_registered h.registered
  rw [hsame, known?_of_registered hother.registered] at hknown
  exact (Option.some.inj hknown).symm

/-- What a file gets: the settings of the folder that owns it, or those for files without a folder
if no registered folder is above it. -/
theorem resolve_cases (file : Path)
    (hroots : ∀ root settings, Registered changes root settings → root.text ≠ "") :
    (∃ root settings, Owns changes file root settings ∧
      (empty.afterAll changes).resolve file = settings) ∨
    (∀ root settings, Registered changes root settings →
      ¬root.components <+: file.components) ∧
      (empty.afterAll changes).resolve file = .ofOrphan (layerAfter changes) file := by
  have hempty : (empty.afterAll changes).known? [] = none := by
    cases hknown : (empty.afterAll changes).known? [] with
    | none => rfl
    | some settings =>
      obtain ⟨root, hroot, hregistered⟩ := (known?_afterAll changes [] settings).1 hknown
      exact absurd ((Path.components_eq_nil_iff root).1 hroot) (hroots root settings hregistered)
  have hlongest := Path.longest_of_findSome?_ancestors _ hempty file
  rw [resolve_eq, global_afterAll]
  split at hlongest
  · next settings hfound =>
    obtain ⟨key, hkey⟩ := hlongest
    obtain ⟨root, -, howns⟩ := exists_owns hkey
    refine .inl ⟨root, settings, howns, ?_⟩
    rw [hfound, Option.getD_some]
  · next hfound =>
    refine .inr ⟨fun root settings hregistered habove => ?_, ?_⟩
    · have hnone := hlongest _ habove
      rw [known?_of_registered hregistered] at hnone
      cases hnone
    · rw [hfound, Option.getD_none]

end

/-- The nearest folder wins. After any changes, a file gets the settings of the registered folder
that owns it, as they were registered last; if some registered folder is above the file, one of them
owns it, and if none is, the file gets the settings for files without a folder, of the layer for all
folders. A folder that is not above the file by components, such as one whose path is a start of the
text only, is in no case the one that the settings name. -/
theorem nearest_folder_wins (changes : List RegistryChange) (file : Path)
    (hroots : ∀ root settings, Registered changes root settings → root.text ≠ "") :
    (∀ root settings, Owns changes file root settings →
      (empty.afterAll changes).resolve file = settings) ∧
    ((∃ root settings, Registered changes root settings ∧ root.components <+: file.components) →
      ∃ root settings, Owns changes file root settings) ∧
    ((∀ root settings, Registered changes root settings →
        ¬root.components <+: file.components) →
      (empty.afterAll changes).resolve file = .ofOrphan (layerAfter changes) file) ∧
    ((empty.afterAll changes).resolve file).workspacePath.components <+: file.components := by
  rcases resolve_cases file hroots with
    ⟨owner, given, howns, hresolve⟩ | ⟨hnone, hresolve⟩
  · refine ⟨?_, fun _ => ⟨owner, given, howns⟩, ?_, ?_⟩
    · intro root settings h
      rw [hresolve]
      exact owns_unique howns h
    · intro hnone
      exact absurd howns.above (hnone owner given howns.registered)
    · rw [hresolve, howns.registered.workspacePath]
      exact howns.above
  · refine ⟨?_, ?_, fun _ => hresolve, ?_⟩
    · intro root settings h
      exact absurd h.above (hnone root settings h.registered)
    · rintro ⟨root, settings, hregistered, habove⟩
      exact absurd habove (hnone root settings hregistered)
    · rw [hresolve]
      show (file.parent?.getD file).components <+: file.components
      rcases Path.parent?_cases file with ⟨hparent, -⟩ | ⟨above, last, hparent, hcomponents⟩
      · rw [hparent]
        exact List.prefix_rfl
      · rw [hparent, hcomponents]
        exact List.prefix_append _ _

/-- Folders one in the other, of which one is a start of the path of another by its text only. The
layer for all folders is brought after most of them, and the outer one is registered again after
that under another spelling. -/
def nestedChanges : List RegistryChange :=
  [.folder ⟨"/dropped"⟩ .empty, .folders [] ⟨"/a/b"⟩,
    .folder ⟨"/a"⟩ { UserSettings.empty with fixAll := some false },
    .folder ⟨"/a/bc//d/."⟩ { UserSettings.empty with fixAll := some false },
    .everywhere { UserSettings.empty with organizeImports := some false },
    .folder ⟨"//a/"⟩ { UserSettings.empty with fixAll := some true }]

theorem nestedChanges_nearest :
    (∀ root settings, Registered nestedChanges root settings → root.text ≠ "") ∧
    (empty.afterAll nestedChanges).resolve ⟨"/a/./bc/x.py"⟩ =
      .ofUser { UserSettings.empty with organizeImports := some false, fixAll := some true }
        ⟨"//a/"⟩ (some ⟨"//a/"⟩) ∧
    (empty.afterAll nestedChanges).resolve ⟨"/a/bc/d/../x.py"⟩ =
      .ofUser { UserSettings.empty with fixAll := some false } ⟨"/a/bc//d/."⟩
        (some ⟨"/a/bc//d/."⟩) ∧
    (empty.afterAll nestedChanges).resolve ⟨"/dropped/x.py"⟩ =
      .ofUser { UserSettings.empty with organizeImports := some false } ⟨"/dropped"⟩ none := by
  have hmem : ∀ {P : Path → Prop}, (∀ c ∈ nestedChanges, ∀ e ∈ c.entries, P e.1) →
      ∀ root settings, Registered nestedChanges root settings → P root := by
    intro P h root settings hregistered
    obtain ⟨c, hc, e, he, rfl⟩ := hregistered.mem_entries
    exact h c hc e he
  have hroots := hmem (P := fun root => root.text ≠ "") (by decide +kernel)
  have houter : Owns nestedChanges ⟨"/a/./bc/x.py"⟩ ⟨"//a/"⟩ _ :=
    ⟨⟨nestedChanges.take 5, _, [], [], _, [], rfl, by simp, rfl, by simp, rfl⟩, by decide +kernel,
      hmem (P := fun other => other.components <+: Path.components ⟨"/a/./bc/x.py"⟩ →
        other.components <+: Path.components ⟨"//a/"⟩) (by decide +kernel)⟩
  have hinner : Owns nestedChanges ⟨"/a/bc/d/../x.py"⟩ ⟨"/a/bc//d/."⟩ _ :=
    ⟨⟨nestedChanges.take 3, _, nestedChanges.drop 4, [], _, [], rfl, by
        unfold Leaves
        decide +kernel, rfl, by simp, rfl⟩, by decide +kernel,
      hmem (P := fun other => other.components <+: Path.components ⟨"/a/bc/d/../x.py"⟩ →
        other.components <+: Path.components ⟨"/a/bc//d/."⟩) (by decide +kernel)⟩
  have hdropped : ∀ root settings, Registered nestedChanges root settings →
      ¬root.components <+: Path.components ⟨"/dropped/x.py"⟩ := by
    intro root settings h habove
    have hknown := known?_of_registered h
    have hnone := hmem (P := fun root => root.components <+: Path.components ⟨"/dropped/x.py"⟩ →
      (empty.afterAll nestedChanges).known? root.components = none) (by decide +kernel) root
      settings h habove
    rw [hnone] at hknown
    cases hknown
  refine ⟨hroots, ?_, ?_, ?_⟩
  · exact (nearest_folder_wins nestedChanges _ hroots).1 _ _ houter
  · exact (nearest_folder_wins nestedChanges _ hroots).1 _ _ hinner
  · exact (nearest_folder_wins nestedChanges _ hroots).2.2.1 hdropped

end SettingsRegistry
end LintBridge
