import LintBridge.Proofs.Toolbox.Learning

/-!
Which programs a toolbox runs to find something out.

A toolbox `Extends` another one by runs of a kind if it is on the same machine and has made these
runs since. To look for libraries or for the tool is to ask at most the one interpreter that counts
by the settings (`Toolbox.keeps_libraryPaths`, `Toolbox.keeps_locate`); to learn the version of an
executable is to run it at most with `--version` (`Toolbox.keeps_version`).
-/

namespace LintBridge

namespace Toolbox

/-- A toolbox is another one with runs of a kind made since, and whatever they taught. -/
structure Extends (kind : Run → Prop) (base box : Toolbox) : Prop where
  host : box.host = base.host
  runs : ∃ made, box.runs = base.runs ++ made ∧ ∀ r ∈ made, kind r

variable {kind : Run → Prop} {base : Toolbox}

theorem Extends.refl (kind : Run → Prop) (base : Toolbox) : Extends kind base base := by
  refine ⟨rfl, [], ?_, ?_⟩
  · rw [List.append_nil]
  · intro r hr
    cases hr

theorem Extends.add {box : Toolbox} (h : Extends kind base box) (run? : Option Run)
    (hkind : ∀ r ∈ run?, kind r) {other : Toolbox} (hhost : other.host = box.host)
    (hruns : other.runs = box.runs ++ run?.toList) : Extends kind base other := by
  obtain ⟨made, hmade, hall⟩ := h.runs
  refine ⟨hhost.trans h.host, made ++ run?.toList, ?_, ?_⟩
  · rw [hruns, hmade, List.append_assoc]
  · intro r hr
    rcases List.mem_append.1 hr with hold | hnew
    · exact hall r hold
    · exact hkind r (Option.mem_toList.1 hnew)

theorem keeps_interpreterInfo (i : String) (h : ∀ r ∈ base.host.question? i, kind r) :
    Keeps (Extends kind base) (interpreterInfo i) := by
  intro box hbox
  cases hknown : box.interpreters.get? i with
  | some info =>
    rw [interpreterInfo_run_known box i info hknown]
    exact hbox
  | none =>
    have hask := ask_eq box (Expansion.path box.host i) ["-c", interpreterQuestion]
    rw [interpreterInfo, run_get_bind, hknown]
    dsimp only
    rw [run_bind_of_run hask]
    refine hbox.add (box.host.question? i) ?_ rfl rfl
    rw [hbox.host]
    exact h

theorem keeps_libraryPaths (settings : WorkspaceSettings)
    (h : ∀ i, base.interpreter? settings = some i → ∀ r ∈ base.host.question? i, kind r) :
    Keeps (Extends kind base) (libraryPaths settings) := by
  refine .get_bind fun box hbox => ?_
  have hinterpreter : box.interpreter? settings = base.interpreter? settings := by
    simp only [interpreter?, hbox.host]
  rw [hinterpreter]
  split
  · exact .pure []
  · next i hi => exact (keeps_interpreterInfo i (h i hi)).bind fun _ => .pure _

theorem keeps_fromInterpreter (settings : WorkspaceSettings)
    (h : ∀ i, base.interpreter? settings = some i → ∀ r ∈ base.host.question? i, kind r) :
    Keeps (Extends kind base) (fromInterpreter settings) := by
  rw [fromInterpreter]
  cases hinterpreters : settings.interpreter with
  | nil => exact .pure none
  | cons i rest =>
    have hfirst : base.interpreter? settings = some i := by rw [interpreter?, hinterpreters]
    refine (keeps_interpreterInfo i (h i hfirst)).bind fun _ => ?_
    exact .get_bind fun _ _ => .pure _

theorem keeps_locate (settings : WorkspaceSettings)
    (h : ∀ i, base.interpreter? settings = some i → ∀ r ∈ base.host.question? i, kind r) :
    Keeps (Extends kind base) (locate settings) := by
  refine .get_bind fun box _ => ?_
  split
  · exact .pure _
  · refine (keeps_fromInterpreter settings h).bind fun found => ?_
    cases found with
    | some path => exact .pure path
    | none => exact .get_bind fun _ _ => .pure _

theorem keeps_version (p : Path) (h : ∀ r ∈ base.host.versionRun? p, kind r) :
    Keeps (Extends kind base) (version p) := by
  intro box hbox
  cases hnode : box.host.node? p with
  | none =>
    rw [version_run_missing box p hnode]
    exact hbox
  | some node =>
    cases hknown : box.knownVersion? p (modifiedTime node) with
    | some v =>
      rw [version_run_known box p node v hnode hknown]
      exact hbox
    | none =>
      rw [version_run_unknown box p node hnode hknown, askVersion_eq]
      have hran : Extends kind base
          { box with runs := box.runs ++ (box.host.versionRun? p).toList } := by
        refine hbox.add (box.host.versionRun? p) ?_ rfl rfl
        rw [hbox.host]
        exact h
      cases box.host.statedVersion p with
      | error failure => exact hran
      | ok v => exact ⟨hran.host, hran.runs⟩

end Toolbox
end LintBridge
