import LintBridge.Proofs.Answers
import LintBridge.Toolbox.Location
import LintBridge.Toolbox.Version

/-!
What a toolbox learns does not change what it answers.

A toolbox keeps what interpreters said and which versions it found. Toolboxes are `Alike` when they
are on one machine and answer the same about every interpreter and about the version of one
executable, whatever they have kept. Each action of a toolbox leaves one that is alike:

* `Toolbox.alike_interpreterInfo`, `Toolbox.alike_version`: an answer that is kept is the one that
  would have been given;
* `Toolbox.settled_locate`, `Toolbox.settled_libraryPaths`: so finding the tool and the libraries
  gives the same from all toolboxes that are alike.
-/

namespace LintBridge

/-! ## Answers of programs -/

def Host.asked (h : Host) (program : Path) (args : List String) : Option Outcome :=
  (h.startable? h.cwd program).map fun (_, answer) => answer ⟨args, ""⟩

def Host.ran (h : Host) (program : Path) (args : List String) (cwd : Option Path)
    (input : String) : Except Failure RunResult :=
  match h.startDirectory? cwd with
  | none => .error (.notStarted program)
  | some dir =>
    match h.startable? dir program with
    | none => .error (.notStarted program)
    | some (_, answer) =>
      let outcome := answer ⟨args, input⟩
      .ok ⟨outcome.stdout, outcome.stderr, outcome.code.getD (-1)⟩

def Host.asking? (h : Host) (program : Path) (args : List String) : Option Run :=
  (h.startable? h.cwd program).map fun (path, _) => ⟨path, args, none, none⟩

def Host.running? (h : Host) (program : Path) (args : List String) (cwd : Option Path)
    (input : String) : Option Run :=
  match h.startDirectory? cwd with
  | none => none
  | some dir =>
    (h.startable? dir program).map fun (path, answer) =>
      ⟨path, args, some (FileSystem.pathOf dir),
        if (answer ⟨args, input⟩).readsInput then some input else none⟩

/-- The record of the question to an interpreter about itself, if the machine starts it. -/
def Host.question? (h : Host) (interpreter : String) : Option Run :=
  h.asking? (Expansion.path h interpreter) ["-c", interpreterQuestion]

/-- The record of the question to an executable for its version, if the machine starts it. -/
def Host.versionRun? (h : Host) (program : Path) : Option Run :=
  h.running? program ["--version"] none ""

def Host.interpreterInfo (h : Host) (interpreter : String) : Option InterpreterInfo :=
  (h.asked (Expansion.path h interpreter) ["-c", interpreterQuestion]).bind
    InterpreterInfo.ofOutcome?

def Host.statedVersion (h : Host) (p : Path) : Except Failure Version :=
  (h.ran p ["--version"] none "").bind (Toolbox.versionIn p)

namespace Toolbox

/-- A question is answered by the machine, and only the record of it is new. -/
theorem ask_eq (box : Toolbox) (program : Path) (args : List String) :
    (ask program args).run box =
      (box.host.asked program args,
        { box with runs := box.runs ++ (box.host.asking? program args).toList }) := by
  cases hstart : box.host.startable? box.host.cwd program with
  | none =>
    simp [ask, Host.asked, Host.asking?, hstart]
    rfl
  | some found =>
    simp [ask, Host.asked, Host.asking?, hstart]
    rfl

/-- A run is the machine's, and only the record of it is new. -/
theorem run_eq (box : Toolbox) (program : Path) (args : List String) (cwd : Option Path)
    (input : String) :
    (run program args cwd input).run box =
      (box.host.ran program args cwd input,
        { box with runs := box.runs ++ (box.host.running? program args cwd input).toList }) := by
  cases hdir : box.host.startDirectory? cwd with
  | none =>
    simp [run, Host.ran, Host.running?, hdir]
    rfl
  | some dir =>
    cases hstart : box.host.startable? dir program with
    | none =>
      simp [run, Host.ran, Host.running?, hdir, hstart]
      rfl
    | some found =>
      simp [run, Host.ran, Host.running?, hdir, hstart]
      rfl

theorem ask_run (box : Toolbox) (program : Path) (args : List String) :
    ∃ runs, (ask program args).run box = (box.host.asked program args, { box with runs }) :=
  ⟨_, ask_eq box program args⟩

theorem run_run (box : Toolbox) (program : Path) (args : List String) (cwd : Option Path)
    (input : String) :
    ∃ runs, (run program args cwd input).run box =
      (box.host.ran program args cwd input, { box with runs }) :=
  ⟨_, run_eq box program args cwd input⟩

theorem interpreterInfo_run_known (box : Toolbox) (i : String) (info : Option InterpreterInfo)
    (h : box.interpreters.get? i = some info) : (interpreterInfo i).run box = (info, box) := by
  rw [interpreterInfo, run_get_bind, h]
  rfl

/-- An interpreter that was not asked before is asked, and what it said is kept. -/
theorem interpreterInfo_run_unknown (box : Toolbox) (i : String)
    (h : box.interpreters.get? i = none) :
    ∃ runs, (interpreterInfo i).run box =
      (box.host.interpreterInfo i, { box with
        runs
        interpreters := box.interpreters.insert i (box.host.interpreterInfo i) }) := by
  obtain ⟨runs, hask⟩ := ask_run box (Expansion.path box.host i) ["-c", interpreterQuestion]
  refine ⟨runs, ?_⟩
  rw [interpreterInfo, run_get_bind, h]
  dsimp only
  rw [run_bind_of_run hask]
  rfl

theorem interpreterInfo_fst (box : Toolbox) (i : String) :
    ((interpreterInfo i).run box).1 =
      (box.interpreters.get? i).getD (box.host.interpreterInfo i) := by
  cases h : box.interpreters.get? i with
  | some info => rw [interpreterInfo_run_known box i info h, Option.getD_some]
  | none =>
    obtain ⟨runs, hrun⟩ := interpreterInfo_run_unknown box i h
    rw [hrun, Option.getD_none]

theorem version_run_missing (box : Toolbox) (p : Path) (h : box.host.node? p = none) :
    (version p).run box = (.error (.executableMissing p), box) := by
  rw [version, run_get_bind, h]
  rfl

theorem version_run_known (box : Toolbox) (p : Path) (node : Node) (v : Version)
    (h : box.host.node? p = some node)
    (hknown : box.knownVersion? p (modifiedTime node) = some v) :
    (version p).run box = (.ok v, box) := by
  rw [version, run_get_bind, h]
  simp only [hknown]
  rfl

theorem askVersion_eq (box : Toolbox) (p : Path) (modified : Option Int) :
    (askVersion p modified).run box =
      (box.host.statedVersion p,
        let asked := { box with runs := box.runs ++ (box.host.versionRun? p).toList }
        match box.host.statedVersion p with
        | .ok v => asked.rememberVersion p ⟨v, modified⟩
        | .error _ => asked) := by
  rw [askVersion, run_bind_of_run (run_eq box p ["--version"] none ""), Host.statedVersion]
  cases box.host.ran p ["--version"] none "" with
  | error failure => rfl
  | ok result =>
    cases hversion : versionIn p result <;>
    · simp only [Except.bind, hversion]
      rfl

theorem askVersion_run (box : Toolbox) (p : Path) (modified : Option Int) :
    ∃ runs, (askVersion p modified).run box =
      (box.host.statedVersion p,
        match box.host.statedVersion p with
        | .ok v => rememberVersion { box with runs } p ⟨v, modified⟩
        | .error _ => { box with runs }) :=
  ⟨_, askVersion_eq box p modified⟩

theorem version_run_unknown (box : Toolbox) (p : Path) (node : Node)
    (h : box.host.node? p = some node)
    (hknown : box.knownVersion? p (modifiedTime node) = none) :
    (version p).run box = (askVersion p (modifiedTime node)).run box := by
  rw [version, run_get_bind, h]
  simp only [hknown]

/-- What is answered about the version at a path: that nothing is there, what is kept, or what the
executable states. -/
theorem version_fst (box : Toolbox) (p : Path) :
    ((version p).run box).1 =
      match box.host.node? p with
      | none => .error (.executableMissing p)
      | some node =>
        match box.knownVersion? p (modifiedTime node) with
        | some v => .ok v
        | none => box.host.statedVersion p := by
  cases h : box.host.node? p with
  | none => rw [version_run_missing box p h]
  | some node =>
    cases hknown : box.knownVersion? p (modifiedTime node) with
    | some v => simp only [version_run_known box p node v h hknown, hknown]
    | none =>
      obtain ⟨runs, hrun⟩ := askVersion_run box p (modifiedTime node)
      simp only [version_run_unknown box p node h hknown, hrun, hknown]

/-! ## Toolboxes that answer alike -/

/-- Two toolboxes are on one machine, and answer the same about all interpreters and about the
version at a path. -/
structure Alike (p : Path) (a b : Toolbox) : Prop where
  host : b.host = a.host
  bundle : b.bundle = a.bundle
  installDir : b.installDir = a.installDir
  interpreterInfo : ∀ i,
    ((Toolbox.interpreterInfo i).run b).1 = ((Toolbox.interpreterInfo i).run a).1
  version : ((Toolbox.version p).run b).1 = ((Toolbox.version p).run a).1

theorem Alike.refl (p : Path) (a : Toolbox) : Alike p a a :=
  ⟨rfl, rfl, rfl, fun _ => rfl, rfl⟩

theorem Alike.trans {p : Path} {a b c : Toolbox} (hab : Alike p a b) (hbc : Alike p b c) :
    Alike p a c :=
  ⟨hbc.host.trans hab.host, hbc.bundle.trans hab.bundle, hbc.installDir.trans hab.installDir,
    fun i => (hbc.interpreterInfo i).trans (hab.interpreterInfo i), hbc.version.trans hab.version⟩

theorem alike_runs (p : Path) (box : Toolbox) (runs : List Run) :
    Alike p box { box with runs } := by
  refine ⟨rfl, rfl, rfl, ?_, ?_⟩
  · intro i
    rw [interpreterInfo_fst, interpreterInfo_fst]
  · rw [version_fst, version_fst]
    rfl

theorem alike_interpreterInfo (p : Path) (box : Toolbox) (i : String) :
    Alike p box ((Toolbox.interpreterInfo i).run box).2 := by
  cases h : box.interpreters.get? i with
  | some info =>
    rw [interpreterInfo_run_known box i info h]
    exact Alike.refl p box
  | none =>
    obtain ⟨runs, hrun⟩ := interpreterInfo_run_unknown box i h
    rw [hrun]
    refine ⟨rfl, rfl, rfl, ?_, ?_⟩
    · intro j
      rw [interpreterInfo_fst, interpreterInfo_fst, Table.get?_insert]
      by_cases hj : i = j
      · subst hj
        simp [h]
      · simp [hj]
    · rw [version_fst, version_fst]
      rfl

theorem knownVersion?_rememberVersion (box : Toolbox) (p : Path) (stamp : VersionStamp) :
    (box.rememberVersion p stamp).knownVersion? p stamp.modified = some stamp.version := by
  simp [knownVersion?, rememberVersion]

theorem alike_version (p : Path) (box : Toolbox) :
    Alike p box ((Toolbox.version p).run box).2 := by
  cases h : box.host.node? p with
  | none =>
    rw [version_run_missing box p h]
    exact Alike.refl p box
  | some node =>
    cases hknown : box.knownVersion? p (modifiedTime node) with
    | some v =>
      rw [version_run_known box p node v h hknown]
      exact Alike.refl p box
    | none =>
      obtain ⟨runs, hrun⟩ := askVersion_run box p (modifiedTime node)
      rw [version_run_unknown box p node h hknown, hrun]
      cases hstated : box.host.statedVersion p with
      | error failure => exact alike_runs p box runs
      | ok v =>
        -- The version is kept now, and it is the one that was stated.
        refine ⟨rfl, rfl, rfl, ?_, ?_⟩
        · intro i
          rw [interpreterInfo_fst, interpreterInfo_fst]
          rfl
        · have hkept := knownVersion?_rememberVersion { box with runs } p ⟨v, modifiedTime node⟩
          rw [version_run_unknown box p node h hknown, hrun, version_fst]
          simp only [rememberVersion] at hkept ⊢
          simp only [h, hkept, hstated]

/-! ## Finding the tool -/

section

variable {p : Path} {box : Toolbox}

theorem answers_interpreterInfo (i : String) :
    Answers (Alike p box) (Toolbox.interpreterInfo i)
      ((Toolbox.interpreterInfo i).run box).1 :=
  fun other h => ⟨h.interpreterInfo i, h.trans (alike_interpreterInfo p other i)⟩

theorem answers_version :
    Answers (Alike p box) (Toolbox.version p) ((Toolbox.version p).run box).1 :=
  fun other h => ⟨h.version, h.trans (alike_version p other)⟩

theorem answers_run (program : Path) (args : List String) (cwd : Option Path) (input : String) :
    Answers (Alike p box) (run program args cwd input) (box.host.ran program args cwd input) := by
  intro other h
  obtain ⟨runs, hrun⟩ := run_run other program args cwd input
  rw [hrun]
  exact ⟨by rw [h.host], h.trans (alike_runs p other runs)⟩

theorem settled_fromInterpreter (settings : WorkspaceSettings) :
    Settled (Alike p box) (fromInterpreter settings) := by
  unfold fromInterpreter
  cases settings.interpreter with
  | nil => exact .pure none
  | cons interpreter rest =>
    refine .bind ⟨_, answers_interpreterInfo interpreter⟩ fun info _ => ?_
    refine .get_bind box (fun other h => ?_) (.pure _)
    rw [h.host]

theorem Alike.fromSettings? {a b : Toolbox} (h : Alike p a b) (settings : WorkspaceSettings) :
    b.fromSettings? settings = a.fromSettings? settings := by
  simp only [Toolbox.fromSettings?, h.host]

theorem Alike.preferredBundle? {a b : Toolbox} (h : Alike p a b) (settings : WorkspaceSettings) :
    b.preferredBundle? settings = a.preferredBundle? settings := by
  simp only [Toolbox.preferredBundle?, h.bundle]

theorem Alike.fallback {a b : Toolbox} (h : Alike p a b) : b.fallback = a.fallback := by
  simp only [Toolbox.fallback, besideServer?, h.host, h.bundle, h.installDir]

theorem Alike.interpreter? {a b : Toolbox} (h : Alike p a b) (settings : WorkspaceSettings) :
    b.interpreter? settings = a.interpreter? settings := by
  simp only [Toolbox.interpreter?, h.host]

/-- All toolboxes that are alike find the tool at one place. -/
theorem settled_locate (settings : WorkspaceSettings) :
    Settled (Alike p box) (locate settings) := by
  unfold locate
  refine .get_bind box (fun other h => ?_) ?_
  · rw [h.fromSettings?, h.preferredBundle?]
  · cases (box.fromSettings? settings) <|> (box.preferredBundle? settings) with
    | some path => exact .pure path
    | none =>
      refine (settled_fromInterpreter settings).bind fun found _ => ?_
      cases found with
      | some path => exact .pure path
      | none =>
        refine .get_bind box (fun other h => ?_) (.pure _)
        rw [h.fallback]

theorem settled_libraryPaths (settings : WorkspaceSettings) :
    Settled (Alike p box) (libraryPaths settings) := by
  unfold libraryPaths
  refine .get_bind box (fun other h => ?_) ?_
  · rw [h.interpreter?]
  · cases box.interpreter? settings with
    | none => exact .pure []
    | some interpreter =>
      exact .bind ⟨_, answers_interpreterInfo interpreter⟩ fun info _ => .pure _

end

end Toolbox
end LintBridge
