import LintBridge.Proofs.Capability.Growing
import LintBridge.Proofs.Linter.Purpose
import LintBridge.Proofs.Toolbox.Runs

/-!
A document is sent to the tool only through all gates.

`Passes` lists the gates for a version of the tool: the executable states it and it supports the
operation, it reads documents of the kind, the file belongs to no library that is left alone, and
the purpose is not switched off. `Ends` lists how a request may end: with a run for the document,
whose code and output decide on the answer, or without one and without a result.
`sent_through_gates` says that every request ends so, whatever was asked before, if the versions
that are kept are current.

The version is asked for in the server's own directory, while the document is sent to what the path
of the executable leads to from the folder of the settings. Where the path is absolute this is one
executable; where it is relative these may be two, and only the first one is looked at.
-/

namespace LintBridge

open Toolbox (Extends)

/-! ## What is kept -/

/-- The version that is kept for a path, if the file there was not modified since. -/
def Toolbox.keptVersion? (box : Toolbox) (p : Path) : Option Version :=
  (box.host.node? p).bind fun node => box.knownVersion? p (modifiedTime node)

/-- What is kept for a path is what the executable states now. -/
def Toolbox.Current (box : Toolbox) (p : Path) : Prop :=
  ∀ v ∈ box.keptVersion? p, box.host.statedVersion p = .ok v

theorem Toolbox.Current.stated {box : Toolbox} {p : Path} (h : box.Current p) {v : Version}
    (hv : ((version p).run box).1 = .ok v) : box.host.statedVersion p = .ok v := by
  rw [version_fst] at hv
  split at hv
  · cases hv
  · next node hnode =>
    split at hv
    · next w hknown =>
      cases hv
      have hkept : box.keptVersion? p = some v := by
        rw [keptVersion?, hnode, Option.bind_some, hknown]
      exact h v hkept
    · exact hv

/-- The version that the executable states which a path leads to in a directory. -/
def Host.statedVersionIn (h : Host) (cwd : Option Path) (p : Path) : Except Failure Version :=
  (h.ran p ["--version"] cwd "").bind (Toolbox.versionIn p)

theorem Host.startable?_of_isAbsolute (h : Host) {p : Path} (hp : p.isAbsolute = true)
    (dir other : List String) : h.startable? dir p = h.startable? other p := by
  have hfind : h.files.find? dir p = h.files.find? other p := by simp [FileSystem.find?, hp]
  have hslash : p.text.toList.contains '/' = true := by
    have hhead : p.text.toList.head? = some '/' := by simpa [Path.isAbsolute] using hp
    exact List.contains_iff_mem.2 (List.mem_of_head? hhead)
  simp only [startable?, programAt?, hfind, hslash, if_true]

/-- A path that leads to one executable from two directories leads to one version. -/
theorem Host.statedVersionIn_eq (h : Host) {p : Path} {cwd : Option Path} {dir : List String}
    (hdir : h.startDirectory? cwd = some dir) (hsame : h.startable? dir p = h.startable? h.cwd p) :
    h.statedVersionIn cwd p = h.statedVersion p := by
  have hhere : h.startDirectory? none = some h.cwd := rfl
  simp only [statedVersionIn, statedVersion, ran, hdir, hhere, hsame]

namespace Linter

/-! ## Gates and ends -/

/-- The libraries that files are left alone in by the settings of a file. -/
def librariesFor (l : Linter) (file : Path) : List Path :=
  ((Toolbox.libraryPaths (l.settingsFor file)).run l.toolbox).1

/-- A document may be sent to the tool whose version is `v`. -/
structure Passes (l : Linter) (q : Purpose) (d : Document) (v : Version) : Prop where
  stated : l.toolbox.host.statedVersion (l.programFor d.path) = .ok v
  supported : q.operation.requirement.contains v = true
  notebook : d.isText = false → v.atLeast (.release 0 1 0) = true ∧ q.range? = none
  library : (l.settingsFor d.path).ignoreStandardLibrary = true →
    LibraryPath.isLibrary ((l.toolbox.host.canonical? d.path).getD d.path)
      (l.librariesFor d.path) = false
  enabled : q = .lint → (l.settingsFor d.path).lintEnabled = true

/-- How a request for a document may end: what is answered, and the runs for the document. -/
inductive Ends (l : Linter) (q : Purpose) (d : Document) :
    Except Stop (Option q.Reply) → List Run → Prop
  /-- It fails before the document is sent. -/
  | failed (failure : Failure) : Ends l q d (.error (.failed failure)) []
  /-- The range cannot be named for the tool. -/
  | unnamed (v : Version) : l.Passes q d v →
    q.args? (.ofVersion v) (l.settingsFor d.path) d.path = none → Ends l q d (.error .overflow) []
  /-- The document is left alone. -/
  | leftAlone : Ends l q d (.ok none) []
  /-- The purpose is switched off. -/
  | off : q.isOff (l.settingsFor d.path) = true → Ends l q d (.ok q.blank) []
  /-- The document is sent, and the run decides on the answer. -/
  | sent (v : Version) (args : List String) (r : Run) (result : RunResult) :
    l.Passes q d v →
    q.args? (.ofVersion v) (l.settingsFor d.path) d.path = some args →
    r ∈ l.toolbox.host.running? (l.programFor d.path) args (l.settingsFor d.path).cwd
      d.toolInput →
    l.toolbox.host.ran (l.programFor d.path) args (l.settingsFor d.path).cwd d.toolInput =
      .ok result →
    Ends l q d (q.answerTo (.ofVersion v) (l.settingsFor d.path) d result) [r]

/-- A run that finds out about programs for a file: the one interpreter that counts is asked about
itself, or the executable for its version. -/
def FindsOut (l : Linter) (file : Path) (r : Run) : Prop :=
  (∃ i, l.toolbox.interpreter? (l.settingsFor file) = some i ∧ r ∈ l.toolbox.host.question? i) ∨
    r ∈ l.toolbox.host.versionRun? (l.programFor file)

/-! ## Before a document is sent -/

variable {l : Linter} {file : Path}

/-- Nothing but to find out about programs for a file has been done since. -/
structure Prepared (l : Linter) (file : Path) (other : Linter) : Prop where
  alike : Alike (l.programFor file) l other
  extends_ : Extends (l.FindsOut file) l.toolbox other.toolbox
  faithful : other.capabilities.Faithful

theorem Prepared.refl (h : l.capabilities.Faithful) : Prepared l file l :=
  ⟨Alike.refl _ l, Extends.refl _ _, h⟩

theorem Prepared.findsOut (i : String) (h : l.toolbox.interpreter? (l.settingsFor file) = some i)
    (r : Run) (hr : r ∈ l.toolbox.host.question? i) : l.FindsOut file r :=
  .inl ⟨i, h, hr⟩

/-- What a toolbox answers while it only finds out about programs, a prepared linter answers. -/
theorem yields_onToolbox {α : Type} {action : StateM Toolbox α} {a : α}
    (ha : Answers (Toolbox.Alike (l.programFor file) l.toolbox) action a)
    (hkeep : Keeps (Extends (l.FindsOut file) l.toolbox) action) :
    Yields (Prepared l file) (onToolbox action) fun b other => b = a ∧ Prepared l file other := by
  intro other hother
  obtain ⟨hanswer, halike⟩ := answers_onToolbox ha other hother.alike
  exact ⟨hanswer, halike, hkeep _ hother.extends_, hother.faithful⟩

/-- What a toolbox may fail to answer, in the same way. -/
theorem yields_askToolbox {α : Type} {action : StateM Toolbox (Except Failure α)}
    {a : Except Failure α}
    (ha : Answers (Toolbox.Alike (l.programFor file) l.toolbox) action a)
    (hkeep : Keeps (Extends (l.FindsOut file) l.toolbox) action) :
    Yields (Prepared l file) (askToolbox action).run fun b other =>
      b = a.mapError .failed ∧ Prepared l file other := by
  intro other hother
  obtain ⟨hanswer, hafter⟩ := yields_onToolbox ha hkeep other hother
  exact ⟨congrArg (Except.mapError Stop.failed) hanswer, hafter⟩

theorem yields_isSkipped (h : l.capabilities.Faithful) :
    Yields (· = l) (isSkipped file (l.settingsFor file)) fun skipped other =>
      Prepared l file other ∧ (skipped = false →
        (l.settingsFor file).ignoreStandardLibrary = true →
        LibraryPath.isLibrary ((l.toolbox.host.canonical? file).getD file)
          (l.librariesFor file) = false) := by
  rintro other rfl
  unfold isSkipped
  cases hignored : (other.settingsFor file).ignoreStandardLibrary with
  | false => exact ⟨Prepared.refl h, fun _ hon => nomatch hon⟩
  | true =>
    have hsettled : Settled (Toolbox.Alike (other.programFor file) other.toolbox)
        (Toolbox.libraryPaths (other.settingsFor file)) :=
      Toolbox.settled_libraryPaths _
    obtain ⟨libraries, hlibraries⟩ := hsettled
    have hkeep : Keeps (Extends (other.FindsOut file) other.toolbox)
        (Toolbox.libraryPaths (other.settingsFor file)) :=
      Toolbox.keeps_libraryPaths _ Prepared.findsOut
    have hfound := yields_onToolbox hlibraries hkeep other (Prepared.refl h)
    exact ⟨hfound.2, fun hnot _ => hnot⟩

theorem yields_capabilitiesOf (v : Version) :
    Yields (Prepared l file) (capabilitiesOf v) fun c other =>
      c = .ofVersion v ∧ Prepared l file other := by
  intro other hother
  obtain ⟨hanswer, hfaithful⟩ := hother.faithful.get v
  refine ⟨hanswer, ?_, hother.extends_, hfaithful⟩
  exact ⟨hother.alike.registry, hother.alike.toolbox, fun w =>
    (get_get other.capabilities v w).trans (hother.alike.capabilities w)⟩

/-- What comes of looking for an executable: a failure, or the one that the settings lead to. It has
stated its version, or had stated it before, and the version supports the operation. -/
def Finds (l : Linter) (file : Path) (operation : Operation) :
    Except Stop (Path × Capabilities) → Prop
  | .error stop => ∃ failure, stop = .failed failure
  | .ok (program, c) => program = l.programFor file ∧ ∃ v,
    ((Toolbox.version (l.programFor file)).run l.toolbox).1 = .ok v ∧
    c = .ofVersion v ∧ operation.requirement.contains v = true

theorem yields_executable (operation : Operation) :
    Yields (Prepared l file) (executable (l.settingsFor file) operation).run fun found other =>
      Finds l file operation found ∧ Prepared l file other := by
  unfold executable
  have hsettled : Settled (Toolbox.Alike (l.programFor file) l.toolbox)
      (Toolbox.locate (l.settingsFor file)) :=
    Toolbox.settled_locate _
  obtain ⟨place, hplace⟩ := hsettled
  obtain rfl : l.programFor file = place := (hplace l.toolbox (Toolbox.Alike.refl _ _)).1
  have hlocate := yields_onToolbox hplace
    (Toolbox.keeps_locate (l.settingsFor file) Prepared.findsOut)
  have hversion := yields_askToolbox Toolbox.answers_version
    (Toolbox.keeps_version (l.programFor file) fun r hr => Or.inr hr)
  refine hlocate.lift.except_bind ?_ fun path => ?_
  · rintro failure other ⟨_, hanswer, -⟩
    cases hanswer
  refine Yields.except_bind (P := fun answer other =>
    path = l.programFor file ∧
      answer = (((Toolbox.version (l.programFor file)).run l.toolbox).1).mapError .failed ∧
      Prepared l file other) ?_ ?_ fun v => ?_
  · rintro other ⟨_, hanswer, rfl, hother⟩
    cases hanswer
    exact ⟨rfl, hversion other hother⟩
  · rintro stop other ⟨-, hanswer, hother⟩
    exact ⟨Except.exists_of_mapError hanswer.symm, hother⟩
  refine Yields.except_bind (P := fun answer other =>
    path = l.programFor file ∧ answer = .ok (.ofVersion v) ∧
      ((Toolbox.version (l.programFor file)).run l.toolbox).1 = .ok v ∧
      Prepared l file other) ?_ ?_ fun c => ?_
  · rintro other ⟨rfl, hanswer, hother⟩
    obtain ⟨hc, hafter⟩ := yields_capabilitiesOf v other hother
    exact ⟨rfl, congrArg Except.ok hc, Except.eq_ok_of_mapError hanswer.symm, hafter⟩
  · rintro failure other ⟨-, hanswer, -⟩
    cases hanswer
  rintro other ⟨rfl, hc, hstated, hother⟩
  obtain rfl := Except.ok.inj hc
  rw [Capabilities.require]
  cases hsupports : (Capabilities.ofVersion v).supports operation with
  | false => exact ⟨⟨_, rfl⟩, hother⟩
  | true => exact ⟨⟨rfl, v, hstated, rfl, hsupports⟩, hother⟩

/-! ## Every request -/

theorem runOn_eq (program : Path) (args : List String) (settings : WorkspaceSettings)
    (d : Document) (other : Linter) :
    (runOn program args settings d).run.run other =
      ((other.toolbox.host.ran program args settings.cwd d.toolInput).mapError .failed,
        { other with toolbox := { other.toolbox with runs := other.toolbox.runs ++
          (other.toolbox.host.running? program args settings.cwd d.toolInput).toList } }) := by
  have hrun := Toolbox.run_eq other.toolbox program args settings.cwd d.toolInput
  have honce : (onToolbox (Toolbox.run program args settings.cwd d.toolInput)).run other =
      (other.toolbox.host.ran program args settings.cwd d.toolInput,
        { other with toolbox := { other.toolbox with runs := other.toolbox.runs ++
          (other.toolbox.host.running? program args settings.cwd d.toolInput).toList } }) := by
    unfold onToolbox
    rw [run_get_bind, hrun]
    rfl
  show (Except.mapError Stop.failed <$>
    onToolbox (Toolbox.run program args settings.cwd d.toolInput)).run other = _
  rw [StateT.run_map, honce]
  rfl

/-- How a request may end, with what has been run in the meantime. -/
def EndsAfter (l : Linter) (q : Purpose) (d : Document)
    (answer : Except Stop (Option q.Reply)) (other : Linter) : Prop :=
  ∃ asides sent, other.toolbox.runs = l.toolbox.runs ++ asides ++ sent ∧
    (∀ r ∈ asides, l.FindsOut d.path r) ∧ Ends l q d answer sent

theorem Prepared.endsAfter {q : Purpose} {d : Document} {other : Linter}
    (h : Prepared l d.path other) {answer : Except Stop (Option q.Reply)}
    (hends : Ends l q d answer []) : EndsAfter l q d answer other := by
  obtain ⟨asides, hruns, hasides⟩ := h.extends_.runs
  exact ⟨asides, [], by rw [List.append_nil, hruns], hasides, hends⟩

/-- A document that is admitted is of a kind that the version reads, and no range of a notebook is
sent. -/
theorem notebook_of_admits {q : Purpose} {d : Document} {v : Version}
    (h : q.admits (.ofVersion v) d = true) (hkind : d.isText = false) :
    v.atLeast (.release 0 1 0) = true ∧ q.range? = none := by
  have hboth : q.range? = none ∧ v.atLeast (.release 0 1 0) = true := by
    simpa [Purpose.admits, accepts, hkind, Capabilities.ofVersion] using h
  exact hboth.symm

theorem ran_cases (h : Host) (program : Path) (args : List String) (cwd : Option Path)
    (input : String) :
    (∃ failure, h.ran program args cwd input = .error failure ∧
        h.running? program args cwd input = none) ∨
      ∃ result r, h.ran program args cwd input = .ok result ∧
        h.running? program args cwd input = some r := by
  unfold Host.ran Host.running?
  cases h.startDirectory? cwd with
  | none => exact .inl ⟨_, rfl, rfl⟩
  | some dir =>
    dsimp only
    cases h.startable? dir program with
    | none => exact .inl ⟨_, rfl, rfl⟩
    | some found => exact .inr ⟨_, _, rfl, rfl⟩

theorem Prepared.ends_runOn {q : Purpose} {d : Document} {v : Version} {other : Linter}
    {args : List String} (h : Prepared l d.path other) (hpasses : Passes l q d v)
    (hargs : q.args? (.ofVersion v) (l.settingsFor d.path) d.path = some args) :
    Yields (· = other)
      (runOn (l.programFor d.path) args (l.settingsFor d.path) d >>= fun result =>
        liftM (q.answerTo (.ofVersion v) (l.settingsFor d.path) d result)).run
      (EndsAfter l q d) := by
  obtain ⟨asides, hruns, hasides⟩ := h.extends_.runs
  rintro next rfl
  rw [ExceptT.run_bind, run_bind_of_run (runOn_eq _ _ _ d next), h.extends_.host, hruns]
  rcases ran_cases l.toolbox.host (l.programFor d.path) args (l.settingsFor d.path).cwd
      d.toolInput with ⟨failure, hran, hrunning⟩ | ⟨result, r, hran, hrunning⟩
  · rw [hran, hrunning]
    exact ⟨asides, [], rfl, hasides, .failed failure⟩
  · rw [hran, hrunning]
    exact ⟨asides, [r], rfl, hasides, .sent v args r result hpasses hargs hrunning hran⟩

/-- A request ends in one of the ways, after at most finding out about programs. -/
theorem ends_conduct (q : Purpose) (d : Document)
    (hcurrent : l.toolbox.Current (l.programFor d.path)) (hfaithful : l.capabilities.Faithful) :
    Yields (· = l) (q.conduct d).run (EndsAfter l q d) := by
  unfold Purpose.conduct
  refine .except_get_bind ?_
  dsimp only
  split
  · next hoff =>
    rintro other rfl
    exact (Prepared.refl hfaithful).endsAfter (.off hoff)
  · next hon =>
    refine Yields.except_bind (yields_isSkipped hfaithful).lift ?_ fun skipped => ?_
    · rintro failure other ⟨_, hanswer, -⟩
      cases hanswer
    rintro other ⟨_, hanswer, hother, hlibrary⟩
    cases hanswer
    cases skipped with
    | true => exact hother.endsAfter .leftAlone
    | false =>
      refine Yields.except_bind (yields_executable q.operation) ?_ ?_ other hother
      · rintro _ next ⟨⟨failure, rfl⟩, hnext⟩
        exact hnext.endsAfter (.failed failure)
      · rintro ⟨program, c⟩ next ⟨⟨rfl, v, hstated, rfl, hsupported⟩, hnext⟩
        dsimp only
        split
        · next hadmits =>
          have hpasses : Passes l q d v := by
            refine ⟨hcurrent.stated hstated, hsupported, notebook_of_admits hadmits,
              hlibrary rfl, ?_⟩
            rintro rfl
            simpa [Purpose.isOff] using hon
          cases hargs : q.args? (.ofVersion v) (l.settingsFor d.path) d.path with
          | none => exact hnext.endsAfter (.unnamed v hpasses hargs)
          | some args => exact hnext.ends_runOn hpasses hargs next rfl
        · exact hnext.endsAfter .leftAlone

end Linter
end LintBridge
