import LintBridge.Proofs.Linter.Gates

/-!
Whatever was asked before, a document is sent to the tool only through all gates.

`Call` lists what may be asked of a linter and happen to its machine. No call makes it forget which
capabilities belong to a version (`faithful_afterAll`), so the gates of the next request are those
of the version that is kept or stated, and `sent_through_gates` gives all ways in which this
request may end.

The version is the one of the executable that the document is sent to if the path `LeadsToOne`.
Every absolute path does (`leadsToOne_of_isAbsolute`). A relative path of the settings may lead to
one executable from the directory of the server and to another one from the folder, whose version
nobody asks for (`relativePath_unchecked`).
-/

namespace LintBridge

namespace Linter

/-! ## Calls in a row -/

/-- What may be asked of a linter, or happen to its machine. -/
inductive Call where
  | configure (global : Option UserSettings) (folders : List UserSettings) (cwd : Path)
  | ask (q : Purpose) (d : Document)
  | explain (file : Path) (code : String)
  | isSkipped (file : Path) (settings : WorkspaceSettings)
  | machine (change : Host → Host)

def after (l : Linter) : Call → Linter
  | .configure global folders cwd => l.configure global folders cwd
  | .ask q d => ((q.ask d).run.run l).2
  | .explain file code => ((explain file code).run.run l).2
  | .isSkipped file settings => ((isSkipped file settings).run l).2
  | .machine change => { l with toolbox := { l.toolbox with host := change l.toolbox.host } }

def afterAll (l : Linter) (calls : List Call) : Linter := calls.foldl after l

theorem stable_faithful : Stable fun l => l.capabilities.Faithful := by
  constructor
  · intro l toolbox h
    exact h
  · intro l v h
    exact (h.get v).2

theorem faithful_after {l : Linter} (h : l.capabilities.Faithful) (call : Call) :
    (l.after call).capabilities.Faithful := by
  cases call with
  | configure global folders cwd => exact h
  | ask q d =>
    rw [after]
    exact stable_faithful.ask q d l h
  | explain file code =>
    rw [after]
    exact stable_faithful.explain file code l h
  | isSkipped file settings =>
    rw [after]
    exact stable_faithful.isSkipped file settings l h
  | machine change => exact h

theorem faithful_afterAll {l : Linter} (h : l.capabilities.Faithful) (calls : List Call) :
    (l.afterAll calls).capabilities.Faithful := by
  induction calls generalizing l with
  | nil => exact h
  | cons call rest ih => exact ih (faithful_after h call)

/-! ## What is answered -/

variable {l : Linter} {q : Purpose} {d : Document}

/-- Something is answered only for a purpose that is switched off, or from the output of a run that
ended in order. -/
theorem Ends.of_some {sent : List Run} {x : q.Reply} (h : Ends l q d (.ok (some x)) sent) :
    (q.isOff (l.settingsFor d.path) = true ∧ q.blank = some x ∧ sent = []) ∨
      ∃ v args r result, sent = [r] ∧ Passes l q d v ∧
        q.args? (.ofVersion v) (l.settingsFor d.path) d.path = some args ∧
        l.toolbox.host.ran (l.programFor d.path) args (l.settingsFor d.path).cwd d.toolInput =
          .ok result ∧
        q.endsWell result.code = true ∧
        q.read (.ofVersion v) (l.settingsFor d.path) d result = .ok (some x) := by
  generalize hanswer : (Except.ok (some x) : Except Stop (Option q.Reply)) = answer at h
  cases h with
  | failed failure => cases hanswer
  | unnamed v hpasses hargs => cases hanswer
  | leftAlone => cases hanswer
  | off hoff => exact .inl ⟨hoff, (Except.ok.inj hanswer).symm, rfl⟩
  | sent v args r result hpasses hargs hr hran =>
    refine .inr ⟨v, args, r, result, rfl, hpasses, hargs, hran, ?_⟩
    rcases q.answerTo_cases (.ofVersion v) (l.settingsFor d.path) d result with
      ⟨hwell, hread⟩ | ⟨-, hfailed⟩
    · exact ⟨hwell, hread.symm⟩
    · cases hanswer.trans hfailed

/-! ## Which executable the version belongs to -/

/-- The path to the tool leads to the same from the directory of the server and from the one that
the tool is started in for a file. -/
def LeadsToOne (l : Linter) (file : Path) : Prop :=
  ∀ dir ∈ l.toolbox.host.startDirectory? (l.settingsFor file).cwd,
    l.toolbox.host.startable? dir (l.programFor file) =
      l.toolbox.host.startable? l.toolbox.host.cwd (l.programFor file)

theorem leadsToOne_of_isAbsolute {file : Path} (h : (l.programFor file).isAbsolute = true) :
    l.LeadsToOne file :=
  fun _ _ => l.toolbox.host.startable?_of_isAbsolute h _ _

/-- Where the path leads to one executable, this is the one that states the version. -/
theorem Passes.started {v : Version} (h : Passes l q d v) (hone : l.LeadsToOne d.path)
    {dir : List String}
    (hdir : l.toolbox.host.startDirectory? (l.settingsFor d.path).cwd = some dir) :
    l.toolbox.host.statedVersionIn (l.settingsFor d.path).cwd (l.programFor d.path) = .ok v := by
  rw [l.toolbox.host.statedVersionIn_eq hdir (hone dir hdir)]
  exact h.stated

/-! ## All requests -/

/-- Whatever was asked before, if the version that is kept for the executable is current: besides
finding out about programs, a request runs the tool on the document only through all gates, with the
arguments for the version, and answers what that run printed only if it ended in order. The version
is that of the executable which is run if the path to it is absolute, or leads to one executable. -/
theorem sent_through_gates (toolbox : Toolbox) (calls : List Call) (q : Purpose) (d : Document)
    (hcurrent : let l := (ofToolbox toolbox).afterAll calls
      l.toolbox.Current (l.programFor d.path)) :
    let l := (ofToolbox toolbox).afterAll calls
    let settings := l.settingsFor d.path
    let program := l.programFor d.path
    let answered := (q.ask d).run.run l
    (∃ asides sent, answered.2.toolbox.runs = l.toolbox.runs ++ asides ++ sent ∧
      (∀ r ∈ asides, l.FindsOut d.path r) ∧
      Ends l q d answered.1 sent ∧
      ∀ x, answered.1 = .ok (some x) →
        (q.isOff settings = true ∧ q.blank = some x ∧ sent = []) ∨
        ∃ v args r result, sent = [r] ∧ Passes l q d v ∧
          q.args? (.ofVersion v) settings d.path = some args ∧
          l.toolbox.host.ran program args settings.cwd d.toolInput = .ok result ∧
          q.endsWell result.code = true ∧ q.read (.ofVersion v) settings d result = .ok (some x)) ∧
    (program.isAbsolute = true → l.LeadsToOne d.path) ∧
    (l.LeadsToOne d.path → ∀ v dir, Passes l q d v →
      l.toolbox.host.startDirectory? settings.cwd = some dir →
      l.toolbox.host.statedVersionIn settings.cwd program = .ok v) := by
  intro l settings program answered
  have hfaithful : l.capabilities.Faithful :=
    faithful_afterAll CapabilityCache.faithful_empty calls
  have hends : EndsAfter l q d answered.1 answered.2 := by
    have hconduct := ends_conduct q d hcurrent hfaithful l rfl
    rw [← Purpose.ask_eq_conduct] at hconduct
    exact hconduct
  obtain ⟨asides, sent, hruns, hasides, hend⟩ := hends
  refine ⟨⟨asides, sent, hruns, hasides, hend, ?_⟩, leadsToOne_of_isAbsolute, ?_⟩
  · intro x hx
    rw [hx] at hend
    exact hend.of_some
  · intro hone v dir hpasses hdir
    exact hpasses.started hone hdir

/-- A tool that states one version and finds one thing in everything that it is given. -/
def stating (version : String) : Program := fun call =>
  if call.args = ["--version"] then ⟨Utf8.encode version.toList, [], some 0, false⟩
  else ⟨Utf8.encode "[[null,\"m\",[1,1],[1,2]]]".toList, [], some 1, true⟩

/-- A machine with a tool below the directory of the server and an old one below a folder. -/
def twoTools : Toolbox :=
  let tool (version : String) : Node := .file ⟨0, true, some (stating version)⟩
  .ofHost ⟨⟨⟨[(["s"], .directory), (["s", "ruff"], tool "0.5.0"),
    (["w"], .directory), (["w", "ruff"], tool "0.0.100")]⟩⟩, .empty, ["s"]⟩ none none

def relativeLayer : UserSettings :=
  { UserSettings.empty with
    workspace := some "/w"
    path := some ["./ruff"]
    ignoreStandardLibrary := some false }

def folderText : Document :=
  .text ⟨"file", some "", .segments ["w", "a.py"], none, none⟩ ⟨"/w/a.py"⟩ "x" none

def earlierCalls : List Call :=
  [.configure none [relativeLayer] ⟨"/s"⟩, .ask (.format none) folderText]

theorem relativePath_unchecked :
    let l := (ofToolbox twoTools).afterAll earlierCalls
    let program := l.programFor folderText.path
    let cwd := (l.settingsFor folderText.path).cwd
    let answered := (Purpose.lint.ask folderText).run.run l
    l.toolbox.Current program ∧ l.toolbox.keptVersion? program = some (.release 0 5 0) ∧
    (∃ v asides r, answered.2.toolbox.runs = l.toolbox.runs ++ asides ++ [r] ∧
      Passes l .lint folderText v) ∧
    l.toolbox.host.statedVersionIn cwd program = .ok (.release 0 0 100) ∧
    Operation.lint.requirement.contains (.release 0 0 100) = false ∧
    ¬ l.LeadsToOne folderText.path := by
  dsimp only
  generalize hl : (ofToolbox twoTools).afterAll earlierCalls = l
  have hkept : l.toolbox.keptVersion? (l.programFor folderText.path) = some (.release 0 5 0) := by
    rw [← hl]
    decide +kernel
  have hcurrent : l.toolbox.Current (l.programFor folderText.path) := by
    intro v hv
    obtain rfl := Option.some.inj (hkept.symm.trans hv)
    rw [← hl]
    exact Except.eq_ok_of_toOption (by decide +kernel)
  have hold : l.toolbox.host.statedVersionIn (l.settingsFor folderText.path).cwd
      (l.programFor folderText.path) = .ok (.release 0 0 100) := by
    rw [← hl]
    exact Except.eq_ok_of_toOption (by decide +kernel)
  have hrefused : Operation.lint.requirement.contains (.release 0 0 100) = false := by
    decide +kernel
  have hdir : l.toolbox.host.startDirectory? (l.settingsFor folderText.path).cwd = some ["w"] := by
    rw [← hl]
    decide +kernel
  have hfound : (((Purpose.lint.ask folderText).run.run l).1.toOption.bind id).isSome = true := by
    rw [← hl]
    decide +kernel
  have hon : Purpose.lint.isOff (l.settingsFor folderText.path) = false := by
    rw [← hl]
    decide +kernel
  have hgates := sent_through_gates twoTools earlierCalls .lint folderText (hl ▸ hcurrent)
  rw [hl] at hgates
  obtain ⟨⟨asides, sent, hruns, -, -, hsome⟩, -, hstated⟩ := hgates
  obtain ⟨found, hanswer⟩ := Option.isSome_iff_exists.1 hfound
  obtain ⟨_, hanswer, rfl⟩ := Option.bind_eq_some_iff.1 hanswer
  rcases hsome found (Except.eq_ok_of_toOption hanswer) with
    ⟨hoff, -⟩ | ⟨v, args, r, result, rfl, hpasses, -⟩
  · cases hon.symm.trans hoff
  · refine ⟨hcurrent, hkept, ⟨v, asides, r, hruns, hpasses⟩, hold, hrefused, ?_⟩
    intro hone
    have hsame := (hstated hone v ["w"] hpasses hdir).symm.trans hold
    have hsupported := hpasses.supported
    rw [Except.ok.inj hsame] at hsupported
    cases hrefused.symm.trans hsupported

end Linter
end LintBridge
