import LintBridge.Proofs.Linter.Learning

/-!
What a document is sent to the tool for, and the one way in which all requests do it.

Findings, fixes and formatted text are asked for by requests of their own, which repeat the same
steps: settings, libraries, executable and version, the run, its code, its output. `Purpose` names
what the requests differ in, `Purpose.conduct` is the sequence of steps with these differences as
parameters, and `Purpose.ask_eq_conduct` says that each request is its case of it. The steps up to
the end of the run are its `Purpose.trial`, and `Purpose.ask_of_trial` says that the answer depends
on nothing but what came of that run.
-/

namespace LintBridge

open Linter

/-- What a document is sent to the tool for. -/
inductive Purpose where
  | lint
  | fix (only : Option String)
  | format (range : Option Range)
  deriving DecidableEq, Repr

namespace Purpose

/-- What is answered, if anything is. -/
abbrev Reply : Purpose → Type
  | .lint => List Finding
  | .fix _ => List DocumentEdit
  | .format _ => List DocumentEdit

/-- The request for a document. -/
def ask (d : Document) : (q : Purpose) → Request (Option q.Reply)
  | .lint => Linter.lint d
  | .fix only => Linter.fix d only
  | .format range => Linter.format d range

def operation : Purpose → Operation
  | .lint => .lint
  | .fix only => if only.isSome then .organizeImports else .fix
  | .format range => if range.isSome then .rangeFormat else .format

def range? : Purpose → Option Range
  | .format range => range
  | _ => none

def isOff (settings : WorkspaceSettings) : Purpose → Bool
  | .lint => settings.lintEnabled = false
  | _ => false

def blank : (q : Purpose) → Option q.Reply
  | .lint => some []
  | .fix _ => none
  | .format _ => none

/-- The arguments that the tool is started with. There are none for a range that cannot be named. -/
def args? (c : Capabilities) (settings : WorkspaceSettings) (file : Path) :
    Purpose → Option (List String)
  | .lint => CommandLine.check c settings.lintArgs [] none file
  | .fix only => CommandLine.check c settings.lintArgs ["--fix"] only file
  | .format range => CommandLine.format? settings.formatArgs file range

/-- Whether a version of the tool is given a document: a range has to be of a text, and the version
has to read documents of the kind. -/
def admits (q : Purpose) (c : Capabilities) (d : Document) : Bool :=
  !(q.range?.isSome && !d.isText) && accepts c d

/-- Refuses a run that did not end in order. -/
def requireCode (r : RunResult) : Purpose → Except Failure Unit
  | .lint | .fix _ => requireCheckCode r
  | .format _ => requireFormatCode r

def read (c : Capabilities) (settings : WorkspaceSettings) (d : Document) (r : RunResult) :
    (q : Purpose) → Except Stop (Option q.Reply)
  | .lint => (Finding.ofOctets c settings.showSyntaxErrors r.stdout).map some
  | .fix _ => (d.editsOf r.stdout).mapError .failed
  | .format _ => (d.editsOf r.stdout).mapError .failed

/-- What is answered after a run. -/
def answerTo (q : Purpose) (c : Capabilities) (settings : WorkspaceSettings) (d : Document)
    (r : RunResult) : Except Stop (Option q.Reply) :=
  ((q.requireCode r).mapError .failed).bind fun _ => q.read c settings d r

/-- Whether a run with a code ended in order. -/
def endsWell (q : Purpose) (code : Int) : Bool :=
  match q with
  | .lint | .fix _ => code = 0 ∨ code = 1
  | .format _ => code = 0

theorem requireCode_eq (q : Purpose) (r : RunResult) :
    q.requireCode r =
      if q.endsWell r.code then .ok ()
      else .error (.toolFailed r.code (String.ofList r.stderrText)) := by
  cases q <;> simp only [requireCode, requireCheckCode, requireFormatCode, endsWell,
    decide_eq_true_eq]

/-- Only the output of a run that ended in order is read. -/
theorem answerTo_cases (q : Purpose) (c : Capabilities) (settings : WorkspaceSettings)
    (d : Document) (r : RunResult) :
    (q.endsWell r.code = true ∧ q.answerTo c settings d r = q.read c settings d r) ∨
      (q.endsWell r.code = false ∧ q.answerTo c settings d r =
        .error (.failed (.toolFailed r.code (String.ofList r.stderrText)))) := by
  rw [answerTo, requireCode_eq]
  cases hwell : q.endsWell r.code with
  | true => exact .inl ⟨rfl, rfl⟩
  | false => exact .inr ⟨rfl, rfl⟩

/-- The steps of a request for a document. -/
def conduct (d : Document) (q : Purpose) : Request (Option q.Reply) := do
  let settings := (← get).settingsFor d.path
  if q.isOff settings = true then return q.blank
  else if ← isSkipped d.path settings then return none
  else
    let (program, c) ← executable settings q.operation
    if q.admits c d then
      let args ← orOverflow (q.args? c settings d.path)
      let result ← runOn program args settings d
      q.answerTo c settings d result
    else return none

/-- After a run, its code is looked at before its output. -/
theorem liftM_answerTo (q : Purpose) (c : Capabilities) (settings : WorkspaceSettings)
    (d : Document) (r : RunResult) :
    (liftM (q.answerTo c settings d r) : Request (Option q.Reply)) =
      liftM (q.requireCode r) >>= fun _ => liftM (q.read c settings d r) := by
  rw [answerTo]
  cases q.requireCode r <;> rfl

theorem liftM_read_lint (c : Capabilities) (settings : WorkspaceSettings) (d : Document)
    (r : RunResult) :
    (liftM (read c settings d r .lint) : Request (Option (List Finding))) =
      liftM (Finding.ofOctets c settings.showSyntaxErrors r.stdout) >>= fun found =>
        Pure.pure (some found) := by
  rw [read]
  cases Finding.ofOctets c settings.showSyntaxErrors r.stdout <;> rfl

/-- Every request takes these steps. -/
theorem ask_eq_conduct (d : Document) (q : Purpose) : q.ask d = q.conduct d := by
  unfold conduct
  simp only [liftM_answerTo]
  cases q with
  | lint =>
    simp only [liftM_read_lint, isOff, decide_eq_true_eq]
    rfl
  | fix only => rfl
  | format range =>
    -- A range of a notebook is refused before the version is looked at; both refuse alike.
    show Linter.format d range = _
    unfold Linter.format
    refine bind_congr fun l => ?_
    refine bind_congr fun skipped => ?_
    cases skipped with
    | true => rfl
    | false =>
      refine bind_congr fun (program, c) => ?_
      cases hrange : range.isSome && !d.isText with
      | true => simp [admits, range?, hrange]
      | false => simp [admits, range?, hrange]; rfl

/-! ## The run and the answer -/

/-- The steps of a request under some settings up to the end of the run for the document, with the
capabilities of the version that was run. No run is made for a document that is left alone. -/
def trial (settings : WorkspaceSettings) (d : Document) (q : Purpose) :
    Request (Option (Capabilities × RunResult)) := do
  if ← isSkipped d.path settings then return none
  else
    let (program, c) ← executable settings q.operation
    if q.admits c d then
      let args ← orOverflow (q.args? c settings d.path)
      let result ← runOn program args settings d
      return some (c, result)
    else return none

/-- What is answered when the run has ended, if one was made. -/
def answerAfter (q : Purpose) (settings : WorkspaceSettings) (d : Document) :
    Option (Capabilities × RunResult) → Except Stop (Option q.Reply)
  | none => .ok none
  | some (c, result) => q.answerTo c settings d result

/-- A request is switched off, or it makes its run and answers by it. -/
theorem conduct_eq_trial (d : Document) (q : Purpose) :
    q.conduct d = get >>= fun l =>
      if q.isOff (l.settingsFor d.path) = true then Pure.pure q.blank
      else q.trial (l.settingsFor d.path) d >>= fun ran =>
        liftM (q.answerAfter (l.settingsFor d.path) d ran) := by
  refine bind_congr fun l => ?_
  dsimp only
  split
  · rfl
  · rw [trial, bind_assoc]
    refine bind_congr fun skipped => ?_
    cases skipped with
    | true => rfl
    | false =>
      rw [if_neg Bool.false_ne_true, if_neg Bool.false_ne_true, bind_assoc]
      refine bind_congr fun (program, c) => ?_
      dsimp only
      split
      · simp only [bind_assoc]
        rfl
      · rfl

theorem ask_of_isOff (d : Document) (q : Purpose) (l : Linter)
    (hoff : q.isOff (l.settingsFor d.path) = true) : ((q.ask d).run.run l).1 = .ok q.blank := by
  rw [ask_eq_conduct, conduct_eq_trial, ExceptT.run_bind]
  show ((if q.isOff (l.settingsFor d.path) = true then _ else _ : Request _).run.run l).1 = _
  rw [if_pos hoff]
  rfl

/-- The answer to a request that is not switched off is that to its run. -/
theorem ask_of_trial (d : Document) (q : Purpose) (l : Linter)
    (hon : q.isOff (l.settingsFor d.path) = false) :
    ((q.ask d).run.run l).1 =
      (((q.trial (l.settingsFor d.path) d).run.run l).1).bind
        (q.answerAfter (l.settingsFor d.path) d) := by
  rw [ask_eq_conduct, conduct_eq_trial, ← run_bind_liftM, ExceptT.run_bind]
  show ((if q.isOff (l.settingsFor d.path) = true then _ else _ : Request _).run.run l).1 = _
  rw [hon]
  rfl

/-- No run is made for a file that is left alone. -/
theorem trial_of_isSkipped (settings : WorkspaceSettings) (d : Document) (q : Purpose) (l : Linter)
    (hskipped : ((isSkipped d.path settings).run l).1 = true) :
    ((q.trial settings d).run.run l).1 = .ok none := by
  have hrun : (isSkipped d.path settings).run l = (true, ((isSkipped d.path settings).run l).2) :=
    Prod.ext hskipped rfl
  rw [trial, ExceptT.run_bind]
  show ((isSkipped d.path settings >>= fun skipped =>
    ExceptT.run (if skipped = true then _ else _)).run l).1 = _
  rw [run_bind_of_run hrun]
  rfl

end Purpose

namespace Linter

/-! ## What requests leave alone -/

/-- A class of linters that is not left by what is learned about programs. -/
structure Stable (K : Linter → Prop) : Prop where
  toolbox : ∀ l toolbox, K l → K { l with toolbox }
  capabilities : ∀ l v, K l → K { l with capabilities := (l.capabilities.get v).2 }

namespace Stable

variable {K : Linter → Prop} (h : Stable K)
include h

theorem onToolbox {α : Type} (action : StateM Toolbox α) : Keeps K (onToolbox action) :=
  fun l hl => h.toolbox l _ hl

theorem askToolbox {α : Type} (action : StateM Toolbox (Except Failure α)) :
    Keeps K (askToolbox action).run :=
  fun l hl => h.toolbox l _ hl

theorem isSkipped (file : Path) (settings : WorkspaceSettings) :
    Keeps K (isSkipped file settings) := by
  rw [Linter.isSkipped]
  split
  · exact .get_bind fun _ _ => (h.onToolbox _).bind fun _ => .pure _
  · exact .pure false

theorem executable (settings : WorkspaceSettings) (operation : Operation) :
    Keeps K (executable settings operation).run := by
  refine (Leads.lift (h.onToolbox _)).except_bind fun path => ?_
  refine (h.askToolbox _).except_bind fun v => ?_
  have hcapabilities : Keeps K (capabilitiesOf v) := fun l hl => h.capabilities l v hl
  refine (Leads.lift hcapabilities).except_bind fun c => ?_
  exact Leads.except_bind (.pure _) fun _ => .pure _

theorem runOn (program : Path) (args : List String) (settings : WorkspaceSettings)
    (d : Document) : Keeps K (runOn program args settings d).run := h.askToolbox _

theorem ask (q : Purpose) (d : Document) : Keeps K (q.ask d).run := by
  rw [Purpose.ask_eq_conduct]
  refine .except_get_bind fun l _ => ?_
  dsimp only
  split
  · exact .pure _
  · refine (Leads.lift (h.isSkipped _ _)).except_bind fun skipped => ?_
    cases skipped with
    | true => exact .pure _
    | false =>
      refine (h.executable _ _).except_bind fun (program, c) => ?_
      dsimp only
      split
      · refine Leads.except_bind (.pure _) fun args => ?_
        exact Leads.except_bind (h.runOn _ _ _ _) fun _ => .pure _
      · exact .pure _

theorem explain (file : Path) (code : String) : Keeps K (explain file code).run := by
  refine .except_get_bind fun l _ => ?_
  refine (h.executable _ _).except_bind fun (program, c) => ?_
  refine (h.askToolbox _).except_bind fun result => ?_
  split <;> exact .pure _

end Stable
end Linter
end LintBridge
