import LintBridge.Proofs.Session.Withdrawn
import LintBridge.Proofs.Toolbox.Runs

/-!
A session that was shut down stays so.

After a session was shut down nothing leads back, and nothing is run but the question to the one
interpreter that counts where it keeps libraries, which a request for code actions may still ask.
The editor is told messages and empty lists of diagnostics only. `Ended kind base` collects this for
what has happened since the session `base`, with the kind of the runs made. `ended_handle` says that
the answer to any message is of this sort, and `stays_ended` that every run of messages is, with
what is answered to requests all the while.
-/

namespace LintBridge

open Json (Tree)

structure Run.IsQuestion (r : Run) : Prop where
  args : r.args = ["-c", interpreterQuestion]
  cwd : r.cwd = none
  input : r.input = none

/-- An event that shows no diagnostics and asks for no edit. -/
def Event.IsQuiet : Event → Prop
  | .publishDiagnostics _ diagnostics _ => diagnostics = []
  | .applyEdit _ => False
  | .logMessage .. | .showMessage .. => True

namespace Session

/-- A run asks the interpreter that counts for the settings of some file about itself. -/
def AsksInterpreter (s : Session) (r : Run) : Prop :=
  ∃ file i, s.linter.toolbox.interpreter? (s.linter.settingsFor file) = some i ∧
    r ∈ s.linter.toolbox.host.question? i

theorem AsksInterpreter.isQuestion {s : Session} {r : Run} (h : s.AsksInterpreter r) :
    r.IsQuestion := by
  obtain ⟨file, i, -, hr⟩ := h
  obtain ⟨found, -, rfl⟩ := Option.map_eq_some_iff.1 hr
  exact ⟨rfl, rfl, rfl⟩

/-- A session has been shut down, and since another one only runs of a kind were made and only quiet
events were told. -/
structure Ended (kind : Run → Prop) (base s : Session) : Prop where
  down : s.lifecycle = .shuttingDown
  runs : ∃ asked, s.linter.toolbox.runs = base.linter.toolbox.runs ++ asked ∧ ∀ r ∈ asked, kind r
  told : ∃ events, s.sent = base.sent ++ events ∧ ∀ e ∈ events, e.IsQuiet

variable {kind : Run → Prop}

theorem Ended.refl {s : Session} (h : s.lifecycle = .shuttingDown) : Ended kind s s := by
  refine ⟨h, ⟨[], ?_, ?_⟩, ⟨[], ?_, ?_⟩⟩
  · rw [List.append_nil]
  · intro r hr
    cases hr
  · rw [List.append_nil]
  · intro e he
    cases he

theorem Ended.trans {first second : Run → Prop} {a b c : Session} (hab : Ended first a b)
    (hbc : Ended second b c) (hfirst : ∀ r, first r → kind r) (hsecond : ∀ r, second r → kind r) :
    Ended kind a c := by
  obtain ⟨asked, hasked, hfirsts⟩ := hab.runs
  obtain ⟨more, hmore, hseconds⟩ := hbc.runs
  obtain ⟨events, hevents, hquiet⟩ := hab.told
  obtain ⟨others, hothers, hquiets⟩ := hbc.told
  refine ⟨hbc.down, ⟨asked ++ more, ?_, ?_⟩, ⟨events ++ others, ?_, ?_⟩⟩
  · rw [hmore, hasked, List.append_assoc]
  · intro r hr
    rcases List.mem_append.1 hr with hr | hr
    · exact hfirst r (hfirsts r hr)
    · exact hsecond r (hseconds r hr)
  · rw [hothers, hevents, List.append_assoc]
  · intro e he
    exact (List.mem_append.1 he).elim (hquiet e) (hquiets e)

variable {base : Session}

theorem Ended.isShuttingDown {s : Session} (h : Ended kind base s) : s.isShuttingDown = true := by
  rw [Session.isShuttingDown, h.down]
  rfl

theorem hears_ended (kind : Run → Prop) (base : Session) :
    Hears Event.IsQuiet (Ended kind base) := by
  intro s e he hs
  obtain ⟨events, hsent, hquiet⟩ := hs.told
  refine ⟨hs.down, hs.runs, events ++ [e], ?_, ?_⟩
  · rw [hsent, List.append_assoc]
  · intro other hother
    rcases List.mem_append.1 hother with hold | hnew
    · exact hquiet other hold
    · rw [List.mem_singleton.1 hnew]
      exact he

/-! ## What happens to documents -/

theorem keeps_ended_documents {α : Type} (f? : Store → Option (α × Store)) :
    Keeps (Ended kind base) (tryDocuments f?) := by
  intro s hs
  rw [tryDocuments_run]
  cases f? s.documents with
  | none => trivial
  | some found => exact ⟨hs.down, hs.runs, hs.told⟩

theorem keeps_ended_clear (uris : List Url) : Keeps (Ended kind base) (clear uris) :=
  Leads.forM _ fun _ _ => .of_answers ((hears_ended kind base).sendIfConnected _ rfl)

theorem keeps_ended_lintAndPublish (uri : Url) : Keeps (Ended kind base) (lintAndPublish uri) := by
  refine .get_bind fun s hs => ?_
  rw [if_pos hs.isShuttingDown]
  exact .pure ()

theorem keeps_ended_lintAfterChange (uri : Url) :
    Keeps (Ended kind base) (lintAfterChange uri) := by
  refine .get_bind fun s _ => ?_
  split
  · split
    · exact keeps_ended_lintAndPublish uri
    · exact .pure ()
  · exact .pure ()

theorem keeps_ended_textChanged (change : TextChange) :
    Keeps (Ended kind base) (textChanged change) := by
  refine (keeps_ended_documents _).bind fun isOpen => ?_
  cases isOpen with
  | true => exact keeps_ended_lintAfterChange _
  | false => exact .pure ()

theorem keeps_ended_notebookChanged (n : NotebookChange) :
    Keeps (Ended kind base) (notebookChanged n) := by
  refine (keeps_ended_documents _).bind fun isOpen => ?_
  cases isOpen with
  | false => exact .pure ()
  | true =>
    have hcells : Keeps (Ended kind base) (n.structural.forM (changeCells n.name.uri)) := by
      cases n.structural with
      | none => exact .pure _
      | some change => exact (keeps_ended_documents _).bind fun _ => .pure _
    refine hcells.bind fun _ => (keeps_ended_documents _).bind fun _ => ?_
    refine (Leads.forM n.texts fun change _ => ?_).bind fun _ => ?_
    · exact (keeps_ended_documents _).bind fun _ => .pure _
    · exact (keeps_ended_clear _).bind fun _ => keeps_ended_lintAfterChange _

/-! ## The life of the session -/

theorem keeps_ended_applySettings (payload : SettingsPayload) :
    Keeps (Ended kind base) (applySettings payload) :=
  .modify fun _ hs => ⟨hs.down, hs.runs, hs.told⟩

/-- An editor that introduces itself once more does not set the session up again. -/
theorem keeps_ended_introduced (i : Introduction) : Keeps (Ended kind base) (introduced i) := by
  refine .bind (L := Ended kind base) (.modify fun s hs => ⟨?_, hs.runs, hs.told⟩) fun _ =>
    (keeps_ended_applySettings _).bind fun _ => .pure announcement
  show s.lifecycle.setUp.2 = .shuttingDown
  rw [hs.down]
  rfl

theorem keeps_ended_activated : Keeps (Ended kind base) activated := by
  refine .bind (L := Ended kind base) (.modify fun s hs => ⟨?_, hs.runs, hs.told⟩) fun _ =>
    .of_answers ((hears_ended kind base).send _ trivial)
  show s.lifecycle.activate = .shuttingDown
  rw [hs.down]
  rfl

theorem keeps_ended_shutDown : Keeps (Ended kind base) shutDown :=
  .modify fun _ hs => ⟨rfl, hs.runs, hs.told⟩

theorem keeps_ended_settingsChanged (value : Json) :
    Keeps (Ended kind base) (settingsChanged value) := by
  rw [settingsChanged]
  split
  · exact .pure ()
  · refine (keeps_ended_applySettings _).bind fun _ => .get_bind fun s _ => ?_
    exact Leads.forM _ fun uri _ => keeps_ended_lintAndPublish uri

/-! ## Requests -/

theorem answers_ended_sourceEdit (action : SourceAction) (form : ActionKind) (uri : Url) :
    Answers (Ended kind base) (sourceEdit action form uri) none := by
  intro s hs
  unfold sourceEdit
  rw [run_get_bind, if_pos hs.isShuttingDown]
  exact Answers.pure none s hs

theorem keeps_ended_eagerAction (action : SourceAction) (form : ActionKind) (uri : Url)
    (own : List Diagnostic) : Keeps (Ended kind base) (eagerAction action form uri own) := by
  have hnone : Answers (Ended kind base) (eagerAction action form uri own) [] :=
    (answers_ended_sourceEdit action form uri).bind (.pure [])
  exact .of_answers hnone

/-- Whether a file belongs to a library is still found out, from the interpreter that counts. -/
theorem ended_isSkipped {s : Session} (h : s.lifecycle = .shuttingDown) (file : Path) :
    Leads (· = s) (onLinter (Linter.isSkipped file (s.linter.settingsFor file)))
      (Ended s.AsksInterpreter s) := by
  intro t ht
  rw [ht]
  have hextends : Toolbox.Extends s.AsksInterpreter s.linter.toolbox
      ((Linter.isSkipped file (s.linter.settingsFor file)).run s.linter).2.toolbox := by
    unfold Linter.isSkipped
    cases (s.linter.settingsFor file).ignoreStandardLibrary with
    | false => exact .refl _ _
    | true =>
      have hasks (i : String)
          (hi : s.linter.toolbox.interpreter? (s.linter.settingsFor file) = some i) :
          ∀ r ∈ s.linter.toolbox.host.question? i, s.AsksInterpreter r :=
        fun r hr => ⟨file, i, hi, hr⟩
      exact Toolbox.keeps_libraryPaths _ hasks _ (.refl _ _)
  have hrefl : Ended s.AsksInterpreter s s := .refl h
  rw [onLinter_run]
  exact ⟨h, hextends.runs, hrefl.told⟩

theorem keeps_ended_actionsFor (settings : WorkspaceSettings) (r : ActionRequest) (d : Document) :
    Keeps (Ended kind base) (actionsFor settings r d) := by
  rw [actionsFor]
  split
  · exact (keeps_ended_eagerAction _ _ _ _).bind fun _ => .pure _
  · refine .get_bind fun s _ => (Leads.liftOption _).bind fun single => ?_
    refine (Leads.mapM _ fun action _ => ?_).bind fun _ => .pure _
    refine .get_bind fun s _ => ?_
    split
    · exact .pure _
    · exact keeps_ended_eagerAction _ _ _ _

theorem ended_codeActions {s : Session} (h : s.lifecycle = .shuttingDown) (r : ActionRequest) :
    Leads (· = s) (codeActions r) (Ended s.AsksInterpreter s) := by
  refine .get_bind fun start hstart => ?_
  subst hstart
  have hrefl : Leads (· = start) (Pure.pure none : SessionStep (Option (List CodeAction)))
      (Ended start.AsksInterpreter start) := by
    rintro _ rfl
    exact Ended.refl h
  split
  · exact hrefl
  · refine (ended_isSkipped h _).bind fun skipped => ?_
    split
    · exact .pure none
    · exact keeps_ended_actionsFor _ r _

theorem keeps_ended_resolve (a : CodeAction) : Keeps (Ended kind base) (resolve a) := by
  rw [resolve]
  split
  · exact .pure a
  · refine .get_bind fun s _ => ?_
    split
    · exact .pure a
    · split
      · exact (Leads.of_answers (answers_ended_sourceEdit _ _ _)).bind fun _ => .pure _
      · exact .pure a

theorem answers_ended_format (r : FormatRequest) : Answers (Ended kind base) (format r) none := by
  intro s hs
  unfold format
  rw [run_get_bind, if_pos hs.isShuttingDown]
  exact Answers.pure none s hs

theorem answers_ended_hover (r : HoverRequest) : Answers (Ended kind base) (hover r) none := by
  intro s hs
  unfold hover
  rw [run_get_bind]
  split
  · exact Answers.pure none s hs
  · rw [if_pos hs.isShuttingDown]
    exact Answers.pure none s hs

theorem answers_ended_runCommand (command : Command) (uri : Url) :
    Answers (Ended kind base) (runCommand command uri) () := by
  intro s hs
  unfold runCommand
  rw [run_get_bind, if_pos hs.isShuttingDown]
  exact Answers.pure () s hs

theorem answers_ended_execute (r : CommandRequest) :
    Answers (Ended kind base) (execute r) (r.target?.map fun _ => ()) := by
  unfold execute
  cases r.target? with
  | error refusal => exact .pure _
  | ok target => exact (answers_ended_runCommand target.1 target.2).bind (.pure _)

/-! ## Messages, and runs of them -/

theorem leads_read {K L : Session → Prop} (hsame : ∀ s, K s → L s) {α : Type}
    (read : Tree → Option α) (step : α → SessionStep Answer) (params : Tree)
    (h : ∀ a, Leads K (step a) L) : Leads K (answer read step params) L := by
  rw [answer]
  split
  · exact h _
  · exact hsame

/-- Whatever message is answered: only the interpreter that counts may be asked something, and only
quiet events are told. -/
theorem ended_handle {s : Session} (h : s.lifecycle = .shuttingDown) (method : String)
    (params : Tree) : Leads (· = s) (handle method params) (Ended s.AsksInterpreter s) := by
  have hsame (t : Session) (ht : t = s) : Ended s.AsksInterpreter s t := by
    rw [ht]
    exact .refl h
  have hnoted {α : Type} (read : Tree → Option α) (step : α → SessionStep Unit)
      (hstep : ∀ a, Keeps (Ended s.AsksInterpreter s) (step a)) :
      Leads (· = s) (noted read step params) (Ended s.AsksInterpreter s) :=
    leads_read hsame read _ params fun a =>
      Leads.bind (fun t ht => hstep a t (hsame t ht)) fun _ => .pure _
  have hasked {α β : Type} (read : Tree → Option α) (toJson : β → Json) (step : α → SessionStep β)
      (hstep : ∀ a, Leads (· = s) (step a) (Ended s.AsksInterpreter s)) :
      Leads (· = s) (asked read toJson step params) (Ended s.AsksInterpreter s) :=
    leads_read hsame read _ params fun a => (hstep a).bind fun _ => .pure _
  unfold handle
  split
  · exact hasked _ _ _ fun i t ht => keeps_ended_introduced i t (hsame t ht)
  · exact hnoted _ _ fun _ => keeps_ended_activated
  · exact hnoted _ _ fun _ => keeps_ended_shutDown
  · exact hnoted _ _ fun item =>
      (keeps_ended_documents _).bind fun _ => keeps_ended_lintAndPublish item.uri
  · exact hnoted _ _ keeps_ended_textChanged
  · exact hnoted _ _ keeps_ended_lintAndPublish
  · exact hnoted _ _ fun uri =>
      (keeps_ended_documents _).bind fun _ => keeps_ended_clear [uri]
  · exact hnoted _ _ fun n =>
      (keeps_ended_documents _).bind fun _ => keeps_ended_lintAndPublish n.name.uri
  · exact hnoted _ _ keeps_ended_notebookChanged
  · exact hnoted _ _ keeps_ended_lintAndPublish
  · exact hnoted _ _ fun uri => (keeps_ended_documents _).bind keeps_ended_clear
  · exact hnoted _ _ keeps_ended_settingsChanged
  · refine leads_read hsame _ _ params fun r t ht => ?_
    refine Leads.bind (Leads.of_answers (answers_ended_execute r)) (fun answer => ?_) t (hsame t ht)
    cases answer <;> exact .pure _
  · exact hasked _ _ _ fun r => ended_codeActions h r
  · exact hasked _ _ _ fun a t ht => keeps_ended_resolve a t (hsame t ht)
  · exact hasked _ _ _ fun r t ht => Leads.of_answers (answers_ended_format r) t (hsame t ht)
  · exact hasked _ _ _ fun r t ht => Leads.of_answers (answers_ended_format r) t (hsame t ht)
  · exact hasked _ _ _ fun r t ht => Leads.of_answers (answers_ended_hover r) t (hsame t ht)
  · exact hsame

theorem ended_after {s t : Session} (h : s.lifecycle = .shuttingDown) (happening : Happening)
    (ht : s.after? happening = some t) : Ended s.AsksInterpreter s t := by
  cases happening with
  | message method params =>
    obtain ⟨⟨answer, t⟩, hrun, rfl⟩ := Option.map_eq_some_iff.1 ht
    exact (ended_handle h method params).of_run rfl hrun
  | machine change =>
    obtain rfl := Option.some.inj ht
    have hrefl : Ended s.AsksInterpreter s s := .refl h
    exact ⟨h, hrefl.runs, hrefl.told⟩

/-- A run asks the interpreter that counts at some time while things happen to a session. -/
def AsksInterpreterDuring (s : Session) (happenings : List Happening) (r : Run) : Prop :=
  ∃ earlier t, earlier <+: happenings ∧ s.afterAll? earlier = some t ∧ t.AsksInterpreter r

theorem ended_afterAll {s t : Session} (h : s.lifecycle = .shuttingDown)
    (happenings : List Happening) (ht : s.afterAll? happenings = some t) :
    Ended (s.AsksInterpreterDuring happenings) s t := by
  induction happenings generalizing s with
  | nil =>
    obtain rfl := Option.some.inj ht
    exact .refl h
  | cons happening rest ih =>
    rw [afterAll?, List.foldlM_cons] at ht
    obtain ⟨next, hnext, hrest⟩ := Option.bind_eq_some_iff.1 ht
    have hstep := ended_after h happening hnext
    refine hstep.trans (ih hstep.down hrest) ?_ ?_
    · intro r hr
      exact ⟨[], s, List.nil_prefix, rfl, hr⟩
    · rintro r ⟨earlier, u, hearlier, hu, hr⟩
      refine ⟨happening :: earlier, u, List.cons_prefix_cons.2 ⟨rfl, hearlier⟩, ?_, hr⟩
      rw [afterAll?, List.foldlM_cons, hnext]
      exact hu

/-- Whatever happened before, a session is shut down when the editor asks for it. Whatever has
happened to it then: it has stayed so, nothing has been run since but questions to the interpreter
that counted at the time, the editor was told no diagnostics and no edit, and requests for formatted
text, explanations and commands are answered with nothing. -/
theorem stays_ended (s : Session) (params : Tree) :
    ∃ ended, s.after? (.message "shutdown" params) = some ended ∧
      ∀ later, ∀ now ∈ ended.afterAll? later,
        now.isShuttingDown = true ∧
        (∃ asked, now.linter.toolbox.runs = ended.linter.toolbox.runs ++ asked ∧
          ∀ r ∈ asked, r.IsQuestion ∧ ended.AsksInterpreterDuring later r) ∧
        (∃ events, now.sent = ended.sent ++ events ∧ ∀ e ∈ events, e.IsQuiet) ∧
        (∀ r, ∃ t, (format r).run now = some (none, t)) ∧
        (∀ r, ∃ t, (hover r).run now = some (none, t)) ∧
        ∀ r, ∃ t, (execute r).run now = some (r.target?.map fun _ => (), t) := by
  refine ⟨_, rfl, fun later now hnow => ?_⟩
  have hended := ended_afterAll rfl later hnow
  refine ⟨hended.isShuttingDown, ?_, hended.told, fun r => ?_, fun r => ?_, fun r => ?_⟩
  · obtain ⟨asked, hruns, hasks⟩ := hended.runs
    refine ⟨asked, hruns, fun r hr => ⟨?_, hasks r hr⟩⟩
    obtain ⟨earlier, t, -, -, hat⟩ := hasks r hr
    exact hat.isQuestion
  · obtain ⟨t, hrun, -⟩ := (answers_ended_format r).exists_run hended
    exact ⟨t, hrun⟩
  · obtain ⟨t, hrun, -⟩ := (answers_ended_hover r).exists_run hended
    exact ⟨t, hrun⟩
  · obtain ⟨t, hrun, -⟩ := (answers_ended_execute r).exists_run hended
    exact ⟨t, hrun⟩

/-- The first cell of an open notebook has a diagnostic when the session is shut down. The cell is
taken out after that: its diagnostic is withdrawn, and nothing else happens. -/
theorem shutNotebook_withdraws :
    ∃ s ended now, findingSession.afterAll? (shrinkingRun.take 2) = some s ∧
      s.after? (.message "shutdown" .null) = some ended ∧
      ended.afterAll? (shrinkingRun.drop 2) = some now ∧
      (ended.shown turnedCell).length = 1 ∧ now.shown turnedCell = [] ∧
      now.isShuttingDown = true ∧
      ∃ event, now.sent = ended.sent ++ [event] ∧ event.IsQuiet := by
  have hfacts : ((findingSession.afterAll? (shrinkingRun.take 2)).bind fun s =>
      (s.after? (.message "shutdown" .null)).bind fun ended =>
        (ended.afterAll? (shrinkingRun.drop 2)).map fun now =>
          ((ended.shown turnedCell).length, (now.shown turnedCell).length,
            now.sent.length - ended.sent.length)) = some (1, 0, 1) := by
    decide +kernel
  obtain ⟨s, hs, hfacts⟩ := Option.bind_eq_some_iff.1 hfacts
  obtain ⟨ended, hended, hfacts⟩ := Option.bind_eq_some_iff.1 hfacts
  obtain ⟨now, hnow, hfacts⟩ := Option.map_eq_some_iff.1 hfacts
  obtain ⟨hbefore, hafter⟩ := Prod.mk.inj hfacts
  obtain ⟨hwithdrawn, hone⟩ := Prod.mk.inj hafter
  obtain ⟨ended', hended', hlater⟩ := stays_ended s .null
  obtain rfl := Option.some.inj (hended.symm.trans hended')
  obtain ⟨hdown, -, ⟨events, hsent, hquiet⟩, -⟩ := hlater (shrinkingRun.drop 2) now hnow
  have hlength : events.length = 1 := by
    rw [hsent, List.length_append] at hone
    omega
  obtain ⟨event, rfl⟩ := List.length_eq_one_iff.1 hlength
  exact ⟨s, ended, now, hs, hended, hnow, hbefore, List.length_eq_zero_iff.1 hwithdrawn, hdown,
    event, hsent, hquiet event (List.mem_singleton_self event)⟩

end Session
end LintBridge
