import LintBridge.Proofs.Linter.Learning
import LintBridge.Proofs.Partial
import LintBridge.Proofs.Session.Asides

/-!
Edits that an editor asks for later.

A source action may be offered without its edit, which is then worked out when the action comes
back. `deferred_eq_eager_iff` compares that edit with the one that the same session would have put
into the action at once: both are the answer of the linter about one document, and the linter does
not answer otherwise for what it has learned in between. But whether the action is enabled is asked
of the settings of the name that the action carries. For a text this is the name of its file; a
cell goes by a name of its own, while its settings are those of its notebook.
-/

namespace LintBridge

/-- A URL is in normal form if, once written, it is read as itself. -/
def Url.IsNormal (u : Url) : Prop := Url.ofString? u.render = some u

instance (u : Url) : Decidable u.IsNormal := inferInstanceAs (Decidable (_ = _))

namespace Session

/-- The actions that an editor which does or does not ask for edits later is offered, and the
session after that. -/
def offering? (s : Session) (resolves : Bool) (r : ActionRequest) :
    Option (List CodeAction × Session) :=
  ((codeActions r).run { s with resolvesEdits := resolves }).map fun (actions, after) =>
    (actions.getD [], after)

/-- An action as it comes back to an editor that asks for edits later. -/
def deferred? (s : Session) (r : ActionRequest) (a : CodeAction) : Option CodeAction :=
  (s.offering? true r).bind fun (_, after) => ((resolve a).run after).map Prod.fst

/-- The edit of the action of a kind, if there is one, as it is offered to an editor that does not
ask later. -/
def eagerEdit? (s : Session) (r : ActionRequest) (kind : Option ActionKind) :
    Option (Option WorkspaceEdit) :=
  (s.offering? false r).map fun (actions, _) =>
    (actions.find? fun a => a.kind = kind).bind CodeAction.edit

/-- The edit of a source action as it would be worked out now. -/
def editNow (s : Session) (action : SourceAction) (uri : Url) : Option WorkspaceEdit :=
  ((sourceEdit action action.kind uri).run s).bind Prod.fst

def enables (s : Session) (uri : Url) (action : SourceAction) : Bool :=
  (s.settingsFor? uri).any action.isEnabled

/-- The place where the settings of a document lead to the tool. -/
def programFor (s : Session) (uri : Url) : Path :=
  (s.documents.cellOrText? uri).elim ⟨""⟩ fun d => s.linter.programFor d.path

/-! ## Sessions that answer alike -/

/-- A session has the documents, the stage and the policy of another one, asks or does not ask for
edits later, and its linter answers as the other one does. -/
structure Alike (p : Path) (resolves : Bool) (s other : Session) : Prop where
  documents : other.documents = s.documents
  lifecycle : other.lifecycle = s.lifecycle
  policy : other.policy = s.policy
  resolvesEdits : other.resolvesEdits = resolves
  linter : Linter.Alike p s.linter other.linter

theorem alike_resolves (p : Path) (resolves : Bool) (s : Session) :
    Alike p resolves s { s with resolvesEdits := resolves } :=
  ⟨rfl, rfl, rfl, rfl, Linter.Alike.refl p s.linter⟩

section

variable {p : Path} {resolves : Bool} {s : Session}

theorem answers_onLinter {α : Type} {action : StateM Linter α} {a : α}
    (h : Answers (Linter.Alike p s.linter) action a) :
    Answers (Alike p resolves s) (onLinter action) a := by
  intro other hother
  obtain ⟨hanswer, halike⟩ := h other.linter hother.linter
  exact ⟨hanswer, hother.documents, hother.lifecycle, hother.policy, hother.resolvesEdits, halike⟩

theorem hears_alike : Hears (fun _ => True) (Alike p resolves s) :=
  fun _ _ _ h => ⟨h.documents, h.lifecycle, h.policy, h.resolvesEdits, h.linter⟩

theorem answers_requestEdits (operation : Operation) {r : Request (Option (List DocumentEdit))}
    {x : Except Failure (Option (List DocumentEdit))}
    (h : Answers (Linter.Alike p s.linter) r.run (x.mapError .failed)) :
    Answers (Alike p resolves s) (requestEdits operation r) x.toOption.join := by
  have hrequest : Answers (Alike p resolves s) (request r) x := by
    refine (answers_onLinter h).bind ?_
    cases x <;> exact Answers.pure _
  refine hrequest.bind ?_
  cases x with
  | ok edits => exact Answers.pure edits
  | error failure =>
    have hreport : Answers (Alike p resolves s) (report operation failure) () :=
      hears_alike.report (fun _ _ => trivial) (fun _ _ => trivial) operation failure
    exact hreport.bind (Answers.pure none)

end

/-- The edits that a source action makes of a document are the same in all sessions that are
alike. -/
theorem exists_answers_sourceEdits (s : Session) (action : SourceAction) (d : Document) :
    ∃ edits, ∀ resolves,
      Answers (Alike (s.linter.programFor d.path) resolves s) (sourceEdits action d) edits := by
  cases action with
  | organizeImports =>
    obtain ⟨x, hx⟩ := Linter.answers_fix s.linter d (some Linter.importRule)
    exact ⟨_, fun _ => answers_requestEdits _ hx⟩
  | fixAll =>
    obtain ⟨x, hx⟩ := Linter.answers_fix s.linter d none
    exact ⟨_, fun _ => answers_requestEdits _ hx⟩

theorem Alike.isShuttingDown {p : Path} {resolves : Bool} {s other : Session}
    (h : Alike p resolves s other) : other.isShuttingDown = s.isShuttingDown := by
  rw [Session.isShuttingDown, h.lifecycle, Session.isShuttingDown]

theorem Alike.target? {p : Path} {resolves : Bool} {s other : Session}
    (h : Alike p resolves s other) (kind : ActionKind) (uri : Url) :
    other.target? kind uri = s.target? kind uri := by
  rw [Session.target?, h.documents, Session.target?]

theorem Alike.settingsFor? {p : Path} {resolves : Bool} {s other : Session}
    (h : Alike p resolves s other) (uri : Url) : other.settingsFor? uri = s.settingsFor? uri := by
  have hregistry := h.linter.registry
  have hsettings : other.linter.settingsFor = s.linter.settingsFor := by
    funext file
    rw [Linter.settingsFor, hregistry, Linter.settingsFor]
  rw [Session.settingsFor?, hsettings, Session.settingsFor?]

theorem Alike.diagnosticActions? {p : Path} {resolves : Bool} {s other : Session}
    (h : Alike p resolves s other) (settings : WorkspaceSettings) (r : ActionRequest)
    (version : Option Int) (own : List Diagnostic) :
    other.diagnosticActions? settings r version own =
      s.diagnosticActions? settings r version own := by
  rw [Session.diagnosticActions?, h.documents, Session.diagnosticActions?]

theorem answers_sourceEdit (s : Session) (action : SourceAction) (uri : Url) (resolves : Bool) :
    Answers (Alike (s.programFor uri) resolves s) (sourceEdit action action.kind uri)
      (s.editNow action uri) := by
  have htarget : s.target? action.kind uri = s.documents.cellOrText? uri := by
    cases action <;> rfl
  have hedit : ∃ edit, ∀ resolves, Answers (Alike (s.programFor uri) resolves s)
      (sourceEdit action action.kind uri) edit := by
    cases hdown : s.isShuttingDown with
    | true =>
      refine ⟨none, fun resolves => .get_bind fun other h => ?_⟩
      rw [h.isShuttingDown, hdown]
      exact Answers.pure none
    | false =>
      cases hd : s.documents.cellOrText? uri with
      | none =>
        refine ⟨none, fun resolves => .get_bind fun other h => ?_⟩
        rw [h.isShuttingDown, hdown, h.target?, htarget, hd]
        exact Answers.pure none
      | some d =>
        obtain ⟨edits, hedits⟩ := exists_answers_sourceEdits s action d
        refine ⟨edits.map WorkspaceEdit.ofDocumentEdits, fun resolves =>
          .get_bind fun other h => ?_⟩
        rw [programFor, hd] at h ⊢
        rw [h.isShuttingDown, hdown, h.target?, htarget, hd]
        exact (hedits resolves).bind (Answers.pure _)
  obtain ⟨edit, hedit⟩ := hedit
  obtain ⟨_, hnow, -⟩ := (hedit s.resolvesEdits).exists_run (alike_resolves _ s.resolvesEdits s)
  have hsame : s.editNow action uri = edit := by
    rw [editNow]
    exact congrArg (Option.bind · Prod.fst) hnow
  rw [hsame]
  exact hedit resolves

/-- A source action comes to an edit or to none, for whatever document. -/
theorem exists_sourceEdit (s : Session) (action : SourceAction) (kind : ActionKind) (uri : Url) :
    ∃ edit t, (sourceEdit action kind uri).run s = some (edit, t) := by
  unfold sourceEdit
  rw [run_get_bind]
  split
  · exact ⟨none, s, rfl⟩
  · split
    · exact ⟨none, s, rfl⟩
    · next d _ =>
      obtain ⟨edits, hedits⟩ := exists_answers_sourceEdits s action d
      obtain ⟨t, hrun, -⟩ :=
        (hedits s.resolvesEdits).exists_run (alike_resolves _ s.resolvesEdits s)
      exact ⟨_, t, run_bind_of_eq_some hrun⟩

/-! ## What is offered -/

/-- A source action as it is offered: without an edit to an editor that asks for edits later, else
with its edit, if there is one. -/
def offerOf (resolves : Bool) (uri : Url) (own : List Diagnostic)
    (edit : SourceAction → Option WorkspaceEdit) (action : SourceAction) : List CodeAction :=
  if resolves then [.source action action.kind uri none []]
  else ((edit action).map fun e =>
    .source action action.kind uri (some e) (action.resolved own)).toList

theorem answers_offer {p : Path} {resolves : Bool} {s : Session} (uri : Url)
    (own : List Diagnostic) (edit : SourceAction → Option WorkspaceEdit) (action : SourceAction)
    (h : resolves = false →
      Answers (Alike p resolves s) (sourceEdit action action.kind uri) (edit action)) :
    Answers (Alike p resolves s) (offer uri own action) (offerOf resolves uri own edit action) := by
  refine .get_bind fun other hother => ?_
  rw [hother.resolvesEdits]
  cases resolves with
  | true => exact Answers.pure _
  | false =>
    refine (h rfl).bind ?_
    cases hedit : edit action with
    | none =>
      rw [offerOf, hedit]
      exact Answers.pure _
    | some e =>
      rw [offerOf, hedit]
      exact Answers.pure _

/-- The actions for single diagnostics that a request on a document is answered with. -/
def singles? (s : Session) (r : ActionRequest) (d : Document) : Option (List CodeAction) :=
  s.diagnosticActions? (s.linter.settingsFor d.path) r d.version
    (r.diagnostics.filter Diagnostic.isOwn)

def sourcesWith (s : Session) (resolves : Bool) (r : ActionRequest) (d : Document)
    (edit : SourceAction → Option WorkspaceEdit) : List CodeAction :=
  ((offeredActions (s.linter.settingsFor d.path) r).map
    (offerOf resolves r.uri (r.diagnostics.filter Diagnostic.isOwn) edit)).flatten

/-- The actions of an answer that is not for one source action alone: those for single diagnostics,
and the source actions. -/
def offeredWith (s : Session) (resolves : Bool) (r : ActionRequest) (d : Document)
    (singles : List CodeAction) (edit : SourceAction → Option WorkspaceEdit) : List CodeAction :=
  singles ++ s.sourcesWith resolves r d edit

/-- An answer with some actions; without any there is none. -/
def answerOf (actions : List CodeAction) : Option (List CodeAction) :=
  if actions.isEmpty then none else some actions

theorem getD_answerOf (actions : List CodeAction) : (answerOf actions).getD [] = actions := by
  cases actions <;> rfl

theorem answers_actionsFor {p : Path} {resolves : Bool} {s : Session} (r : ActionRequest)
    (d : Document) (singles : List CodeAction) (edit : SourceAction → Option WorkspaceEdit)
    (hsingles : s.singles? r d = some singles)
    (hedit : ∀ action, resolves = false →
      Answers (Alike p resolves s) (sourceEdit action action.kind r.uri) (edit action))
    (halone : exclusiveAction? (s.linter.settingsFor d.path) r = none) :
    Answers (Alike p resolves s) (actionsFor (s.linter.settingsFor d.path) r d)
      (answerOf (s.offeredWith resolves r d singles edit)) := by
  unfold actionsFor
  dsimp only
  rw [halone]
  refine .get_bind fun other hother => ?_
  rw [hother.diagnosticActions?, ← singles?, hsingles]
  have hoffered : Answers (Alike p resolves s) _ _ :=
    Answers.mapM (offeredActions (s.linter.settingsFor d.path) r) fun action _ =>
      answers_offer r.uri (r.diagnostics.filter Diagnostic.isOwn) edit action (hedit action)
  exact Answers.bind (Answers.pure singles) (hoffered.bind (Answers.pure _))

theorem exists_singles_of_run {s u t : Session} {r : ActionRequest} {d : Document}
    {answer : Option (List CodeAction)}
    (halone : exclusiveAction? (s.linter.settingsFor d.path) r = none)
    (h : (actionsFor (s.linter.settingsFor d.path) r d).run u = some (answer, t))
    (hdocuments : u.documents = s.documents) : ∃ singles, s.singles? r d = some singles := by
  rw [actionsFor, halone] at h
  dsimp only at h
  rw [run_get_bind, diagnosticActions?, hdocuments, ← diagnosticActions?, ← singles?] at h
  obtain ⟨found, v, hfound, -⟩ := run_bind_eq_some.1 h
  cases hsingles : s.singles? r d with
  | none =>
    rw [hsingles] at hfound
    cases hfound
  | some singles => exact ⟨singles, rfl⟩

theorem edit_of_eagerAction {s t : Session} {action : SourceAction} {kind : ActionKind} {uri : Url}
    {own : List Diagnostic} {actions : List CodeAction}
    (h : (eagerAction action kind uri own).run s = some (actions, t)) :
    ∀ a ∈ actions, a.edit ≠ none := by
  obtain ⟨edit, u, -, hactions⟩ := run_bind_eq_some.1 h
  cases edit with
  | none =>
    cases hactions
    intro a ha
    cases ha
  | some e =>
    cases hactions
    intro a ha hnone
    obtain rfl := List.mem_singleton.1 ha
    cases hnone

theorem mem_singles {s : Session} {r : ActionRequest} {d : Document} {singles : List CodeAction}
    (h : s.singles? r d = some singles) :
    ∀ a ∈ singles, a.edit ≠ none ∧ a.kind = some .quickFix := by
  intro a ha
  have hform : ∃ title uri edit d, a = .forDiagnostic title uri edit d := by
    rw [singles?, diagnosticActions?] at h
    split at h
    · obtain ⟨mending, hmending, h⟩ := Option.bind_eq_some_iff.1 h
      obtain ⟨suppressing, hsuppressing, h⟩ := Option.bind_eq_some_iff.1 h
      obtain rfl := Option.some.inj h
      rcases List.mem_append.1 ha with ha | ha
      · split at hmending
        · obtain ⟨fixed, -, hmade⟩ := exists_of_mem_mapM _ _ hmending a ha
          obtain ⟨edit, -, hmade⟩ := Option.bind_eq_some_iff.1 hmade
          exact ⟨_, _, _, _, (Option.some.inj hmade).symm⟩
        · cases hmending
          cases ha
      · split at hsuppressing
        · unfold CodeAction.suppressions? at hsuppressing
          split at hsuppressing
          · cases hsuppressing
            cases ha
          · obtain ⟨fixed, -, hmade⟩ := exists_of_mem_mapM _ _ hsuppressing a ha
            obtain ⟨edit, -, hmade⟩ := Option.bind_eq_some_iff.1 hmade
            exact ⟨_, _, _, _, (Option.some.inj hmade).symm⟩
        · cases hsuppressing
          cases ha
    · cases h
      cases ha
  obtain ⟨title, uri, edit, d, rfl⟩ := hform
  refine ⟨?_, rfl⟩
  intro hnone
  cases hnone

theorem kind_injective {action other : SourceAction} (h : action.kind = other.kind) :
    action = other := by
  cases action <;> cases other <;> first | rfl | exact absurd h (by decide)

theorem kind_ne_quickFix (action : SourceAction) : action.kind ≠ .quickFix := by
  cases action <;> decide

/-- Among the source actions that are offered, the one of a kind has the edit of that action. -/
theorem find?_offerOf (uri : Url) (own : List Diagnostic)
    (edit : SourceAction → Option WorkspaceEdit) (action : SourceAction)
    (actions : List SourceAction) :
    (((actions.map (offerOf false uri own edit)).flatten.find? fun a =>
        a.kind = some action.kind).bind CodeAction.edit) =
      if action ∈ actions then edit action else none := by
  induction actions with
  | nil => rfl
  | cons other rest ih =>
    rw [List.map_cons, List.flatten_cons, List.find?_append]
    by_cases hsame : other = action
    · subst hsame
      rw [if_pos List.mem_cons_self]
      cases hedit : edit other with
      | some e => simp [offerOf, hedit, CodeAction.source]
      | none =>
        rw [hedit, ite_self] at ih
        simpa [offerOf, hedit] using ih
    · have hkind : other.kind ≠ action.kind := fun h => hsame (kind_injective h)
      have hhead : (offerOf false uri own edit other).find? (fun a => a.kind = some action.kind) =
          none := by
        cases hedit : edit other <;> simp [offerOf, hedit, CodeAction.source, hkind]
      rw [hhead, Option.none_or, ih]
      simp [Ne.symm hsame]

/-! ## Later and at once -/

/-- A request for actions on an open document first finds out whether the document is left alone. -/
theorem codeActions_run (s : Session) (r : ActionRequest) (d : Document)
    (hd : s.documents.cellOrText? r.uri = some d) :
    (codeActions r).run s =
      let settings := s.linter.settingsFor d.path
      let skipped := (Linter.isSkipped d.path settings).run s.linter
      if skipped.1 then some (none, { s with linter := skipped.2 })
      else (actionsFor settings r d).run { s with linter := skipped.2 } := by
  rw [codeActions, run_get_bind, hd]
  dsimp only
  rw [run_bind_of_eq_some (onLinter_run _ s)]
  split
  · rfl
  · rfl

/-- To find out whether a document is left alone teaches the linter nothing about any version. -/
theorem alike_isSkipped (p : Path) (resolves : Bool) (s : Session) (file : Path) :
    Alike p resolves s { s with
      resolvesEdits := resolves
      linter := ((Linter.isSkipped file (s.linter.settingsFor file)).run s.linter).2 } := by
  obtain ⟨_, hsettled⟩ := Linter.settled_isSkipped (p := p) (l := s.linter) file
    (s.linter.settingsFor file)
  exact ⟨rfl, rfl, rfl, rfl, (hsettled s.linter (Linter.Alike.refl p s.linter)).2⟩

/-- The answer to a request for actions on a document that is not left alone, if the request is not
for one source action alone. What is learned is nothing about any version, if no edits are worked
out. -/
theorem codeActions_answer (s : Session) (resolves : Bool) (r : ActionRequest) (d : Document)
    (singles : List CodeAction) (hd : s.documents.cellOrText? r.uri = some d)
    (hskipped : ((Linter.isSkipped d.path (s.linter.settingsFor d.path)).run s.linter).1 = false)
    (halone : exclusiveAction? (s.linter.settingsFor d.path) r = none)
    (hsingles : s.singles? r d = some singles) :
    ∃ t, (codeActions r).run { s with resolvesEdits := resolves } =
        some (answerOf (s.offeredWith resolves r d singles fun action =>
          s.editNow action r.uri), t) ∧
      (resolves = true → ∀ p, Alike p true s t) := by
  have hrun := codeActions_run { s with resolvesEdits := resolves } r d hd
  simp only [hskipped, Bool.false_eq_true, if_false] at hrun
  have hanswers := answers_actionsFor r d singles (fun action => s.editNow action r.uri) hsingles
    (fun action _ => answers_sourceEdit s action r.uri resolves) halone
  obtain ⟨t, hanswer, -⟩ := hanswers.exists_run (alike_isSkipped _ resolves s d.path)
  refine ⟨t, hrun.trans hanswer, ?_⟩
  rintro rfl p
  have hlearns : Answers (Alike p true s) _ _ :=
    answers_actionsFor r d singles (fun action => s.editNow action r.uri) hsingles
      (fun _ hfalse => nomatch hfalse) halone
  exact (Leads.of_answers hlearns).of_run (alike_isSkipped p true s d.path) hanswer

/-- An action without an edit is offered on an open document that is not left alone, in an answer
that is not for one source action alone. To offer actions without edits teaches the linter nothing
about any version. -/
theorem exists_offer (s after : Session) (r : ActionRequest) (offered : List CodeAction)
    (hoffered : s.offering? true r = some (offered, after)) (a : CodeAction) (ha : a ∈ offered)
    (hedit : a.edit = none) :
    ∃ d singles, s.documents.cellOrText? r.uri = some d ∧ s.singles? r d = some singles ∧
      (∀ p, Alike p true s after) ∧
      ∀ resolves, ∃ t, s.offering? resolves r =
        some (s.offeredWith resolves r d singles fun action => s.editNow action r.uri, t) := by
  obtain ⟨⟨answer, _⟩, hrun, hanswered⟩ := Option.map_eq_some_iff.1 hoffered
  cases hanswered
  cases hd : s.documents.cellOrText? r.uri with
  | none =>
    rw [codeActions, run_get_bind, hd] at hrun
    cases hrun
    cases ha
  | some d =>
    have hsteps := (codeActions_run { s with resolvesEdits := true } r d hd).symm.trans hrun
    dsimp only at hsteps
    cases hskipped : ((Linter.isSkipped d.path (s.linter.settingsFor d.path)).run s.linter).1 with
    | true =>
      rw [hskipped, if_pos rfl] at hsteps
      cases hsteps
      cases ha
    | false =>
      rw [hskipped, if_neg Bool.false_ne_true] at hsteps
      cases halone : exclusiveAction? (s.linter.settingsFor d.path) r with
      | some found =>
        obtain ⟨action, kind⟩ := found
        rw [actionsFor, halone] at hsteps
        obtain ⟨actions, t, heager, hsteps⟩ := run_bind_eq_some.1 hsteps
        cases hsteps
        exact absurd hedit (edit_of_eagerAction heager a ha)
      | none =>
        obtain ⟨singles, hsingles⟩ := exists_singles_of_run (s := s) halone hsteps rfl
        have hanswer (resolves) :=
          codeActions_answer s resolves r d singles hd hskipped halone hsingles
        refine ⟨d, singles, rfl, hsingles, ?_, fun resolves => ?_⟩
        · obtain ⟨t, hanswered, halike⟩ := hanswer true
          cases hrun.symm.trans hanswered
          exact halike rfl
        · obtain ⟨t, hanswered, -⟩ := hanswer resolves
          refine ⟨t, ?_⟩
          rw [offering?, hanswered, Option.map_some]
          dsimp only
          rw [getD_answerOf]

/-- A source action that comes back is given its edit if it names a document whose settings enable
it. -/
theorem resolve_source {s t : Session} (h : ∀ p, Alike p true s t) (action : SourceAction)
    (uri : Url) (own : List Diagnostic) :
    ∃ u, (resolve (.source action action.kind uri none own)).run t =
      some (.source action action.kind uri
        ((CodeAction.source action action.kind uri none own).uri?.bind fun uri =>
          if s.enables uri action then s.editNow action uri else none) own, u) := by
  have hkind : SourceAction.ofKind? action.kind = some action := by
    cases action <;> decide
  cases hname : (CodeAction.source action action.kind uri none own).uri? with
  | none =>
    have hsource : sourceOf? (.source action action.kind uri none own) = none := by
      rw [sourceOf?, hname]
      rfl
    rw [resolve, hsource]
    exact ⟨t, rfl⟩
  | some name =>
    have hsource : sourceOf? (.source action action.kind uri none own) =
        some (action, action.kind, name) := by
      rw [sourceOf?, hname, Option.bind_eq_bind, Option.bind_some]
      show (SourceAction.ofKind? action.kind).bind _ = _
      rw [hkind]
      rfl
    rw [resolve, hsource]
    dsimp only
    rw [run_get_bind, (h (s.programFor name)).settingsFor?, Option.bind_some, enables]
    cases s.settingsFor? name with
    | none => exact ⟨t, rfl⟩
    | some settings =>
      cases henabled : action.isEnabled settings with
      | false =>
        simp only [henabled, Option.any_some]
        exact ⟨t, rfl⟩
      | true =>
        obtain ⟨u, hrun, -⟩ := (answers_sourceEdit s action name true).exists_run (h _)
        simp only [henabled, Option.any_some, if_true]
        exact ⟨u, run_bind_of_eq_some hrun⟩

/-- A source action without an edit is among those that the settings of the document enable. -/
theorem exists_source (s : Session) (r : ActionRequest) (d : Document) (singles : List CodeAction)
    (hsingles : s.singles? r d = some singles) (edit : SourceAction → Option WorkspaceEdit)
    (a : CodeAction) (ha : a ∈ s.offeredWith true r d singles edit) (hedit : a.edit = none) :
    ∃ action ∈ offeredActions (s.linter.settingsFor d.path) r,
      a = .source action action.kind r.uri none [] := by
  rcases List.mem_append.1 ha with ha | ha
  · exact absurd hedit (mem_singles hsingles a ha).1
  · obtain ⟨_, hmem, ha⟩ := List.mem_flatten.1 ha
    obtain ⟨action, haction, rfl⟩ := List.mem_map.1 hmem
    exact ⟨action, haction, List.mem_singleton.1 ha⟩

theorem find?_offeredWith (s : Session) (r : ActionRequest) (d : Document)
    (singles : List CodeAction) (hsingles : s.singles? r d = some singles)
    (edit : SourceAction → Option WorkspaceEdit) (action : SourceAction)
    (haction : action ∈ offeredActions (s.linter.settingsFor d.path) r) :
    (((s.offeredWith false r d singles edit).find? fun a => a.kind = some action.kind).bind
      CodeAction.edit) = edit action := by
  have hnone : singles.find? (fun a => a.kind = some action.kind) = none := by
    rw [List.find?_eq_none]
    intro a ha hkind
    rw [(mem_singles hsingles a ha).2] at hkind
    exact kind_ne_quickFix action (Option.some.inj (of_decide_eq_true hkind)).symm
  rw [offeredWith, List.find?_append, hnone, Option.none_or, sourcesWith, find?_offerOf,
    if_pos haction]

theorem filePath?_of_text (s : Store) (uri : Url) (d : Document)
    (hd : s.cellOrText? uri = some d) (htext : s.notebookOf? uri = none) :
    uri.filePath? = some d.path := by
  have howner : s.owners.get? uri = none := htext
  rw [Store.cellOrText?, howner] at hd
  dsimp only at hd
  rw [Store.document?, howner] at hd
  dsimp only at hd
  split at hd
  · simp only [Store.notebookDocument?, Option.bind_eq_bind, Option.bind_eq_some_iff,
      Option.pure_def, Option.some.injEq] at hd
    obtain ⟨entry, -, path, hpath, rfl⟩ := hd
    exact hpath
  · simp only [Store.textDocument?, Option.bind_eq_bind, Option.bind_eq_some_iff,
      Option.pure_def, Option.some.injEq] at hd
    obtain ⟨entry, -, path, hpath, rfl⟩ := hd
    exact hpath

theorem enables_of_text (s : Session) (r : ActionRequest) (d : Document) (action : SourceAction)
    (hd : s.documents.cellOrText? r.uri = some d)
    (htext : s.documents.notebookOf? r.uri = none)
    (haction : action ∈ offeredActions (s.linter.settingsFor d.path) r) :
    s.enables r.uri action = true := by
  have henabled := (List.mem_filter.1 haction).2
  rw [Bool.and_eq_true] at henabled
  rw [enables, settingsFor?, filePath?_of_text s.documents r.uri d hd htext]
  exact henabled.1

/-- A source action is given its edit at once for the name that was asked about, and later for the
name that the action carries, and then only if the settings of that name enable it. For a name that
is read as itself the two differ exactly if there is an edit at once and the settings do not enable
the action; they never differ for a text, but for a cell they may. -/
theorem deferred_eq_eager_iff (s after : Session) (r : ActionRequest) (offered : List CodeAction)
    (hoffered : s.offering? true r = some (offered, after)) (a : CodeAction) (ha : a ∈ offered)
    (hedit : a.edit = none) :
    ∃ (action : SourceAction) (eager : Option WorkspaceEdit) (later : CodeAction),
      a.kind = some action.kind ∧
      s.eagerEdit? r a.kind = some eager ∧ s.deferred? r a = some later ∧
      eager = s.editNow action r.uri ∧
      later = { a with
        edit := a.uri?.bind fun uri =>
          if s.enables uri action then s.editNow action uri else none } ∧
      (r.uri.IsNormal →
        (later.edit = eager ↔ eager = none ∨ s.enables r.uri action = true) ∧
        (s.documents.notebookOf? r.uri = none → later.edit = eager)) := by
  obtain ⟨d, singles, hd, hsingles, hlazy, hanswer⟩ :=
    exists_offer s after r offered hoffered a ha hedit
  have hmem : a ∈ s.offeredWith true r d singles fun action => s.editNow action r.uri := by
    obtain ⟨t, ht⟩ := hanswer true
    cases hoffered.symm.trans ht
    exact ha
  obtain ⟨action, haction, rfl⟩ := exists_source s r d singles hsingles _ a hmem hedit
  have heager : s.eagerEdit? r (some action.kind) = some (s.editNow action r.uri) := by
    obtain ⟨t, ht⟩ := hanswer false
    rw [eagerEdit?, ht, Option.map_some]
    exact congrArg some (find?_offeredWith s r d singles hsingles _ action haction)
  obtain ⟨u, hlater⟩ := resolve_source hlazy action r.uri []
  refine ⟨action, _, _, rfl, heager, ?_, rfl, rfl, ?_⟩
  · rw [deferred?, hoffered, Option.bind_some]
    exact congrArg (Option.map Prod.fst) hlater
  · intro hnormal
    have hname : (CodeAction.source action action.kind r.uri none []).uri? = some r.uri := hnormal
    rw [hname, Option.bind_some]
    refine ⟨?_, ?_⟩
    · cases s.enables r.uri action with
      | true => exact ⟨fun _ => .inr rfl, fun _ => rfl⟩
      | false => exact ⟨fun h => .inl h.symm, fun h => (h.resolve_right (by decide)).symm⟩
    · intro htext
      rw [enables_of_text s r d action hd htext haction]
      rfl

/-- A session with a notebook that is a file, whose cell goes by a name without a path, and a tool
that puts one text into every cell. -/
def pathlessCell : Session :=
  let notebook : Url := ⟨"file", some "", .segments ["nb.ipynb"], none, none⟩
  let cell : Url := ⟨"cell", none, .rootless "a", none, none⟩
  { ofTool (printing "[0,4,5,[[\"code\",0,[],\"x\"]]]") with
    documents := Store.empty.openNotebook notebook 1 [⟨cell, .code⟩] [⟨cell, "y", 1⟩] }

def pathlessRequest : ActionRequest :=
  ⟨⟨"cell", none, .rootless "a", none, none⟩, ⟨⟨0, 0⟩, ⟨0, 0⟩⟩, [], none⟩

theorem pathlessCell_deferred :
    pathlessRequest.uri.IsNormal ∧
    ∃ offered after, pathlessCell.offering? true pathlessRequest = some (offered, after) ∧
      ∃ a ∈ offered, a.edit = none ∧
        ∃ eager later, pathlessCell.eagerEdit? pathlessRequest a.kind = some eager ∧
          pathlessCell.deferred? pathlessRequest a = some later ∧ later.edit ≠ eager := by
  have hnormal : pathlessRequest.uri.IsNormal := by decide +kernel
  have hoffer : ((pathlessCell.offering? true pathlessRequest).any fun offered =>
      offered.1.any fun a => a.edit.isNone && a.kind = some SourceAction.fixAll.kind) = true := by
    decide +kernel
  have heager : ((pathlessCell.eagerEdit? pathlessRequest (some SourceAction.fixAll.kind)).any
      Option.isSome) = true := by decide +kernel
  have hdisabled : ∀ action, pathlessCell.enables pathlessRequest.uri action = false := by
    intro action
    cases action <;> decide +kernel
  obtain ⟨⟨offered, after⟩, hoffered, hoffer⟩ := (Option.any_eq_true _ _).1 hoffer
  obtain ⟨a, ha, hform⟩ := List.any_eq_true.1 hoffer
  obtain ⟨hedit, hkind⟩ := Bool.and_eq_true_iff.1 hform
  rw [Option.isNone_iff_eq_none] at hedit
  obtain ⟨action, eager, later, -, hnow, hlater, -, -, hread⟩ :=
    deferred_eq_eager_iff pathlessCell after pathlessRequest offered hoffered a ha hedit
  obtain ⟨hiff, -⟩ := hread hnormal
  refine ⟨hnormal, offered, after, hoffered, a, ha, hedit, eager, later, hnow, hlater, ?_⟩
  intro hsame
  rcases hiff.1 hsame with rfl | henabled
  · rw [of_decide_eq_true hkind] at hnow
    rw [hnow] at heager
    cases heager
  · rw [hdisabled action] at henabled
    cases henabled

end Session
end LintBridge
