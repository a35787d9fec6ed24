import LintBridge.Proofs.Session.Published
import LintBridge.Session.Actions
import LintBridge.Session.Requests

/-!
What an editor asks for changes neither documents nor diagnostics.

A class of sessions `Hears` events of a kind if it is not left when the editor is told one. It is
`Indifferent` if it does not matter to it what the linter knows, and what the editor is told besides
diagnostics. Reports of failures and answers to requests stay in such a class: each of them only
uses the linter and tells the editor something aside.

* `Indifferent.codeActions`, `Indifferent.resolve`, `Indifferent.format`, `Indifferent.execute`,
  `Indifferent.hover`: the requests of an editor;
* `Indifferent.report`: what is said about a failure;
* `keeps_round`: a round of linting, if what it publishes stays in the class.
-/

namespace LintBridge

def Event.IsAside (e : Event) : Prop := ∀ shown, e.show shown = shown

namespace Session

/-! ## Telling the editor -/

/-- A class of sessions is not left when the editor is told an event of a kind. -/
def Hears (kind : Event → Prop) (K : Session → Prop) : Prop :=
  ∀ s e, kind e → K s → K { s with sent := s.sent ++ [e] }

namespace Hears

variable {kind : Event → Prop} {K : Session → Prop} (h : Hears kind K)
include h

theorem send (e : Event) (he : kind e) : Answers K (send e) () :=
  fun s hs => ⟨rfl, h s e he hs⟩

theorem sendIfConnected (e : Event) (he : kind e) : Answers K (sendIfConnected e) () := by
  refine .get_bind fun s _ => ?_
  split
  · exact h.send e he
  · exact .pure ()

variable (hlogged : ∀ level text, kind (.logMessage level text))
  (hshown : ∀ level text, kind (.showMessage level text))
include hlogged hshown

theorem notice (level : MessageKind) (text : String) : Answers K (notice level text) () := by
  refine .get_bind fun s _ => ?_
  split
  · exact (h.send _ (hshown _ _)).bind (h.send _ (hlogged _ _))
  · exact h.send _ (hlogged _ _)

theorem report (operation : Operation) (failure : Failure) :
    Answers K (report operation failure) () := by
  rw [Session.report]
  split
  · exact (h.send _ (hshown _ _)).bind (h.send _ (hlogged _ _))
  · split <;> exact h.notice hlogged hshown _ _

end Hears

/-- A round of linting stays in a class of sessions if the linter, what is said about its failures,
and what is published for the document do. -/
theorem keeps_round {K : Session → Prop} (uri : Url)
    (hlint : ∀ d, Keeps K (request (Linter.lint d)))
    (hreport : ∀ failure, Keeps K (report .lint failure))
    (hpublish : ∀ s d findings, K s → s.documents.document? uri = some d →
      Keeps K (publish d findings)) : Keeps K (lintAndPublish uri) := by
  refine .get_bind fun s hs => ?_
  split
  · exact .pure ()
  · split
    · exact .pure ()
    · next d hopen =>
      refine (hlint d).bind fun answer => ?_
      cases answer with
      | ok findings => exact hpublish s d _ hs hopen
      | error failure =>
        refine (hreport failure).bind fun _ => ?_
        split
        · exact hpublish s d [] hs hopen
        · exact .pure ()

/-- A class of sessions to which only the diagnostics, the documents and the state of the session
matter. -/
structure Indifferent (K : Session → Prop) : Prop where
  linter : ∀ s linter, K s → K { s with linter }
  told : ∀ s e, e.IsAside → K s → K { s with sent := s.sent ++ [e] }

namespace Indifferent

variable {K : Session → Prop} (h : Indifferent K)
include h

/-! ## Telling and linting -/

theorem hears : Hears Event.IsAside K := h.told

theorem send (e : Event) (he : e.IsAside) : Keeps K (send e) := .of_answers (h.hears.send e he)

theorem sendIfConnected (e : Event) (he : e.IsAside) : Keeps K (sendIfConnected e) :=
  .of_answers (h.hears.sendIfConnected e he)

theorem report (operation : Operation) (failure : Failure) : Keeps K (report operation failure) :=
  .of_answers (h.hears.report (fun _ _ _ => rfl) (fun _ _ _ => rfl) operation failure)

theorem onLinter {α : Type} (action : StateM Linter α) : Keeps K (onLinter action) :=
  fun s hs => h.linter s _ hs

theorem request {α : Type} (r : Request α) : Keeps K (request r) := by
  refine (h.onLinter r.run).bind fun answer => ?_
  rcases answer with (failure | _) | a
  · exact .pure _
  · exact .failure
  · exact .pure _

theorem applySettings (payload : SettingsPayload) : Keeps K (applySettings payload) :=
  .modify fun s hs => h.linter s _ hs

theorem requestEdits (operation : Operation) (r : Request (Option (List DocumentEdit))) :
    Keeps K (requestEdits operation r) := by
  refine (h.request r).bind fun answer => ?_
  cases answer with
  | ok edits => exact .pure edits
  | error failure => exact (h.report operation failure).bind fun _ => .pure none

/-! ## Code actions -/

theorem sourceEdit (action : SourceAction) (kind : ActionKind) (uri : Url) :
    Keeps K (sourceEdit action kind uri) := by
  refine .get_bind fun s _ => ?_
  split
  · exact .pure none
  · split
    · exact .pure none
    · refine .bind ?_ fun edits => .pure _
      cases action <;> exact h.requestEdits _ _

theorem eagerAction (action : SourceAction) (kind : ActionKind) (uri : Url)
    (own : List Diagnostic) : Keeps K (eagerAction action kind uri own) := by
  refine (h.sourceEdit action kind uri).bind fun edit => ?_
  cases edit <;> exact .pure _

theorem offer (uri : Url) (own : List Diagnostic) (action : SourceAction) :
    Keeps K (offer uri own action) := by
  refine .get_bind fun s _ => ?_
  split
  · exact .pure _
  · exact h.eagerAction action action.kind uri own

theorem actionsFor (settings : WorkspaceSettings) (r : ActionRequest) (d : Document) :
    Keeps K (actionsFor settings r d) := by
  rw [Session.actionsFor]
  split
  · exact (h.eagerAction _ _ _ _).bind fun _ => .pure _
  · refine .get_bind fun s _ => (Leads.liftOption _).bind fun single => ?_
    exact (Leads.mapM _ fun action _ => h.offer r.uri _ action).bind fun _ => .pure _

theorem codeActions (r : ActionRequest) : Keeps K (codeActions r) := by
  refine .get_bind fun s _ => ?_
  split
  · exact .pure none
  · refine (h.onLinter _).bind fun skipped => ?_
    split
    · exact .pure none
    · exact h.actionsFor _ r _

theorem resolve (a : CodeAction) : Keeps K (resolve a) := by
  rw [Session.resolve]
  split
  · exact .pure a
  · refine .get_bind fun s _ => ?_
    split
    · exact .pure a
    · split
      · exact (h.sourceEdit _ _ _).bind fun _ => .pure _
      · exact .pure a

/-! ## Formatting, commands and explanations -/

theorem format (r : FormatRequest) : Keeps K (format r) := by
  refine .get_bind fun s _ => ?_
  split
  · exact .pure none
  · split
    · exact .pure none
    · exact (h.requestEdits _ _).bind fun _ => .pure _

theorem runCommand (command : Command) (uri : Url) : Keeps K (runCommand command uri) := by
  refine .get_bind fun s _ => ?_
  split
  · exact .pure ()
  · split
    · exact .pure ()
    · refine .bind (L := K) ?_ fun edits => ?_
      · cases command <;> exact h.requestEdits _ _
      · cases edits with
        | none => exact .pure ()
        | some edits => exact h.sendIfConnected _ fun _ => rfl

theorem execute (r : CommandRequest) : Keeps K (execute r) := by
  rw [Session.execute]
  split
  · exact .pure _
  · exact (h.runCommand _ _).bind fun _ => .pure _

theorem hover (r : HoverRequest) : Keeps K (hover r) := by
  refine .get_bind fun s _ => ?_
  split
  · exact .pure none
  · split
    · exact .pure none
    · refine (h.request _).bind fun answer => ?_
      cases answer with
      | ok text => exact .pure _
      | error failure => exact (h.report .explain failure).bind fun _ => .pure none

end Indifferent
end Session
end LintBridge
