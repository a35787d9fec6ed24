import Mathlib.Data.List.Forall2
import LintBridge.Proofs.Session.Mending

/-!
A request for code actions is answered with what it asks for and what the settings allow.

An answer is put together in several ways: a source action may be answered alone, with its edit;
else there are actions that mend findings, actions that suppress rules, and source actions with or
without their edits. `Session.Offers` says what holds of all of them, and `codeActions_offers` that
each request on a document that is not left alone is answered so; on any other it has no answer.

A diagnostic of another server that comes with the request counts for nothing. Among the others,
`CodeAction.forall₂_fixed` pairs those that an action is made for with their actions, in their
order.
-/

namespace LintBridge

theorem exists_of_forall₂ {α β : Type} {R : α → β → Prop} {l : List α} {m : List β} {b : β}
    (h : List.Forall₂ R l m) (hb : b ∈ m) : ∃ a ∈ l, R a b := by
  induction h with
  | nil => cases hb
  | cons hab _ ih =>
    rcases List.mem_cons.1 hb with rfl | hb
    · exact ⟨_, List.mem_cons_self, hab⟩
    · obtain ⟨a, ha, hrelated⟩ := ih hb
      exact ⟨a, List.mem_cons_of_mem _ ha, hrelated⟩

namespace ActionKind

/-- A kind continues the name of another one with a dot and more. -/
def Continues (kind filter : ActionKind) : Prop :=
  ∃ more, more ≠ "" ∧ kind.text = filter.text ++ "." ++ more

/-- A kind is one of those that were asked for, or continues one of them. All kinds are, if none
was asked for by name. -/
def IsAsked (only : Option (List ActionKind)) (kind : ActionKind) : Prop :=
  ∀ filters, only = some filters → ∃ filter ∈ filters, kind = filter ∨ kind.Continues filter

theorem eq_or_continues_of_includes {filter kind : ActionKind}
    (hdot : kind.text.toList.getLast? ≠ some '.') (h : filter.includes kind = true) :
    kind = filter ∨ kind.Continues filter := by
  rcases Bool.or_eq_true_iff.1 h with hsame | hcontinues
  · exact .inl (of_decide_eq_true hsame)
  · obtain ⟨more, hmore⟩ := List.isPrefixOf_iff_prefix.1 hcontinues
    refine .inr ⟨String.ofList more, ?_, ?_⟩
    · intro hempty
      obtain rfl : more = [] := by simpa using congrArg String.toList hempty
      rw [List.append_nil] at hmore
      exact hdot (by rw [← hmore, List.getLast?_concat])
    · apply String.toList_injective
      simpa using hmore.symm

theorem isAsked_of_isRequested {only : Option (List ActionKind)} {kind : ActionKind}
    (hdot : kind.text.toList.getLast? ≠ some '.') (h : kind.isRequested only = true) :
    kind.IsAsked only := by
  rintro filters rfl
  obtain ⟨filter, hfilter, hincludes⟩ := List.any_eq_true.1 h
  exact ⟨filter, hfilter, eq_or_continues_of_includes hdot hincludes⟩

end ActionKind

namespace SourceAction

theorem ofKind?_kind (action : SourceAction) : ofKind? action.kind = some action := by
  cases action <;> decide

theorem getLast?_kind (action : SourceAction) :
    action.kind.text.toList.getLast? ≠ some '.' := by
  cases action <;> decide

/-- A request for one source action alone asks for its kind and no other. -/
theorem of_exclusive? {only : Option (List ActionKind)} {action : SourceAction} {kind : ActionKind}
    (h : exclusive? only = some (action, kind)) :
    only = some [kind] ∧ ofKind? kind = some action := by
  unfold exclusive? at h
  split at h
  · obtain ⟨found, hfound, hpair⟩ := Option.map_eq_some_iff.1 h
    cases hpair
    exact ⟨rfl, hfound⟩
  · cases h

/-- What a source action resolves are fixable diagnostics among those it is given. -/
theorem mem_of_mem_resolved {action : SourceAction} {own : List Diagnostic} {x : Diagnostic}
    (h : x ∈ action.resolved own) : x ∈ own := by
  cases action with
  | organizeImports => cases h
  | fixAll => exact (List.mem_filter.1 h).1

end SourceAction

def CodeAction.sourceAction? (a : CodeAction) : Option SourceAction :=
  a.kind.bind SourceAction.ofKind?

/-- A rule can be suppressed where a diagnostic is: it has a rule, and its row is in the text. -/
def Diagnostic.isSuppressible (text : Option String) (d : Diagnostic) : Bool :=
  d.rule?.isSome && d.findingData.noqaRow.any fun row =>
    text.any fun text => decide (row - 1 < (splitLines text.toList).length)

namespace CodeAction

/-- An action mends a diagnostic by the fix in its data. -/
def Fixes (uri : Url) (version : Option Int) (d : Diagnostic) (a : CodeAction) : Prop :=
  ∃ fix edits, d.findingData.fix = some fix ∧ fix.edits.mapM FixEdit.textEdit? = some edits ∧
    a = .forDiagnostic (fixTitle fix d) uri (.ofDocumentEdits [⟨uri, version, edits⟩]) d

/-- An action suppresses the rule of a diagnostic in its line of a text. -/
def Suppresses (uri : Url) (version : Option Int) (text : Option String) (d : Diagnostic)
    (a : CodeAction) : Prop :=
  ∃ content row code line, text = some content ∧ d.findingData.noqaRow = some row ∧
    d.rule? = some code ∧ lineAt? content.toList (row - 1) = some line ∧
    disableRule? uri version (Suppression.fix line row code) d = some a

/-- Diagnostics that have a fix stand beside what is made of them, in their order. -/
theorem forall₂_fixed {fixOf? : Diagnostic → Option Fix}
    {make? : Fix × Diagnostic → Option CodeAction} (own : List Diagnostic)
    (actions : List CodeAction) (h : (fixed fixOf? own).mapM make? = some actions) :
    List.Forall₂ (fun d a => ∃ fix, fixOf? d = some fix ∧ make? (fix, d) = some a)
      (own.filter fun d => (fixOf? d).isSome) actions := by
  induction own generalizing actions with
  | nil =>
    obtain rfl := Option.some.inj h
    exact .nil
  | cons d rest ih =>
    unfold fixed at h ih
    cases hfix : fixOf? d with
    | none =>
      rw [List.filterMap_cons_none (by rw [hfix, Option.map_none])] at h
      rw [List.filter_cons_of_neg (by simp [hfix])]
      exact ih actions h
    | some fix =>
      rw [List.filterMap_cons_some (by rw [hfix, Option.map_some]), List.mapM_cons] at h
      obtain ⟨a, hmade, h⟩ := Option.bind_eq_some_iff.1 h
      obtain ⟨more, hmore, h⟩ := Option.bind_eq_some_iff.1 h
      obtain rfl := Option.some.inj h
      rw [List.filter_cons_of_pos (by simp [hfix])]
      exact .cons ⟨fix, hfix, hmade⟩ (ih more hmore)

theorem forall₂_quickFixes {uri : Url} {version : Option Int} {own : List Diagnostic}
    {actions : List CodeAction} (h : quickFixes? uri version own = some actions) :
    List.Forall₂ (Fixes uri version) (own.filter fun d => d.findingData.fix.isSome) actions := by
  refine (forall₂_fixed own actions h).imp fun d a ⟨fix, hfix, hmade⟩ => ?_
  obtain ⟨edit, hedit, hmade⟩ := Option.bind_eq_some_iff.1 hmade
  obtain ⟨edits, hedits, hedit⟩ := Option.bind_eq_some_iff.1 hedit
  obtain rfl := Option.some.inj hedit
  exact ⟨fix, edits, hfix, hedits, (Option.some.inj hmade).symm⟩

theorem isSome_suppression? (text : String) (d : Diagnostic) :
    (suppression? text.toList d).isSome = d.isSuppressible (some text) := by
  unfold suppression? Diagnostic.isSuppressible
  cases d.findingData.noqaRow with
  | none => simp
  | some row =>
    cases d.rule? with
    | none => rfl
    | some code =>
      rw [Option.bind_eq_bind, Option.bind_some, Option.bind_eq_bind, Option.bind_some]
      by_cases hrow : row - 1 < (splitLines text.toList).length <;> simp [lineAt?, hrow]

theorem forall₂_suppressions {uri : Url} {version : Option Int} {text : Option String}
    {own : List Diagnostic} {actions : List CodeAction}
    (h : suppressions? uri version text own = some actions) :
    List.Forall₂ (Suppresses uri version text) (own.filter (Diagnostic.isSuppressible text))
      actions := by
  cases text with
  | none =>
    obtain rfl := Option.some.inj h
    have hnone : ∀ d : Diagnostic, d.isSuppressible none = false := by
      intro d
      simp [Diagnostic.isSuppressible]
    simp [hnone]
  | some text =>
    have hpairs := forall₂_fixed own actions h
    simp only [isSome_suppression?] at hpairs
    refine hpairs.imp fun d a ⟨fix, hfix, hmade⟩ => ?_
    simp only [suppression?, Option.bind_eq_bind, Option.pure_def, Option.bind_eq_some_iff,
      Option.some.injEq] at hfix
    obtain ⟨row, hrow, code, hcode, line, hline, rfl⟩ := hfix
    exact ⟨text, row, code, line, rfl, hrow, hcode, hline, hmade⟩

end CodeAction

namespace Session

/-- Actions for single diagnostics that a request is answered with: those that mend findings, and
those that suppress rules. There is one for each of the server's own diagnostics that allows it, in
the order in which they came, unless the settings do not have them offered. -/
structure OneForEach (s : Session) (r : ActionRequest) (d : Document)
    (fixes suppressions : List CodeAction) : Prop where
  fixes : List.Forall₂ (CodeAction.Fixes r.uri d.version)
    (if (s.linter.settingsFor d.path).fixViolation then
      (r.diagnostics.filter Diagnostic.isOwn).filter fun x => x.findingData.fix.isSome
    else []) fixes
  suppressions : List.Forall₂ (CodeAction.Suppresses r.uri d.version (s.documents.text? r.uri))
    (if (s.linter.settingsFor d.path).disableRuleComment then
      (r.diagnostics.filter Diagnostic.isOwn).filter
        (Diagnostic.isSuppressible (s.documents.text? r.uri))
    else []) suppressions

/-- What a request for actions on a document asks for and what the settings of the document
allow. -/
structure Offers (s : Session) (r : ActionRequest) (d : Document) (actions : List CodeAction) :
    Prop where
  asked : ∀ a ∈ actions, ∃ kind, a.kind = some kind ∧ kind.IsAsked r.only
  attached : ∀ a ∈ actions, ∀ x ∈ a.diagnostics.getD [],
    x ∈ r.diagnostics ∧ x.source = some Diagnostic.ownSource
  /-- A source action is there at most once, and not at all if it is not enabled. -/
  sources : ∀ action : SourceAction, (actions.countP fun a => a.sourceAction? = some action) ≤
    if action.isEnabled (s.linter.settingsFor d.path) then 1 else 0
  /-- What mends comes first, then what suppresses, and source actions come last. -/
  single : ActionKind.quickFix.isRequested r.only = true →
    ∃ fixes suppressions others, actions = fixes ++ suppressions ++ others ∧
      s.OneForEach r d fixes suppressions ∧ ∀ a ∈ others, a.sourceAction?.isSome

section

variable {s : Session} {r : ActionRequest} {d : Document}

theorem own_iff (x : Diagnostic) : x ∈ r.diagnostics.filter Diagnostic.isOwn ↔
    x ∈ r.diagnostics ∧ x.source = some Diagnostic.ownSource := by
  rw [List.mem_filter, Diagnostic.isOwn, decide_eq_true_iff]

/-! ## A source action alone -/

/-- A source action that is answered alone is the one that was asked for, if there is an edit. -/
theorem eagerAction_run (s : Session) (action : SourceAction) (kind : ActionKind) (uri : Url)
    (own : List Diagnostic) : ∃ (edit : Option WorkspaceEdit) (t : Session),
      (eagerAction action kind uri own).run s = some
        ((edit.map fun e => .source action kind uri (some e) (action.resolved own)).toList, t) := by
  obtain ⟨edit, t, hedit⟩ := exists_sourceEdit s action kind uri
  refine ⟨edit, t, ?_⟩
  rw [eagerAction, run_bind_of_eq_some hedit]
  cases edit <;> rfl

theorem codeActions_alone {action : SourceAction} {kind : ActionKind}
    (hd : s.documents.cellOrText? r.uri = some d)
    (hskipped : ((Linter.isSkipped d.path (s.linter.settingsFor d.path)).run s.linter).1 = false)
    (halone : exclusiveAction? (s.linter.settingsFor d.path) r = some (action, kind)) :
    ∃ (edit : Option WorkspaceEdit) (t : Session), (codeActions r).run s =
      some (some (edit.map fun e => .source action kind r.uri (some e)
        (action.resolved (r.diagnostics.filter Diagnostic.isOwn))).toList, t) := by
  obtain ⟨edit, t, heager⟩ := eagerAction_run { s with
    linter := ((Linter.isSkipped d.path (s.linter.settingsFor d.path)).run s.linter).2 }
    action kind r.uri (r.diagnostics.filter Diagnostic.isOwn)
  refine ⟨edit, t, ?_⟩
  rw [codeActions_run s r d hd]
  simp only [hskipped, Bool.false_eq_true, if_false, actionsFor, halone]
  rw [run_bind_of_eq_some heager]
  rfl

theorem offers_alone {action : SourceAction} {kind : ActionKind} (edit : Option WorkspaceEdit)
    (h : exclusiveAction? (s.linter.settingsFor d.path) r = some (action, kind)) :
    s.Offers r d (edit.map fun e => .source action kind r.uri (some e)
      (action.resolved (r.diagnostics.filter Diagnostic.isOwn))).toList := by
  obtain ⟨hexclusive, henabled⟩ := Option.filter_eq_some_iff.1 h
  obtain ⟨honly, hkind⟩ := SourceAction.of_exclusive? hexclusive
  have hform : ∀ a ∈ (edit.map fun e => CodeAction.source action kind r.uri (some e)
      (action.resolved (r.diagnostics.filter Diagnostic.isOwn))).toList, ∃ e, a = .source action
      kind r.uri e (action.resolved (r.diagnostics.filter Diagnostic.isOwn)) := by
    intro a ha
    obtain ⟨e, -, rfl⟩ := Option.map_eq_some_iff.1 (Option.mem_toList.1 ha)
    exact ⟨some e, rfl⟩
  constructor
  · intro a ha
    obtain ⟨e, rfl⟩ := hform a ha
    refine ⟨kind, rfl, fun filters hfilters => ?_⟩
    obtain rfl := Option.some.inj (honly.symm.trans hfilters)
    exact ⟨kind, List.mem_cons_self, .inl rfl⟩
  · intro a ha x hx
    obtain ⟨e, rfl⟩ := hform a ha
    exact (own_iff x).1 (SourceAction.mem_of_mem_resolved hx)
  · intro other
    by_cases hsame : action = other
    · subst hsame
      rw [if_pos henabled]
      exact Nat.le_trans List.countP_le_length (by cases edit <;> simp)
    · rw [List.countP_eq_zero.2]
      · exact Nat.zero_le _
      · intro a ha hother
        obtain ⟨e, rfl⟩ := hform a ha
        have hnamed : SourceAction.ofKind? kind = some other := of_decide_eq_true hother
        exact hsame (Option.some.inj (hkind.symm.trans hnamed))
  · intro hrequested
    rw [exclusiveAction?_of_quickFix _ r hrequested] at h
    cases h

/-! ## Actions for single diagnostics and source actions -/

/-- The actions for single diagnostics are one for each, if quick fixes were asked for. -/
theorem oneForEach_singles {singles : List CodeAction} (hsingles : s.singles? r d = some singles)
    (h : ActionKind.quickFix.isRequested r.only = true) :
    ∃ fixes suppressions, singles = fixes ++ suppressions ∧
      s.OneForEach r d fixes suppressions := by
  rw [singles?, diagnosticActions?, if_pos h] at hsingles
  obtain ⟨fixes, hfixes, hsingles⟩ := Option.bind_eq_some_iff.1 hsingles
  obtain ⟨suppressions, hsuppressions, hsingles⟩ := Option.bind_eq_some_iff.1 hsingles
  refine ⟨fixes, suppressions, (Option.some.inj hsingles).symm, ?_, ?_⟩
  · split at hfixes
    · next henabled =>
      rw [if_pos henabled]
      exact CodeAction.forall₂_quickFixes hfixes
    · next hdisabled =>
      rw [if_neg hdisabled, ← Option.some.inj hfixes]
      exact .nil
  · split at hsuppressions
    · next henabled =>
      rw [if_pos henabled]
      exact CodeAction.forall₂_suppressions hsuppressions
    · next hdisabled =>
      rw [if_neg hdisabled, ← Option.some.inj hsuppressions]
      exact .nil

theorem OneForEach.about {fixes suppressions : List CodeAction} {a : CodeAction}
    (h : s.OneForEach r d fixes suppressions) (ha : a ∈ fixes ++ suppressions) :
    a.kind = some .quickFix ∧
      ∃ x ∈ r.diagnostics.filter Diagnostic.isOwn, a.diagnostics = some [x] := by
  rcases List.mem_append.1 ha with ha | ha
  · obtain ⟨x, hx, fix, edits, -, -, rfl⟩ := exists_of_forall₂ h.fixes ha
    refine ⟨rfl, x, ?_, rfl⟩
    split at hx
    · exact (List.mem_filter.1 hx).1
    · cases hx
  · obtain ⟨x, hx, content, row, code, line, -, -, -, -, hmade⟩ :=
      exists_of_forall₂ h.suppressions ha
    obtain ⟨edit, -, hmade⟩ := Option.bind_eq_some_iff.1 hmade
    obtain rfl := Option.some.inj hmade
    refine ⟨rfl, x, ?_, rfl⟩
    split at hx
    · exact (List.mem_filter.1 hx).1
    · cases hx

/-- A source action that is offered is that source action, and resolves only what it is given. -/
theorem of_mem_offerOf {resolves : Bool} {uri : Url} {own : List Diagnostic}
    {edit : SourceAction → Option WorkspaceEdit} {action : SourceAction} {a : CodeAction}
    (h : a ∈ offerOf resolves uri own edit action) :
    a.kind = some action.kind ∧ a.sourceAction? = some action ∧
      ∀ x ∈ a.diagnostics.getD [], x ∈ own := by
  have hkind := kind_of_mem_offerOf resolves uri own edit action a h
  refine ⟨hkind, ?_, ?_⟩
  · rw [CodeAction.sourceAction?, hkind, Option.bind_some, SourceAction.ofKind?_kind]
  · intro x hx
    unfold offerOf at h
    split at h
    · obtain rfl := List.mem_singleton.1 h
      cases hx
    · obtain ⟨e, -, rfl⟩ := Option.map_eq_some_iff.1 (Option.mem_toList.1 h)
      exact SourceAction.mem_of_mem_resolved hx

/-- A source action is offered as often as it is among those to offer, or not at all. -/
theorem countP_offerOf_le (resolves : Bool) (uri : Url) (own : List Diagnostic)
    (edit : SourceAction → Option WorkspaceEdit) (action : SourceAction)
    (actions : List SourceAction) :
    ((actions.map (offerOf resolves uri own edit)).flatten.countP fun a =>
      a.sourceAction? = some action) ≤ actions.count action := by
  induction actions with
  | nil => exact Nat.le_refl 0
  | cons other rest ih =>
    rw [List.map_cons, List.flatten_cons, List.countP_append, List.count_cons]
    have hhead : ((offerOf resolves uri own edit other).countP fun a =>
        a.sourceAction? = some action) ≤ if other == action then 1 else 0 := by
      by_cases hsame : other = action
      · have hone : (offerOf resolves uri own edit other).length ≤ 1 := by
          unfold offerOf
          split
          · exact Nat.le_refl 1
          · cases edit other <;> simp
        rw [if_pos (by simpa using hsame)]
        exact Nat.le_trans List.countP_le_length hone
      · rw [List.countP_eq_zero.2]
        · exact Nat.zero_le _
        · intro a ha haction
          have hother := (of_mem_offerOf ha).2.1
          rw [of_decide_eq_true haction] at hother
          exact hsame (Option.some.inj hother).symm
    omega

theorem count_offeredActions (settings : WorkspaceSettings) (r : ActionRequest)
    (action : SourceAction) :
    (offeredActions settings r).count action ≤ if action.isEnabled settings then 1 else 0 := by
  unfold offeredActions
  split
  · refine Nat.le_trans (List.filter_sublist.count_le action) ?_
    cases action <;> decide
  · next hdisabled =>
    rw [Nat.le_zero, List.count_eq_zero]
    intro haction
    have hallowed := (List.mem_filter.1 haction).2
    simp [hdisabled] at hallowed

theorem exists_of_mem_sourcesWith {resolves : Bool} {edit : SourceAction → Option WorkspaceEdit}
    {a : CodeAction} (ha : a ∈ s.sourcesWith resolves r d edit) :
    ∃ action, action.kind.isRequested r.only = true ∧
      a ∈ offerOf resolves r.uri (r.diagnostics.filter Diagnostic.isOwn) edit action := by
  obtain ⟨_, hmem, ha⟩ := List.mem_flatten.1 ha
  obtain ⟨action, haction, rfl⟩ := List.mem_map.1 hmem
  exact ⟨action, (Bool.and_eq_true_iff.1 (List.mem_filter.1 haction).2).2, ha⟩

theorem about_of_mem_singles {singles : List CodeAction} (hsingles : s.singles? r d = some singles)
    {a : CodeAction} (ha : a ∈ singles) :
    ActionKind.quickFix.isRequested r.only = true ∧ a.kind = some .quickFix ∧
      ∃ x ∈ r.diagnostics.filter Diagnostic.isOwn, a.diagnostics = some [x] := by
  cases hrequested : ActionKind.quickFix.isRequested r.only with
  | false =>
    rw [singles?, diagnosticActions?, hrequested] at hsingles
    rw [← Option.some.inj hsingles] at ha
    cases ha
  | true =>
    obtain ⟨fixes, suppressions, rfl, heach⟩ := oneForEach_singles hsingles hrequested
    exact ⟨rfl, heach.about ha⟩

theorem offers_offeredWith {singles : List CodeAction} (hsingles : s.singles? r d = some singles)
    (resolves : Bool) (edit : SourceAction → Option WorkspaceEdit) :
    s.Offers r d (s.offeredWith resolves r d singles edit) := by
  rw [offeredWith]
  constructor
  case asked =>
    intro a ha
    rcases List.mem_append.1 ha with ha | ha
    · obtain ⟨hrequested, hkind, -⟩ := about_of_mem_singles hsingles ha
      exact ⟨_, hkind, ActionKind.isAsked_of_isRequested (by decide) hrequested⟩
    · obtain ⟨action, hrequested, ha⟩ := exists_of_mem_sourcesWith ha
      exact ⟨_, (of_mem_offerOf ha).1,
        ActionKind.isAsked_of_isRequested action.getLast?_kind hrequested⟩
  case attached =>
    intro a ha x hx
    rw [← own_iff]
    rcases List.mem_append.1 ha with ha | ha
    · obtain ⟨-, -, y, hy, hdiagnostics⟩ := about_of_mem_singles hsingles ha
      rw [hdiagnostics] at hx
      obtain rfl := List.mem_singleton.1 hx
      exact hy
    · obtain ⟨action, -, ha⟩ := exists_of_mem_sourcesWith ha
      exact (of_mem_offerOf ha).2.2 x hx
  case sources =>
    intro action
    have hnone : (singles.countP fun a => a.sourceAction? = some action) = 0 := by
      rw [List.countP_eq_zero]
      intro a ha haction
      have hnamed := of_decide_eq_true haction
      rw [CodeAction.sourceAction?, (about_of_mem_singles hsingles ha).2.1] at hnamed
      cases hnamed
    rw [List.countP_append, hnone, Nat.zero_add]
    exact Nat.le_trans (countP_offerOf_le _ _ _ _ _ _) (count_offeredActions _ r action)
  case single =>
    intro hrequested
    obtain ⟨fixes, suppressions, rfl, heach⟩ := oneForEach_singles hsingles hrequested
    refine ⟨fixes, suppressions, s.sourcesWith resolves r d edit, rfl, heach, ?_⟩
    intro a ha
    obtain ⟨action, -, ha⟩ := exists_of_mem_sourcesWith ha
    rw [(of_mem_offerOf ha).2.1]
    rfl

/-! ## The answer to a request -/

/-- The answer to a request for actions on a document that is open and not left alone holds what the
request asks for and what the settings of the document allow, and there is one if the fixes that the
request brings can be placed. A request on any other document has no answer. -/
theorem codeActions_offers (s : Session) (r : ActionRequest) :
    match s.documents.cellOrText? r.uri with
    | none => (codeActions r).run s = some (none, s)
    | some d =>
      if ((Linter.isSkipped d.path (s.linter.settingsFor d.path)).run s.linter).1 then
        ∃ t, (codeActions r).run s = some (none, t)
      else
        (∀ actions t, (codeActions r).run s = some (actions, t) →
          s.Offers r d (actions.getD [])) ∧
        ((∀ x ∈ r.diagnostics, x.isOwn = true → x.Placed) →
          ∃ actions t, (codeActions r).run s = some (actions, t)) := by
  split
  · next hclosed =>
    rw [codeActions, run_get_bind, hclosed]
    rfl
  · next d hd =>
    split
    · next hskipped =>
      rw [codeActions_run s r d hd]
      simp only [hskipped, if_true]
      exact ⟨_, rfl⟩
    · next hskipped =>
      rw [Bool.not_eq_true] at hskipped
      cases halone : exclusiveAction? (s.linter.settingsFor d.path) r with
      | some found =>
        obtain ⟨edit, t, hanswer⟩ := codeActions_alone hd hskipped halone
        refine ⟨fun actions u hrun => ?_, fun _ => ⟨_, t, hanswer⟩⟩
        cases hanswer.symm.trans hrun
        exact offers_alone edit halone
      | none =>
        have hanswer (singles) (hsingles : s.singles? r d = some singles) :=
          codeActions_answer s s.resolvesEdits r d singles hd hskipped halone hsingles
        refine ⟨fun actions t hrun => ?_, fun hplaced => ?_⟩
        · have hsteps := (codeActions_run s r d hd).symm.trans hrun
          simp only [hskipped, Bool.false_eq_true, if_false] at hsteps
          obtain ⟨singles, hsingles⟩ := exists_singles_of_run (s := s) halone hsteps rfl
          obtain ⟨u, hanswered, -⟩ := hanswer singles hsingles
          cases hanswered.symm.trans hrun
          rw [getD_answerOf]
          exact offers_offeredWith hsingles _ _
        · obtain ⟨singles, hsingles⟩ := exists_singles s r d hplaced
          obtain ⟨t, hrun, -⟩ := hanswer singles hsingles
          exact ⟨_, t, hrun⟩

end

def importDiagnostic : Diagnostic :=
  .ofFinding ⟨⟨⟨0, 0⟩, ⟨0, 1⟩⟩, "unused", some "F401", none,
    some ⟨none, none, [⟨"", ⟨1, 0⟩, ⟨1, 1⟩⟩]⟩, some 1, none⟩

/-- A request for quick fixes and all source actions, where the diagnostic comes from the server
once and from another server before. -/
def mixedRequest : ActionRequest :=
  ⟨Finding.needlessText.uri, ⟨⟨0, 0⟩, ⟨0, 1⟩⟩,
    [{ importDiagnostic with source := some "Other" }, importDiagnostic],
    some [⟨"source"⟩, .quickFix]⟩

/-- The diagnostic of the other server gets no action. -/
theorem mixedRequest_offers :
    ∃ fix suppression others t,
      (codeActions mixedRequest).run Finding.needlessSession =
        some (some (fix :: suppression :: others), t) ∧
      fix.diagnostics = some [importDiagnostic] ∧
      suppression.diagnostics = some [importDiagnostic] ∧ ∀ a ∈ others, a.sourceAction?.isSome := by
  have hoffers := codeActions_offers Finding.needlessSession mixedRequest
  have hopen : Finding.needlessSession.documents.cellOrText? mixedRequest.uri =
      some Finding.needlessText := by decide +kernel
  rw [hopen] at hoffers
  have hskipped : ((Linter.isSkipped Finding.needlessText.path
    (Finding.needlessSession.linter.settingsFor Finding.needlessText.path)).run
      Finding.needlessSession.linter).1 = false := by decide +kernel
  simp only [hskipped, Bool.false_eq_true, if_false] at hoffers
  have hown : mixedRequest.diagnostics.filter Diagnostic.isOwn = [importDiagnostic] := rfl
  have hfix : importDiagnostic.findingData.fix = some ⟨none, none, [⟨"", ⟨1, 0⟩, ⟨1, 1⟩⟩]⟩ := by
    decide +kernel
  have hplaced : ∀ x ∈ mixedRequest.diagnostics, x.isOwn = true → x.Placed := by
    intro x hx hisOwn
    have hmem : x ∈ mixedRequest.diagnostics.filter Diagnostic.isOwn :=
      List.mem_filter.2 ⟨hx, hisOwn⟩
    rw [hown] at hmem
    obtain rfl := List.mem_singleton.1 hmem
    intro fix hcarried
    rw [hfix] at hcarried
    cases hcarried
    decide
  obtain ⟨actions, t, hrun⟩ := hoffers.2 hplaced
  obtain ⟨fixes, suppressions, others, hactions, heach, hothers⟩ :=
    (hoffers.1 actions t hrun).single (by decide +kernel)
  have hfixable : importDiagnostic.findingData.fix.isSome = true := by rw [hfix]; rfl
  have hsuppressible : importDiagnostic.isSuppressible
    (Finding.needlessSession.documents.text? mixedRequest.uri) = true := by decide +kernel
  have hfixes := heach.fixes
  rw [if_pos (by decide +kernel), hown, List.filter_singleton, hfixable] at hfixes
  have hsuppressions := heach.suppressions
  rw [if_pos (by decide +kernel), hown, List.filter_singleton, hsuppressible] at hsuppressions
  obtain ⟨fix, _, ⟨_, _, -, -, rfl⟩, hnil, rfl⟩ := List.forall₂_cons_left_iff.1 hfixes
  cases hnil
  obtain ⟨suppression, _, ⟨_, _, _, _, -, -, -, -, hmade⟩, hnil, rfl⟩ :=
    List.forall₂_cons_left_iff.1 hsuppressions
  cases hnil
  obtain ⟨edit, -, hmade⟩ := Option.bind_eq_some_iff.1 hmade
  obtain rfl := Option.some.inj hmade
  cases actions with
  | none => cases hactions
  | some actions =>
    rw [Option.getD_some] at hactions
    exact ⟨_, _, others, t, hactions ▸ hrun, rfl, rfl, hothers⟩

end Session
end LintBridge
