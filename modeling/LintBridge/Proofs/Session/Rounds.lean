import LintBridge.Proofs.Finding.Landing
import LintBridge.Proofs.Linter.Purpose
import LintBridge.Proofs.Session.Asides
import LintBridge.Proofs.Session.Attribution
import LintBridge.Proofs.Store.Held

/-!
A round of linting publishes for every text of a document, or for none.

What an editor shows depends on the diagnostics alone that were published for it (`shown_eq`). A
round adds publications to these once the linter has answered, and reports of failures add none
(`told_lintAndPublish`). So what a round does is known from the answer: if the linter fails although
a usable executable was found, nothing is published at all; else each text is published for once. A
notebook may have no text to publish for (`proseNotebook_unpublished`).

* `withholds_of_refused`: a run that ends with a code of the tool's own, or prints a list with an
  item that is no finding, is such a failure;
* `round_all_or_nothing`: which answers publish, for which texts, and what is shown after.
-/

namespace LintBridge

/-! ## Failures -/

/-- The failures after which no usable executable is at hand. -/
inductive Failure.Unusable : Failure → Prop
  | missing (path : Path) : Unusable (.executableMissing path)
  | notStarted (path : Path) : Unusable (.notStarted path)
  | unversioned (path : Path) (output : String) : Unusable (.versionUnknown path output)

theorem Failure.isMissingExecutable_iff (failure : Failure) :
    failure.isMissingExecutable = true ↔ failure.Unusable := by
  constructor
  · intro h
    cases failure with
    | executableMissing path => exact .missing path
    | notStarted path => exact .notStarted path
    | versionUnknown path output => exact .unversioned path output
    | _ => cases h
  · intro h
    cases h <;> rfl

/-! ## Publications -/

/-- The diagnostics of a text, in place of all that were published for it before. -/
structure Publication where
  uri : Url
  version : Option Int
  diagnostics : List Diagnostic

def Event.publication? : Event → Option Publication
  | .publishDiagnostics uri diagnostics version => some ⟨uri, version, diagnostics⟩
  | _ => none

namespace Publication

/-- What an editor shows for each text after a publication. -/
def shownAfter (shown : Url → List Diagnostic) (p : Publication) : Url → List Diagnostic :=
  fun u => if p.uri = u then p.diagnostics else shown u

/-- After publications without diagnostics nothing is shown for their texts. -/
theorem shownAfter_of_empty (told : List Publication) (hempty : ∀ p ∈ told, p.diagnostics = [])
    (shown : Url → List Diagnostic) (u : Url)
    (hu : u ∈ told.map Publication.uri ∨ shown u = []) :
    told.foldl shownAfter shown u = [] := by
  induction told generalizing shown with
  | nil => exact hu.resolve_left List.not_mem_nil
  | cons p rest ih =>
    apply ih fun q hq => hempty q (List.mem_cons_of_mem p hq)
    have hp : p.diagnostics = [] := hempty p List.mem_cons_self
    by_cases hsame : p.uri = u
    · exact .inr (by simp [shownAfter, hsame, hp])
    · rcases hu with hu | hu
      · rw [List.map_cons, List.mem_cons] at hu
        exact .inl (hu.resolve_left (Ne.symm hsame))
      · exact .inr (by simp [shownAfter, hsame, hu])

end Publication

theorem showAll_eq (shown : Url → List Diagnostic) (events : List Event) :
    showAll shown events =
      (events.filterMap Event.publication?).foldl Publication.shownAfter shown := by
  induction events generalizing shown with
  | nil => rfl
  | cons e rest ih =>
    show showAll (e.show shown) rest = _
    rw [ih]
    cases e <;> rfl

/-- The texts that findings in a document are published for: the text itself, or the cells of code
of a notebook in their order. -/
def Document.targets : Document → List Url
  | .notebook _ _ _ cells => (cells.filter Cell.isCode).map Cell.uri
  | d => [d.uri]

/-- The version of an open text. -/
def Store.versionOf? (s : Store) (uri : Url) : Option Int :=
  (s.texts.get? uri).map OpenText.version

namespace Session

/-- What was published for an editor so far. -/
def published (s : Session) : List Publication := s.sent.filterMap Event.publication?

theorem shown_eq (s : Session) :
    s.shown = s.published.foldl Publication.shownAfter (fun _ => []) := showAll_eq _ _

/-- The publications of some findings in a document. -/
def told (d : Document) (findings : List Finding) : List Publication :=
  (publications d findings).filterMap Event.publication?

theorem told_notebook (uri : Url) (path : Path) (version : Option Int) (cells : List Cell)
    (findings : List Finding) :
    told (.notebook uri path version cells) findings =
      (codeGroups cells findings).map fun (c, found) =>
        ⟨c.uri, c.version, found.map Diagnostic.ofFinding⟩ := by
  rw [told, publications, codeGroups, codeCells, List.map_map, List.filterMap_map,
    ← List.filterMap_eq_map]
  rfl

/-- Some publications cover a document: there is one for each of its texts, in their order and with
the version of the text. -/
structure Covers (store : Store) (d : Document) (round : List Publication) : Prop where
  targets : round.map Publication.uri = d.targets
  versions : ∀ p ∈ round, p.version = store.versionOf? p.uri

theorem uri_told (d : Document) (findings : List Finding) :
    (told d findings).map Publication.uri = d.targets := by
  cases d with
  | notebook uri path version cells =>
    rw [told_notebook, Document.targets, ← codeGroups_cells cells findings, List.map_map,
      List.map_map]
    rfl
  | text uri path source version => rfl
  | cell path c => rfl

theorem diagnostics_told_nil (d : Document) : ∀ p ∈ told d [], p.diagnostics = [] := by
  intro p hp
  cases d with
  | notebook uri path version cells =>
    rw [told_notebook, codeGroups, List.map_map] at hp
    obtain ⟨c, -, rfl⟩ := List.mem_map.1 hp
    rfl
  | text uri path source version =>
    obtain rfl := List.mem_singleton.1 hp
    rfl
  | cell path c =>
    obtain rfl := List.mem_singleton.1 hp
    rfl

theorem covers_told {store : Store} {uri : Url} {d : Document}
    (hopen : store.document? uri = some d) (findings : List Finding) :
    Covers store d (told d findings) := by
  refine ⟨uri_told d findings, fun p hp => ?_⟩
  rcases Store.document?_cases hopen with ⟨n, hnotebook⟩ | htext
  · obtain ⟨entry, path, -, rfl⟩ := Store.exists_of_notebookDocument? hnotebook
    rw [told_notebook] at hp
    obtain ⟨⟨c, found⟩, hc, rfl⟩ := List.mem_map.1 hp
    have hcode : c ∈ (entry.cells.map store.cell).filter Cell.isCode := by
      rw [← codeGroups_cells _ findings]
      exact List.mem_map_of_mem hc
    obtain ⟨slot, -, rfl⟩ := List.mem_map.1 (List.mem_filter.1 hcode).1
    rfl
  · obtain ⟨entry, path, hentry, rfl⟩ := Store.exists_of_textDocument? htext
    obtain rfl := List.mem_singleton.1 hp
    show some entry.version = (store.texts.get? uri).map OpenText.version
    rw [hentry]
    rfl

/-! ## The step of a round -/

/-- What an editor was told of diagnostics, and whether it listens. -/
structure Told (connected : Bool) (before : List Publication) (s : Session) : Prop where
  connected : s.connected = connected
  published : s.published = before

variable {connected : Bool} {before : List Publication}

theorem hears_told : Hears (fun e => e.publication? = none) (Told connected before) := by
  intro s e he hs
  refine ⟨hs.connected, ?_⟩
  rw [published, List.filterMap_append, List.filterMap_cons_none he, List.filterMap_nil,
    List.append_nil]
  exact hs.published

theorem told_publish (d : Document) (findings : List Finding) {s : Session}
    (hs : Told connected before s) : ∃ t, (publish d findings).run s = some ((), t) ∧
      Told connected (before ++ if connected then told d findings else []) t := by
  obtain ⟨rfl, rfl⟩ := hs
  refine ⟨_, forM_sendIfConnected (publications d findings) s, rfl, ?_⟩
  rw [published, List.filterMap_append]
  cases s.connected <;> rfl

/-- How the linter answers about a document, if no number outgrows its width in that. -/
def outcome? (s : Session) (d : Document) : Option (Except Failure (Option (List Finding))) :=
  replyOf? ((Linter.lint d).run.run s.linter).1

/-- What is published once the linter has answered, if anything is. -/
def round? (d : Document) : Except Failure (Option (List Finding)) → Option (List Publication)
  | .ok findings => some (told d (findings.getD []))
  | .error failure => if failure.isMissingExecutable then some (told d []) else none

/-- A round over an open document publishes by the answer of the linter alone. -/
theorem told_lintAndPublish (s : Session) (uri : Url) (d : Document)
    (hopen : s.documents.document? uri = some d) (hlive : s.isShuttingDown = false)
    (answer : Except Failure (Option (List Finding))) (hanswer : s.outcome? d = some answer) :
    ∃ t, (lintAndPublish uri).run s = some ((), t) ∧
      Told s.connected
        (s.published ++ if s.connected then (round? d answer).getD [] else []) t := by
  have hrequest := request_run (Linter.lint d) s
  rw [show replyOf? _ = some answer from hanswer, Option.map_some] at hrequest
  have hstart : Told s.connected s.published
      { s with linter := ((Linter.lint d).run.run s.linter).2 } := ⟨rfl, rfl⟩
  rw [lintAndPublish, run_get_bind, hlive, hopen, if_neg Bool.false_ne_true]
  dsimp only
  rw [run_bind_of_eq_some hrequest]
  cases answer with
  | ok findings => exact told_publish d _ hstart
  | error failure =>
    have hreport : Answers (Told s.connected s.published) (report .lint failure) () :=
      hears_told.report (fun _ _ => rfl) (fun _ _ => rfl) .lint failure
    obtain ⟨t, hrun, ht⟩ := hreport.exists_run hstart
    dsimp only
    rw [run_bind_of_eq_some hrun, round?]
    split
    · exact told_publish d [] ht
    · rw [Option.getD_none, ite_self, List.append_nil]
      exact ⟨t, rfl, ht⟩

end Session

/-! ## Answers of the linter -/

/-- What a tool printed is more than blanks, and no list of findings that can be read one and
all. -/
def Finding.Malformed (octets : List UInt8) : Prop :=
  octets.all isBlankOctet = false ∧
    ∀ items, Json.readOctets? octets = some (.array items) →
      ∃ t ∈ items, Stated.ofTree? t = none

theorem Finding.statedIn?_eq_none_iff (octets : List UInt8) :
    statedIn? octets = none ↔ Malformed octets := by
  unfold statedIn? Malformed
  cases octets.all isBlankOctet with
  | true => simp
  | false =>
    simp only [Bool.false_eq_true, if_false, true_and]
    cases hread : Json.readOctets? octets with
    | none => simp
    | some t =>
      rw [Option.bind_some]
      cases t with
      | array items =>
        rw [Json.Tree.list?, mapM_eq_none_iff]
        simp
      | _ => simp [Json.Tree.list?]

namespace Linter

theorem lint_of_off (l : Linter) (d : Document)
    (hoff : (l.settingsFor d.path).lintEnabled = false) :
    ((lint d).run.run l).1 = .ok (some []) :=
  Purpose.ask_of_isOff d .lint l (decide_eq_true hoff)

/-- The findings in a document depend on the run for them, unless linting is switched off. -/
theorem lint_of_trial (l : Linter) (d : Document)
    (hon : (l.settingsFor d.path).lintEnabled = true)
    {ran : Option (Capabilities × RunResult)}
    (hran : ((Purpose.trial (l.settingsFor d.path) d .lint).run.run l).1 = .ok ran) :
    ((lint d).run.run l).1 = Purpose.lint.answerAfter (l.settingsFor d.path) d ran := by
  have hask := Purpose.ask_of_trial d .lint l (decide_eq_false (by simp [hon]))
  rw [hran] at hask
  exact hask

/-- A run that ends with a code of the tool's own, or prints what cannot be read as a whole, is a
failure of another kind than an unusable executable. -/
theorem answerTo_of_refused (c : Capabilities) (settings : WorkspaceSettings) (d : Document)
    (result : RunResult)
    (hbad : (result.code ≠ 0 ∧ result.code ≠ 1) ∨ Finding.Malformed result.stdout) :
    ∃ failure, Purpose.lint.answerTo c settings d result = .error (.failed failure) ∧
      ¬ failure.Unusable := by
  rcases Purpose.answerTo_cases .lint c settings d result with ⟨hwell, hanswer⟩ | ⟨-, hanswer⟩
  · have hcode : result.code = 0 ∨ result.code = 1 := of_decide_eq_true hwell
    rcases hbad with ⟨hzero, hone⟩ | hmalformed
    · exact absurd hcode (not_or.2 ⟨hzero, hone⟩)
    · refine ⟨.outputNotJson, ?_, ?_⟩
      · have hread := (Finding.statedIn?_eq_none_iff result.stdout).2 hmalformed
        rw [hanswer, Purpose.read, Finding.ofOctets, hread]
        rfl
      · intro hunusable
        cases hunusable
  · refine ⟨.toolFailed result.code (String.ofList result.stderrText), hanswer, ?_⟩
    intro hunusable
    cases hunusable

/-- A document is linted by a run that ends with a code of the tool's own, or that prints what
cannot be read as a whole. -/
structure Refused (l : Linter) (d : Document) : Prop where
  on : (l.settingsFor d.path).lintEnabled = true
  ran : ∃ c result,
    ((Purpose.trial (l.settingsFor d.path) d .lint).run.run l).1 = .ok (some (c, result)) ∧
      ((result.code ≠ 0 ∧ result.code ≠ 1) ∨ Finding.Malformed result.stdout)

/-- Linting is switched off for a document, its file is left alone, or no usable executable is
found. -/
inductive Clears (l : Linter) (d : Document) : Prop
  | off (h : (l.settingsFor d.path).lintEnabled = false)
  | skipped (h : ((isSkipped d.path (l.settingsFor d.path)).run l).1 = true)
  | unusable (failure : Failure) (h : ((lint d).run.run l).1 = .error (.failed failure))
      (hunusable : failure.Unusable)

end Linter

namespace Session

/-! ## All or nothing -/

/-- The linter failed, and not because no usable executable was found. -/
def Withholds (answer : Except Failure (Option (List Finding))) : Prop :=
  ∃ failure, answer = .error failure ∧ ¬ failure.Unusable

theorem withholds_of_refused (s : Session) (d : Document) (h : s.linter.Refused d) :
    ∃ answer, s.outcome? d = some answer ∧ Withholds answer := by
  obtain ⟨c, result, hran, hbad⟩ := h.ran
  obtain ⟨failure, hanswer, hkind⟩ :=
    Linter.answerTo_of_refused c (s.linter.settingsFor d.path) d result hbad
  refine ⟨.error failure, ?_, failure, rfl, hkind⟩
  rw [outcome?, Linter.lint_of_trial s.linter d h.on hran, Purpose.answerAfter, hanswer]
  rfl

theorem round?_eq_none_iff (d : Document) (answer : Except Failure (Option (List Finding))) :
    round? d answer = none ↔ Withholds answer := by
  cases answer with
  | ok findings => simp [round?, Withholds]
  | error failure => simp [round?, Withholds, ← Failure.isMissingExecutable_iff]

theorem covers_round? {store : Store} {uri : Url} {d : Document}
    (hopen : store.document? uri = some d) (answer : Except Failure (Option (List Finding)))
    (round : List Publication) (h : round? d answer = some round) : Covers store d round := by
  cases answer with
  | ok findings =>
    obtain rfl := Option.some.inj h
    exact covers_told hopen _
  | error failure =>
    rw [round?] at h
    split at h
    · obtain rfl := Option.some.inj h
      exact covers_told hopen []
    · cases h

/-- A document that linting clears has all its texts published without findings. -/
theorem round?_of_clears (s : Session) (d : Document) (h : s.linter.Clears d) :
    ∃ answer, s.outcome? d = some answer ∧ round? d answer = some (told d []) := by
  unfold outcome?
  cases h with
  | off hoff =>
    rw [Linter.lint_of_off s.linter d hoff]
    exact ⟨_, rfl, rfl⟩
  | skipped hskipped =>
    cases hon : (s.linter.settingsFor d.path).lintEnabled with
    | false =>
      rw [Linter.lint_of_off s.linter d hon]
      exact ⟨_, rfl, rfl⟩
    | true =>
      have hran :=
        Purpose.trial_of_isSkipped (s.linter.settingsFor d.path) d .lint s.linter hskipped
      rw [Linter.lint_of_trial s.linter d hon hran]
      exact ⟨_, rfl, rfl⟩
  | unusable failure hfailed hunusable =>
    rw [hfailed]
    exact ⟨_, rfl, if_pos (failure.isMissingExecutable_iff.2 hunusable)⟩

section

variable {s after : Session} {d : Document} {answer : Except Failure (Option (List Finding))}
  (htold : Told s.connected
    (s.published ++ if s.connected then (round? d answer).getD [] else []) after)
include htold

theorem published_of_withholds (h : Withholds answer) : after.published = s.published := by
  rw [htold.published, (round?_eq_none_iff d answer).2 h, Option.getD_none, ite_self,
    List.append_nil]

theorem exists_round_of_not_withholds {uri : Url} (hopen : s.documents.document? uri = some d)
    (h : ¬ Withholds answer) : ∃ round, Covers s.documents d round ∧
      after.published = s.published ++ if s.connected then round else [] := by
  rw [← round?_eq_none_iff d answer] at h
  obtain ⟨round, hround⟩ := Option.ne_none_iff_exists'.1 h
  refine ⟨round, covers_round? hopen answer round hround, ?_⟩
  rw [htold.published, hround, Option.getD_some]

theorem published_eq_iff {uri : Url} (hopen : s.documents.document? uri = some d)
    (hconnected : s.connected = true) :
    after.published = s.published ↔ Withholds answer ∨ d.targets = [] := by
  by_cases hwithheld : Withholds answer
  · exact iff_of_true (published_of_withholds htold hwithheld) (.inl hwithheld)
  · obtain ⟨round, hcovers, hpublished⟩ := exists_round_of_not_withholds htold hopen hwithheld
    rw [hpublished, if_pos hconnected, List.append_right_eq_self, or_iff_right hwithheld,
      ← hcovers.targets, List.map_eq_nil_iff]

end

/-- A round over an open document, before the session is shut down, publishes nothing at all if the
linter fails while a usable executable is at hand; after any other answer it publishes for each text
of the document once, if the editor listens. So nothing is published exactly if the linter fails so
or the document has no text to publish for. After a run that was refused as a whole everything is
shown that was shown before, and a document that linting clears shows nothing. -/
theorem round_all_or_nothing (s : Session) (uri : Url) (d : Document)
    (hopen : s.documents.document? uri = some d) (hlive : s.isShuttingDown = false) :
    (∀ answer, s.outcome? d = some answer →
      ∃ after, (lintAndPublish uri).run s = some ((), after) ∧
        (Withholds answer → after.published = s.published) ∧
        (¬ Withholds answer → ∃ round, Covers s.documents d round ∧
          after.published = s.published ++ if s.connected then round else []) ∧
        (s.connected = true →
          (after.published = s.published ↔ Withholds answer ∨ d.targets = []))) ∧
    (s.linter.Refused d →
      ∃ after, (lintAndPublish uri).run s = some ((), after) ∧ after.shown = s.shown) ∧
    (s.connected = true → s.linter.Clears d →
      ∃ after, (lintAndPublish uri).run s = some ((), after) ∧
        ∀ u ∈ d.targets, after.shown u = []) := by
  have hround (answer) (hanswer : s.outcome? d = some answer) :=
    told_lintAndPublish s uri d hopen hlive answer hanswer
  refine ⟨?_, ?_, ?_⟩
  · intro answer hanswer
    obtain ⟨after, hrun, htold⟩ := hround answer hanswer
    exact ⟨after, hrun, published_of_withholds htold, exists_round_of_not_withholds htold hopen,
      published_eq_iff htold hopen⟩
  · intro hrefused
    obtain ⟨answer, hanswer, hwithheld⟩ := withholds_of_refused s d hrefused
    obtain ⟨after, hrun, htold⟩ := hround answer hanswer
    refine ⟨after, hrun, ?_⟩
    rw [shown_eq, published_of_withholds htold hwithheld, ← shown_eq]
  · intro hconnected hclears
    obtain ⟨answer, hanswer, hempty⟩ := round?_of_clears s d hclears
    obtain ⟨after, hrun, htold⟩ := hround answer hanswer
    refine ⟨after, hrun, fun u hu => ?_⟩
    rw [shown_eq, htold.published, if_pos hconnected, hempty, Option.getD_some, List.foldl_append]
    apply Publication.shownAfter_of_empty (told d []) (diagnostics_told_nil d)
    rw [uri_told]
    exact .inl hu

/-- A list whose last item is no finding. -/
def spoiltOutput : String := "[[null,\"m\",[1,1],[1,2]],[null]]"

/-- The session with an open notebook as it lints when the tool prints such a list. -/
def spoiltSession : Session :=
  { openedSession with linter := (ofTool (printing spoiltOutput)).linter }

theorem spoiltSession_stays :
    spoiltSession.documents.document? turnedNotebook =
      some (.notebook turnedNotebook ⟨"/nb.ipynb"⟩ (some 1) [⟨turnedCell, .code, "y", some 1⟩]) ∧
    spoiltSession.isShuttingDown = false ∧ (spoiltSession.shown turnedCell).length = 1 ∧
    ∃ after, (lintAndPublish turnedNotebook).run spoiltSession = some ((), after) ∧
      after.shown = spoiltSession.shown := by
  have hopen : spoiltSession.documents.document? turnedNotebook =
      some (.notebook turnedNotebook ⟨"/nb.ipynb"⟩ (some 1)
        [⟨turnedCell, .code, "y", some 1⟩]) := by decide +kernel
  have hlive : spoiltSession.isShuttingDown = false := by decide +kernel
  have hrefused : spoiltSession.linter.Refused (.notebook turnedNotebook ⟨"/nb.ipynb"⟩ (some 1)
      [⟨turnedCell, .code, "y", some 1⟩]) := by
    refine ⟨by decide +kernel, .ofVersion (.release 0 5 0),
      ⟨Utf8.encode spoiltOutput.toList, [], 0⟩, ?_, .inr ?_⟩
    · exact Except.eq_ok_of_toOption (by decide +kernel)
    · exact (Finding.statedIn?_eq_none_iff _).1 (by decide +kernel)
  obtain ⟨-, hstays, -⟩ := round_all_or_nothing spoiltSession turnedNotebook _ hopen hlive
  exact ⟨hopen, hlive, by decide +kernel, hstays hrefused⟩

/-- A session with an open notebook that holds a text for readers and no code. -/
def proseSession : Session :=
  { ofTool (printing "[]") with
    documents := Store.empty.openNotebook turnedNotebook 1 [⟨turnedCell, .markup⟩]
      [⟨turnedCell, "y", 1⟩] }

/-- A round may publish nothing although the linter answers. -/
theorem proseNotebook_unpublished :
    ∃ d, proseSession.documents.document? turnedNotebook = some d ∧
      proseSession.isShuttingDown = false ∧ proseSession.connected = true ∧
      proseSession.outcome? d = some (.ok (some [])) ∧
      ∃ after, (lintAndPublish turnedNotebook).run proseSession = some ((), after) ∧
        after.published = proseSession.published := by
  have hanswer : ((Linter.lint (.notebook turnedNotebook ⟨"/nb.ipynb"⟩ (some 1)
      [⟨turnedCell, .markup, "y", some 1⟩])).run.run proseSession.linter).1 = .ok (some []) :=
    Except.eq_ok_of_toOption (by decide +kernel)
  have hrun : ((lintAndPublish turnedNotebook).run proseSession).map (fun r => r.2.sent.length) =
      some 0 := by decide +kernel
  obtain ⟨⟨_, after⟩, hafter, hsent⟩ := Option.map_eq_some_iff.1 hrun
  refine ⟨.notebook turnedNotebook ⟨"/nb.ipynb"⟩ (some 1) [⟨turnedCell, .markup, "y", some 1⟩],
    by decide +kernel, by decide +kernel, rfl, ?_, after, hafter, ?_⟩
  · rw [outcome?, hanswer]
    rfl
  · rw [published, List.length_eq_zero_iff.1 hsent]
    rfl

end Session
end LintBridge
