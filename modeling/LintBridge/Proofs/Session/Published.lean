import LintBridge.Proofs.Session.Steps
import LintBridge.Session.Documents

/-!
What an editor shows after a round of linting.

An editor shows for each text the diagnostics that it was told last (`shown`). A round over a
notebook tells it about the cells of code only, so

* `shown_round`: after a round that did not fail, a cell of code shows the findings in it, and every
  other text shows what it showed before;
* `round_upToDate_iff`: all cells of the notebook show what the round found exactly when the cells
  that hold no code showed nothing before it.
-/

namespace LintBridge

/-! ## What is shown -/

/-- What an editor shows for each text after it was told something. -/
def Event.show (shown : Url → List Diagnostic) : Event → Url → List Diagnostic
  | .publishDiagnostics uri diagnostics _ => fun u => if uri = u then diagnostics else shown u
  | _ => shown

/-- What an editor shows for each text after it was told some things, one after the other. -/
def showAll (shown : Url → List Diagnostic) (events : List Event) : Url → List Diagnostic :=
  events.foldl Event.show shown

/-- What an editor shows for a text. -/
def Session.shown (s : Session) : Url → List Diagnostic := showAll (fun _ => []) s.sent

theorem showAll_append (shown : Url → List Diagnostic) (events more : List Event) :
    showAll shown (events ++ more) = showAll (showAll shown events) more :=
  List.foldl_append

namespace Session

theorem show_publication (shown : Url → List Diagnostic) (uri other : Url) (version : Option Int)
    (findings : List Finding) :
    (publication uri version findings).show shown other =
      if uri = other then findings.map Diagnostic.ofFinding else shown other := rfl

/-! ## Publishing cell by cell -/

def cellPublications (findings : List Finding) (cells : List (Cell × Nat)) : List Event :=
  cells.map fun (c, number) => publication c.uri c.version (findingsInCell findings number)

theorem showAll_cellPublications_of_not_mem (shown : Url → List Diagnostic)
    (findings : List Finding) (cells : List (Cell × Nat)) (uri : Url)
    (h : uri ∉ cells.map fun c => c.1.uri) :
    showAll shown (cellPublications findings cells) uri = shown uri := by
  induction cells generalizing shown with
  | nil => rfl
  | cons c rest ih =>
    rw [List.map_cons, List.mem_cons, not_or] at h
    have hrest := ih
      ((publication c.1.uri c.1.version (findingsInCell findings c.2)).show shown) h.2
    rw [show_publication, if_neg (Ne.symm h.1)] at hrest
    exact hrest

theorem showAll_cellPublications_of_mem (shown : Url → List Diagnostic)
    (findings : List Finding) (cells : List (Cell × Nat)) (c : Cell) (number : Nat)
    (hdistinct : (cells.map fun c => c.1.uri).Nodup) (hmem : (c, number) ∈ cells) :
    showAll shown (cellPublications findings cells) c.uri =
      (findingsInCell findings number).map Diagnostic.ofFinding := by
  induction cells generalizing shown with
  | nil => cases hmem
  | cons first rest ih =>
    rw [List.map_cons, List.nodup_cons] at hdistinct
    rcases List.mem_cons.1 hmem with rfl | hmem
    · have hrest := showAll_cellPublications_of_not_mem
        ((publication c.uri c.version (findingsInCell findings number)).show shown) findings rest
        c.uri hdistinct.1
      rw [show_publication, if_pos rfl] at hrest
      exact hrest
    · exact ih _ hdistinct.2 hmem

/-- The cells of code, with their numbers counted from one. -/
def codeCells (cells : List Cell) : List (Cell × Nat) :=
  (cells.zipIdx 1).filter fun (c, _) => c.isCode

theorem mem_codeCells (cells : List Cell) (c : Cell) (number : Nat) :
    (c, number) ∈ codeCells cells ↔
      1 ≤ number ∧ cells[number - 1]? = some c ∧ c.isCode = true := by
  simp [codeCells, List.mk_mem_zipIdx_iff_le_and_getElem?_sub, and_assoc]

theorem codeCells_distinct (cells : List Cell) (h : (cells.map Cell.uri).Nodup) :
    ((codeCells cells).map fun c => c.1.uri).Nodup := by
  have hall : (cells.zipIdx 1).map (fun c => c.1.uri) = cells.map Cell.uri := by
    have hfst := congrArg (List.map Cell.uri) (List.zipIdx_map_fst 1 cells)
    rw [List.map_map] at hfst
    exact hfst
  rw [← hall] at h
  exact h.sublist (List.filter_sublist.map _)

theorem not_mem_codeCells (cells : List Cell) (i : Nat) (c : Cell)
    (hdistinct : (cells.map Cell.uri).Nodup) (hc : cells[i]? = some c) (hcode : c.isCode = false) :
    c.uri ∉ (codeCells cells).map fun c => c.1.uri := by
  intro hmem
  obtain ⟨⟨other, number⟩, hother, huri⟩ := List.mem_map.1 hmem
  obtain ⟨-, hplace, hotherCode⟩ := (mem_codeCells cells other number).1 hother
  have hlen : i < (cells.map Cell.uri).length := by
    rw [List.length_map]
    exact (List.getElem?_eq_some_iff.1 hc).1
  have hindex : i = number - 1 := by
    refine (List.getElem?_inj hlen hdistinct).1 ?_
    rw [List.getElem?_map, List.getElem?_map, hc, hplace]
    exact congrArg some huri.symm
  rw [← hindex, hc] at hplace
  rw [Option.some.inj hplace, hotherCode] at hcode
  cases hcode

/-! ## A round -/

/-- A round over a notebook with some cells ends with findings: the editor listens, the session is
not shut down, the name is that of the notebook or of one of its cells, and the linter does not
fail. A document that is left alone has no findings. -/
structure EndsWith (s : Session) (uri : Url) (cells : List Cell) (findings : List Finding) :
    Prop where
  connected : s.connected = true
  live : s.isShuttingDown = false
  linted : ∃ notebook path version found,
    s.documents.document? uri = some (.notebook notebook path version cells) ∧
      ((Linter.lint (.notebook notebook path version cells)).run.run s.linter).1 = .ok found ∧
      found.getD [] = findings

/-- A round changes what the linter knows, and tells the editor of the findings in the cells of
code. -/
theorem lintAndPublish_run (s : Session) (uri : Url) (cells : List Cell) (findings : List Finding)
    (h : s.EndsWith uri cells findings) :
    ∃ linter, (lintAndPublish uri).run s =
      some ((), { s with
        linter
        sent := s.sent ++ cellPublications findings (codeCells cells) }) := by
  obtain ⟨hconnected, hlive, notebook, path, version, found, hd, hlint, rfl⟩ := h
  have hrequest := request_run (Linter.lint (.notebook notebook path version cells)) s
  rw [hlint] at hrequest
  refine ⟨((Linter.lint (.notebook notebook path version cells)).run.run s.linter).2, ?_⟩
  rw [lintAndPublish, run_get_bind, hlive, hd]
  exact (run_bind_of_eq_some hrequest).trans (forM_sendIfConnected_run _ _ hconnected)

/-- What is shown after a round over a notebook: in a cell of code the findings in it, and under
all other names what was shown before. -/
theorem shown_round (s : Session) (uri : Url) (cells : List Cell) (findings : List Finding)
    (h : s.EndsWith uri cells findings) (hdistinct : (cells.map Cell.uri).Nodup) :
    ∃ t, (lintAndPublish uri).run s = some ((), t) ∧
      ∀ (i : Nat) (c : Cell), cells[i]? = some c → t.shown c.uri =
        if c.isCode then
          (findings.filter fun f => f.cell.getD 1 = i + 1).map Diagnostic.ofFinding
        else s.shown c.uri := by
  obtain ⟨linter, hrun⟩ := lintAndPublish_run s uri cells findings h
  refine ⟨_, hrun, fun i c hc => ?_⟩
  simp only [shown, showAll_append]
  cases hcode : c.isCode with
  | true =>
    have hmem : (c, i + 1) ∈ codeCells cells :=
      (mem_codeCells cells c (i + 1)).2 ⟨Nat.le_add_left 1 i, hc, hcode⟩
    exact showAll_cellPublications_of_mem _ findings _ c _ (codeCells_distinct cells hdistinct) hmem
  | false =>
    exact showAll_cellPublications_of_not_mem _ findings _ c.uri
      (not_mem_codeCells cells i c hdistinct hc hcode)

/-- Every cell of a notebook shows the findings in it, and a cell without code shows none. -/
def UpToDate (s : Session) (cells : List Cell) (findings : List Finding) : Prop :=
  ∀ (i : Nat) (c : Cell), cells[i]? = some c → s.shown c.uri =
    if c.isCode then (findings.filter fun f => f.cell.getD 1 = i + 1).map Diagnostic.ofFinding
    else []

/-- A round over a notebook comes to an end. After it every cell of code shows the findings in it,
and the whole notebook is up to date exactly when no cell without code showed anything before. -/
theorem round_upToDate_iff (s : Session) (uri : Url) (cells : List Cell) (findings : List Finding)
    (h : s.EndsWith uri cells findings) (hdistinct : (cells.map Cell.uri).Nodup) :
    ∃ t, (lintAndPublish uri).run s = some ((), t) ∧
      (∀ (i : Nat) (c : Cell), cells[i]? = some c → c.isCode = true → t.shown c.uri =
        (findings.filter fun f => f.cell.getD 1 = i + 1).map Diagnostic.ofFinding) ∧
      (t.UpToDate cells findings ↔ ∀ c ∈ cells, c.isCode = false → s.shown c.uri = []) := by
  obtain ⟨t, hrun, hround⟩ := shown_round s uri cells findings h hdistinct
  refine ⟨t, hrun, ?_, ?_, ?_⟩
  · intro i c hc hcode
    rw [hround i c hc, if_pos hcode]
  · intro hcurrent c hmem hcode
    obtain ⟨i, hc⟩ := List.getElem?_of_mem hmem
    have hboth := (hround i c hc).symm.trans (hcurrent i c hc)
    rw [hcode] at hboth
    exact hboth
  · intro hempty i c hc
    rw [hround i c hc]
    cases hcode : c.isCode with
    | true => rfl
    | false => exact hempty c (List.mem_of_getElem? hc) hcode

def turnedNotebook : Url := ⟨"file", some "", .segments ["nb.ipynb"], none, none⟩

def turnedCell : Url := ⟨"cell", none, .rootless "a", none, none⟩

def oneFinding : Finding := ⟨⟨⟨0, 0⟩, ⟨0, 1⟩⟩, "m", none, none, none, none, none⟩

def openedSession : Session :=
  let notebook : OpenedNotebook :=
    ⟨⟨turnedNotebook, 1⟩, [⟨turnedCell, .code⟩], [⟨turnedCell, "python", 1, "y"⟩]⟩
  let opened := (notebookOpened notebook).run (ofTool (printing "[[null,\"m\",[1,1],[1,2]]]"))
  (opened.get (by decide +kernel)).2

/-- The session as it lints when the cell has been turned into a text for readers. -/
def turnedSession : Session :=
  { openedSession with
    documents := openedSession.documents.changeCellKinds turnedNotebook [⟨turnedCell, .markup⟩] }

theorem turnedSession_stale :
    turnedSession.EndsWith turnedNotebook [⟨turnedCell, .markup, "y", some 1⟩] [oneFinding] ∧
    ([⟨turnedCell, .markup, "y", some 1⟩].map Cell.uri).Nodup ∧
    ∃ t, (lintAndPublish turnedNotebook).run turnedSession = some ((), t) ∧
      ¬ t.UpToDate [⟨turnedCell, .markup, "y", some 1⟩] [oneFinding] := by
  have hlint : ((Linter.lint (.notebook turnedNotebook ⟨"/nb.ipynb"⟩ (some 1)
      [⟨turnedCell, .markup, "y", some 1⟩])).run.run turnedSession.linter).1.toOption =
        some (some [oneFinding]) := by decide +kernel
  have hends : turnedSession.EndsWith turnedNotebook [⟨turnedCell, .markup, "y", some 1⟩]
      [oneFinding] := by
    refine ⟨by decide +kernel, by decide +kernel, turnedNotebook, ⟨"/nb.ipynb"⟩, some 1,
      some [oneFinding], by decide +kernel, ?_, rfl⟩
    cases hanswer : ((Linter.lint (.notebook turnedNotebook ⟨"/nb.ipynb"⟩ (some 1)
        [⟨turnedCell, .markup, "y", some 1⟩])).run.run turnedSession.linter).1 with
    | ok found =>
      rw [hanswer] at hlint
      rw [Option.some.inj hlint]
    | error failure =>
      rw [hanswer] at hlint
      cases hlint
  have hdistinct : ([⟨turnedCell, .markup, "y", some 1⟩].map Cell.uri).Nodup := by decide +kernel
  have hshown : (turnedSession.shown turnedCell).length = 1 := by decide +kernel
  obtain ⟨t, hrun, -, hiff⟩ := round_upToDate_iff turnedSession turnedNotebook _ _ hends hdistinct
  refine ⟨hends, hdistinct, t, hrun, fun hcurrent => ?_⟩
  have hempty := hiff.1 hcurrent ⟨turnedCell, .markup, "y", some 1⟩ List.mem_cons_self rfl
  rw [hempty] at hshown
  cases hshown

end Session
end LintBridge
