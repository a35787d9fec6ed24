import LintBridge.Proofs.Store.Calls

/-!
Which names of documents an operation loses.

A store holds a name if a text is open under it or an open notebook lists it. `Loses uris s t` says
that all names which `s` holds and `t` does not are among `uris`. A store takes any operation, so
nothing is assumed about the editor here but what a theorem states.

* `holds_of_document?`: the document that a name leads to has only names that the store holds;
* `loses_openNotebook`, `loses_changeCells`: a notebook that is not open may be opened without loss,
  and a change of cells loses the texts that it closes if it closes the cells that it takes out.
-/

namespace LintBridge

/-! ## Windows that wrap -/

/-- A cell stays before the window of a change, makes way, or stays after the window. -/
theorem CellChange.mem_cases_of_window? {c : CellChange} {cells : List CellSlot}
    {start stop : Nat} (h : c.window? cells.length = some (start, stop)) {slot : CellSlot}
    (hslot : slot ∈ cells) :
    slot ∈ cells.take start ∨ slot ∈ c.removed cells ∨ slot ∈ cells.drop stop := by
  obtain ⟨rfl, hle, hcount⟩ := window?_bounds h
  have hdrop : cells.drop (min c.start cells.length) = cells.drop c.start := by
    rw [List.drop_eq_drop_iff]
    omega
  refine (mem_window_cases hle hslot).imp_right (Or.imp_left fun hwindow => ?_)
  rw [List.drop_take, hdrop] at hwindow
  exact (List.take_sublist_take_left (by omega)).subset hwindow

/-- A cell is listed after the window was replaced if it is among the new ones or did not make
way. -/
theorem CellChange.mem_map_uri_of_window? {c : CellChange} {cells : List CellSlot}
    {start stop : Nat} (h : c.window? cells.length = some (start, stop)) {slot : CellSlot}
    (hslot : slot ∈ cells)
    (hback : slot ∈ c.removed cells → slot.uri ∈ c.cells.map CellSlot.uri) :
    slot.uri ∈ (cells.take start ++ c.cells ++ cells.drop stop).map CellSlot.uri := by
  rw [List.map_append, List.map_append, List.mem_append, List.mem_append]
  rcases mem_cases_of_window? h hslot with hbefore | hgone | hafter
  · exact .inl (.inl (List.mem_map_of_mem hbefore))
  · exact .inl (.inr (hback hgone))
  · exact .inr (List.mem_map_of_mem hafter)

namespace Store

/-- A text is open under a name, or a notebook that is open lists it. -/
inductive Holds (s : Store) (u : Url) : Prop where
  | text (h : (s.texts.get? u).isSome = true)
  | cell (notebook : Url) (h : u ∈ s.listed notebook)

/-- A name that is held in one store and not in another is one of some names. -/
def Loses (uris : List Url) (s t : Store) : Prop := ∀ u, s.Holds u → t.Holds u ∨ u ∈ uris

/-! ## What leads to documents -/

def partNames : Document → List Url
  | .notebook _ _ _ cells => cells.map Cell.uri
  | d => [d.uri]

theorem exists_of_notebookDocument? {s : Store} {notebook : Url} {d : Document}
    (h : s.notebookDocument? notebook = some d) :
    ∃ entry path, s.notebooks.get? notebook = some entry ∧
      d = .notebook notebook path (some entry.version) (entry.cells.map s.cell) := by
  obtain ⟨entry, hentry, h⟩ := Option.bind_eq_some_iff.1 h
  obtain ⟨path, -, hd⟩ := Option.bind_eq_some_iff.1 h
  exact ⟨entry, path, hentry, (Option.some.inj hd).symm⟩

theorem exists_of_textDocument? {s : Store} {uri : Url} {d : Document}
    (h : s.textDocument? uri = some d) :
    ∃ entry path, s.texts.get? uri = some entry ∧
      d = .text uri path entry.text (some entry.version) := by
  obtain ⟨entry, hentry, h⟩ := Option.bind_eq_some_iff.1 h
  obtain ⟨path, -, hd⟩ := Option.bind_eq_some_iff.1 h
  exact ⟨entry, path, hentry, (Option.some.inj hd).symm⟩

/-- A name leads to the document of a notebook, or of the text under this name. -/
theorem document?_cases {s : Store} {uri : Url} {d : Document} (h : s.document? uri = some d) :
    (∃ n, s.notebookDocument? n = some d) ∨ s.textDocument? uri = some d := by
  rw [document?] at h
  split at h
  · exact .inl ⟨_, h⟩
  · split at h
    · exact .inl ⟨_, h⟩
    · exact .inr h

theorem partNames_of_notebookDocument? {s : Store} {notebook : Url} {d : Document}
    (h : s.notebookDocument? notebook = some d) : partNames d = s.listed notebook := by
  obtain ⟨entry, path, hentry, rfl⟩ := exists_of_notebookDocument? h
  rw [listed_of_get? hentry, partNames, List.map_map]
  rfl

theorem partNames_of_textDocument? {s : Store} {uri : Url} {d : Document}
    (h : s.textDocument? uri = some d) : partNames d = [uri] ∧ s.Holds uri := by
  obtain ⟨entry, path, hentry, rfl⟩ := exists_of_textDocument? h
  exact ⟨rfl, .text (by rw [hentry]; rfl)⟩

/-- The document that a name leads to is made of texts whose names are held. -/
theorem holds_of_document? {s : Store} {uri : Url} {d : Document} (h : s.document? uri = some d) :
    ∀ u ∈ partNames d, s.Holds u := by
  intro u hu
  rcases document?_cases h with ⟨n, hn⟩ | htext
  · rw [partNames_of_notebookDocument? hn] at hu
    exact .cell n hu
  · obtain ⟨hnames, hheld⟩ := partNames_of_textDocument? htext
    rw [hnames, List.mem_singleton] at hu
    exact hu ▸ hheld

/-! ## Losses -/

theorem loses_refl (s : Store) (uris : List Url) : Loses uris s s := fun _ h => .inl h

/-- Nothing is lost where all notebooks list what they listed and texts stay open. -/
theorem loses_of_texts {uris : List Url} {s t : Store} (hlisted : ∀ n, t.listed n = s.listed n)
    (htexts : ∀ u, (s.texts.get? u).isSome = true → (t.texts.get? u).isSome = true ∨ u ∈ uris) :
    Loses uris s t := by
  rintro u (htext | ⟨n, hn⟩)
  · exact (htexts u htext).imp_left .text
  · exact .inl (.cell n (hlisted n ▸ hn))

theorem loses_openText (s : Store) (uri : Url) (text : String) (version : Int) :
    Loses [] s (s.openText uri text version) := by
  refine loses_of_texts (fun _ => rfl) fun u hu => .inl ?_
  rw [openText, Table.get?_insert]
  split
  · rfl
  · exact hu

theorem loses_changeText {s t : Store} {uri : Url} {version : Int} {changes : List ContentChange}
    {found : Bool} (h : s.changeText? uri version changes = some (found, t)) : Loses [] s t := by
  rcases changeText?_cases h with ⟨-, rfl, -⟩ | ⟨text, -, rfl⟩
  · exact loses_refl _ []
  · exact loses_openText s uri text version

theorem loses_closeText (s : Store) (uri : Url) : Loses [uri] s (s.closeText uri).2 := by
  refine loses_of_texts (fun _ => rfl) fun u hu => ?_
  by_cases h : uri = u
  · exact .inr (List.mem_singleton.2 h.symm)
  · refine .inl ?_
    rw [closeText, Table.get?_erase, if_neg h]
    exact hu

theorem isSome_get?_openCells (s : Store) (opened : List OpenedCell) (u : Url)
    (h : (s.texts.get? u).isSome = true) : ((s.openCells opened).texts.get? u).isSome = true := by
  induction opened generalizing s with
  | nil => exact h
  | cons o rest ih =>
    refine ih (s.openText o.uri o.text o.version) ?_
    rw [openText, Table.get?_insert]
    split
    · rfl
    · exact h

theorem loses_openNotebook (s : Store) (uri : Url) (version : Int) (cells : List CellSlot)
    (opened : List OpenedCell) (h : s.isNotebook uri = false) :
    Loses [] s (s.openNotebook uri version cells opened) := by
  have hclosed : s.listed uri = [] := by
    refine listed_of_closed ?_
    rw [← Option.isNone_iff_eq_none, ← Option.not_isSome, ← Table.contains, ← isNotebook, h]
    rfl
  rintro u (htext | ⟨n, hn⟩)
  · exact .inl (.text (isSome_get?_openCells (s.own uri cells) opened u htext))
  · have hother : uri ≠ n := by
      rintro rfl
      rw [hclosed] at hn
      cases hn
    have hsame : (s.openNotebook uri version cells opened).listed n = s.listed n := by
      refine listed_congr ?_
      rw [notebooks_openNotebook, Table.get?_insert, if_neg hother]
    exact .inl (.cell n (hsame ▸ hn))

theorem loses_setNotebookVersion (s : Store) (uri : Url) (version : Int) :
    Loses [] s (s.setNotebookVersion uri version).2 :=
  loses_of_texts (s.listed_setNotebookVersion uri version) fun u h => .inl <| by
    rw [texts_setNotebookVersion]
    exact h

theorem loses_changeCellKinds (s : Store) (uri : Url) (updates : List CellSlot) :
    Loses [] s (s.changeCellKinds uri updates) :=
  loses_of_texts (s.listed_changeCellKinds uri updates) fun u h => .inl <| by
    rw [texts_changeCellKinds]
    exact h

/-- Closing a notebook loses only the cells that are given as its own. -/
theorem loses_closeNotebook (s : Store) (uri : Url) :
    Loses (s.closeNotebook uri).1 s (s.closeNotebook uri).2 := by
  rw [closeNotebook]
  cases hopen : s.notebooks.get? uri with
  | none => exact loses_refl s []
  | some entry =>
    rintro u (htext | ⟨n, hn⟩)
    · by_cases hmem : u ∈ entry.cells.map CellSlot.uri
      · exact .inr hmem
      · refine .inl (.text ?_)
        show ((s.texts.eraseAll _).get? u).isSome = true
        rw [Table.get?_eraseAll, if_neg hmem]
        exact htext
    · by_cases h : uri = n
      · subst h
        rw [listed_of_get? hopen] at hn
        exact .inr hn
      · refine .inl (.cell n ?_)
        rw [listed_congr (s := s) (by rw [Table.get?_erase, if_neg h])]
        exact hn

theorem notebookCells?_setNotebookVersion (s : Store) (uri : Url) (version : Int) :
    (s.setNotebookVersion uri version).2.notebookCells? uri = s.notebookCells? uri := by
  rw [setNotebookVersion]
  cases hopen : s.notebooks.get? uri with
  | none => rfl
  | some entry => simp [notebookCells?, hopen]

/-- The cells that a change takes out are put in again or closed. -/
def ClosesRemoved (s : Store) (uri : Url) (c : CellChange) : Prop :=
  ∀ cells ∈ s.notebookCells? uri, ∀ slot ∈ c.removed cells,
    slot.uri ∈ c.cells.map CellSlot.uri ∨ slot.uri ∈ c.closed

instance (s : Store) (uri : Url) (c : CellChange) : Decidable (s.ClosesRemoved uri c) :=
  inferInstanceAs (Decidable (∀ cells ∈ s.notebookCells? uri, ∀ slot ∈ c.removed cells,
    slot.uri ∈ c.cells.map CellSlot.uri ∨ slot.uri ∈ c.closed))

/-- A change of cells that closes the cells it takes out loses only texts that it closes. -/
theorem loses_changeCells {s t : Store} {uri : Url} {c : CellChange} {found : Bool}
    (ht : s.changeCells? uri c = some (found, t)) (h : s.ClosesRemoved uri c) :
    Loses c.closed s t := by
  cases hopen : s.notebooks.get? uri with
  | none =>
    simp only [changeCells?, hopen, Option.some.injEq, Prod.mk.injEq] at ht
    exact ht.2 ▸ loses_refl s c.closed
  | some entry =>
    cases hwindow : c.window? entry.cells.length with
    | none => simp [changeCells?, hopen, hwindow] at ht
    | some ends =>
      obtain ⟨u, hu, hnotebooks, -, htexts⟩ :=
        s.changeCells?_of_window? uri c entry hopen hwindow
      rw [ht] at hu
      obtain ⟨-, rfl⟩ := Prod.mk.inj (Option.some.inj hu)
      intro u hu
      by_cases hclosed : u ∈ c.closed
      · exact .inr hclosed
      refine .inl ?_
      rcases hu with htext | ⟨n, hn⟩
      · refine .text ?_
        rw [htexts]
        refine isSome_get?_openCells _ c.opened u ?_
        rw [Table.get?_eraseAll, if_neg hclosed]
        exact htext
      · refine .cell n ?_
        by_cases hother : uri = n
        · subst hother
          rw [listed_of_get? hopen] at hn
          obtain ⟨slot, hslot, rfl⟩ := List.mem_map.1 hn
          have hcells : entry.cells ∈ s.notebookCells? uri := by
            rw [notebookCells?, hopen]
            rfl
          rw [listed_of_get? (by rw [hnotebooks, Table.get?_insert, if_pos rfl])]
          exact CellChange.mem_map_uri_of_window? hwindow hslot fun hgone =>
            (h entry.cells hcells slot hgone).resolve_right hclosed
        · rw [listed_congr (s := s) (by rw [hnotebooks, Table.get?_insert, if_neg hother])]
          exact hn

end Store
end LintBridge
