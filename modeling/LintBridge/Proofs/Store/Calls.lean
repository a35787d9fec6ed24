import LintBridge.Proofs.Text.Splice
import LintBridge.Store

/-!
Operations on the open documents, and runs of them.

An operation is about one text or about one notebook, and `Store.call?` carries it out. A change of
cells replaces those in a window (`CellChange.removed`); all others stay (`CellChange.kept`).

* `onText?_frame`: an operation on a text writes at most that text;
* `changeCells?_of_fits`: a change of cells replaces a window of them, frees the cells that were in
  it, and makes the new ones belong to the notebook.
-/

namespace LintBridge

/-! ## Operations -/

inductive TextCall where
  | openText (text : String) (version : Int)
  | changeText (version : Int) (changes : List ContentChange)
  | closeText
  deriving DecidableEq, Repr

inductive NotebookCall where
  | openNotebook (version : Int) (cells : List CellSlot) (opened : List OpenedCell)
  | setVersion (version : Int)
  | changeCells (change : CellChange)
  | changeKinds (updates : List CellSlot)
  | closeNotebook
  deriving DecidableEq, Repr

/-- An operation on the open documents, with the name of the text or notebook. -/
inductive StoreCall where
  | text (uri : Url) (call : TextCall)
  | notebook (uri : Url) (call : NotebookCall)
  deriving DecidableEq, Repr

/-- The texts that an operation on a notebook opens and closes by name. -/
def NotebookCall.texts : NotebookCall → List Url
  | .openNotebook _ _ opened => opened.map OpenedCell.uri
  | .changeCells change => change.opened.map OpenedCell.uri ++ change.closed
  | _ => []

/-- The cells that an operation puts into a notebook. -/
def NotebookCall.entering : NotebookCall → List Url
  | .openNotebook _ cells _ => cells.map CellSlot.uri
  | .changeCells change => change.cells.map CellSlot.uri
  | _ => []

namespace Store

/-- The documents after an operation on a text; none if it breaks off. -/
def onText? (s : Store) (uri : Url) : TextCall → Option Store
  | .openText text version => some (s.openText uri text version)
  | .changeText version changes => (s.changeText? uri version changes).map Prod.snd
  | .closeText => some (s.closeText uri).2

/-- The documents after an operation on a notebook; none if it breaks off. -/
def onNotebook? (s : Store) (uri : Url) : NotebookCall → Option Store
  | .openNotebook version cells opened => some (s.openNotebook uri version cells opened)
  | .setVersion version => some (s.setNotebookVersion uri version).2
  | .changeCells change => (s.changeCells? uri change).map Prod.snd
  | .changeKinds updates => some (s.changeCellKinds uri updates)
  | .closeNotebook => some (s.closeNotebook uri).2

/-- The documents after an operation; none if it breaks off. -/
def call? (s : Store) : StoreCall → Option Store
  | .text uri call => s.onText? uri call
  | .notebook uri call => s.onNotebook? uri call

def callAll? : Store → List StoreCall → Option Store
  | s, [] => some s
  | s, call :: rest => (s.call? call).bind fun t => t.callAll? rest

/-- The cells that a notebook lists, by their names; none if it is not open. -/
def listed (s : Store) (notebook : Url) : List Url :=
  ((s.notebookCells? notebook).getD []).map CellSlot.uri

end Store

/-! ## Windows of cells -/

namespace CellChange

/-- The counts of a change add up within 64 bits. -/
def Fits (c : CellChange) (size : Nat) : Prop :=
  min c.start size + c.deleteCount ≤ maxSize

instance (c : CellChange) (size : Nat) : Decidable (c.Fits size) :=
  inferInstanceAs (Decidable (_ ≤ _))

/-- The cells that make way. -/
def removed (c : CellChange) (cells : List CellSlot) : List CellSlot :=
  (cells.drop c.start).take c.deleteCount

def kept (c : CellChange) (cells : List CellSlot) : List CellSlot :=
  cells.take c.start ++ cells.drop (c.start + c.deleteCount)

def result (c : CellChange) (cells : List CellSlot) : List CellSlot :=
  cells.take c.start ++ c.cells ++ cells.drop (c.start + c.deleteCount)

theorem window?_of_fits (c : CellChange) (size : Nat) (h : c.Fits size) :
    c.window? size = some (min c.start size, min (c.start + c.deleteCount) size) := by
  have hstop :
      min (min c.start size + c.deleteCount) size = min (c.start + c.deleteCount) size := by
    omega
  have hsum : counted? maxSize (min c.start size + c.deleteCount) =
      some (min c.start size + c.deleteCount) := if_pos h
  simp only [window?, hsum, Option.bind_eq_bind, Option.bind_some, Option.pure_def, hstop]

/-- A window starts among the cells and has no more of them than make way. -/
theorem window?_bounds {c : CellChange} {size start stop : Nat}
    (h : c.window? size = some (start, stop)) :
    start = min c.start size ∧ start ≤ stop ∧ stop ≤ start + c.deleteCount := by
  obtain ⟨sum, hsum, hends⟩ := Option.bind_eq_some_iff.1 h
  rw [counted?] at hsum
  split at hsum
  · cases hsum
    cases hends
    omega
  · cases hsum

theorem mem_window_cases {cells : List CellSlot} {start stop : Nat} (hle : start ≤ stop)
    {slot : CellSlot} (h : slot ∈ cells) :
    slot ∈ cells.take start ∨ slot ∈ (cells.take stop).drop start ∨ slot ∈ cells.drop stop := by
  rw [← List.take_append_drop stop cells, List.mem_append] at h
  rcases h with hbefore | hafter
  · rw [← List.take_append_drop start (cells.take stop), List.mem_append, List.take_take,
      Nat.min_eq_left hle] at hbefore
    exact hbefore.imp_right .inl
  · exact .inr (.inr hafter)

/-- What lies between the ends of a window are the cells that make way. -/
theorem drop_take_window (c : CellChange) (cells : List CellSlot) :
    (cells.take (min (c.start + c.deleteCount) cells.length)).drop (min c.start cells.length) =
      c.removed cells := by
  rw [← List.take_eq_take_min, List.drop_take, removed]
  by_cases hstart : c.start ≤ cells.length
  · rw [Nat.min_eq_left hstart, Nat.add_sub_cancel_left]
  · rw [Nat.min_eq_right (by omega), List.drop_length, List.drop_eq_nil_of_le (by omega),
      List.take_nil, List.take_nil]

/-- The cells are those that stay and those that make way. -/
theorem perm_kept_removed (c : CellChange) (cells : List CellSlot) :
    cells.Perm (c.kept cells ++ c.removed cells) := by
  have hcells : cells = cells.take c.start ++
      (c.removed cells ++ cells.drop (c.start + c.deleteCount)) := by
    rw [removed, ← List.drop_drop, List.take_append_drop, List.take_append_drop]
  rw [kept, List.append_assoc]
  exact (List.Perm.of_eq hcells).trans (List.perm_append_comm.append_left _)

/-- The cells after a change are those that stay and the new ones. -/
theorem perm_result (c : CellChange) (cells : List CellSlot) :
    (c.result cells).Perm (c.kept cells ++ c.cells) := by
  rw [result, kept, List.append_assoc, List.append_assoc]
  exact List.perm_append_comm.append_left _

end CellChange

/-! ## What operations do -/

namespace Store

/-- A change of a text that is carried out opens the changed text, or finds none. -/
theorem changeText?_cases {s t : Store} {uri : Url} {version : Int}
    {changes : List ContentChange} {found : Bool}
    (h : s.changeText? uri version changes = some (found, t)) :
    (found = false ∧ t = s ∧ s.texts.get? uri = none) ∨
      ∃ text, found = true ∧ t = s.openText uri text version := by
  rw [changeText?] at h
  cases hopen : s.texts.get? uri with
  | none =>
    rw [hopen] at h
    cases h
    exact .inl ⟨rfl, rfl, rfl⟩
  | some entry =>
    rw [hopen] at h
    obtain ⟨text, -, hdone⟩ := Option.bind_eq_some_iff.1 h
    cases hdone
    exact .inr ⟨_, rfl, rfl⟩

/-- An operation on a text that does not break off writes at most that text, and opens or closes
none other. -/
theorem onText?_frame {s t : Store} {uri : Url} {call : TextCall}
    (h : s.onText? uri call = some t) :
    t.notebooks = s.notebooks ∧ t.owners = s.owners ∧
      ∀ u, u ≠ uri → t.texts.get? u = s.texts.get? u := by
  cases call with
  | openText text version =>
    obtain rfl := Option.some.inj h
    refine ⟨rfl, rfl, fun u hu => ?_⟩
    simp [openText, Ne.symm hu]
  | closeText =>
    obtain rfl := Option.some.inj h
    refine ⟨rfl, rfl, fun u hu => ?_⟩
    simp [closeText, Ne.symm hu]
  | changeText version changes =>
    obtain ⟨⟨found, changed⟩, hchange, rfl⟩ := Option.map_eq_some_iff.1 h
    rcases changeText?_cases hchange with ⟨-, rfl, -⟩ | ⟨text, -, rfl⟩
    · exact ⟨rfl, rfl, fun _ _ => rfl⟩
    · refine ⟨rfl, rfl, fun u hu => ?_⟩
      simp [openText, Ne.symm hu]

theorem listed_of_get? {s : Store} {notebook : Url} {e : OpenNotebook}
    (h : s.notebooks.get? notebook = some e) :
    s.listed notebook = e.cells.map CellSlot.uri := by
  simp [listed, notebookCells?, h]

theorem listed_of_closed {s : Store} {notebook : Url} (h : s.notebooks.get? notebook = none) :
    s.listed notebook = [] := by
  simp [listed, notebookCells?, h]

theorem mem_keys_of_mem_listed {s : Store} {c n : Url} (h : c ∈ s.listed n) :
    n ∈ s.notebooks.keys := by
  rw [Table.mem_keys, Table.contains]
  cases hopen : s.notebooks.get? n with
  | none =>
    rw [listed_of_closed hopen] at h
    cases h
  | some entry => rfl

theorem listed_congr {s t : Store} {notebook : Url}
    (h : t.notebooks.get? notebook = s.notebooks.get? notebook) :
    t.listed notebook = s.listed notebook := by
  rw [listed, notebookCells?, h, ← notebookCells?, ← listed]

theorem get?_own (s : Store) (notebook : Url) (cells : List CellSlot) (cell : Url) :
    (s.own notebook cells).owners.get? cell =
      if cell ∈ cells.map CellSlot.uri then some notebook else s.owners.get? cell := by
  have hmap : cells.map (fun c => (c.uri, notebook)) =
      (cells.map CellSlot.uri).map (·, notebook) := by
    rw [List.map_map]
    rfl
  rw [own, hmap]
  exact s.owners.get?_insertAll_const _ _ _

theorem openCells_notebooks (s : Store) (opened : List OpenedCell) :
    (s.openCells opened).notebooks = s.notebooks := by
  induction opened generalizing s with
  | nil => rfl
  | cons o rest ih => exact ih (s.openText o.uri o.text o.version)

theorem openCells_owners (s : Store) (opened : List OpenedCell) :
    (s.openCells opened).owners = s.owners := by
  induction opened generalizing s with
  | nil => rfl
  | cons o rest ih => exact ih (s.openText o.uri o.text o.version)

/-- The texts after those of cells are opened depend on the texts before only. -/
theorem texts_openCells_congr {s t : Store} (h : s.texts = t.texts) (opened : List OpenedCell) :
    (s.openCells opened).texts = (t.openCells opened).texts := by
  induction opened generalizing s t with
  | nil => exact h
  | cons o rest ih => exact ih (congrArg (·.insert o.uri ⟨o.text, o.version⟩) h)

theorem get?_openCells (s : Store) (opened : List OpenedCell) (uri : Url)
    (h : uri ∉ opened.map OpenedCell.uri) :
    (s.openCells opened).texts.get? uri = s.texts.get? uri := by
  induction opened generalizing s with
  | nil => rfl
  | cons o rest ih =>
    rw [List.map_cons, List.mem_cons, not_or] at h
    refine (ih (s.openText o.uri o.text o.version) h.2).trans ?_
    simp [openText, Ne.symm h.1]

theorem map_uri_setKind (cells : List CellSlot) (update : CellSlot) :
    (setKind cells update).map CellSlot.uri = cells.map CellSlot.uri := by
  induction cells with
  | nil => rfl
  | cons c rest ih =>
    rw [setKind]
    split
    · rfl
    · rw [List.map_cons, List.map_cons, ih]

theorem map_uri_foldl_setKind (updates cells : List CellSlot) :
    (updates.foldl setKind cells).map CellSlot.uri = cells.map CellSlot.uri := by
  induction updates generalizing cells with
  | nil => rfl
  | cons update rest ih => rw [List.foldl_cons, ih, map_uri_setKind]

/-! ## Notebooks and their lists -/

theorem notebooks_openNotebook (s : Store) (uri : Url) (version : Int) (cells : List CellSlot)
    (opened : List OpenedCell) :
    (s.openNotebook uri version cells opened).notebooks =
      s.notebooks.insert uri ⟨version, cells⟩ := by
  simp [openNotebook, openCells_notebooks, own]

/-- A notebook that is given another entry with cells of the same names lists what it listed. -/
theorem listed_insert (s : Store) (uri : Url) (entry changed : OpenNotebook)
    (hopen : s.notebooks.get? uri = some entry)
    (hcells : changed.cells.map CellSlot.uri = entry.cells.map CellSlot.uri) (n : Url) :
    listed { s with notebooks := s.notebooks.insert uri changed } n = s.listed n := by
  by_cases h : uri = n
  · subst h
    rw [listed_of_get? hopen, ← hcells]
    exact listed_of_get? (by rw [Table.get?_insert, if_pos rfl])
  · exact listed_congr (by rw [Table.get?_insert, if_neg h])

theorem listed_setNotebookVersion (s : Store) (uri : Url) (version : Int) (n : Url) :
    (s.setNotebookVersion uri version).2.listed n = s.listed n := by
  rw [setNotebookVersion]
  cases hopen : s.notebooks.get? uri with
  | none => rfl
  | some entry => exact listed_insert s uri entry { entry with version := version } hopen rfl n

theorem texts_setNotebookVersion (s : Store) (uri : Url) (version : Int) :
    (s.setNotebookVersion uri version).2.texts = s.texts := by
  rw [setNotebookVersion]
  cases s.notebooks.get? uri <;> rfl

theorem listed_changeCellKinds (s : Store) (uri : Url) (updates : List CellSlot) (n : Url) :
    (s.changeCellKinds uri updates).listed n = s.listed n := by
  rw [changeCellKinds]
  cases hopen : s.notebooks.get? uri with
  | none => rfl
  | some entry =>
    exact listed_insert s uri entry _ hopen (map_uri_foldl_setKind updates entry.cells) n

theorem texts_changeCellKinds (s : Store) (uri : Url) (updates : List CellSlot) :
    (s.changeCellKinds uri updates).texts = s.texts := by
  rw [changeCellKinds]
  cases s.notebooks.get? uri <;> rfl

/-- A change of cells with a window succeeds. The notebook lists the new cells where those in the
window stood; these belong to no notebook then, and the new ones to this one. Texts are closed, and
then opened. -/
theorem changeCells?_of_window? (s : Store) (uri : Url) (c : CellChange) (entry : OpenNotebook)
    (hopen : s.notebooks.get? uri = some entry) {start stop : Nat}
    (hwindow : c.window? entry.cells.length = some (start, stop)) :
    ∃ t, s.changeCells? uri c = some (true, t) ∧
      t.notebooks = s.notebooks.insert uri
        { entry with cells := entry.cells.take start ++ c.cells ++ entry.cells.drop stop } ∧
      (∀ cell, t.owners.get? cell =
        if cell ∈ c.cells.map CellSlot.uri then some uri
        else if cell ∈ ((entry.cells.take stop).drop start).map CellSlot.uri then none
        else s.owners.get? cell) ∧
      t.texts = (openCells { s with texts := s.texts.eraseAll c.closed } c.opened).texts := by
  simp only [changeCells?, hopen, hwindow, Option.bind_eq_bind, Option.bind_some, Option.pure_def]
  refine ⟨_, rfl, ?_, fun cell => ?_, ?_⟩
  · rw [openCells_notebooks]
    rfl
  · rw [openCells_owners]
    show (Store.own _ uri c.cells).owners.get? cell = _
    rw [get?_own]
    dsimp only
    rw [Table.get?_eraseAll]
  · refine texts_openCells_congr ?_ c.opened
    rfl

/-- A change of cells whose counts do not overflow succeeds. The notebook lists the new cells where
the others stood; these belong to it, and those that made way belong to none. -/
theorem changeCells?_of_fits (s : Store) (uri : Url) (c : CellChange) (entry : OpenNotebook)
    (hopen : s.notebooks.get? uri = some entry) (h : c.Fits entry.cells.length) :
    ∃ t, s.changeCells? uri c = some (true, t) ∧
      t.notebooks = s.notebooks.insert uri { entry with cells := c.result entry.cells } ∧
      (∀ cell, t.owners.get? cell =
        if cell ∈ c.cells.map CellSlot.uri then some uri
        else if cell ∈ (c.removed entry.cells).map CellSlot.uri then none
        else s.owners.get? cell) ∧
      ∀ u, u ∉ c.opened.map OpenedCell.uri ++ c.closed →
        t.texts.get? u = s.texts.get? u := by
  have hstart : entry.cells.take (min c.start entry.cells.length) = entry.cells.take c.start :=
    (List.take_eq_take_min ..).symm
  have hstop : entry.cells.drop (min (c.start + c.deleteCount) entry.cells.length) =
      entry.cells.drop (c.start + c.deleteCount) := by
    rw [List.drop_eq_drop_iff]
    omega
  obtain ⟨t, ht, hnotebooks, howners, htexts⟩ :=
    s.changeCells?_of_window? uri c entry hopen (c.window?_of_fits _ h)
  rw [hstart, hstop, ← CellChange.result] at hnotebooks
  simp only [CellChange.drop_take_window] at howners
  refine ⟨t, ht, hnotebooks, howners, fun u hu => ?_⟩
  rw [List.mem_append, not_or] at hu
  rw [htexts, get?_openCells _ _ _ hu.1, Table.get?_eraseAll, if_neg hu.2]

end Store
end LintBridge
