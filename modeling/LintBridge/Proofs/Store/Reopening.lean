import LintBridge.Proofs.Store.Isolation

/-!
Opening a notebook that is open already.

`openNotebook` gives the notebook another list and other owners to the cells on it. What the old
list leaves behind is not taken away: a cell that the new list leaves out belongs to the notebook
still, and its text stays open. Closing the notebook first takes both away.

* `reopening_agrees_iff`: both ways give the same answers to everything that may be asked
  (`SameAnswers`) exactly if nothing is left behind; and no cell belongs to the notebook after it is
  closed later exactly if every cell that belonged to it is listed again;
* `Lists.callAll?`: a notebook lists what belongs to it after any run that does not open it without
  these cells.
-/

namespace LintBridge.Store

/-- Two stores give the same answers. The documents that are open on their own account have no order
of their own. -/
structure SameAnswers (s t : Store) : Prop where
  text : ∀ u, s.text? u = t.text? u
  notebookOf : ∀ u, s.notebookOf? u = t.notebookOf? u
  notebookCells : ∀ u, s.notebookCells? u = t.notebookCells? u
  notebookDocument : ∀ u, s.notebookDocument? u = t.notebookDocument? u
  document : ∀ u, s.document? u = t.document? u
  cellOrText : ∀ u, s.cellOrText? u = t.cellOrText? u
  openDocuments : s.openDocuments.Perm t.openDocuments

/-- No text and no notebook is in a store twice. -/
structure Keyed (s : Store) : Prop where
  texts : s.texts.keys.Nodup
  notebooks : s.notebooks.keys.Nodup

/-- A notebook lists all cells that belong to it. -/
def Lists (s : Store) (notebook : Url) : Prop :=
  ∀ u, s.notebookOf? u = some notebook → u ∈ s.listed notebook

/-- An operation does not open a notebook without the cells that belong to it. -/
def KeepsCells (s : Store) (notebook : Url) : StoreCall → Prop
  | .notebook uri (.openNotebook _ cells _) => uri = notebook →
    ∀ u, s.notebookOf? u = some notebook → u ∈ cells.map CellSlot.uri
  | _ => True

/-- None of some operations, one after the other, opens a notebook without the cells that belong to
it then. -/
def KeepsCellsAll (notebook : Url) : Store → List StoreCall → Prop
  | _, [] => True
  | s, call :: rest =>
    s.KeepsCells notebook call ∧ ∀ t, s.call? call = some t → KeepsCellsAll notebook t rest

variable {s t : Store}

/-! ## Lookups after opening and closing -/

theorem get?_owners_openNotebook (s : Store) (uri : Url) (version : Int) (cells : List CellSlot)
    (opened : List OpenedCell) (u : Url) :
    (s.openNotebook uri version cells opened).owners.get? u =
      if u ∈ cells.map CellSlot.uri then some uri else s.owners.get? u := by
  rw [← get?_own, openNotebook, openCells_owners]

theorem get?_texts_openNotebook (s : Store) (uri : Url) (version : Int) (cells : List CellSlot)
    (opened : List OpenedCell) (u : Url) (h : u ∉ opened.map OpenedCell.uri) :
    (s.openNotebook uri version cells opened).texts.get? u = s.texts.get? u :=
  get?_openCells (s.own uri cells) opened u h

/-- What is open under a name after the texts of cells are opened: one of these, or what was open
before. -/
theorem get?_openCells_congr (opened : List OpenedCell) (u : Url)
    (h : u ∈ opened.map OpenedCell.uri ∨ s.texts.get? u = t.texts.get? u) :
    (s.openCells opened).texts.get? u = (t.openCells opened).texts.get? u := by
  induction opened generalizing s t with
  | nil => exact h.resolve_left List.not_mem_nil
  | cons o rest ih =>
    apply ih
    by_cases hu : o.uri = u
    · exact .inr (by simp [openText, hu])
    · rcases h with hmem | hsame
      · exact .inl ((List.mem_cons.1 hmem).resolve_left (Ne.symm hu))
      · exact .inr (by simp [openText, hu, hsame])

theorem notebookOf?_closeNotebook (s : Store) (uri u : Url) :
    (s.closeNotebook uri).2.notebookOf? u =
      if u ∈ s.listed uri then none else s.notebookOf? u := by
  rw [closeNotebook]
  cases hopen : s.notebooks.get? uri with
  | none => simp [listed_of_closed hopen]
  | some entry => simp [notebookOf?, listed_of_get? hopen]

theorem get?_texts_closeNotebook (s : Store) (uri u : Url) :
    (s.closeNotebook uri).2.texts.get? u =
      if u ∈ s.listed uri then none else s.texts.get? u := by
  rw [closeNotebook]
  cases hopen : s.notebooks.get? uri with
  | none => simp [listed_of_closed hopen]
  | some entry => simp [listed_of_get? hopen]

theorem get?_notebooks_closeNotebook (s : Store) (uri u : Url) :
    (s.closeNotebook uri).2.notebooks.get? u =
      if uri = u then none else s.notebooks.get? u := by
  rw [closeNotebook]
  cases hopen : s.notebooks.get? uri with
  | none =>
    by_cases hsame : uri = u
    · rw [if_pos hsame, ← hsame]
      exact hopen
    · rw [if_neg hsame]
  | some entry => simp

/-- Closing a notebook leaves a cell to it exactly if the notebook does not list it. -/
theorem notebookOf?_closeNotebook_ne_iff (s : Store) (notebook : Url) :
    (∀ u, (s.closeNotebook notebook).2.notebookOf? u ≠ some notebook) ↔ s.Lists notebook := by
  refine forall_congr' fun u => ?_
  rw [notebookOf?_closeNotebook]
  by_cases hlisted : u ∈ s.listed notebook <;> simp [hlisted]

theorem lists_openNotebook_iff (s : Store) (uri : Url) (version : Int) (cells : List CellSlot)
    (opened : List OpenedCell) :
    (s.openNotebook uri version cells opened).Lists uri ↔
      ∀ u, s.notebookOf? u = some uri → u ∈ cells.map CellSlot.uri := by
  refine forall_congr' fun u => ?_
  rw [listed_openNotebook, notebookOf?, get?_owners_openNotebook, notebookOf?]
  by_cases hlisted : u ∈ cells.map CellSlot.uri <;> simp [hlisted]

/-! ## No name twice -/

theorem keyed_empty : empty.Keyed := ⟨List.nodup_nil, List.nodup_nil⟩

theorem nodup_keys_openCells (opened : List OpenedCell) (h : s.texts.keys.Nodup) :
    (s.openCells opened).texts.keys.Nodup := by
  induction opened generalizing s with
  | nil => exact h
  | cons o rest ih => exact ih (s.texts.nodup_keys_insert h o.uri ⟨o.text, o.version⟩)

theorem Keyed.openText (h : s.Keyed) (uri : Url) (text : String) (version : Int) :
    (s.openText uri text version).Keyed :=
  ⟨s.texts.nodup_keys_insert h.texts uri ⟨text, version⟩, h.notebooks⟩

/-- Giving a notebook another entry repeats no name. -/
theorem Keyed.insert (h : s.Keyed) (uri : Url) (entry : OpenNotebook) :
    Keyed { s with notebooks := s.notebooks.insert uri entry } :=
  ⟨h.texts, s.notebooks.nodup_keys_insert h.notebooks uri entry⟩

theorem Keyed.openNotebook (h : s.Keyed) (uri : Url) (version : Int) (cells : List CellSlot)
    (opened : List OpenedCell) : (s.openNotebook uri version cells opened).Keyed := by
  refine ⟨nodup_keys_openCells (s := s.own uri cells) opened h.texts, ?_⟩
  rw [notebooks_openNotebook]
  exact s.notebooks.nodup_keys_insert h.notebooks uri _

theorem Keyed.closeNotebook (h : s.Keyed) (uri : Url) : (s.closeNotebook uri).2.Keyed := by
  rw [Store.closeNotebook]
  cases s.notebooks.get? uri with
  | none => exact h
  | some entry =>
    exact ⟨h.texts.sublist (s.texts.keys_eraseAll_sublist _),
      h.notebooks.sublist (s.notebooks.keys_erase_sublist uri)⟩

theorem Keyed.onText? (h : s.Keyed) (uri : Url) (call : TextCall)
    (ht : s.onText? uri call = some t) : t.Keyed := by
  cases call with
  | openText text version =>
    obtain rfl := Option.some.inj ht
    exact h.openText uri text version
  | closeText =>
    obtain rfl := Option.some.inj ht
    exact ⟨h.texts.sublist (s.texts.keys_erase_sublist uri), h.notebooks⟩
  | changeText version changes =>
    obtain ⟨⟨found, changed⟩, hchange, rfl⟩ := Option.map_eq_some_iff.1 ht
    rcases changeText?_cases hchange with ⟨-, rfl, -⟩ | ⟨text, -, rfl⟩
    · exact h
    · exact h.openText uri text version

/-- A change of cells that is carried out has an open notebook and a window, or changes nothing. -/
theorem changeCells?_cases (s : Store) (uri : Url) (c : CellChange)
    (ht : (s.changeCells? uri c).map Prod.snd = some t) :
    t = s ∨ ∃ entry start stop, s.notebooks.get? uri = some entry ∧
      c.window? entry.cells.length = some (start, stop) ∧
      s.changeCells? uri c = some (true, t) := by
  cases hopen : s.notebooks.get? uri with
  | none =>
    simp only [changeCells?, hopen, Option.map_some, Option.some.injEq] at ht
    exact .inl ht.symm
  | some entry =>
    cases hwindow : c.window? entry.cells.length with
    | none => simp [changeCells?, hopen, hwindow] at ht
    | some ends =>
      obtain ⟨u, hu, -⟩ := s.changeCells?_of_window? uri c entry hopen hwindow
      rw [hu] at ht
      exact .inr ⟨entry, ends.1, ends.2, rfl, hwindow, by rw [hu, ← Option.some.inj ht]⟩

theorem Keyed.onNotebook? (h : s.Keyed) (uri : Url) (call : NotebookCall)
    (ht : s.onNotebook? uri call = some t) : t.Keyed := by
  cases call with
  | openNotebook version cells opened =>
    obtain rfl := Option.some.inj ht
    exact h.openNotebook uri version cells opened
  | setVersion version =>
    obtain rfl := Option.some.inj ht
    rw [setNotebookVersion]
    cases s.notebooks.get? uri with
    | none => exact h
    | some entry => exact h.insert uri _
  | changeCells change =>
    rcases changeCells?_cases s uri change ht with
      rfl | ⟨entry, start, stop, hopen, hwindow, hchange⟩
    · exact h
    · obtain ⟨u, hu, hnotebooks, -, htexts⟩ :=
        s.changeCells?_of_window? uri change entry hopen hwindow
      rw [hchange] at hu
      obtain rfl : t = u := congrArg Prod.snd (Option.some.inj hu)
      refine ⟨?_, hnotebooks ▸ s.notebooks.nodup_keys_insert h.notebooks uri _⟩
      rw [htexts]
      exact nodup_keys_openCells _ (h.texts.sublist (s.texts.keys_eraseAll_sublist _))
  | changeKinds updates =>
    obtain rfl := Option.some.inj ht
    rw [changeCellKinds]
    cases s.notebooks.get? uri with
    | none => exact h
    | some entry => exact h.insert uri _
  | closeNotebook =>
    obtain rfl := Option.some.inj ht
    exact h.closeNotebook uri

/-- No run puts a name into a store twice. -/
theorem Keyed.callAll? (h : s.Keyed) (calls : List StoreCall) (ht : s.callAll? calls = some t) :
    t.Keyed := by
  induction calls generalizing s with
  | nil => exact Option.some.inj ht ▸ h
  | cons call rest ih =>
    obtain ⟨next, hnext, hrest⟩ := Option.bind_eq_some_iff.1 ht
    refine ih ?_ hrest
    cases call with
    | text uri call => exact h.onText? uri call hnext
    | notebook uri call => exact h.onNotebook? uri call hnext

/-! ## Answers -/

theorem perm_keys_of_get? {α : Type} {a b : Table Url α} (ha : a.keys.Nodup) (hb : b.keys.Nodup)
    (h : ∀ u, (a.get? u).isSome = (b.get? u).isSome) : a.keys.Perm b.keys := by
  rw [List.perm_ext_iff_of_nodup ha hb]
  intro u
  rw [a.mem_keys, b.mem_keys, Table.contains, Table.contains, h]

theorem SameAnswers.of_get? (hs : s.Keyed) (ht : t.Keyed)
    (htexts : ∀ u, s.texts.get? u = t.texts.get? u)
    (hnotebooks : ∀ u, s.notebooks.get? u = t.notebooks.get? u)
    (howners : ∀ u, s.owners.get? u = t.owners.get? u) : SameAnswers s t := by
  have hnotebook (u : Url) : s.notebookDocument? u = t.notebookDocument? u :=
    notebookDocument?_congr (hnotebooks u) fun c _ => htexts c
  have hdocument (u : Url) : s.document? u = t.document? u :=
    document?_congr (howners u) (hnotebooks u) (fun n _ => hnotebook n)
      (textDocument?_congr (htexts u))
  have htop : (fun u => !s.owners.contains u) = fun u => !t.owners.contains u := by
    funext u
    rw [Table.contains, howners, ← Table.contains]
  refine ⟨fun u => text?_congr (htexts u), howners, fun u => ?_, hnotebook, hdocument, fun u => ?_,
    ?_⟩
  · rw [notebookCells?, hnotebooks, ← notebookCells?]
  · exact cellOrText?_congr (howners u) (fun n _ => hnotebooks n) (htexts u) fun _ => hdocument u
  · rw [Store.openDocuments, htop, Store.openDocuments]
    exact ((perm_keys_of_get? hs.texts ht.texts fun u => by rw [htexts]).filter _).append
      (perm_keys_of_get? hs.notebooks ht.notebooks fun u => by rw [hnotebooks])

/-! ## What belongs to a notebook -/

theorem listed_openNotebook_of_ne (s : Store) {uri n : Url} (version : Int) (cells : List CellSlot)
    (opened : List OpenedCell) (h : uri ≠ n) :
    (s.openNotebook uri version cells opened).listed n = s.listed n :=
  listed_congr (by rw [notebooks_openNotebook, Table.get?_insert, if_neg h])

theorem owners_setNotebookVersion (s : Store) (uri : Url) (version : Int) :
    (s.setNotebookVersion uri version).2.owners = s.owners := by
  rw [setNotebookVersion]
  cases s.notebooks.get? uri <;> rfl

theorem owners_changeCellKinds (s : Store) (uri : Url) (updates : List CellSlot) :
    (s.changeCellKinds uri updates).owners = s.owners := by
  rw [changeCellKinds]
  cases s.notebooks.get? uri <;> rfl

/-- Where lists and owners stay as they are, a notebook lists what belongs to it still. -/
theorem Lists.congr {notebook : Url} (h : s.Lists notebook) (howners : t.owners = s.owners)
    (hlisted : t.listed notebook = s.listed notebook) : t.Lists notebook := by
  intro u hu
  rw [notebookOf?, howners] at hu
  exact hlisted ▸ h u hu

/-- A change of cells takes cells from a notebook only if it does not list them any more. -/
theorem Lists.changeCells {notebook : Url} (h : s.Lists notebook) (uri : Url) (c : CellChange)
    (ht : (s.changeCells? uri c).map Prod.snd = some t) : t.Lists notebook := by
  rcases changeCells?_cases s uri c ht with rfl | ⟨entry, start, stop, hopen, hwindow, hchange⟩
  · exact h
  obtain ⟨w, hw, hnotebooks, howners, -⟩ := s.changeCells?_of_window? uri c entry hopen hwindow
  rw [hchange] at hw
  obtain rfl : t = w := congrArg Prod.snd (Option.some.inj hw)
  intro u hu
  rw [notebookOf?, howners] at hu
  by_cases hsame : uri = notebook
  · subst hsame
    rw [listed_of_get? (by rw [hnotebooks, Table.get?_insert, if_pos rfl]), List.map_append,
      List.map_append, List.mem_append, List.mem_append]
    by_cases hnew : u ∈ c.cells.map CellSlot.uri
    · exact .inl (.inr hnew)
    · rw [if_neg hnew] at hu
      split at hu
      · cases hu
      · next hgone =>
        have hold := h u hu
        rw [listed_of_get? hopen] at hold
        obtain ⟨slot, hslot, rfl⟩ := List.mem_map.1 hold
        have hle := (CellChange.window?_bounds hwindow).2.1
        rcases CellChange.mem_window_cases hle hslot with hbefore | hmade | hafter
        · exact .inl (.inl (List.mem_map_of_mem hbefore))
        · exact absurd (List.mem_map_of_mem hmade) hgone
        · exact .inr (List.mem_map_of_mem hafter)
  · rw [listed_congr (s := s) (by rw [hnotebooks, Table.get?_insert, if_neg hsame])]
    split at hu
    · exact absurd (Option.some.inj hu) hsame
    · split at hu
      · cases hu
      · exact h u hu

/-- A notebook lists what belongs to it after an operation that does not open it without these
cells. -/
theorem Lists.call? {notebook : Url} (h : s.Lists notebook) (call : StoreCall)
    (hkeeps : s.KeepsCells notebook call) (ht : s.call? call = some t) : t.Lists notebook := by
  cases call with
  | text uri call =>
    obtain ⟨hnotebooks, howners, -⟩ := onText?_frame ht
    exact h.congr howners (listed_congr (by rw [hnotebooks]))
  | notebook uri call =>
    cases call with
    | openNotebook version cells opened =>
      obtain rfl := Option.some.inj ht
      by_cases hsame : uri = notebook
      · subst hsame
        exact (lists_openNotebook_iff s uri version cells opened).2 (hkeeps rfl)
      · intro u hu
        rw [listed_openNotebook_of_ne s version cells opened hsame]
        rw [notebookOf?, get?_owners_openNotebook] at hu
        split at hu
        · exact absurd (Option.some.inj hu) hsame
        · exact h u hu
    | setVersion version =>
      obtain rfl := Option.some.inj ht
      exact h.congr (s.owners_setNotebookVersion uri version)
        (s.listed_setNotebookVersion uri version notebook)
    | changeCells change => exact h.changeCells uri change ht
    | changeKinds updates =>
      obtain rfl := Option.some.inj ht
      exact h.congr (s.owners_changeCellKinds uri updates)
        (s.listed_changeCellKinds uri updates notebook)
    | closeNotebook =>
      obtain rfl := Option.some.inj ht
      intro u hu
      rw [notebookOf?_closeNotebook] at hu
      split at hu
      · cases hu
      · next hforeign =>
        have hold := h u hu
        have hne : uri ≠ notebook := fun hsame => hforeign (hsame ▸ hold)
        rw [listed_congr (s := s) (by rw [get?_notebooks_closeNotebook, if_neg hne])]
        exact hold

theorem Lists.callAll? {notebook : Url} (h : s.Lists notebook) (calls : List StoreCall)
    (hkeeps : KeepsCellsAll notebook s calls) (ht : s.callAll? calls = some t) :
    t.Lists notebook := by
  induction calls generalizing s with
  | nil => exact Option.some.inj ht ▸ h
  | cons call rest ih =>
    obtain ⟨next, hnext, hrest⟩ := Option.bind_eq_some_iff.1 ht
    exact ih (h.call? call hkeeps.1 hnext) (hkeeps.2 next hnext) hrest

/-! ## Opening again -/

/-- Opening a notebook gives the same answers as closing it and opening it then, exactly if every
cell that it listed is listed again or belongs to none, and has its text opened again or none
open. -/
theorem Keyed.sameAnswers_openNotebook_iff (h : s.Keyed) (notebook : Url) (version : Int)
    (cells : List CellSlot) (opened : List OpenedCell) :
    SameAnswers (s.openNotebook notebook version cells opened)
        ((s.closeNotebook notebook).2.openNotebook notebook version cells opened) ↔
      ∀ c ∈ s.listed notebook,
        (c ∈ cells.map CellSlot.uri ∨ s.notebookOf? c = none) ∧
        (c ∈ opened.map OpenedCell.uri ∨ s.text? c = none) := by
  constructor
  · intro hsame c hc
    constructor
    · refine Decidable.or_iff_not_imp_left.2 fun hout => ?_
      have howner := hsame.notebookOf c
      rw [notebookOf?, notebookOf?, get?_owners_openNotebook, get?_owners_openNotebook,
        if_neg hout, if_neg hout, ← notebookOf?, ← notebookOf?, notebookOf?_closeNotebook,
        if_pos hc] at howner
      exact howner
    · refine Decidable.or_iff_not_imp_left.2 fun hout => ?_
      have htext := hsame.text c
      rw [text?, text?, get?_texts_openNotebook _ _ _ _ _ _ hout,
        get?_texts_openNotebook _ _ _ _ _ _ hout, get?_texts_closeNotebook, if_pos hc,
        ← text?] at htext
      exact htext
  · intro hback
    refine SameAnswers.of_get? (h.openNotebook notebook version cells opened)
      ((h.closeNotebook notebook).openNotebook notebook version cells opened)
      (fun u => get?_openCells_congr opened u ?_) (fun u => ?_) (fun u => ?_)
    · show _ ∨ s.texts.get? u = (s.closeNotebook notebook).2.texts.get? u
      rw [get?_texts_closeNotebook]
      by_cases hc : u ∈ s.listed notebook
      · rw [if_pos hc]
        exact (hback u hc).2.imp_right Option.map_eq_none_iff.1
      · exact .inr (if_neg hc).symm
    · rw [notebooks_openNotebook, notebooks_openNotebook, Table.get?_insert, Table.get?_insert,
        get?_notebooks_closeNotebook]
      split <;> rfl
    · rw [get?_owners_openNotebook, get?_owners_openNotebook, ← notebookOf?, ← notebookOf?,
        notebookOf?_closeNotebook]
      by_cases hc : u ∈ s.listed notebook
      · rcases (hback u hc).1 with hin | hnone
        · rw [if_pos hin, if_pos hin]
        · rw [if_pos hc, hnone]
      · rw [if_neg hc]

/-- After any run, opening a notebook gives the same answers as closing it and opening it then,
exactly if every cell that it listed is listed again or belongs to none, and has its text opened
again or none open. And no cell is left to the notebook when it is closed later, after whatever
operations that do not open it without cells of its own, exactly if every cell that belonged to it
is listed again. -/
theorem reopening_agrees_iff (calls : List StoreCall) (s : Store)
    (hs : empty.callAll? calls = some s) (notebook : Url) (version : Int) (cells : List CellSlot)
    (opened : List OpenedCell) :
    (SameAnswers (s.openNotebook notebook version cells opened)
        ((s.closeNotebook notebook).2.openNotebook notebook version cells opened) ↔
      ∀ c ∈ s.listed notebook,
        (c ∈ cells.map CellSlot.uri ∨ s.notebookOf? c = none) ∧
        (c ∈ opened.map OpenedCell.uri ∨ s.text? c = none)) ∧
    ((∀ more t, KeepsCellsAll notebook (s.openNotebook notebook version cells opened) more →
        (s.openNotebook notebook version cells opened).callAll? more = some t →
        ∀ u, (t.closeNotebook notebook).2.notebookOf? u ≠ some notebook) ↔
      ∀ u, s.notebookOf? u = some notebook → u ∈ cells.map CellSlot.uri) := by
  have hkeyed := keyed_empty.callAll? calls hs
  refine ⟨hkeyed.sameAnswers_openNotebook_iff notebook version cells opened, ?_⟩
  rw [← lists_openNotebook_iff s notebook version cells opened]
  constructor
  · intro hnone
    rw [← notebookOf?_closeNotebook_ne_iff]
    exact hnone [] _ trivial rfl
  · intro hlists more t hkeeps ht
    rw [notebookOf?_closeNotebook_ne_iff]
    exact hlists.callAll? more hkeeps ht

/-- A notebook with two cells is opened. -/
def droppingRun : List StoreCall :=
  [.notebook (runUrl "n") (.openNotebook 1 [⟨runUrl "a", .code⟩, ⟨runUrl "b", .code⟩]
    [⟨runUrl "a", "x", 1⟩, ⟨runUrl "b", "y", 1⟩])]

def openAgain (s : Store) (names : List String) : Store :=
  s.openNotebook (runUrl "n") 2 (names.map fun name => ⟨runUrl name, .code⟩)
    (names.map fun name => ⟨runUrl name, "z", 2⟩)

/-- The text of one of the cells is opened as a file after the notebook has been closed. -/
def fileAfterwards (s : Store) : Option Document :=
  ((s.closeNotebook (runUrl "n")).2.openText (runUrl "b") "w" 1).document? (runUrl "b")

/-- A cell that is left out the second time hides a file of its name for good. -/
theorem droppedCell_left_over :
    ∃ s, empty.callAll? droppingRun = some s ∧
      SameAnswers (openAgain s ["a", "b"])
        (openAgain (s.closeNotebook (runUrl "n")).2 ["a", "b"]) ∧
      ¬ SameAnswers (openAgain s ["a"]) (openAgain (s.closeNotebook (runUrl "n")).2 ["a"]) ∧
      (openAgain s ["a"]).notebookOf? (runUrl "b") = some (runUrl "n") ∧
      fileAfterwards (openAgain s ["a"]) = none ∧
      fileAfterwards (openAgain (s.closeNotebook (runUrl "n")).2 ["a"]) =
        some (.text (runUrl "b") ⟨"/b"⟩ "w" (some 1)) := by
  obtain ⟨s, hs⟩ : ∃ s, empty.callAll? droppingRun = some s := ⟨_, rfl⟩
  have hagree (names : List String) := (reopening_agrees_iff droppingRun s hs (runUrl "n") 2
    (names.map fun name => ⟨runUrl name, .code⟩) (names.map fun name => ⟨runUrl name, "z", 2⟩)).1
  obtain rfl := Option.some.inj hs
  refine ⟨_, hs, (hagree ["a", "b"]).2 (by decide +kernel), fun hsame => ?_, by decide +kernel,
    by decide +kernel, by decide +kernel⟩
  exact absurd ((hagree ["a"]).1 hsame) (by decide +kernel)

end LintBridge.Store
