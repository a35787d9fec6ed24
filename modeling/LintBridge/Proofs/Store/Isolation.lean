import LintBridge.Proofs.Store.Ownership

/-!
An operation on one document leaves the others alone.

All texts lie in one table, whether they are files or cells of some notebook, so this rests on each
cell being listed by one notebook at most.

* `Owned.apartFrom`: an operation on a notebook leaves alone the documents of all other notebooks,
  and all texts that are no cells of that notebook before or after it (`ApartFrom`);
* `Owned.onlyText`: an operation on a text leaves alone all but the document of that text and that
  of the one notebook that lists it (`OnlyText`);
* `operations_apart`: both hold after every run in which the editor follows the protocol.
-/

namespace LintBridge.Store

/-- The texts that an operation on a notebook opens or closes are those of cells that the notebook
lists before it, or that it puts in. -/
def OwnTexts (s : Store) (uri : Url) (call : NotebookCall) : Prop :=
  ∀ u ∈ call.texts, u ∈ s.listed uri ∨ u ∈ call.entering

instance (s : Store) (uri : Url) (call : NotebookCall) : Decidable (s.OwnTexts uri call) :=
  inferInstanceAs (Decidable (∀ u ∈ call.texts, _))

/-- What an operation on a notebook leaves alone: the documents of other notebooks; the texts that
are no cells of the notebook before or after it, with what they belong to and the documents that
they lead to. Only the name of the notebook itself leads elsewhere when a text goes by that name. -/
structure ApartFrom (notebook : Url) (s t : Store) : Prop where
  notebookDocument : ∀ n, n ≠ notebook → t.notebookDocument? n = s.notebookDocument? n
  text : ∀ u, u ∉ s.listed notebook → u ∉ t.listed notebook → t.text? u = s.text? u
  textDocument : ∀ u, u ∉ s.listed notebook → u ∉ t.listed notebook →
    t.textDocument? u = s.textDocument? u
  notebookOf : ∀ u, u ∉ s.listed notebook → u ∉ t.listed notebook →
    t.notebookOf? u = s.notebookOf? u
  document : ∀ u, u ≠ notebook → u ∉ s.listed notebook → u ∉ t.listed notebook →
    t.document? u = s.document? u
  cellOrText : ∀ u, u ≠ notebook → u ∉ s.listed notebook → u ∉ t.listed notebook →
    t.cellOrText? u = s.cellOrText? u

/-- What an operation on a text leaves alone: the lists and owners of cells, all other texts, the
notebooks that do not list the text, and whatever leads neither to the text nor to the one notebook
that lists it. -/
structure OnlyText (uri : Url) (s t : Store) : Prop where
  notebooks : t.notebooks = s.notebooks
  owners : t.owners = s.owners
  text : ∀ u, u ≠ uri → t.text? u = s.text? u
  textDocument : ∀ u, u ≠ uri → t.textDocument? u = s.textDocument? u
  notebookDocument : ∀ n, uri ∉ s.listed n → t.notebookDocument? n = s.notebookDocument? n
  document : ∀ u, u ≠ uri → (∀ n, uri ∈ s.listed n → u ≠ n ∧ u ∉ s.listed n) →
    t.document? u = s.document? u
  cellOrText : ∀ u, u ≠ uri → uri ∉ s.listed u → t.cellOrText? u = s.cellOrText? u
  unique : ∀ n m, uri ∈ s.listed n → uri ∈ s.listed m → n = m

/-! ## What views read -/

variable {s t : Store}

theorem cell_congr {slot : CellSlot} (h : t.texts.get? slot.uri = s.texts.get? slot.uri) :
    t.cell slot = s.cell slot := by
  rw [cell, h, ← cell]

theorem text?_congr {u : Url} (h : t.texts.get? u = s.texts.get? u) : t.text? u = s.text? u := by
  rw [text?, h, ← text?]

theorem textDocument?_congr {u : Url} (h : t.texts.get? u = s.texts.get? u) :
    t.textDocument? u = s.textDocument? u := by
  rw [textDocument?, h, ← textDocument?]

theorem notebookDocument?_congr {n : Url} (hentry : t.notebooks.get? n = s.notebooks.get? n)
    (htexts : ∀ c ∈ s.listed n, t.texts.get? c = s.texts.get? c) :
    t.notebookDocument? n = s.notebookDocument? n := by
  cases hopen : s.notebooks.get? n with
  | none => rw [notebookDocument?, notebookDocument?, hentry, hopen]; rfl
  | some entry =>
    have hcells : entry.cells.map t.cell = entry.cells.map s.cell :=
      List.map_congr_left fun slot hslot =>
        cell_congr (htexts slot.uri (listed_of_get? hopen ▸ List.mem_map_of_mem hslot))
    rw [notebookDocument?_of_get? hopen, notebookDocument?_of_get? (hentry.trans hopen), hcells]

/-- The document that a name leads to reads what the name belongs to, and the document of that or
of the name itself. -/
theorem document?_congr {u : Url} (howner : t.owners.get? u = s.owners.get? u)
    (hentry : t.notebooks.get? u = s.notebooks.get? u)
    (hnotebook : ∀ n, s.owners.get? u = some n ∨ n = u →
      t.notebookDocument? n = s.notebookDocument? n)
    (htext : t.textDocument? u = s.textDocument? u) : t.document? u = s.document? u := by
  rw [document?, document?, howner]
  cases hs : s.owners.get? u with
  | some n => exact hnotebook n (.inl hs)
  | none =>
    dsimp only
    rw [isNotebook, isNotebook, Table.contains, hentry, ← Table.contains, htext,
      hnotebook u (.inr rfl)]

/-- A cell by itself reads the entry of its notebook and its own text. -/
theorem cellOrText?_congr {u : Url} (howner : t.owners.get? u = s.owners.get? u)
    (hentry : ∀ n, s.owners.get? u = some n → t.notebooks.get? n = s.notebooks.get? n)
    (htext : t.texts.get? u = s.texts.get? u)
    (hdocument : s.owners.get? u = none → t.document? u = s.document? u) :
    t.cellOrText? u = s.cellOrText? u := by
  rw [cellOrText?, cellOrText?, howner]
  cases hs : s.owners.get? u with
  | none => exact hdocument hs
  | some n =>
    dsimp only
    rw [hentry n hs]
    cases n.filePath? with
    | none => rfl
    | some path =>
      cases s.notebooks.get? n with
      | none => rfl
      | some entry =>
        simp only [Option.bind_eq_bind, Option.bind_some]
        cases hfind : entry.cells.find? (·.uri = u) with
        | none => rfl
        | some slot =>
          have hname : slot.uri = u := by simpa using List.find?_some hfind
          simp only [Option.bind_some, cell_congr (s := s) (t := t) (hname ▸ htext)]

/-! ## Operations -/

/-- An operation that gives a notebook another list, and writes no text but those of cells that the
notebook lists before or after it, leaves the other documents alone. -/
theorem Owned.apartFrom {notebook : Url} (h : s.Owned) (hr : Relisted notebook s t)
    (htexts : ∀ u, u ∉ s.listed notebook → u ∉ t.listed notebook →
      t.texts.get? u = s.texts.get? u) : ApartFrom notebook s t := by
  have howner (u : Url) (hs : u ∉ s.listed notebook) (ht : u ∉ t.listed notebook) :
      t.owners.get? u = s.owners.get? u := by
    rw [hr.owners, if_neg ht, if_neg hs]
  have hdocument (n : Url) (hn : n ≠ notebook) :
      t.notebookDocument? n = s.notebookDocument? n := by
    refine notebookDocument?_congr (hr.others n hn) fun c hc => ?_
    exact htexts c (fun hs => hn (h.unique hc hs)) fun ht => hr.foreign c ht n hn hc
  have hapart {u n : Url} (hs : u ∉ s.listed notebook) (hu : s.owners.get? u = some n) :
      n ≠ notebook := by
    rintro rfl
    exact hs ((h.owner_iff u n).1 hu)
  have hleads (u : Url) (hu : u ≠ notebook) (hs : u ∉ s.listed notebook)
      (ht : u ∉ t.listed notebook) : t.document? u = s.document? u := by
    refine document?_congr (howner u hs ht) (hr.others u hu) (fun n hn => hdocument n ?_)
      (textDocument?_congr (htexts u hs ht))
    rcases hn with hn | rfl
    · exact hapart hs hn
    · exact hu
  refine ⟨hdocument, fun u hs ht => text?_congr (htexts u hs ht),
    fun u hs ht => textDocument?_congr (htexts u hs ht), howner, hleads, fun u hu hs ht => ?_⟩
  exact cellOrText?_congr (howner u hs ht) (fun n hn => hr.others n (hapart hs hn))
    (htexts u hs ht) fun _ => hleads u hu hs ht

/-- An operation that writes at most one text leaves all else alone. -/
theorem Owned.onlyText {uri : Url} (h : s.Owned) (hnotebooks : t.notebooks = s.notebooks)
    (howners : t.owners = s.owners)
    (htexts : ∀ u, u ≠ uri → t.texts.get? u = s.texts.get? u) : OnlyText uri s t := by
  have hdocument (n : Url) (hn : uri ∉ s.listed n) :
      t.notebookDocument? n = s.notebookDocument? n := by
    refine notebookDocument?_congr (by rw [hnotebooks]) fun c hc => htexts c ?_
    rintro rfl
    exact hn hc
  have hleads (u : Url) (hu : u ≠ uri)
      (hn : ∀ n, s.owners.get? u = some n ∨ n = u → uri ∉ s.listed n) :
      t.document? u = s.document? u :=
    document?_congr (by rw [howners]) (by rw [hnotebooks]) (fun n hnu => hdocument n (hn n hnu))
      (textDocument?_congr (htexts u hu))
  refine ⟨hnotebooks, howners, fun u hu => text?_congr (htexts u hu),
    fun u hu => textDocument?_congr (htexts u hu), hdocument, fun u hu haway => ?_,
    fun u hu haway => ?_, fun n m => h.unique⟩
  · refine hleads u hu ?_
    rintro n (hn | rfl) hlisted
    · exact (haway n hlisted).2 ((h.owner_iff u n).1 hn)
    · exact (haway n hlisted).1 rfl
  · refine cellOrText?_congr (by rw [howners]) (fun n _ => by rw [hnotebooks]) (htexts u hu) ?_
    intro hnone
    refine hleads u hu ?_
    rintro n (hn | rfl)
    · rw [hnone] at hn
      cases hn
    · exact haway

/-- After every run in which the editor follows the protocol, an operation on a notebook that the
protocol permits, and that opens and closes texts of cells of that notebook only, leaves alone the
documents of the other notebooks and the texts that are no cells of it; and an operation on a text
leaves alone all but that text and the one notebook that lists it. -/
theorem operations_apart (calls : List StoreCall) (hp : empty.PermitsAll calls) :
    ∃ s, empty.callAll? calls = some s ∧
      (∀ notebook call, s.Permits notebook call → s.OwnTexts notebook call →
        ∃ t, s.onNotebook? notebook call = some t ∧ ApartFrom notebook s t) ∧
      ∀ uri call t, s.onText? uri call = some t → OnlyText uri s t := by
  obtain ⟨s, hs, h⟩ := owned_empty.exists_callAll? calls hp
  refine ⟨s, hs, fun notebook call hpermits hown => ?_, fun uri call t ht => ?_⟩
  · obtain ⟨t, ht, hr, htexts, hentering⟩ := h.exists_onNotebook? notebook call hpermits
    refine ⟨t, ht, h.apartFrom hr fun u hold hnew => ?_⟩
    rcases hentering with hnone | hentering
    · rw [hnone]
    · refine htexts u hold fun hu => ?_
      rcases hown u hu with hlisted | henter
      · exact hold hlisted
      · exact hnew (hentering u henter)
  · obtain ⟨hnotebooks, howners, htexts⟩ := onText?_frame ht
    exact h.onlyText hnotebooks howners htexts

def neighboursRun : List StoreCall :=
  [.notebook (runUrl "n") (.openNotebook 1 [⟨runUrl "a", .code⟩] [⟨runUrl "a", "x", 1⟩]),
    .notebook (runUrl "m") (.openNotebook 1 [⟨runUrl "d", .code⟩] [⟨runUrl "d", "y", 1⟩]),
    .text (runUrl "t") (.openText "z" 1)]

def replacingCall : NotebookCall :=
  .changeCells ⟨0, 1, [⟨runUrl "c", .markup⟩], [⟨runUrl "c", "w", 1⟩], [runUrl "a"]⟩

theorem neighbours_apart :
    empty.PermitsAll neighboursRun ∧
    ∃ s, empty.callAll? neighboursRun = some s ∧
      s.Permits (runUrl "n") replacingCall ∧ s.OwnTexts (runUrl "n") replacingCall ∧
      ∃ t, s.onNotebook? (runUrl "n") replacingCall = some t ∧
        t.notebookDocument? (runUrl "m") = s.notebookDocument? (runUrl "m") ∧
        ∃ t, s.onText? (runUrl "d") .closeText = some t ∧
          t.notebookDocument? (runUrl "n") = s.notebookDocument? (runUrl "n") := by
  have hp : empty.PermitsAll neighboursRun := by decide +kernel
  have hcall : ∀ s ∈ empty.callAll? neighboursRun, s.Permits (runUrl "n") replacingCall ∧
      s.OwnTexts (runUrl "n") replacingCall ∧ runUrl "d" ∉ s.listed (runUrl "n") := by
    decide +kernel
  obtain ⟨s, hs, hnotebook, htext⟩ := operations_apart neighboursRun hp
  obtain ⟨hpermits, hown, hforeign⟩ := hcall s hs
  obtain ⟨t, ht, hapart⟩ := hnotebook (runUrl "n") replacingCall hpermits hown
  have honly := htext (runUrl "d") .closeText _ rfl
  exact ⟨hp, s, hs, hpermits, hown, t, ht, hapart.notebookDocument _ (by decide), _, rfl,
    honly.notebookDocument _ hforeign⟩

end LintBridge.Store
