import LintBridge.Document.NotebookFile
import LintBridge.Proofs.Session.Published

/-!
Which cell a finding goes to.

A tool names the cell of a finding by its place in the notebook file that it was given. Publishing
sorts the findings by that place, takes the first one for findings that name none, and tells the
editor about the cells of code.

* `perm_flatMap_filter`: sorting by a key into places without repetition loses nothing that has one
  of these places, and sends nothing twice;
* `perm_codeGroups`, `codeGroups_sorted`: what the cells of code get, all together and each;
* `publish_loses_none_iff`: every finding is sent once, to the cell that it names, in the order of
  the tool; all but those that name no cell when the first cell holds no code.
-/

namespace LintBridge

/-- What is sorted by a key into some different places is what has one of these places. -/
theorem perm_flatMap_filter {α : Type} (key : α → Nat) (places : List Nat) (l : List α)
    (h : places.Nodup) :
    (places.flatMap fun n => l.filter fun a => key a = n).Perm
      (l.filter fun a => key a ∈ places) := by
  induction places with
  | nil => simp
  | cons n rest ih =>
    rw [List.nodup_cons] at h
    have hhere : (l.filter fun a => key a ∈ n :: rest).filter (fun a => key a = n) =
        l.filter fun a => key a = n := by
      rw [List.filter_filter]
      exact List.filter_congr fun a _ => by by_cases hn : key a = n <;> simp [hn]
    have helsewhere : (l.filter fun a => key a ∈ n :: rest).filter (fun a => !decide (key a = n)) =
        l.filter fun a => key a ∈ rest := by
      rw [List.filter_filter]
      refine List.filter_congr fun a _ => ?_
      by_cases hn : key a = n
      · simp [hn, h.1]
      · simp [hn]
    have hsplit := List.filter_append_perm (fun a => decide (key a = n))
      (l.filter fun a => key a ∈ n :: rest)
    rw [hhere, helsewhere] at hsplit
    rw [List.flatMap_cons]
    exact ((ih h.2).append_left _).trans hsplit

/-- Some of the things in a list are all of them exactly when each of these is among them. -/
theorem perm_iff_of_perm_filter {α : Type} {p : α → Bool} {l kept : List α}
    (h : kept.Perm (l.filter p)) : kept.Perm l ↔ ∀ a ∈ l, p a = true := by
  rw [← List.filter_eq_self]
  constructor
  · intro hperm
    exact List.filter_sublist.eq_of_length (h.symm.trans hperm).length_eq
  · intro hsame
    exact h.trans (.of_eq hsame)

/-- A cell of the file that the tool is given holds code when the cell of the notebook does. -/
theorem NotebookFile.isCode_ofCells (cells : List Cell) (place : Nat) (entry : CellEntry)
    (h : (NotebookFile.ofCells cells).cells[place]? = some entry) :
    ∃ c, cells[place]? = some c ∧ c.isCode = entry.isCode := by
  rw [ofCells, List.getElem?_map] at h
  obtain ⟨c, hc, rfl⟩ := Option.map_eq_some_iff.1 h
  refine ⟨c, hc, ?_⟩
  cases hkind : c.kind <;> simp [Cell.isCode, CellEntry.ofCell, CellEntry.isCode, hkind]

namespace Session

/-- The cells of code with the findings in them. -/
def codeGroups (cells : List Cell) (findings : List Finding) : List (Cell × List Finding) :=
  (codeCells cells).map fun (c, number) => (c, findingsInCell findings number)

def codePlaces (cells : List Cell) : List Nat := (codeCells cells).map Prod.snd

theorem nodup_codePlaces (cells : List Cell) : (codePlaces cells).Nodup := by
  have hall : ((cells.zipIdx 1).map Prod.snd).Nodup := by
    rw [List.zipIdx_map_snd]
    exact List.nodup_range'
  exact hall.sublist (List.filter_sublist.map _)

theorem mem_codePlaces (cells : List Cell) (number : Nat) :
    number ∈ codePlaces cells ↔
      1 ≤ number ∧ ∃ c, cells[number - 1]? = some c ∧ c.isCode = true := by
  simp [codePlaces, mem_codeCells]

/-- A place where the file that the tool is given holds code is one of a cell of code. -/
theorem mem_codePlaces_of_entry (cells : List Cell) (number : Nat) (entry : CellEntry)
    (hnumber : 1 ≤ number) (h : (NotebookFile.ofCells cells).cells[number - 1]? = some entry)
    (hcode : entry.isCode = true) : number ∈ codePlaces cells := by
  obtain ⟨c, hc, hsame⟩ := NotebookFile.isCode_ofCells cells (number - 1) entry h
  exact (mem_codePlaces cells number).2 ⟨hnumber, c, hc, hsame.trans hcode⟩

theorem codeGroups_cells (cells : List Cell) (findings : List Finding) :
    (codeGroups cells findings).map Prod.fst = cells.filter Cell.isCode := by
  have hfst : (codeCells cells).map Prod.fst = cells.filter Cell.isCode := by
    have hall := List.zipIdx_map_fst 1 cells
    conv => rhs; rw [← hall, List.filter_map]
    rfl
  rw [← hfst, codeGroups, List.map_map]
  rfl

theorem codeGroups_findings (cells : List Cell) (findings : List Finding) :
    (codeGroups cells findings).flatMap Prod.snd =
      (codePlaces cells).flatMap (findingsInCell findings) := by
  rw [codeGroups, codePlaces, List.flatMap_map, List.flatMap_map]

/-- The place of a finding is one of code if it names a cell of code, or none and the first cell
holds code. -/
theorem cellNumber_mem_codePlaces (cells : List Cell) (f : Finding)
    (h : ∀ k, f.cell = some k → k ∈ codePlaces cells) :
    decide (f.cellNumber ∈ codePlaces cells) =
      (f.cell.isSome || cells.head?.any Cell.isCode) := by
  cases hcell : f.cell with
  | some k => simp [Finding.cellNumber, hcell, h k hcell]
  | none =>
    simp only [Finding.cellNumber, hcell, mem_codePlaces]
    cases cells <;> simp

/-- The findings in the cells of code are those that name a cell, and the others if the first cell
holds code. -/
theorem perm_codeGroups (cells : List Cell) (findings : List Finding)
    (h : ∀ f ∈ findings, ∀ k, f.cell = some k → k ∈ codePlaces cells) :
    ((codeGroups cells findings).flatMap Prod.snd).Perm
      (findings.filter fun f => f.cell.isSome || cells.head?.any Cell.isCode) := by
  have hsorted := perm_flatMap_filter Finding.cellNumber (codePlaces cells) findings
    (nodup_codePlaces cells)
  rw [List.filter_congr fun f hf => cellNumber_mem_codePlaces cells f (h f hf)] at hsorted
  rw [codeGroups_findings]
  exact hsorted

/-- A cell of code gets findings in the order of the tool, and only those that name no other
cell. -/
theorem codeGroups_sorted (cells : List Cell) (findings : List Finding) (g : Cell × List Finding)
    (hg : g ∈ codeGroups cells findings) :
    g.2.Sublist findings ∧ ∀ f ∈ g.2, ∀ k, f.cell = some k → cells[k - 1]? = some g.1 := by
  obtain ⟨⟨c, number⟩, hc, rfl⟩ := List.mem_map.1 hg
  refine ⟨List.filter_sublist, fun f hf k hk => ?_⟩
  have hnumber : f.cellNumber = number := of_decide_eq_true (List.mem_filter.1 hf).2
  rw [Finding.cellNumber, hk, Option.getD_some] at hnumber
  rw [hnumber]
  exact ((mem_codeCells cells c number).1 hc).2.1

/-- What is found in a notebook is sent to its cells of code, in one message each: to the cell that
a finding names, and to the first cell what names none, in the order of the tool. Nothing is sent
twice, and nothing is lost but what names no cell when the first cell holds no code. -/
theorem publish_loses_none_iff (s : Session) (uri : Url) (path : Path) (version : Option Int)
    (cells : List Cell) (findings : List Finding)
    (hfits : ∀ f ∈ findings, ∀ k, f.cell = some k → 1 ≤ k ∧
      ∃ entry, (NotebookFile.ofCells cells).cells[k - 1]? = some entry ∧ entry.isCode = true) :
    ∃ groups : List (Cell × List Finding),
      (publish (.notebook uri path version cells) findings).run s = some ((), { s with
        sent := s.sent ++
          if s.connected then groups.map fun g => publication g.1.uri g.1.version g.2 else [] }) ∧
      groups.map Prod.fst = cells.filter Cell.isCode ∧
      (∀ g ∈ groups, g.2.Sublist findings ∧
        ∀ f ∈ g.2, ∀ k, f.cell = some k → cells[k - 1]? = some g.1) ∧
      (groups.flatMap Prod.snd).Perm
        (findings.filter fun f => f.cell.isSome || cells.head?.any Cell.isCode) ∧
      ((groups.flatMap Prod.snd).Perm findings ↔
        cells.head?.any Cell.isCode = true ∨ ∀ f ∈ findings, f.cell.isSome = true) := by
  have hplaces : ∀ f ∈ findings, ∀ k, f.cell = some k → k ∈ codePlaces cells := by
    intro f hf k hk
    obtain ⟨hnumber, entry, hentry, hcode⟩ := hfits f hf k hk
    exact mem_codePlaces_of_entry cells k entry hnumber hentry hcode
  have hsent := perm_codeGroups cells findings hplaces
  refine ⟨codeGroups cells findings, ?_, codeGroups_cells cells findings,
    codeGroups_sorted cells findings, hsent, ?_⟩
  · rw [publish, forM_sendIfConnected, codeGroups, List.map_map]
    rfl
  · have hall := perm_iff_of_perm_filter hsent
    rw [hall]
    cases hhead : cells.head?.any Cell.isCode <;> simp

def twoFindings : List Finding := [oneFinding, { oneFinding with cell := some 2 }]

def proseFirst : List Cell :=
  [⟨⟨"cell", none, .rootless "b", none, none⟩, .markup, "", none⟩, ⟨turnedCell, .code, "y", none⟩]

theorem proseFirst_loses :
    (∀ f ∈ twoFindings, ∀ k, f.cell = some k → 1 ≤ k ∧
      ∃ entry, (NotebookFile.ofCells proseFirst).cells[k - 1]? = some entry ∧
        entry.isCode = true) ∧
    ∃ groups : List (Cell × List Finding),
      groups.map Prod.fst = [⟨turnedCell, .code, "y", none⟩] ∧
      ¬ (groups.flatMap Prod.snd).Perm twoFindings := by
  have hfits : ∀ f ∈ twoFindings, ∀ k, f.cell = some k → 1 ≤ k ∧
      ∃ entry, (NotebookFile.ofCells proseFirst).cells[k - 1]? = some entry ∧
        entry.isCode = true := by
    intro f hf k hk
    rcases List.mem_cons.1 hf with rfl | hf
    · cases hk
    · rw [List.mem_singleton.1 hf] at hk
      cases hk
      exact ⟨by decide, _, rfl, rfl⟩
  obtain ⟨groups, -, hcells, -, -, hlost⟩ := publish_loses_none_iff (ofTool (printing ""))
    turnedNotebook ⟨"/nb.ipynb"⟩ none proseFirst twoFindings hfits
  refine ⟨hfits, groups, hcells, fun hperm => ?_⟩
  rcases hlost.1 hperm with hfirst | hnamed
  · cases hfirst
  · cases hnamed oneFinding List.mem_cons_self

end Session
end LintBridge
