import LintBridge.Proofs.Store.Ownership

/-!
Which changes of cells are carried out, and what a notebook lists then.

The end of the window of a change is a sum of two counts. If the sum does not fit a count of 64
bits, there is no window (`CellChange.window?_eq_none_iff`) and the change breaks off;
`Store.changeCells?_splices_iff` says that this is all that can go wrong.
-/

namespace LintBridge

theorem CellChange.window?_eq_none_iff (c : CellChange) (size : Nat) :
    c.window? size = none ↔ ¬ c.Fits size := by
  constructor
  · intro hnone hfits
    rw [c.window?_of_fits size hfits] at hnone
    cases hnone
  · intro hfits
    have hsum : counted? maxSize (min c.start size + c.deleteCount) = none := if_neg hfits
    simp only [window?, hsum, Option.bind_eq_bind, Option.bind_none]

namespace Store

theorem notebookCells?_eq_some_iff (s : Store) (notebook : Url) (cells : List CellSlot) :
    s.notebookCells? notebook = some cells ↔
      ∃ entry, s.notebooks.get? notebook = some entry ∧ entry.cells = cells :=
  Option.map_eq_some_iff

/-- A change of the cells of an open notebook breaks off exactly if the end of its window does not
fit 64 bits. Else the notebook lists the cells before the window, the new ones, and the cells after
the window, which is cut to the cells there are; the other notebooks list what they listed. -/
theorem changeCells?_splices_iff (s : Store) (notebook : Url) (cells : List CellSlot)
    (hopen : s.notebookCells? notebook = some cells) (c : CellChange) :
    (s.changeCells? notebook c = none ↔
      18446744073709551616 ≤ min c.start cells.length + c.deleteCount) ∧
    ∀ known t, s.changeCells? notebook c = some (known, t) →
      known = true ∧
      t.notebookCells? notebook = some (cells.take (min c.start cells.length) ++ c.cells ++
        cells.drop (min (c.start + c.deleteCount) cells.length)) ∧
      ∀ other, other ≠ notebook → t.notebookCells? other = s.notebookCells? other := by
  obtain ⟨entry, hentry, rfl⟩ := (s.notebookCells?_eq_some_iff notebook cells).1 hopen
  by_cases hfits : c.Fits entry.cells.length
  · obtain ⟨t, ht, hnotebooks, -, -⟩ :=
      s.changeCells?_of_window? notebook c entry hentry (c.window?_of_fits _ hfits)
    refine ⟨?_, ?_⟩
    · rw [ht]
      exact iff_of_false (Option.some_ne_none _) (Nat.not_le.2 (Nat.lt_succ_of_le hfits))
    · intro known u hu
      rw [ht] at hu
      cases hu
      refine ⟨rfl, ?_, fun other hother => ?_⟩
      · rw [notebookCells?, hnotebooks, Table.get?_insert, if_pos rfl]
        rfl
      · rw [notebookCells?, hnotebooks, Table.get?_insert, if_neg (Ne.symm hother), notebookCells?]
  · have hnone : s.changeCells? notebook c = none := by
      simp [changeCells?, hentry, (c.window?_eq_none_iff _).2 hfits]
    refine ⟨iff_of_true hnone (Nat.lt_of_not_le hfits), fun known t ht => ?_⟩
    rw [hnone] at ht
    cases ht

def pairNotebook : Store :=
  empty.openNotebook (runUrl "n") 1 [⟨runUrl "a", .code⟩, ⟨runUrl "b", .markup⟩] []

/-- A change that puts one cell where as many as 64 bits can count make way. -/
def greatestCount (start : Nat) : CellChange :=
  ⟨start, 18446744073709551615, [⟨runUrl "c", .code⟩], [], []⟩

/-- The greatest count replaces all cells, but it breaks off a change that leaves the first one. -/
theorem greatestCount_breaks_off :
    pairNotebook.notebookCells? (runUrl "n") =
      some [⟨runUrl "a", .code⟩, ⟨runUrl "b", .markup⟩] ∧
    pairNotebook.changeCells? (runUrl "n") (greatestCount 1) = none ∧
    ∃ t, pairNotebook.changeCells? (runUrl "n") (greatestCount 0) = some (true, t) ∧
      t.notebookCells? (runUrl "n") = some [⟨runUrl "c", .code⟩] := by
  have hopen : pairNotebook.notebookCells? (runUrl "n") =
      some [⟨runUrl "a", .code⟩, ⟨runUrl "b", .markup⟩] := by decide +kernel
  refine ⟨hopen, ?_, ?_⟩
  · exact (changeCells?_splices_iff _ _ _ hopen (greatestCount 1)).1.2 (by decide)
  · obtain ⟨hnone, hsome⟩ := changeCells?_splices_iff _ _ _ hopen (greatestCount 0)
    cases ht : pairNotebook.changeCells? (runUrl "n") (greatestCount 0) with
    | none => exact absurd (hnone.1 ht) (by decide)
    | some result =>
      obtain ⟨known, t⟩ := result
      obtain ⟨rfl, hcells, -⟩ := hsome known t ht
      exact ⟨t, rfl, hcells⟩

end Store
end LintBridge
