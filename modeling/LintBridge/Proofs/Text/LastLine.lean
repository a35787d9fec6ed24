import LintBridge.Proofs.Text.Reconcile

/-!
Edits of a text that ends inside a line.

The end of such an edit is a column of the last line, and a position carries no column past the
greatest count. What it cannot reach of the last line (`unreached`) stays behind the new text
(`applyEdits?_reconcile_of_open`); nothing else does, if the lines can be counted.
-/

namespace LintBridge

/-- What stands in the last line of a text after as many code units as a position can carry. -/
def unreached (text : List Char) : List Char :=
  match (splitLines text).getLast? with
  | some last => last.drop (takeUnits (utf16Count last) last).length
  | none => []

theorem exists_of_commonCount_ne_zero {α : Type} [DecidableEq α] (as bs : List α)
    (h : commonCount as bs ≠ 0) : ∃ a, as.head? = some a ∧ bs.head? = some a := by
  cases as with
  | nil => simp [commonCount] at h
  | cons a as =>
    cases bs with
    | nil => simp [commonCount] at h
    | cons b bs =>
      by_cases hab : a = b
      · exact ⟨a, rfl, by rw [hab]; rfl⟩
      · simp [commonCount, hab] at h

/-- No line stays at the end when one text ends inside a line and the other does not. -/
theorem keptLines_eq_zero (old new : List Char) (h : endsLine old ≠ endsLine new) :
    keptLines (splitLines old) (splitLines new) = 0 := by
  refine Decidable.byContradiction fun hkept => h ?_
  obtain ⟨last, hold, hnew⟩ := exists_of_commonCount_ne_zero _ _ hkept
  have hlast : ∀ (lines : List (List Char)) (n : Nat), (lines.drop n).reverse.head? = some last →
      lines.getLast? = some last := by
    intro lines n hn
    rw [List.head?_reverse, List.getLast?_drop] at hn
    split at hn
    · cases hn
    · exact hn
  rw [← endsLine_of_getLast?_splitLines old last (hlast _ _ hold),
    ← endsLine_of_getLast?_splitLines new last (hlast _ _ hnew)]

/-- The end of a window that no line follows lies in the last line, as far as a position can
reach. -/
theorem textBefore_windowEnd_open (text last : List Char) (front : List (List Char))
    (hlines : splitLines text = front ++ [last]) (hopen : endsLine last = false)
    (hcount : front.length ≤ maxCount) :
    textBefore text (windowEnd (splitLines text) 0) =
      front.flatten ++ takeUnits (utf16Count last) last := by
  have hend : windowEnd (splitLines text) 0 = ⟨front.length, utf16Count last⟩ := by
    simp [windowEnd, hlines, hopen, clampCount_of_le _ hcount]
  rw [hend]
  simp [textBefore, hlines, stripTerminator_of_not_endsLine last hopen]

theorem takeUnits_append_unreached (text last : List Char)
    (hlast : (splitLines text).getLast? = some last) :
    takeUnits (utf16Count last) last ++ unreached text = last := by
  obtain ⟨more, hmore⟩ := takeUnits_isPrefix (utf16Count last) last
  have hrest := congrArg (List.drop (takeUnits (utf16Count last) last).length) hmore
  rw [List.drop_left] at hrest
  simp only [unreached, hlast, ← hrest]
  exact hmore

/-- Lines that stay are counted off exactly. -/
theorem textBefore_windowEnd_of_kept (text : List Char) (kept : Nat) (hkept : kept ≠ 0)
    (hcount : (splitLines text).length ≤ maxCount + 1) :
    textBefore text (windowEnd (splitLines text) kept) =
      ((splitLines text).take ((splitLines text).length - kept)).flatten := by
  have hend : windowEnd (splitLines text) kept = ⟨(splitLines text).length - kept, 0⟩ := by
    unfold windowEnd
    rw [clampCount_of_le ((splitLines text).length - kept) (by omega)]
    cases (splitLines text).getLast? with
    | none => rfl
    | some last => simp [hkept]
  rw [hend, textBefore_lineStart]

/-- The edit between the lines of two texts, of which the old one ends inside a line, gives the new
text, and after it nothing or what no position can reach. -/
theorem applyEdits?_windowEdit_of_open (old new : List Char)
    (hcount : (splitLines old).length ≤ maxCount + 1) (hopen : endsLine old = false)
    (hne : old ≠ new)
    (hcounted : (windowEdit (splitLines old) (splitLines new)).range.Counted old) :
    ∃ rest, applyEdits? old [windowEdit (splitLines old) (splitLines new)] = some (new ++ rest) ∧
      (rest = [] ∨ rest = unreached old) ∧ (endsLine new = true → rest = unreached old) := by
  cases hlast : (splitLines old).getLast? with
  | none =>
    obtain rfl := (splitLines_eq_nil_iff old).1 (List.getLast?_eq_none_iff.1 hlast)
    have happly := applyEdits?_windowEdit [] new (by decide)
    exact ⟨[], by rw [happly, List.append_nil], .inl rfl, fun _ => rfl⟩
  | some last =>
    have hold : old ≠ [] := by
      rintro rfl
      cases hlast
    have hlt := commonCount_lt_of_open old new hne hold hopen
    have hle := keptLines_le (splitLines old) (splitLines new)
    by_cases hkept : keptLines (splitLines old) (splitLines new) = 0
    · refine ⟨unreached old, ?_, .inr rfl, fun _ => rfl⟩
      obtain ⟨front, hlines⟩ := List.getLast?_eq_some_iff.1 hlast
      have hlen : (splitLines old).length = front.length + 1 := by rw [hlines]; simp
      have hopenLast := endsLine_of_getLast?_splitLines old last hlast
      have hstop := textBefore_windowEnd_open old last front hlines (hopenLast ▸ hopen) (by omega)
      have hall := takeUnits_append_unreached old last hlast
      refine applyEdits?_windowEdit_append old new
        ((front.drop (commonCount (splitLines old) (splitLines new))).flatten ++
          takeUnits (utf16Count last) last) (unreached old) _ 0 rfl hkept.symm (by omega)
        (hkept ▸ hcounted.2) ?_ ?_ (.inr rfl)
      all_goals generalize commonCount (splitLines old) (splitLines new) = head at hlt ⊢
      · rw [hstop, hlines, List.take_append_of_le_length (by omega), ← List.append_assoc,
          ← List.flatten_append, List.take_append_drop]
      · rw [List.append_assoc, hall, Nat.sub_zero, ← List.length_drop, List.take_length, hlines,
          List.drop_append_of_le_length (by omega), List.flatten_append, List.flatten_singleton]
    · have hstop := textBefore_windowEnd_of_kept old _ hkept hcount
      rw [flatten_take_of_le (splitLines old) (commonCount (splitLines old) (splitLines new)) _
        (by omega)] at hstop
      have happly := applyEdits?_windowEdit_append old new _ [] _ _ rfl rfl (by omega) hcounted.2
        hstop (List.append_nil _) (.inl rfl)
      refine ⟨[], happly, .inl rfl, fun hnew => ?_⟩
      exact absurd (keptLines_eq_zero old new (by simp [hopen, hnew])) hkept

/-- The edits of a text that ends inside a line, where they can be carried out, give the new text
with the line endings of the old one, and after it nothing or what no position can reach. -/
theorem applyEdits?_reconcile_of_open (old new result : List Char)
    (hcount : (splitLines old).length ≤ maxCount + 1) (hopen : endsLine old = false)
    (happly : applyEdits? old (reconcile old new) = some result) :
    ∃ rest, result = LineEnding.adopt old new ++ rest ∧
      (rest = [] ∨ rest = unreached old) ∧
      (endsLine (LineEnding.adopt old new) = true → rest = unreached old) := by
  rcases reconcile_cases old new with ⟨hsame, hnone⟩ | ⟨hne, hone⟩
  · rw [hnone, applyEdits?_nil] at happly
    refine ⟨[], by rw [hsame, List.append_nil, Option.some.inj happly], .inl rfl, fun hends => ?_⟩
    rw [hsame, hopen] at hends
    cases hends
  · rw [hone] at happly
    obtain ⟨rest, hresult, hrest⟩ := applyEdits?_windowEdit_of_open old _ hcount hopen
      (fun hold => hne hold.symm) (counted_of_applyEdits?_one old result _ happly)
    rw [happly] at hresult
    exact ⟨rest, Option.some.inj hresult, hrest⟩

end LintBridge
