import LintBridge.Proofs.Text.Splice

/-!
The edit between two texts turns the one into the other.

`windowEdit` keeps the lines that two texts share at their starts and at their ends.

* `applyEdits?_reconcile`: carrying out what `reconcile` gives leaves exactly the new text with the
  line endings of the old one, for every old text whose lines positions can reach (`Reachable`);
* `reconcile_round_trip`: and it gives no edit when that text is the old one, and otherwise one,
  whose start is not behind its end.
-/

namespace LintBridge

/-- A position can name every place of a text: there are fewer lines, and fewer code units in each
of them, than a count can carry. -/
def Fits (text : List Char) : Prop :=
  (splitLines text).length < maxCount ∧
    ∀ line ∈ splitLines text, utf16Size (stripTerminator line) < maxCount

instance (text : List Char) : Decidable (Fits text) :=
  inferInstanceAs (Decidable (_ ∧ _))

/-- Positions can name the places where edits between lines start and end: the lines can be counted,
and so can the code units of a last line without terminator. -/
def Reachable (text : List Char) : Prop :=
  (splitLines text).length ≤ maxCount ∧
    ∀ last ∈ (splitLines text).getLast?, endsLine last = false → utf16Size last ≤ maxCount

instance (text : List Char) : Decidable (Reachable text) :=
  inferInstanceAs (Decidable (_ ∧ _))

theorem Fits.reachable {text : List Char} (h : Fits text) : Reachable text := by
  refine ⟨Nat.le_of_lt h.1, fun last hlast hopen => ?_⟩
  have hsize := h.2 last (List.mem_of_getLast? hlast)
  rw [stripTerminator_of_not_endsLine last hopen] at hsize
  exact Nat.le_of_lt hsize

/-- The end of a last line without terminator can be counted: the greatest count does not lie inside
a surrogate pair of it. -/
def EndCounted (text : List Char) : Prop :=
  ∀ last ∈ (splitLines text).getLast?, endsLine last = false →
    utf16Size (takeUnits maxCount last) ≤ maxCount

instance (text : List Char) : Decidable (EndCounted text) :=
  inferInstanceAs (Decidable (∀ last ∈ _, _))

theorem utf16Size_takeUnits_le_size (n : Nat) (text : List Char) :
    utf16Size (takeUnits n text) ≤ utf16Size text := by
  obtain ⟨rest, hrest⟩ := takeUnits_isPrefix n text
  have hsize := utf16Size_append (takeUnits n text) rest
  rw [hrest] at hsize
  omega

theorem Reachable.endCounted {text : List Char} (h : Reachable text) : EndCounted text := by
  intro last hlast hopen
  exact Nat.le_trans (utf16Size_takeUnits_le_size _ _) (h.2 last hlast hopen)

theorem clampCount_of_le (n : Nat) (h : n ≤ maxCount) : clampCount n = n :=
  Nat.min_eq_left h

/-! ## What two lists share -/

section Common

variable {α : Type} [DecidableEq α]

theorem commonCount_le_left (as bs : List α) : commonCount as bs ≤ as.length := by
  fun_induction commonCount as bs with
  | case1 a as bs ih =>
    rw [List.length_cons]
    omega
  | case2 => exact Nat.zero_le _
  | case3 => exact Nat.zero_le _

/-- As many elements as two lists share are the same at the start of both. -/
theorem take_commonCount (as bs : List α) :
    as.take (commonCount as bs) = bs.take (commonCount as bs) := by
  fun_induction commonCount as bs with
  | case1 a as bs ih => rw [List.take_succ_cons, List.take_succ_cons, ih]
  | case2 => rfl
  | case3 => simp

/-- Two lists are a shared start, a middle of each, and a shared end; the counts say where. -/
theorem exists_shared_ends (old new : List α) : ∃ front oldMiddle newMiddle back,
    old = front ++ (oldMiddle ++ back) ∧ new = front ++ (newMiddle ++ back) ∧
    front.length = commonCount old new ∧
    back.length = commonCount (old.drop (commonCount old new)).reverse
      (new.drop (commonCount old new)).reverse := by
  have hback : ∀ a b : List α, ∃ x y z, a = x ++ z ∧ b = y ++ z ∧
      z.length = commonCount a.reverse b.reverse := by
    intro a b
    have hshared := take_commonCount a.reverse b.reverse
    have hle := commonCount_le_left a.reverse b.reverse
    refine ⟨(a.reverse.drop (commonCount a.reverse b.reverse)).reverse,
      (b.reverse.drop (commonCount a.reverse b.reverse)).reverse,
      (a.reverse.take (commonCount a.reverse b.reverse)).reverse, ?_, ?_, ?_⟩
    · rw [← List.reverse_append, List.take_append_drop, List.reverse_reverse]
    · rw [hshared, ← List.reverse_append, List.take_append_drop, List.reverse_reverse]
    · rw [List.length_reverse, List.length_take, Nat.min_eq_left hle]
  obtain ⟨x, y, z, hx, hy, hz⟩ :=
    hback (old.drop (commonCount old new)) (new.drop (commonCount old new))
  refine ⟨old.take (commonCount old new), x, y, z, ?_, ?_, ?_, hz⟩
  · rw [← hx, List.take_append_drop]
  · rw [← hy, take_commonCount, List.take_append_drop]
  · rw [List.length_take, Nat.min_eq_left (commonCount_le_left old new)]

end Common

/-! ## The window -/

def keptLines (old new : List (List Char)) : Nat :=
  commonCount (old.drop (commonCount old new)).reverse (new.drop (commonCount old new)).reverse

theorem keptLines_le (old new : List (List Char)) :
    commonCount old new + keptLines old new ≤ old.length := by
  have hhead := commonCount_le_left old new
  have htail := commonCount_le_left (old.drop (commonCount old new)).reverse
    (new.drop (commonCount old new)).reverse
  rw [List.length_reverse, List.length_drop] at htail
  unfold keptLines
  omega

theorem textBefore_windowEnd (text : List Char) (kept : Nat) (h : Reachable text)
    (hk : kept ≤ (splitLines text).length) :
    textBefore text (windowEnd (splitLines text) kept) =
      ((splitLines text).take ((splitLines text).length - kept)).flatten := by
  obtain ⟨hcount, hunits⟩ := h
  have hstart : textBefore text ⟨clampCount ((splitLines text).length - kept), 0⟩ =
      ((splitLines text).take ((splitLines text).length - kept)).flatten := by
    rw [clampCount_of_le _ (by omega), textBefore_lineStart]
  unfold windowEnd
  cases hlast : (splitLines text).getLast? with
  | none => exact hstart
  | some last =>
    by_cases hend : kept = 0 ∧ endsLine last = false
    · obtain ⟨rfl, hopen⟩ := hend
      have hsize := hunits last hlast hopen
      simp only [hopen, and_self, if_true, utf16Count]
      rw [clampCount_of_le _ (by omega), clampCount_of_le _ (by omega),
        textBefore_lastLine text last hlast hopen, Nat.sub_zero, List.take_length,
        flatten_splitLines]
    · simp only [if_neg hend]
      exact hstart

theorem counted_windowEnd (text : List Char) (kept : Nat)
    (hcount : (splitLines text).length ≤ maxCount + 1) (h : EndCounted text) :
    Counted text (windowEnd (splitLines text) kept) := by
  unfold windowEnd
  cases hlast : (splitLines text).getLast? with
  | none => exact counted_lineStart text _
  | some last =>
    dsimp only
    split
    · next hend =>
      intro line hline
      rw [clampCount_of_le _ (by omega), ← List.getLast?_eq_getElem?, hlast] at hline
      obtain rfl := Option.some.inj hline
      rw [stripTerminator_of_not_endsLine last hend.2]
      show utf16Size (takeUnits (min (utf16Size last) maxCount) last) ≤ maxCount
      by_cases hsize : utf16Size last ≤ maxCount
      · exact Nat.le_trans (utf16Size_takeUnits_le_size _ _) hsize
      · rw [Nat.min_eq_right (Nat.le_of_not_le hsize)]
        exact h last hlast hend.2
    · exact counted_lineStart text _

theorem flatten_take_of_le (lines : List (List Char)) (head stop : Nat) (h : head ≤ stop) :
    (lines.take stop).flatten =
      (lines.take head).flatten ++ ((lines.drop head).take (stop - head)).flatten := by
  rw [← List.flatten_append, ← List.take_add, Nat.add_sub_cancel' h]

/-- The edit between the lines of two texts replaces what lies between the ends of its window. It
gives the new text and what is left of the old one between that and the lines that stay, if either
there is nothing left or no line stays. -/
theorem applyEdits?_windowEdit_append (old new replaced rest : List Char) (head kept : Nat)
    (hhead : head = commonCount (splitLines old) (splitLines new))
    (hkept : kept = keptLines (splitLines old) (splitLines new)) (hle : head ≤ maxCount)
    (hcounted : Counted old (windowEnd (splitLines old) kept))
    (hstop : textBefore old (windowEnd (splitLines old) kept) =
      ((splitLines old).take head).flatten ++ replaced)
    (hrest : replaced ++ rest =
      (((splitLines old).drop head).take ((splitLines old).length - kept - head)).flatten)
    (hend : rest = [] ∨ kept = 0) :
    applyEdits? old [windowEdit (splitLines old) (splitLines new)] = some (new ++ rest) := by
  obtain ⟨front, oldMiddle, newMiddle, back, hold, hnew, hfront, hback⟩ :=
    exists_shared_ends (splitLines old) (splitLines new)
  replace hfront : front.length = head := by rw [hhead, hfront]
  replace hback : back.length = kept := by rw [hkept, keptLines, hback]
  have hmiddle : replaced ++ rest = oldMiddle.flatten := by
    have hlen : (splitLines old).length - kept - head = oldMiddle.length := by
      rw [hold]
      simp only [List.length_append]
      omega
    rw [hrest, hlen, hold, List.drop_left' hfront, List.take_left' rfl]
  have htext : old = front.flatten ++ (replaced ++ (rest ++ back.flatten)) := by
    rw [← List.append_assoc replaced, hmiddle, ← flatten_splitLines old, hold]
    simp
  have hstart : textBefore old (windowEdit (splitLines old) (splitLines new)).range.start =
      front.flatten := by
    simp only [windowEdit]
    rw [← hhead, clampCount_of_le _ hle, textBefore_lineStart, hold, List.take_left' hfront]
  have hstop : textBefore old (windowEdit (splitLines old) (splitLines new)).range.stop =
      front.flatten ++ replaced := by
    have htake : (splitLines old).take head = front := by rw [hold, List.take_left' hfront]
    rw [htake, hkept] at hstop
    exact hstop
  have hnewText : (windowEdit (splitLines old) (splitLines new)).newText.toList =
      newMiddle.flatten := by
    have hlen : (splitLines new).length - back.length - front.length = newMiddle.length := by
      rw [hnew]
      simp only [List.length_append]
      omega
    rw [hkept, keptLines] at hback
    simp only [windowEdit]
    rw [← hback, ← hhead, ← hfront, hlen, String.toList_ofList, hnew, List.drop_left' rfl,
      List.take_left' rfl]
  have hgoal : front.flatten ++ newMiddle.flatten ++ (rest ++ back.flatten) = new ++ rest := by
    rw [← flatten_splitLines new, hnew]
    rcases hend with rfl | hzero
    · simp
    · have hnil : back = [] := List.length_eq_zero_iff.1 (by omega)
      simp [hnil]
  have hrange : (windowEdit (splitLines old) (splitLines new)).range.Counted old := by
    rw [hkept] at hcounted
    exact ⟨counted_lineStart old _, hcounted⟩
  rw [applyEdits?_singleton old _ _ _ _ hrange htext hstart hstop, hnewText, hgoal]

/-- The edit between the lines of two texts turns the one into the other. -/
theorem applyEdits?_windowEdit (old new : List Char) (h : Reachable old) :
    applyEdits? old [windowEdit (splitLines old) (splitLines new)] = some new := by
  have hle := keptLines_le (splitLines old) (splitLines new)
  have hcount := h.1
  have hstop := textBefore_windowEnd old (keptLines (splitLines old) (splitLines new)) h (by omega)
  rw [flatten_take_of_le (splitLines old) (commonCount (splitLines old) (splitLines new)) _
    (by omega)] at hstop
  have hcounted := counted_windowEnd old (keptLines (splitLines old) (splitLines new)) (by omega)
    h.endCounted
  have happly := applyEdits?_windowEdit_append old new _ [] _ _ rfl rfl (by omega) hcounted hstop
    (List.append_nil _) (.inl rfl)
  rwa [List.append_nil] at happly

/-- A last line without a terminator is among the lines that two texts share at their starts only
if the texts are the same. -/
theorem commonCount_lt_of_open (old new : List Char) (h : old ≠ new) (hne : old ≠ [])
    (hopen : endsLine old = false) :
    commonCount (splitLines old) (splitLines new) < (splitLines old).length := by
  have hle := commonCount_le_left (splitLines old) (splitLines new)
  refine Nat.lt_of_le_of_ne hle fun hall => h ?_
  have hshared := take_commonCount (splitLines old) (splitLines new)
  rw [hall, List.take_length] at hshared
  have hnew : splitLines old ++ (splitLines new).drop (splitLines old).length = splitLines new := by
    have happend := List.take_append_drop (splitLines old).length (splitLines new)
    rwa [← hshared] at happend
  cases hmore : (splitLines new).drop (splitLines old).length with
  | nil => rw [← flatten_splitLines old, ← flatten_splitLines new, ← hnew, hmore, List.append_nil]
  | cons line more =>
    have hlast := List.getLast?_eq_some_getLast (mt (splitLines_eq_nil_iff old).1 hne)
    have hmem : (splitLines old).getLast (mt (splitLines_eq_nil_iff old).1 hne) ∈
        (splitLines new).dropLast := by
      rw [← hnew, hmore, List.dropLast_append_of_ne_nil (by simp)]
      exact List.mem_append_left _ (List.getLast_mem _)
    have hends := endsLine_of_mem_dropLast new _ hmem
    rw [endsLine_of_getLast?_splitLines old _ hlast, hopen] at hends
    cases hends

theorem windowEdit_inOrder (old new : List Char) (h : old ≠ new) :
    (windowEdit (splitLines old) (splitLines new)).range.stop.before
      (windowEdit (splitLines old) (splitLines new)).range.start = false := by
  have hle := keptLines_le (splitLines old) (splitLines new)
  have hclamp : ∀ m n, m ≤ n → clampCount m ≤ clampCount n := by
    intro m n hmn
    unfold clampCount
    omega
  have hlines : ∀ stop, commonCount (splitLines old) (splitLines new) ≤ stop → ∀ character,
      Position.before ⟨clampCount stop, character⟩
        ⟨clampCount (commonCount (splitLines old) (splitLines new)), 0⟩ = false := by
    intro stop hstop character
    have hline := hclamp _ _ hstop
    simp only [Position.before, decide_eq_false_iff_not]
    omega
  change (windowEnd (splitLines old) (keptLines (splitLines old) (splitLines new))).before
    ⟨clampCount (commonCount (splitLines old) (splitLines new)), 0⟩ = false
  unfold windowEnd
  cases hlast : (splitLines old).getLast? with
  | none => exact hlines _ (by omega) _
  | some last =>
    dsimp only
    split
    · next hend =>
      have hopen := endsLine_of_getLast?_splitLines old last hlast
      have hne : old ≠ [] := by
        rintro rfl
        cases hlast
      have hlt := commonCount_lt_of_open old new h hne (hopen ▸ hend.2)
      exact hlines _ (by omega) _
    · exact hlines _ (by omega) _

/-! ## Edits of a whole text and of a cell -/

theorem adopt_self (text : List Char) : LineEnding.adopt text text = text := by
  unfold LineEnding.adopt
  cases LineEnding.first? text with
  | none => rfl
  | some e => simp

/-- Two texts that differ only in their line endings have no edits between them, and others a
single one. -/
theorem reconcile_cases (old new : List Char) :
    (LineEnding.adopt old new = old ∧ reconcile old new = []) ∨
    (LineEnding.adopt old new ≠ old ∧ reconcile old new =
      [windowEdit (splitLines old) (splitLines (LineEnding.adopt old new))]) := by
  unfold reconcile
  by_cases hsame : old = new
  · rw [if_pos hsame, ← hsame, adopt_self]
    exact .inl ⟨rfl, rfl⟩
  · rw [if_neg hsame]
    by_cases hadopt : old = LineEnding.adopt old new
    · simp only [← hadopt, if_true]
      exact .inl ⟨trivial, trivial⟩
    · simp only [if_neg hadopt]
      exact .inr ⟨fun h => hadopt h.symm, trivial⟩

/-- The edits between two texts can be carried out if the end of the old one can be counted. -/
theorem exists_applyEdits?_reconcile (old new : List Char)
    (hcount : (splitLines old).length ≤ maxCount + 1) (hend : EndCounted old) :
    ∃ result, applyEdits? old (reconcile old new) = some result := by
  rcases reconcile_cases old new with ⟨-, hnone⟩ | ⟨-, hone⟩
  · exact ⟨old, by rw [hnone, applyEdits?_nil]⟩
  · rw [hone]
    apply exists_applyEdits?_one
    exact ⟨counted_lineStart old _, counted_windowEnd old _ hcount hend⟩

/-- Carrying out the edits between two texts gives the new text with the line endings of the
old one. -/
theorem applyEdits?_reconcile (old new : List Char) (h : Reachable old) :
    applyEdits? old (reconcile old new) = some (LineEnding.adopt old new) := by
  rcases reconcile_cases old new with ⟨hsame, hnone⟩ | ⟨-, hone⟩
  · rw [hnone, applyEdits?_nil, hsame]
  · rw [hone]
    exact applyEdits?_windowEdit old (LineEnding.adopt old new) h

/-- Between two texts there is no edit exactly when the new one, with the line endings of the old
one, is the old one. Otherwise there is a single edit, whose start does not lie after its end. In
both cases carrying out the edits gives the new text with the line endings of the old one. -/
theorem reconcile_round_trip (old new : List Char) (h : Fits old) :
    applyEdits? old (reconcile old new) = some (LineEnding.adopt old new) ∧
    (reconcile old new = [] ↔ LineEnding.adopt old new = old) ∧
    (LineEnding.adopt old new ≠ old → ∃ edit, reconcile old new = [edit] ∧
      edit.range.stop.before edit.range.start = false) := by
  refine ⟨applyEdits?_reconcile old new h.reachable, ?_, fun hne => ?_⟩
  · rcases reconcile_cases old new with ⟨hsame, hnone⟩ | ⟨hne, hone⟩
    · exact iff_of_true hnone hsame
    · rw [hone]
      exact iff_of_false (by simp) hne
  · rcases reconcile_cases old new with ⟨hsame, -⟩ | ⟨-, hone⟩
    · exact absurd hsame hne
    · exact ⟨_, hone, windowEdit_inOrder old _ fun hold => hne hold.symm⟩

/-- A text with a lone CR, a CR LF, and a last line with a surrogate pair and no terminator, and a
new text that mixes terminators and ends with one. -/
theorem mixedLines_round_trip :
    Fits "a\rb\r\n'😀'".toList ∧
    reconcile "a\rb\r\n'😀'".toList "a\n\r\n'😀'\n".toList = [⟨⟨⟨1, 0⟩, ⟨2, 4⟩⟩, "\r\r'😀'\r"⟩] ∧
    applyEdits? "a\rb\r\n'😀'".toList
      (reconcile "a\rb\r\n'😀'".toList "a\n\r\n'😀'\n".toList) = some "a\r\r\r'😀'\r".toList := by
  have hfit : Fits "a\rb\r\n'😀'".toList := by decide +kernel
  refine ⟨hfit, by decide +kernel, ?_⟩
  exact (reconcile_round_trip _ "a\n\r\n'😀'\n".toList hfit).1

end LintBridge
