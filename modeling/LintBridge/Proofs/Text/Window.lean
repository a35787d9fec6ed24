import LintBridge.Proofs.Text.LastLine

/-!
The window of an edit is the least one.

`windowEdit` keeps the lines that two texts share at their starts, and of what is left those that
they share at their ends. Two texts with repeated lines share ends in several ways (`SharesEnds`).

* `sharesEnds_windowEdit`: what is kept at the start and at the end does not overlap in either text;
* `add_le_of_sharesEnds`: in no way do more lines stay, however the lines repeat;
* `reconcile_keeps_most`: the edit between two texts leaves these lines as they are, by the octets
  that its range covers, and no others, as long as positions can count the lines;
* `lines_left_past_count`: past that it may leave more lines than the new text has, as it does with
  one line more than there are counts (`manyLines_left`).
-/

namespace LintBridge

/-! ## Shared ends -/

section Shared

variable {α : Type}

/-- Two lists share their first `p` and their last `s` elements, which overlap in neither. -/
def SharesEnds (as bs : List α) (p s : Nat) : Prop :=
  p + s ≤ min as.length bs.length ∧ as.take p = bs.take p ∧
    as.drop (as.length - s) = bs.drop (bs.length - s)

instance [DecidableEq α] (as bs : List α) (p s : Nat) : Decidable (SharesEnds as bs p s) :=
  inferInstanceAs (Decidable (_ ∧ _))

theorem le_commonCount [DecidableEq α] (as bs : List α) (n : Nat) (ha : n ≤ as.length)
    (hb : n ≤ bs.length) (h : as.take n = bs.take n) : n ≤ commonCount as bs := by
  induction n generalizing as bs with
  | zero => exact Nat.zero_le _
  | succ n ih =>
    cases as with
    | nil => simp at ha
    | cons a as =>
      cases bs with
      | nil => simp at hb
      | cons b bs =>
        simp only [List.take_succ_cons, List.cons.injEq] at h
        obtain ⟨rfl, hrest⟩ := h
        simp only [List.length_cons] at ha hb
        have hle := ih as bs (by omega) (by omega) hrest
        simp only [commonCount, if_true]
        omega

/-- Two lists share an end exactly when they share it as a start from the back. -/
theorem take_reverse_eq_iff (as bs : List α) (n : Nat) :
    as.reverse.take n = bs.reverse.take n ↔
      as.drop (as.length - n) = bs.drop (bs.length - n) := by
  rw [List.take_reverse, List.take_reverse, List.reverse_inj]

/-- What is left behind a start keeps an end that does not reach into the start. -/
theorem drop_drop_length_sub (as : List α) (p s : Nat) (h : p + s ≤ as.length) :
    (as.drop p).drop ((as.drop p).length - s) = as.drop (as.length - s) := by
  rw [List.drop_drop, List.length_drop]
  congr 1
  omega

end Shared

/-! ## The lines that are kept -/

/-- The lines that an edit keeps at both ends are shared, and overlap in neither text. -/
theorem sharesEnds_windowEdit (old new : List (List Char)) :
    SharesEnds old new (commonCount old new) (keptLines old new) := by
  obtain ⟨front, oldMiddle, newMiddle, back, hold, hnew, hfront, hback⟩ :=
    exists_shared_ends old new
  have hkept : keptLines old new = back.length := hback.symm
  have hend : ∀ middle, (front ++ (middle ++ back)).drop
      ((front ++ (middle ++ back)).length - back.length) = back := by
    intro middle
    rw [← List.append_assoc, List.drop_left']
    simp only [List.length_append]
    omega
  refine ⟨?_, take_commonCount old new, ?_⟩
  · rw [hkept, ← hfront]
    have holdLength := congrArg List.length hold
    have hnewLength := congrArg List.length hnew
    simp only [List.length_append] at holdLength hnewLength
    omega
  · rw [hkept, hold, hnew, hend, hend]

/-- In whatever way two texts share ends, no more lines stay than in an edit between them. -/
theorem add_le_of_sharesEnds (old new : List (List Char)) (p s : Nat)
    (h : SharesEnds old new p s) : p + s ≤ commonCount old new + keptLines old new := by
  obtain ⟨hsum, hstart, hend⟩ := h
  have hp := le_commonCount old new p (by omega) (by omega) hstart
  obtain ⟨hhead, -, -⟩ := sharesEnds_windowEdit old new
  -- Behind the common start there may be less room than the shared end takes. An end that fits
  -- there, and is no longer than `s`, is shared as well.
  have hroom : ∀ t, t ≤ s → commonCount old new + t ≤ min old.length new.length →
      t ≤ keptLines old new := by
    intro t hts ht
    apply le_commonCount
    · rw [List.length_reverse, List.length_drop]
      omega
    · rw [List.length_reverse, List.length_drop]
      omega
    · rw [take_reverse_eq_iff, drop_drop_length_sub old _ t (by omega),
        drop_drop_length_sub new _ t (by omega)]
      have hshorter := congrArg (List.drop (s - t)) hend
      rw [List.drop_drop, List.drop_drop] at hshorter
      have hold : old.length - s + (s - t) = old.length - t := by omega
      have hnew : new.length - s + (s - t) = new.length - t := by omega
      rwa [hold, hnew] at hshorter
  by_cases hfits : commonCount old new + s ≤ min old.length new.length
  · have hs := hroom s (Nat.le_refl s) hfits
    omega
  · have hrest := hroom (min old.length new.length - commonCount old new) (by omega) (by omega)
    omega

/-! ## The lines that a range leaves as they are -/

/-- The number of lines that end at an offset or before it. -/
def linesWithin : Nat → List (List Char) → Nat
  | _, [] => 0
  | offset, line :: rest =>
    if Utf8.size line ≤ offset then linesWithin (offset - Utf8.size line) rest + 1 else 0

/-- The number of lines of a text that stand wholly before what an edit replaces. -/
def TextEdit.linesBefore (edit : TextEdit) (text : List Char) : Nat :=
  linesWithin (edit.range.offsets text).1 (splitLines text)

/-- The number of lines of a text that stand wholly after what an edit replaces. -/
def TextEdit.linesAfter (edit : TextEdit) (text : List Char) : Nat :=
  linesWithin (Utf8.size text - (edit.range.offsets text).2) (splitLines text).reverse

theorem size_take_le (lines : List (List Char)) (m n : Nat) (h : m ≤ n) :
    Utf8.size (lines.take m).flatten ≤ Utf8.size (lines.take n).flatten := by
  rw [flatten_take_of_le lines m n h, size_append]
  omega

theorem linesWithin_of_lt (line : List Char) (rest : List (List Char)) (offset : Nat)
    (h : offset < Utf8.size line) : linesWithin offset (line :: rest) = 0 := by
  rw [linesWithin, if_neg (by omega)]

theorem linesWithin_take (lines : List (List Char)) (n : Nat) (h : ∀ line ∈ lines, line ≠ [])
    (hn : n ≤ lines.length) : linesWithin (Utf8.size (lines.take n).flatten) lines = n := by
  induction lines generalizing n with
  | nil =>
    rw [List.length_nil] at hn
    rw [linesWithin]
    omega
  | cons line rest ih =>
    obtain ⟨hline, hrest⟩ := List.forall_mem_cons.1 h
    cases n with
    | zero =>
      apply linesWithin_of_lt
      exact size_pos line hline
    | succ n =>
      rw [List.length_cons] at hn
      rw [List.take_succ_cons, List.flatten_cons, size_append, linesWithin, if_pos (by omega),
        Nat.add_sub_cancel_left, ih n hrest (by omega)]

/-- The lines after the start of a line are counted from the last one on. -/
theorem linesWithin_reverse (lines : List (List Char)) (kept : Nat)
    (h : ∀ line ∈ lines, line ≠ []) (hkept : kept ≤ lines.length) :
    linesWithin (Utf8.size lines.flatten - Utf8.size (lines.take (lines.length - kept)).flatten)
      lines.reverse = kept := by
  have hsize : ∀ ls : List (List Char), Utf8.size ls.reverse.flatten = Utf8.size ls.flatten := by
    intro ls
    induction ls with
    | nil => rfl
    | cons line rest ih =>
      rw [List.reverse_cons, List.flatten_append, List.flatten_singleton, size_append, ih,
        List.flatten_cons, size_append, Nat.add_comm]
  have hback : Utf8.size lines.flatten - Utf8.size (lines.take (lines.length - kept)).flatten =
      Utf8.size (lines.reverse.take kept).flatten := by
    have hsplit := congrArg (fun ls => Utf8.size (List.flatten ls))
      (List.take_append_drop (lines.length - kept) lines)
    simp only [List.flatten_append, size_append] at hsplit
    rw [List.take_reverse, hsize]
    omega
  rw [hback]
  apply linesWithin_take
  · intro line hline
    exact h line (List.mem_reverse.1 hline)
  · rwa [List.length_reverse]

/-! ## What an edit leaves -/

section Left

variable (old new : List Char) (hcount : (splitLines old).length ≤ maxCount)
include hcount

theorem offsetAt_windowEdit_start :
    offsetAt old (windowEdit (splitLines old) (splitLines new)).range.start =
      Utf8.size
        ((splitLines old).take (commonCount (splitLines old) (splitLines new))).flatten := by
  have hle := commonCount_le_left (splitLines old) (splitLines new)
  have hstart : (windowEdit (splitLines old) (splitLines new)).range.start =
      ⟨commonCount (splitLines old) (splitLines new), 0⟩ := by
    simp only [windowEdit]
    rw [clampCount_of_le _ (by omega)]
  rw [offsetAt, hstart, textBefore_lineStart]

theorem linesBefore_windowEdit :
    (windowEdit (splitLines old) (splitLines new)).linesBefore old =
      commonCount (splitLines old) (splitLines new) := by
  have hle := commonCount_le_left (splitLines old) (splitLines new)
  have hstart := offsetAt_windowEdit_start old new hcount
  show linesWithin (offsetAt old _) (splitLines old) = _
  rw [hstart]
  exact linesWithin_take _ _ (ne_nil_of_mem_splitLines old) hle

/-- The end of a window in an open last line lies behind the start of that line. -/
theorem lt_offsetAt_windowEnd_of_open (front : List (List Char)) (last : List Char)
    (hlines : splitLines old = front ++ [last]) (hopen : endsLine last = false) :
    Utf8.size front.flatten < offsetAt old (windowEnd (splitLines old) 0) := by
  have hlen := congrArg List.length hlines
  rw [List.length_append, List.length_singleton] at hlen
  have hstop := textBefore_windowEnd_open old last front hlines hopen (by omega)
  have hne : last ≠ [] := by
    apply ne_nil_of_mem_splitLines old
    rw [hlines]
    exact List.mem_append_right _ List.mem_cons_self
  have htaken : takeUnits (utf16Count last) last ≠ [] := by
    cases last with
    | nil => exact absurd rfl hne
    | cons c rest =>
      have hwidth := utf16Width_pos c
      have hpos : utf16Count (c :: rest) ≠ 0 := by
        unfold utf16Count clampCount maxCount
        rw [utf16Size_cons]
        omega
      rw [takeUnits, if_neg hpos]
      exact List.cons_ne_nil _ _
  have hsize := size_pos _ htaken
  rw [offsetAt, hstop, size_append]
  omega

/-- A window ends inside an open last line, or else at the start of the lines that are kept. -/
theorem windowEnd_cases (kept : Nat) :
    (kept = 0 ∧ ∃ front last, splitLines old = front ++ [last] ∧ endsLine last = false) ∨
      offsetAt old (windowEnd (splitLines old) kept) =
        Utf8.size ((splitLines old).take ((splitLines old).length - kept)).flatten := by
  have hstart : offsetAt old ⟨clampCount ((splitLines old).length - kept), 0⟩ =
      Utf8.size ((splitLines old).take ((splitLines old).length - kept)).flatten := by
    rw [offsetAt, clampCount_of_le _ (by omega), textBefore_lineStart]
  unfold windowEnd
  cases hlast : (splitLines old).getLast? with
  | none => exact .inr hstart
  | some last =>
    obtain ⟨front, hlines⟩ := List.getLast?_eq_some_iff.1 hlast
    by_cases hend : kept = 0 ∧ endsLine last = false
    · exact .inl ⟨hend.1, front, last, hlines, hend.2⟩
    · simp only [if_neg hend]
      exact .inr hstart

/-- The start of a window does not lie behind its end, in octets. -/
theorem offsets_windowEdit (hne : old ≠ new) :
    ((windowEdit (splitLines old) (splitLines new)).range.offsets old).2 =
      offsetAt old (windowEnd (splitLines old) (keptLines (splitLines old) (splitLines new))) := by
  have hstart := offsetAt_windowEdit_start old new hcount
  have hle := keptLines_le (splitLines old) (splitLines new)
  show max (offsetAt old (windowEnd (splitLines old) (keptLines _ _))) (offsetAt old _) = _
  apply Nat.max_eq_left
  rw [hstart]
  rcases windowEnd_cases old hcount (keptLines (splitLines old) (splitLines new)) with
    ⟨hkept, front, last, hlines, hopen⟩ | hstop
  · have hends : endsLine old = false := by
      rw [← endsLine_of_getLast?_splitLines old last (by simp [hlines]), hopen]
    have hnil : old ≠ [] := by
      rintro rfl
      simp [splitLines] at hlines
    have hlt := commonCount_lt_of_open old new hne hnil hends
    have hbehind := lt_offsetAt_windowEnd_of_open old hcount front last hlines hopen
    have hfront : (splitLines old).take front.length = front := by
      rw [hlines, List.take_left' rfl]
    have hlen := congrArg List.length hlines
    rw [List.length_append, List.length_singleton] at hlen
    have hmono := size_take_le (splitLines old)
      (commonCount (splitLines old) (splitLines new)) front.length (by omega)
    rw [hfront] at hmono
    rw [hkept]
    omega
  · rw [hstop]
    apply size_take_le
    omega

theorem linesAfter_windowEdit (hne : old ≠ new) :
    (windowEdit (splitLines old) (splitLines new)).linesAfter old =
      keptLines (splitLines old) (splitLines new) := by
  have hle := keptLines_le (splitLines old) (splitLines new)
  have hall := congrArg Utf8.size (flatten_splitLines old)
  rw [TextEdit.linesAfter, offsets_windowEdit old new hcount hne]
  rcases windowEnd_cases old hcount (keptLines (splitLines old) (splitLines new)) with
    ⟨hkept, front, last, hlines, hopen⟩ | hstop
  · have hbehind := lt_offsetAt_windowEnd_of_open old hcount front last hlines hopen
    have hpos := size_pos last (by
      apply ne_nil_of_mem_splitLines old
      simp [hlines])
    rw [hlines, List.flatten_append, List.flatten_singleton, size_append] at hall
    rw [hkept, hlines, List.reverse_append, List.reverse_singleton, List.singleton_append, ← hlines]
    apply linesWithin_of_lt
    omega
  · rw [hstop, ← hall]
    apply linesWithin_reverse
    · exact ne_nil_of_mem_splitLines old
    · omega

end Left

/-! ## The edit between two texts -/

/-- The edit between two texts has a window: it replaces the lines of the old text between the first
`p` and the last `s`. If the lines of the old text can be counted on the wire, these are the lines
that stand wholly before and wholly after what it replaces. The old text shares them with the new
one, given the line endings of the old one, and in no way do the two share ends of more lines. -/
theorem reconcile_keeps_most (old fixed : List Char) (edit : TextEdit)
    (h : reconcile old fixed = [edit]) (hcount : (splitLines old).length ≤ maxCount) :
    let oldLines := splitLines old
    let newLines := splitLines (LineEnding.adopt old fixed)
    ∃ p s,
      edit = ⟨⟨⟨p, 0⟩, windowEnd oldLines s⟩,
        String.ofList ((newLines.drop p).take (newLines.length - s - p)).flatten⟩ ∧
      edit.linesBefore old = p ∧ edit.linesAfter old = s ∧
      SharesEnds oldLines newLines p s ∧
      ∀ p' s', SharesEnds oldLines newLines p' s' → p' + s' ≤ p + s := by
  intro oldLines newLines
  rcases reconcile_cases old fixed with ⟨-, hnone⟩ | ⟨hne, hone⟩
  · rw [hnone] at h
    cases h
  · rw [hone] at h
    obtain rfl := List.singleton_inj.1 h
    have hle := commonCount_le_left oldLines newLines
    have hclamp : clampCount (commonCount oldLines newLines) = commonCount oldLines newLines :=
      clampCount_of_le _ (Nat.le_trans hle hcount)
    refine ⟨commonCount oldLines newLines, keptLines oldLines newLines, ?_, ?_, ?_, ?_, ?_⟩
    · show windowEdit oldLines newLines = _
      rw [windowEdit, hclamp]
      rfl
    · exact linesBefore_windowEdit old _ hcount
    · exact linesAfter_windowEdit old _ hcount fun hsame => hne hsame.symm
    · exact sharesEnds_windowEdit oldLines newLines
    · intro p s hshared
      exact add_le_of_sharesEnds oldLines newLines p s hshared

/-- A CR LF text with repeated lines, and a text with LF that has one of them less. They share
ends in two ways, of which the edit takes the better one. -/
theorem repeatedLines_keep_most :
    reconcile "a\r\nb\r\na\r\nb\r\n".toList "a\nb\nb\n".toList = [⟨⟨⟨2, 0⟩, ⟨3, 0⟩⟩, ""⟩] ∧
    SharesEnds (splitLines "a\r\nb\r\na\r\nb\r\n".toList)
      (splitLines "a\r\nb\r\nb\r\n".toList) 1 1 ∧
    SharesEnds (splitLines "a\r\nb\r\na\r\nb\r\n".toList)
      (splitLines "a\r\nb\r\nb\r\n".toList) 2 1 ∧
    ∀ p' s', SharesEnds (splitLines "a\r\nb\r\na\r\nb\r\n".toList)
      (splitLines "a\r\nb\r\nb\r\n".toList) p' s' → p' + s' ≤ 2 + 1 := by
  have hedit : reconcile "a\r\nb\r\na\r\nb\r\n".toList "a\nb\nb\n".toList =
      [⟨⟨⟨2, 0⟩, ⟨3, 0⟩⟩, ""⟩] := by decide
  refine ⟨hedit, by decide, by decide, ?_⟩
  obtain ⟨p, s, -, hbefore, hafter, -, hmost⟩ := reconcile_keeps_most _ _ _ hedit (by decide)
  have hp : p = 2 := by
    rw [← hbefore]
    decide
  have hs : s = 1 := by
    rw [← hafter]
    decide
  subst hp hs
  exact hmost

/-! ## Past the greatest count -/

theorem splitLines_replicate_append (n : Nat) (rest : List Char) :
    splitLines (List.replicate n '\n' ++ rest) = List.replicate n ['\n'] ++ splitLines rest := by
  induction n with
  | zero => rfl
  | succ n ih => simp [List.replicate_succ, splitLines, ih]

theorem splitLines_replicate (n : Nat) :
    splitLines (List.replicate n '\n') = List.replicate n ['\n'] := by
  have hsplit := splitLines_replicate_append n []
  rwa [List.append_nil, splitLines, List.append_nil] at hsplit

theorem commonCount_append {α : Type} [DecidableEq α] (front as bs : List α) :
    commonCount (front ++ as) (front ++ bs) = front.length + commonCount as bs := by
  induction front with
  | nil => simp
  | cons a front ih => simp [commonCount, ih, Nat.add_right_comm]

/-- Lines that are cut off a text leave an edit whose start is where they stood. -/
theorem windowEdit_of_start (front back : List (List Char)) :
    windowEdit (front ++ back) front =
      ⟨⟨⟨clampCount front.length, 0⟩, windowEnd (front ++ back) 0⟩, ""⟩ := by
  have hhead : commonCount (front ++ back) front = front.length := by
    have happend := commonCount_append front back []
    rw [List.append_nil] at happend
    rw [happend]
    cases back <;> rfl
  have htail : commonCount back.reverse [] = 0 := by cases back.reverse <;> rfl
  simp [windowEdit, hhead, htail]

theorem first?_replicate_append (n : Nat) (rest : List Char) (h : n ≠ 0) :
    LineEnding.first? (List.replicate n '\n' ++ rest) = some .lf := by
  obtain ⟨m, rfl⟩ := Nat.exists_eq_succ_of_ne_zero h
  rfl

/-- Lines that all end in LF stay as they are among such lines. -/
theorem adopt_replicate (m n : Nat) (h : n ≠ 0) :
    LineEnding.adopt (List.replicate (m + 1) '\n') (List.replicate n '\n') =
      List.replicate n '\n' := by
  have hfirst := first?_replicate_append n [] h
  rw [List.append_nil] at hfirst
  simp only [LineEnding.adopt, LineEnding.first?, hfirst, if_true, List.replicate_succ]

/-- Past the greatest count a position names an earlier line. The edit that is to cut the last one
off many empty lines cuts nothing off then. -/
theorem reconcile_replicate_past_count (n : Nat) (h : maxCount ≤ n) :
    reconcile (List.replicate (n + 1) '\n') (List.replicate n '\n') =
      [⟨⟨⟨maxCount, 0⟩, ⟨maxCount, 0⟩⟩, ""⟩] := by
  have hpos : 0 < maxCount := by decide
  have hclamp : ∀ m, maxCount ≤ m → clampCount m = maxCount := fun m hm => Nat.min_eq_right hm
  have hadopt := adopt_replicate n n (by omega)
  have hedit : windowEdit (List.replicate (n + 1) ['\n']) (List.replicate n ['\n']) =
      ⟨⟨⟨maxCount, 0⟩, ⟨maxCount, 0⟩⟩, ""⟩ := by
    rw [List.replicate_succ', windowEdit_of_start, List.length_replicate, hclamp n h]
    simp [windowEnd, endsLine, hclamp (n + 1) (by omega)]
  rcases reconcile_cases (List.replicate (n + 1) '\n') (List.replicate n '\n') with
    ⟨hsame, -⟩ | ⟨-, hone⟩
  · rw [hadopt] at hsame
    have hlength := congrArg List.length hsame
    simp only [List.length_replicate] at hlength
    omega
  · rw [hone, hadopt, splitLines_replicate, splitLines_replicate, hedit]

/-- Such an edit leaves all lines as they are, which are more than the new text has. -/
theorem lines_left_past_count (n : Nat) (h : maxCount ≤ n) :
    let old := List.replicate (n + 1) '\n'
    let new := List.replicate n '\n'
    (splitLines (LineEnding.adopt old new)).length = n ∧
    ∃ edit, reconcile old new = [edit] ∧ edit.linesBefore old + edit.linesAfter old = n + 1 := by
  intro old new
  have hpos : 0 < maxCount := by decide
  have hold : splitLines old = List.replicate (n + 1) ['\n'] := splitLines_replicate (n + 1)
  have hnew : splitLines new = List.replicate n ['\n'] := splitLines_replicate n
  have hoffset : offsetAt old ⟨maxCount, 0⟩ =
      Utf8.size ((splitLines old).take maxCount).flatten := by
    rw [offsetAt, textBefore_lineStart]
  have hlen : (splitLines old).length = n + 1 := by rw [hold, List.length_replicate]
  have hne := ne_nil_of_mem_splitLines old
  refine ⟨?_, _, reconcile_replicate_past_count n h, ?_⟩
  · rw [adopt_replicate n n (by omega), hnew, List.length_replicate]
  have hbefore := linesWithin_take (splitLines old) maxCount hne (by omega)
  have hafter := linesWithin_reverse (splitLines old) (n + 1 - maxCount) hne (by omega)
  have hkept : (splitLines old).length - (n + 1 - maxCount) = maxCount := by omega
  rw [flatten_splitLines, hkept] at hafter
  simp only [TextEdit.linesBefore, TextEdit.linesAfter, Range.offsets, hoffset, Nat.max_self,
    hbefore, hafter]
  omega

/-- One empty line too many to count is to lose one of them. The edit leaves all of them, while the
new text has one less. -/
theorem manyLines_left :
    let old := List.replicate 4294967296 '\n'
    let new := List.replicate 4294967295 '\n'
    ∃ edit, reconcile old new = [edit] ∧
      ¬ edit.linesBefore old + edit.linesAfter old ≤
        min (splitLines old).length (splitLines (LineEnding.adopt old new)).length := by
  intro old new
  obtain ⟨hlength, edit, hedit, hleft⟩ := lines_left_past_count 4294967295 (Nat.le_refl _)
  refine ⟨edit, hedit, fun hle => ?_⟩
  have hless : edit.linesBefore old + edit.linesAfter old ≤ 4294967295 :=
    Nat.le_trans hle (Nat.le_trans (Nat.min_le_right _ _) (Nat.le_of_eq hlength))
  rw [hleft] at hless
  exact absurd hless (by decide)

end LintBridge
