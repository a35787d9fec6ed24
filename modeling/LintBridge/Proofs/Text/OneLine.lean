import LintBridge.Proofs.Text.Reconcile

/-!
One line of a text given another content.

`IsLines` says which lists are the lines of a text, and `splitLines_flatten` that they are read back
as they are. A line may be given any content that breaks no line and is not empty (`IsLines.set`):
the terminators stay where they are, and none of them meets the new content.

* `applyEdits?_line`: an edit from the start of a line to the end of its content changes that line
  and no other, and keeps its terminator.
-/

namespace LintBridge

/-! ## Lists of lines -/

/-- The lines of a text: each but the last one ends in a terminator, which does not meet what
follows, and the last one may do without. -/
inductive IsLines : List (List Char) → Prop
  | nil : IsLines []
  | last (content : List Char) : content ≠ [] → Unbroken content → IsLines [content]
  | line (content : List Char) (e : LineEnding) (rest : List (List Char)) : Unbroken content →
      ¬ Meets e.chars rest.flatten → IsLines rest → IsLines ((content ++ e.chars) :: rest)

theorem isLines_splitLines (text : List Char) : IsLines (splitLines text) := by
  induction text using lines_induction with
  | nil => exact .nil
  | last content hne hc =>
    rw [splitLines_unterminated content hne hc]
    exact .last content hne hc
  | line content e rest hc hm ih =>
    rw [splitLines_line_append content rest e hc hm]
    apply IsLines.line content e (splitLines rest) hc _ ih
    rwa [flatten_splitLines]

theorem splitLines_flatten (lines : List (List Char)) (h : IsLines lines) :
    splitLines lines.flatten = lines := by
  induction h with
  | nil => rfl
  | last content hne hc =>
    rw [List.flatten_singleton]
    exact splitLines_unterminated content hne hc
  | line content e rest hc hm _ ih =>
    rw [List.flatten_cons, List.append_assoc, splitLines_line_append content _ e hc hm, ih]

/-! ## The end of a line -/

/-- What may follow the content of a line: a terminator, or nothing. -/
def IsEnding (ending : List Char) : Prop := ending = [] ∨ ∃ e : LineEnding, ending = e.chars

theorem exists_ending (lines : List (List Char)) (h : IsLines lines) (line : List Char)
    (hline : line ∈ lines) :
    ∃ ending, line = stripTerminator line ++ ending ∧ Unbroken (stripTerminator line) ∧
      IsEnding ending := by
  induction h with
  | nil => cases hline
  | last content _ hc =>
    obtain rfl := List.mem_singleton.1 hline
    rw [stripTerminator_of_not_endsLine line (endsLine_of_unbroken line hc)]
    exact ⟨[], (List.append_nil line).symm, hc, .inl rfl⟩
  | line content e rest hc _ _ ih =>
    rcases List.mem_cons.1 hline with rfl | hrest
    · rw [stripTerminator_append_chars content e (not_meets_of_unbroken content _ hc)]
      exact ⟨e.chars, rfl, hc, .inr ⟨e, rfl⟩⟩
    · exact ih hrest

theorem exists_of_lineAt? (text line : List Char) (n : Nat) (h : lineAt? text n = some line) :
    ∃ ending, (splitLines text)[n]? = some (line ++ ending) ∧
      stripTerminator (line ++ ending) = line ∧ Unbroken line ∧ IsEnding ending := by
  obtain ⟨raw, hraw, rfl⟩ := Option.map_eq_some_iff.1 h
  obtain ⟨ending, hending, hcontent, hkind⟩ :=
    exists_ending (splitLines text) (isLines_splitLines text) raw (List.mem_of_getElem? hraw)
  refine ⟨ending, ?_, ?_, hcontent, hkind⟩
  · rw [← hending, hraw]
  · rw [← hending]

theorem unbroken_append (a b : List Char) : Unbroken (a ++ b) ↔ Unbroken a ∧ Unbroken b := by
  simp [Unbroken, or_imp, forall_and]

theorem not_unbroken_chars (e : LineEnding) : ¬ Unbroken e.chars := by
  cases e <;> simp [Unbroken, LineEnding.chars, isTerminatorChar]

theorem ending_unique (content line ending : List Char) (e : LineEnding) (hc : Unbroken content)
    (hl : Unbroken line) (hending : IsEnding ending) (h : content ++ e.chars = line ++ ending) :
    line = content ∧ ending = e.chars := by
  rcases hending with rfl | ⟨f, rfl⟩
  · rw [List.append_nil] at h
    rw [← h, unbroken_append] at hl
    exact absurd hl.2 (not_unbroken_chars e)
  · have hcontent := stripTerminator_append_chars content e (not_meets_of_unbroken content _ hc)
    have hline := stripTerminator_append_chars line f (not_meets_of_unbroken line _ hl)
    obtain rfl : line = content := by rw [← hline, ← h, hcontent]
    exact ⟨rfl, (List.append_cancel_left h).symm⟩

/-! ## Another content -/

/-- A line whose content does not start with LF makes no terminator meet what follows it. -/
theorem head?_flatten_set (lines : List (List Char)) (h : IsLines lines) (n : Nat)
    (new ending : List Char) (hnew : Unbroken new) (hne : new ≠ [])
    (hlf : (lines.set n (new ++ ending)).flatten.head? = some '\n') :
    lines.flatten.head? = some '\n' := by
  have hhead : ∀ (first : List Char) (rest : List (List Char)), first ≠ [] →
      (first :: rest).flatten.head? = first.head? := by
    intro first rest hfirst
    cases first with
    | nil => exact absurd rfl hfirst
    | cons c first => rfl
  cases lines with
  | nil => exact hlf
  | cons first rest =>
    have hfirst : first ≠ [] := by
      apply ne_nil_of_mem_splitLines (first :: rest).flatten
      rw [splitLines_flatten _ h]
      exact List.mem_cons_self
    cases n with
    | zero =>
      rw [List.set_cons_zero, hhead _ _ (List.append_ne_nil_of_left_ne_nil hne ending)] at hlf
      cases new with
      | nil => exact absurd rfl hne
      | cons c new =>
        obtain rfl := Option.some.inj hlf
        exact absurd (hnew '\n' List.mem_cons_self) (by decide)
    | succ n =>
      rw [List.set_cons_succ, hhead _ _ hfirst] at hlf
      rw [hhead _ _ hfirst, hlf]

/-- A line may be given another content. -/
theorem IsLines.set (lines : List (List Char)) (h : IsLines lines) (n : Nat)
    (line ending new : List Char) (hline : lines[n]? = some (line ++ ending)) (hl : Unbroken line)
    (hending : IsEnding ending) (hnew : Unbroken new) (hne : new ≠ []) :
    IsLines (lines.set n (new ++ ending)) := by
  induction h generalizing n with
  | nil => exact .nil
  | last content _ hc =>
    cases n with
    | zero =>
      have hsame := Option.some.inj hline
      rcases hending with rfl | ⟨e, rfl⟩
      · rw [List.append_nil]
        exact .last new hne hnew
      · rw [hsame, unbroken_append] at hc
        exact absurd hc.2 (not_unbroken_chars e)
    | succ n => simp at hline
  | line content e rest hc hm hrest ih =>
    cases n with
    | zero =>
      obtain ⟨-, rfl⟩ := ending_unique content line ending e hc hl hending (Option.some.inj hline)
      exact .line new e rest hnew hm hrest
    | succ n =>
      rw [List.set_cons_succ]
      apply IsLines.line content e _ hc _ (ih n hline)
      rintro ⟨hcr, hlf⟩
      exact hm ⟨hcr, head?_flatten_set rest hrest n new ending hnew hne hlf⟩

/-! ## The edit of a line -/

theorem textBefore_lineEnd (text raw : List Char) (n : Nat) (h : (splitLines text)[n]? = some raw) :
    textBefore text ⟨n, utf16Size (stripTerminator raw)⟩ =
      ((splitLines text).take n).flatten ++ stripTerminator raw := by
  have hall := takeUnits_append (stripTerminator raw) []
  rw [List.append_nil] at hall
  simp only [textBefore, h, hall]

/-- An edit of the content of a line changes this line and no other, and keeps its terminator. -/
theorem applyEdits?_line (text line : List Char) (n : Nat) (new : String) (hfits : Fits text)
    (hline : lineAt? text n = some line) (hnew : Unbroken new.toList) (hne : new.toList ≠ []) :
    ∃ ending result, (splitLines text)[n]? = some (line ++ ending) ∧ IsEnding ending ∧
      applyEdits? text [⟨⟨⟨n, 0⟩, ⟨n, utf16Count line⟩⟩, new⟩] = some result ∧
      splitLines result = (splitLines text).set n (new.toList ++ ending) := by
  obtain ⟨ending, hplace, hstrip, hcontent, hkind⟩ := exists_of_lineAt? text line n hline
  obtain ⟨hlt, hget⟩ := List.getElem?_eq_some_iff.1 hplace
  have hunits := hfits.2 _ (List.mem_of_getElem? hplace)
  rw [hstrip] at hunits
  have hcut : (splitLines text).take n ++ (line ++ ending) :: (splitLines text).drop (n + 1) =
      splitLines text := by
    rw [← hget, List.getElem_cons_drop, List.take_append_drop]
  have htext : text = ((splitLines text).take n).flatten ++ (line ++
      (ending ++ ((splitLines text).drop (n + 1)).flatten)) := by
    have hflat := congrArg List.flatten hcut
    rw [flatten_splitLines, List.flatten_append, List.flatten_cons, List.append_assoc] at hflat
    exact hflat.symm
  have hstop : textBefore text ⟨n, utf16Count line⟩ =
      ((splitLines text).take n).flatten ++ line := by
    have hend := textBefore_lineEnd text _ n hplace
    rw [hstrip] at hend
    rw [utf16Count, clampCount_of_le _ (by omega), hend]
  have hcounted : Counted text ⟨n, utf16Count line⟩ := by
    apply counted_of_lt
    exact Nat.lt_of_le_of_lt (Nat.min_le_left _ _) hunits
  have happly := applyEdits?_singleton text _ _ _ ⟨⟨⟨n, 0⟩, ⟨n, utf16Count line⟩⟩, new⟩
    ⟨counted_lineStart text n, hcounted⟩ htext (textBefore_lineStart text n) hstop
  have hset : ((splitLines text).set n (new.toList ++ ending)).flatten =
      ((splitLines text).take n).flatten ++ new.toList ++
        (ending ++ ((splitLines text).drop (n + 1)).flatten) := by
    rw [List.set_eq_take_append_cons_drop, if_pos hlt, List.flatten_append, List.flatten_cons]
    simp only [List.append_assoc]
  refine ⟨ending, _, hplace, hkind, happly, ?_⟩
  rw [← hset]
  apply splitLines_flatten
  exact (isLines_splitLines text).set _ n line ending _ hplace hcontent hkind hnew hne

end LintBridge
