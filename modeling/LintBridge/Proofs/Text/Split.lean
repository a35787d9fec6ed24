import LintBridge.Text.Split

/-!
Runs of characters, and pieces of a text between separators.

A run that something else follows is taken as a whole (`takeWhile_run`, `dropWhile_run`).
The pieces of a text have no separator in them, and the text is as long as they are with the
separators between them (`length_flatten_splitAtChar`). Pieces that are put together with separators
and cut again are the same (`splitAtChar_joinWith`), and so is a text that is cut and put together
again (`joinWith_splitAtChar`).
-/

namespace LintBridge

/-! ## Runs -/

theorem takeWhile_run (p : Char → Bool) (run rest : List Char) (hrun : ∀ c ∈ run, p c = true)
    (hrest : ∀ c, rest.head? = some c → p c = false) : (run ++ rest).takeWhile p = run := by
  rw [List.takeWhile_append_of_pos hrun]
  cases rest with
  | nil => exact List.append_nil run
  | cons c rest =>
    rw [List.takeWhile_cons_of_neg (by rw [hrest c rfl]; exact Bool.false_ne_true), List.append_nil]

theorem dropWhile_run (p : Char → Bool) (run rest : List Char) (hrun : ∀ c ∈ run, p c = true)
    (hrest : ∀ c, rest.head? = some c → p c = false) : (run ++ rest).dropWhile p = rest := by
  rw [List.dropWhile_append_of_pos hrun]
  cases rest with
  | nil => rfl
  | cons c rest =>
    rw [List.dropWhile_cons_of_neg (by rw [hrest c rfl]; exact Bool.false_ne_true)]

/-- A run is taken up to a character that is not of its kind. -/
theorem head?_dropWhile (p : Char → Bool) (text : List Char) :
    ∀ c, (text.dropWhile p).head? = some c → p c = false := by
  intro c hc
  have hnot := List.head?_dropWhile_not p text
  rw [hc] at hnot
  exact hnot

theorem takeWhile_eq_nil_iff (p : Char → Bool) (text : List Char) :
    text.takeWhile p = [] ↔ ∀ c, text.head? = some c → p c = false := by
  rw [← List.head?_eq_none_iff, List.head?_takeWhile, Option.filter_eq_none_iff]
  simp

/-! ## Pieces -/

variable (separator : Char)

theorem splitAtChar_ne_nil (text : List Char) : splitAtChar separator text ≠ [] := by
  induction text with
  | nil => exact List.cons_ne_nil _ _
  | cons c rest ih =>
    rw [splitAtChar]
    split
    · exact List.cons_ne_nil _ _
    · split
      · exact List.cons_ne_nil _ _
      · exact List.cons_ne_nil _ _

theorem splitAtChar_separator (rest : List Char) :
    splitAtChar separator (separator :: rest) = [] :: splitAtChar separator rest := by
  simp [splitAtChar]

/-- A character that is no separator goes to the first piece. -/
theorem splitAtChar_cons {c : Char} (hc : c ≠ separator) (text : List Char) :
    ∃ piece pieces, splitAtChar separator text = piece :: pieces ∧
      splitAtChar separator (c :: text) = (c :: piece) :: pieces := by
  obtain ⟨piece, pieces, htext⟩ := List.exists_cons_of_ne_nil (splitAtChar_ne_nil separator text)
  refine ⟨piece, pieces, htext, ?_⟩
  rw [splitAtChar, if_neg hc, htext]

theorem splitAtChar_of_not_mem (text : List Char) (h : separator ∉ text) :
    splitAtChar separator text = [text] := by
  induction text with
  | nil => rfl
  | cons c rest ih =>
    have hc : c ≠ separator := fun hsame => h (hsame ▸ List.mem_cons_self)
    have hrest : separator ∉ rest := fun hmem => h (List.mem_cons_of_mem c hmem)
    simp [splitAtChar, hc, ih hrest]

/-- A text without separators before the first separator is the first piece. -/
theorem splitAtChar_append (piece rest : List Char) (h : separator ∉ piece) :
    splitAtChar separator (piece ++ separator :: rest) = piece :: splitAtChar separator rest := by
  induction piece with
  | nil => exact splitAtChar_separator separator rest
  | cons c piece ih =>
    have hc : c ≠ separator := fun hsame => h (hsame ▸ List.mem_cons_self)
    have hpiece : separator ∉ piece := fun hmem => h (List.mem_cons_of_mem c hmem)
    rw [List.cons_append, splitAtChar, if_neg hc, ih hpiece]

theorem not_mem_of_mem_splitAtChar (text : List Char) :
    ∀ piece ∈ splitAtChar separator text, separator ∉ piece := by
  induction text with
  | nil => simp [splitAtChar]
  | cons c rest ih =>
    by_cases hc : c = separator
    · rw [hc, splitAtChar_separator]
      intro piece hpiece
      rcases List.mem_cons.1 hpiece with rfl | hpiece
      · exact List.not_mem_nil
      · exact ih piece hpiece
    · obtain ⟨first, pieces, hrest, hcons⟩ := splitAtChar_cons separator hc rest
      rw [hrest] at ih
      rw [hcons]
      intro piece hpiece
      rcases List.mem_cons.1 hpiece with rfl | hpiece
      · intro hmem
        rcases List.mem_cons.1 hmem with hsame | hmem
        · exact hc hsame.symm
        · exact ih first List.mem_cons_self hmem
      · exact ih piece (List.mem_cons_of_mem _ hpiece)

theorem joinWith_cons (piece next : List Char) (rest : List (List Char)) :
    joinWith [separator] (piece :: next :: rest) =
      piece ++ separator :: joinWith [separator] (next :: rest) := by
  show piece ++ [separator] ++ joinWith [separator] (next :: rest) = _
  rw [List.append_assoc, List.singleton_append]

/-- A character of pieces that are put together is a separator or one of a piece. -/
theorem mem_joinWith {c : Char} (pieces : List (List Char))
    (h : c ∈ joinWith [separator] pieces) : c = separator ∨ ∃ piece ∈ pieces, c ∈ piece := by
  induction pieces with
  | nil => exact absurd h List.not_mem_nil
  | cons piece pieces ih =>
    cases pieces with
    | nil => exact .inr ⟨piece, List.mem_cons_self, h⟩
    | cons next rest =>
      rw [joinWith_cons] at h
      rcases List.mem_append.1 h with hpiece | hrest
      · exact .inr ⟨piece, List.mem_cons_self, hpiece⟩
      · rcases List.mem_cons.1 hrest with hsep | hlater
        · exact .inl hsep
        · refine (ih hlater).imp_right ?_
          rintro ⟨other, hother, hc⟩
          exact ⟨other, List.mem_cons_of_mem piece hother, hc⟩

/-- Pieces that are put together are cut at the same places again. -/
theorem splitAtChar_joinWith (pieces : List (List Char)) (hne : pieces ≠ [])
    (h : ∀ piece ∈ pieces, separator ∉ piece) :
    splitAtChar separator (joinWith [separator] pieces) = pieces := by
  induction pieces with
  | nil => exact absurd rfl hne
  | cons piece pieces ih =>
    obtain ⟨hpiece, hpieces⟩ := List.forall_mem_cons.1 h
    cases pieces with
    | nil => exact splitAtChar_of_not_mem separator piece hpiece
    | cons next rest =>
      have hrest := ih (List.cons_ne_nil _ _) hpieces
      rw [joinWith_cons, splitAtChar_append _ _ _ hpiece, hrest]

/-- The characters of a text are those of its pieces and the separators between them. -/
theorem length_flatten_splitAtChar (text : List Char) :
    (splitAtChar separator text).flatten.length + (splitAtChar separator text).length =
      text.length + 1 := by
  induction text with
  | nil => rfl
  | cons c rest ih =>
    by_cases hc : c = separator
    · rw [hc, splitAtChar_separator]
      simp only [List.flatten_cons, List.nil_append, List.length_cons]
      omega
    · obtain ⟨piece, pieces, hrest, hcons⟩ := splitAtChar_cons separator hc rest
      rw [hrest] at ih
      rw [hcons]
      simp only [List.flatten_cons, List.length_append, List.length_cons] at ih ⊢
      omega

theorem joinWith_splitAtChar (text : List Char) :
    joinWith [separator] (splitAtChar separator text) = text := by
  induction text with
  | nil => rfl
  | cons c rest ih =>
    by_cases hc : c = separator
    · have hne := splitAtChar_ne_nil separator rest
      obtain ⟨piece, pieces, hrest⟩ := List.exists_cons_of_ne_nil hne
      rw [hc, splitAtChar_separator, hrest, joinWith_cons, ← hrest, ih, List.nil_append]
    · obtain ⟨piece, pieces, hrest, hcons⟩ := splitAtChar_cons separator hc rest
      rw [hrest] at ih
      rw [hcons]
      cases pieces with
      | nil => exact congrArg (c :: ·) ih
      | cons next pieces =>
        rw [joinWith_cons] at ih ⊢
        rw [List.cons_append, ih]

/-- The pieces of a text are the ones it is put together from. -/
theorem splitAtChar_eq_iff (text : List Char) (pieces : List (List Char)) :
    splitAtChar separator text = pieces ↔
      text = joinWith [separator] pieces ∧ pieces ≠ [] ∧ ∀ piece ∈ pieces, separator ∉ piece := by
  constructor
  · rintro rfl
    exact ⟨(joinWith_splitAtChar separator text).symm, splitAtChar_ne_nil separator text,
      not_mem_of_mem_splitAtChar separator text⟩
  · rintro ⟨rfl, hne, hpieces⟩
    exact splitAtChar_joinWith separator pieces hne hpieces

end LintBridge
