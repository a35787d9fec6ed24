import LintBridge.Suppression
import LintBridge.Proofs.Text.Split

/-!
How a list of codes is read.

A rule code is large letters and then digits (`IsRuleCode`). Reading takes the longest run of
digits, so what follows a code can become part of it (`readCode?_append`). `allCodes` reads as far
as it can: the codes and what is left make up the text again (`codeChars_allCodes`), and a list that
is continued by more codes is read as both, the separation added to its last code
(`allCodes_codeChars`).
-/

namespace LintBridge.Suppression

/-- Large letters and then digits, at least one of each. -/
def IsRuleCode (code : List Char) : Prop :=
  ∃ letters digits, code = letters ++ digits ∧ letters ≠ [] ∧ digits ≠ [] ∧
    (∀ c ∈ letters, isLarge c = true) ∧ ∀ c ∈ digits, isDigit c = true

/-- A code as reading finds it: a rule code, and nothing but separators behind it. -/
structure ListedCode.Valid (c : ListedCode) : Prop where
  code : IsRuleCode c.code
  gap : ∀ x ∈ c.gap, isGap x = true

def allCodes (text : List Char) : List ListedCode × List Char := readCodes text.length text

/-- Codes with more to separate the last one from what comes. -/
def widen (gap : List Char) : List ListedCode → List ListedCode
  | [] => []
  | [c] => [⟨c.code, c.gap ++ gap⟩]
  | c :: d :: codes => c :: widen gap (d :: codes)

/-! ## Characters -/

theorem toNat_of_isLarge (c : Char) (h : isLarge c = true) : 65 ≤ c.toNat ∧ c.toNat ≤ 90 := by
  obtain ⟨hlow, hhigh⟩ := of_decide_eq_true h
  exact ⟨UInt32.le_iff_toNat_le.1 hlow, UInt32.le_iff_toNat_le.1 hhigh⟩

theorem toNat_of_isDigit (c : Char) (h : isDigit c = true) : 48 ≤ c.toNat ∧ c.toNat ≤ 57 := by
  obtain ⟨hlow, hhigh⟩ := of_decide_eq_true h
  exact ⟨UInt32.le_iff_toNat_le.1 hlow, UInt32.le_iff_toNat_le.1 hhigh⟩

/-- No separator lies among the digits and the large letters. -/
theorem toNat_of_isGap (c : Char) (h : isGap c = true) : c.toNat < 48 ∨ 90 < c.toNat := by
  rcases Bool.or_eq_true_iff.1 h with hcomma | hblank
  · obtain rfl := beq_iff_eq.1 hcomma
    exact .inl (by decide)
  · simp only [isBlank, inRanges, blankRanges, List.any_cons, List.any_nil, Bool.or_eq_true,
      decide_eq_true_eq, Bool.false_eq_true, or_false] at hblank
    omega

theorem isDigit_eq_false_of_isLarge (c : Char) (h : isLarge c = true) : isDigit c = false := by
  have hlarge := toNat_of_isLarge c h
  refine Bool.eq_false_iff.2 fun hdigit => ?_
  have := toNat_of_isDigit c hdigit
  omega

theorem isLarge_eq_false_of_isDigit (c : Char) (h : isDigit c = true) : isLarge c = false :=
  Bool.eq_false_iff.2 fun hlarge => by rw [isDigit_eq_false_of_isLarge c hlarge] at h; cases h

theorem isDigit_eq_false_of_isGap (c : Char) (h : isGap c = true) : isDigit c = false := by
  have hgap := toNat_of_isGap c h
  refine Bool.eq_false_iff.2 fun hdigit => ?_
  have := toNat_of_isDigit c hdigit
  omega

theorem isGap_eq_false_of_isLarge (c : Char) (h : isLarge c = true) : isGap c = false := by
  have hlarge := toNat_of_isLarge c h
  refine Bool.eq_false_iff.2 fun hgap => ?_
  have := toNat_of_isGap c hgap
  omega

theorem IsRuleCode.exists_cons {code : List Char} (h : IsRuleCode code) :
    ∃ c rest, code = c :: rest ∧ isLarge c = true := by
  obtain ⟨letters, digits, rfl, hne, -, hlarge, -⟩ := h
  obtain ⟨c, letters, rfl⟩ := List.exists_cons_of_ne_nil hne
  exact ⟨c, letters ++ digits, rfl, hlarge c List.mem_cons_self⟩

/-! ## One code -/

theorem readCode?_append (code rest : List Char) (h : IsRuleCode code) :
    readCode? (code ++ rest) = some
      (⟨code ++ rest.takeWhile isDigit, (rest.dropWhile isDigit).takeWhile isGap⟩,
        (rest.dropWhile isDigit).dropWhile isGap) := by
  obtain ⟨letters, digits, rfl, hletters, hdigits, hlarge, hdigit⟩ := h
  have hend : ∀ c, (digits ++ rest).head? = some c → isLarge c = false := by
    obtain ⟨d, digits, rfl⟩ := List.exists_cons_of_ne_nil hdigits
    rintro c ⟨⟩
    exact isLarge_eq_false_of_isDigit d (hdigit d List.mem_cons_self)
  have hne : ¬ (letters = [] ∨ digits ++ rest.takeWhile isDigit = []) := by
    simp [hletters, hdigits]
  rw [List.append_assoc, readCode?, takeWhile_run isLarge letters _ hlarge hend,
    dropWhile_run isLarge letters _ hlarge hend, List.takeWhile_append_of_pos hdigit,
    List.dropWhile_append_of_pos hdigit, if_neg hne, List.append_assoc]

/-- No digit follows a code in front of a large letter. -/
theorem ListedCode.Valid.head?_gap {c : ListedCode} (hc : c.Valid) {text : List Char}
    (htext : ∀ x, text.head? = some x → isLarge x = true) :
    ∀ x, (c.gap ++ text).head? = some x → isDigit x = false := by
  intro x hx
  cases hgap : c.gap with
  | nil =>
    rw [hgap] at hx
    exact isDigit_eq_false_of_isLarge x (htext x hx)
  | cons y gap =>
    rw [hgap] at hx
    obtain rfl := Option.some.inj hx
    exact isDigit_eq_false_of_isGap y (hc.gap y (hgap ▸ List.mem_cons_self))

theorem readCode?_valid (c : ListedCode) (text : List Char) (hc : c.Valid)
    (htext : ∀ x, text.head? = some x → isLarge x = true) :
    readCode? (c.code ++ (c.gap ++ text)) = some (c, text) := by
  have hhead := hc.head?_gap htext
  have htake : (c.gap ++ text).takeWhile isDigit = [] := takeWhile_run isDigit [] _ (by simp) hhead
  have hdrop : (c.gap ++ text).dropWhile isDigit = c.gap ++ text :=
    dropWhile_run isDigit [] _ (by simp) hhead
  have hgap : ∀ x, text.head? = some x → isGap x = false := fun x hx =>
    isGap_eq_false_of_isLarge x (htext x hx)
  rw [readCode?_append c.code _ hc.code, htake, hdrop, takeWhile_run isGap _ _ hc.gap hgap,
    dropWhile_run isGap _ _ hc.gap hgap, List.append_nil]

theorem eq_append_of_readCode? (text rest : List Char) (c : ListedCode)
    (h : readCode? text = some (c, rest)) : c.Valid ∧ text = c.code ++ (c.gap ++ rest) := by
  rw [readCode?] at h
  split at h
  · cases h
  · next hne =>
    obtain ⟨hletters, hdigits⟩ := not_or.1 hne
    cases h
    refine ⟨⟨⟨_, _, rfl, hletters, hdigits, ?_, ?_⟩, ?_⟩, ?_⟩
    · exact List.all_eq_true.1 List.all_takeWhile
    · exact List.all_eq_true.1 List.all_takeWhile
    · exact List.all_eq_true.1 List.all_takeWhile
    · rw [List.takeWhile_append_dropWhile, List.append_assoc, List.takeWhile_append_dropWhile,
        List.takeWhile_append_dropWhile]

theorem length_lt_of_readCode? (text rest : List Char) (c : ListedCode)
    (h : readCode? text = some (c, rest)) : rest.length < text.length := by
  obtain ⟨hc, rfl⟩ := eq_append_of_readCode? text rest c h
  obtain ⟨x, code, hcode, -⟩ := hc.code.exists_cons
  rw [hcode, List.length_append, List.length_append, List.length_cons]
  omega

/-! ## All codes -/

/-- Any bound that reaches the length of the text reads the same. -/
theorem readCodes_eq (n m : Nat) (text : List Char) (hn : text.length ≤ n)
    (hm : text.length ≤ m) : readCodes n text = readCodes m text := by
  induction n generalizing m text with
  | zero =>
    obtain rfl := List.length_eq_zero_iff.1 (Nat.le_zero.1 hn)
    cases m <;> rfl
  | succ n ih =>
    cases m with
    | zero =>
      obtain rfl := List.length_eq_zero_iff.1 (Nat.le_zero.1 hm)
      rfl
    | succ m =>
      rw [readCodes, readCodes]
      cases hread : readCode? text with
      | none => rfl
      | some found =>
        obtain ⟨c, rest⟩ := found
        have hlt := length_lt_of_readCode? text rest c hread
        simp only [ih m rest (by omega) (by omega)]

theorem allCodes_of_none (text : List Char) (h : readCode? text = none) :
    allCodes text = ([], text) := by
  rw [allCodes]
  cases text with
  | nil => rfl
  | cons c text => rw [List.length_cons, readCodes, h]

theorem allCodes_of_some (text rest : List Char) (c : ListedCode)
    (h : readCode? text = some (c, rest)) :
    allCodes text = (c :: (allCodes rest).1, (allCodes rest).2) := by
  have hlt := length_lt_of_readCode? text rest c h
  rw [allCodes, readCodes_eq text.length (text.length + 1) text (by omega) (by omega), readCodes, h,
    allCodes]
  simp only [readCodes_eq text.length rest.length rest (by omega) (by omega)]

theorem codeChars_cons (c : ListedCode) (codes : List ListedCode) :
    codeChars (c :: codes) = c.code ++ (c.gap ++ codeChars codes) := List.append_assoc ..

/-- What is read and what is left make up the text. -/
theorem codeChars_allCodes (text : List Char) :
    codeChars (allCodes text).1 ++ (allCodes text).2 = text := by
  generalize hn : text.length = n
  induction n using Nat.strongRecOn generalizing text with
  | ind n ih =>
    cases hread : readCode? text with
    | none => rw [allCodes_of_none text hread]; rfl
    | some found =>
      obtain ⟨c, rest⟩ := found
      have hlt := length_lt_of_readCode? text rest c hread
      have hrest := ih rest.length (hn ▸ hlt) rest rfl
      rw [allCodes_of_some text rest c hread, codeChars_cons, List.append_assoc, List.append_assoc,
        hrest, (eq_append_of_readCode? text rest c hread).2]

theorem valid_of_mem_allCodes (text : List Char) : ∀ c ∈ (allCodes text).1, c.Valid := by
  generalize hn : text.length = n
  induction n using Nat.strongRecOn generalizing text with
  | ind n ih =>
    cases hread : readCode? text with
    | none => rw [allCodes_of_none text hread]; exact fun _ h => absurd h List.not_mem_nil
    | some found =>
      obtain ⟨c, rest⟩ := found
      have hlt := length_lt_of_readCode? text rest c hread
      rw [allCodes_of_some text rest c hread]
      refine List.forall_mem_cons.2 ⟨(eq_append_of_readCode? text rest c hread).1, ?_⟩
      exact ih rest.length (hn ▸ hlt) rest rfl

/-- A rule code is read with the digits that follow it, and then what comes. -/
theorem allCodes_append (code rest : List Char) (h : IsRuleCode code) :
    allCodes (code ++ rest) =
      (⟨code ++ rest.takeWhile isDigit, (rest.dropWhile isDigit).takeWhile isGap⟩ ::
        (allCodes ((rest.dropWhile isDigit).dropWhile isGap)).1,
        (allCodes ((rest.dropWhile isDigit).dropWhile isGap)).2) :=
  allCodes_of_some _ _ _ (readCode?_append code rest h)

/-- A text in which a code is read starts with a large letter. -/
theorem head?_of_allCodes (text : List Char) (h : (allCodes text).1 ≠ []) :
    ∃ c rest, text = c :: rest ∧ isLarge c = true := by
  cases hread : readCode? text with
  | none => rw [allCodes_of_none text hread] at h; exact absurd rfl h
  | some found =>
    obtain ⟨c, rest⟩ := found
    obtain ⟨hc, rfl⟩ := eq_append_of_readCode? text rest c hread
    obtain ⟨x, code, hcode, hx⟩ := hc.code.exists_cons
    exact ⟨x, code ++ (c.gap ++ rest), by rw [hcode, List.cons_append], hx⟩

/-! ## A list that goes on -/

theorem map_code_widen (gap : List Char) (codes : List ListedCode) :
    (widen gap codes).map ListedCode.code = codes.map ListedCode.code := by
  fun_induction widen gap codes with
  | case1 => rfl
  | case2 c => rfl
  | case3 c d codes ih => exact congrArg (c.code :: ·) ih

/-- Codes that more codes follow are read as they are, but for the last gap. -/
theorem allCodes_codeChars (codes : List ListedCode) (gap text : List Char)
    (hne : codes ≠ []) (hvalid : ∀ c ∈ codes, c.Valid) (hgap : ∀ x ∈ gap, isGap x = true)
    (htext : (allCodes text).1 ≠ []) :
    allCodes (codeChars codes ++ (gap ++ text)) =
      (widen gap codes ++ (allCodes text).1, (allCodes text).2) := by
  fun_induction widen gap codes with
  | case1 => exact absurd rfl hne
  | case2 c =>
    obtain ⟨x, rest, hx, hxlarge⟩ := head?_of_allCodes text htext
    have hc := hvalid c List.mem_cons_self
    have hread := readCode?_valid ⟨c.code, c.gap ++ gap⟩ text
      ⟨hc.code, fun y hy => (List.mem_append.1 hy).elim (hc.gap y) (hgap y)⟩
      (by rw [hx]; rintro y ⟨⟩; exact hxlarge)
    rw [codeChars_cons, show codeChars [] = [] from rfl, List.append_nil, List.append_assoc,
      ← List.append_assoc c.gap, allCodes_of_some _ _ _ hread]
    rfl
  | case3 c d codes ih =>
    have hd := hvalid d (List.mem_cons_of_mem c List.mem_cons_self)
    obtain ⟨x, rest, hx, hxlarge⟩ := hd.code.exists_cons
    have hread := readCode?_valid c (codeChars (d :: codes) ++ (gap ++ text))
      (hvalid c List.mem_cons_self)
      (by rw [codeChars_cons, hx]; rintro y ⟨⟩; exact hxlarge)
    rw [codeChars_cons, List.append_assoc, List.append_assoc, allCodes_of_some _ _ _ hread,
      ih (List.cons_ne_nil d codes) fun c hc => hvalid c (List.mem_cons_of_mem _ hc)]
    rfl

/-! ## The list after a colon -/

/-- A colon, perhaps with one blank behind it. -/
def IsColon (colon : List Char) : Prop :=
  ∃ blank, colon = ':' :: blank ∧ blank.length ≤ 1 ∧ ∀ b ∈ blank, isBlank b = true

theorem filter_take_blank (text : List Char) :
    ((text.take 1).filter isBlank).length ≤ 1 ∧
      (text.take 1).filter isBlank ++ text.drop ((text.take 1).filter isBlank).length = text := by
  cases text with
  | nil => exact ⟨Nat.zero_le 1, rfl⟩
  | cons c text => cases hc : isBlank c <;> simp [hc]

theorem filter_take_append (blank text : List Char) (hlength : blank.length ≤ 1)
    (hblank : ∀ b ∈ blank, isBlank b = true)
    (htext : ∀ c, text.head? = some c → isBlank c = false) :
    ((blank ++ text).take 1).filter isBlank = blank := by
  match blank, hlength with
  | [], _ =>
    cases text with
    | nil => rfl
    | cons c text => simp [htext c rfl]
  | [b], _ => simp [hblank b List.mem_cons_self]

theorem readList?_append (colon text : List Char) (hcolon : IsColon colon)
    (htext : (allCodes text).1 ≠ []) :
    readList? (colon ++ text) = some (colon, (allCodes text).1, (allCodes text).2) := by
  obtain ⟨blank, rfl, hlength, hblank⟩ := hcolon
  have hhead : ∀ c, text.head? = some c → isBlank c = false := by
    obtain ⟨x, rest, rfl, hlarge⟩ := head?_of_allCodes text htext
    rintro c ⟨⟩
    exact (Bool.or_eq_false_iff.1 (isGap_eq_false_of_isLarge x hlarge)).2
  have hread : readCodes (blank ++ text).length text = allCodes text :=
    readCodes_eq _ _ text (by rw [List.length_append]; omega) (Nat.le_refl _)
  rw [List.cons_append, readList?]
  -- By `htext` the reader does not take the branch of an empty list.
  simp only [filter_take_append blank text hlength hblank hhead, List.drop_left, hread]

theorem exists_of_readList? (text colon after : List Char) (codes : List ListedCode)
    (h : readList? text = some (colon, codes, after)) :
    IsColon colon ∧ codes ≠ [] ∧ ∃ body, text = colon ++ body ∧ allCodes body = (codes, after) := by
  unfold readList? at h
  split at h
  · next rest =>
    obtain ⟨hlength, happend⟩ := filter_take_blank rest
    simp only at h
    split at h
    · cases h
    · next hfound hread =>
      cases h
      refine ⟨⟨_, rfl, hlength, fun b hb => (List.mem_filter.1 hb).2⟩, hfound, _,
        congrArg (':' :: ·) happend.symm, ?_⟩
      rw [allCodes, ← hread]
      exact readCodes_eq _ _ _ (Nat.le_refl _) (by rw [List.length_drop]; omega)
  · cases h

end LintBridge.Suppression
