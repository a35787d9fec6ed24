import LintBridge.Proofs.Text.Lines

/-!
A text with other line endings.

`LineEnding.replaceAll` compares characters and knows no lines, so it may tear a CR LF apart or put
a CR and an LF side by side. `LineEnding.torn` is the piece of text at which that happens.

* `replaceAll_append`: two texts may be rewritten one by one where no terminator lies across;
* `bareLines_replaceAll`: without a torn piece the lines are the same, but for their terminators;
* `length_bareLines_replaceAll_ne`: with one their number is another;
* `adopt_keeps_lines_iff`: hence a text that is given the endings of another one keeps its lines
  exactly when no piece of it is torn, and the characters between terminators stay in any case.
-/

namespace LintBridge

def bareLines (text : List Char) : List (List Char) := (splitLines text).map stripTerminator

def isContent (c : Char) : Bool := !isTerminatorChar c

/-! ## Bare lines -/

theorem bareLines_line (content rest : List Char) (e : LineEnding) (hc : Unbroken content)
    (h : ¬ Meets e.chars rest) :
    bareLines (content ++ (e.chars ++ rest)) = content :: bareLines rest := by
  have hstrip := stripTerminator_append_chars content e (not_meets_of_unbroken content _ hc)
  rw [bareLines, splitLines_line_append content rest e hc h, List.map_cons, hstrip, bareLines]

theorem length_bareLines_cr_lf (content rest : List Char) (hc : Unbroken content) :
    (bareLines (content ++ '\r' :: '\n' :: rest)).length = (bareLines ('\n' :: rest)).length := by
  have hjoined := bareLines_line content rest .crLf hc (by simp [Meets, LineEnding.chars])
  have hfirst := bareLines_line [] rest .lf unbroken_nil (by simp [Meets, LineEnding.chars])
  simp only [LineEnding.chars, List.cons_append, List.nil_append] at hjoined hfirst
  rw [hjoined, hfirst, List.length_cons, List.length_cons]

/-- A terminator in front of a text adds a line, unless it joins the terminator that is there. -/
theorem length_bareLines_line (content rest : List Char) (e : LineEnding) (hc : Unbroken content) :
    (bareLines (content ++ (e.chars ++ rest))).length =
      (bareLines rest).length + if Meets e.chars rest then 0 else 1 := by
  by_cases hm : Meets e.chars rest
  · rw [if_pos hm, Nat.add_zero]
    obtain ⟨hcr, hlf⟩ := hm
    obtain ⟨more, rfl⟩ : ∃ more, rest = '\n' :: more := by
      cases rest with
      | nil => cases hlf
      | cons c more => exact ⟨more, by rw [Option.some.inj hlf]⟩
    cases e with
    | lf => cases hcr
    | crLf => cases hcr
    | cr => exact length_bareLines_cr_lf content more hc
  · rw [bareLines_line content rest e hc hm, if_neg hm, List.length_cons]

namespace LineEnding

/-! ## The first terminator -/

theorem first?_unbroken_append (content rest : List Char) (h : Unbroken content) :
    first? (content ++ rest) = first? rest := by
  induction content with
  | nil => rfl
  | cons c content ih =>
    obtain ⟨hc, hcontent⟩ := (unbroken_cons c content).1 h
    have hne : c ≠ '\n' ∧ c ≠ '\r' := by simpa [isTerminatorChar] using hc
    rw [List.cons_append, first?.eq_5 c _ (fun _ h _ => hne.2 h) hne.2 hne.1, ih hcontent]

theorem first?_unbroken (content : List Char) (h : Unbroken content) : first? content = none := by
  have happend := first?_unbroken_append content [] h
  rwa [List.append_nil] at happend

theorem first?_line (content rest : List Char) (e : LineEnding) (hc : Unbroken content)
    (h : ¬ Meets e.chars rest) : first? (content ++ (e.chars ++ rest)) = some e := by
  rw [first?_unbroken_append content _ hc]
  cases e with
  | lf => rfl
  | crLf => rfl
  | cr =>
    have hr : ∀ more, rest = '\n' :: more → False := fun more hmore => h ⟨rfl, by rw [hmore]; rfl⟩
    exact first?.eq_3 rest hr

/-- The first terminator stays the first one when more text follows. -/
theorem first?_append_of_some (before after : List Char) (e : LineEnding)
    (h : ¬ Meets before after) (hb : first? before = some e) :
    first? (before ++ after) = some e := by
  induction before using lines_induction with
  | nil => cases hb
  | last content _ hc =>
    rw [first?_unbroken content hc] at hb
    cases hb
  | line content other rest hc hm _ =>
    obtain ⟨hline, -⟩ := not_meets_of_line content rest after other hm h
    rw [first?_line content rest other hc hm] at hb
    rw [List.append_assoc, List.append_assoc, first?_line content _ other hc hline, hb]

theorem unbroken_of_first?_eq_none (text : List Char) (h : first? text = none) : Unbroken text := by
  induction text using lines_induction with
  | nil => exact unbroken_nil
  | last content _ hc => exact hc
  | line content e rest hc hm _ =>
    rw [first?_line content rest e hc hm] at h
    cases h

/-! ## Replacing -/

section Replacing

variable (old new : LineEnding)

theorem replaceAll_unbroken_append (content rest : List Char) (h : Unbroken content) :
    replaceAll old new (content ++ rest) = content ++ replaceAll old new rest := by
  induction content with
  | nil => rfl
  | cons c content ih =>
    obtain ⟨hc, hcontent⟩ := (unbroken_cons c content).1 h
    have hne : c ≠ '\n' ∧ c ≠ '\r' := by simpa [isTerminatorChar] using hc
    rw [List.cons_append, replaceAll.eq_7 old new c _ (fun _ h _ => hne.2 h) hne.2 hne.1,
      ih hcontent, List.cons_append]

theorem replaceAll_unbroken (content : List Char) (h : Unbroken content) :
    replaceAll old new content = content := by
  have happend := replaceAll_unbroken_append old new content [] h
  rwa [replaceAll, List.append_nil] at happend

theorem replaceAll_cr (rest : List Char) (h : rest.head? ≠ some '\n') :
    replaceAll old new ('\r' :: rest) =
      (if old = .cr then new.chars else ['\r']) ++ replaceAll old new rest :=
  replaceAll.eq_5 old new rest fun more hmore => h (by rw [hmore]; rfl)

theorem replaceAll_terminator_append (e : LineEnding) (rest : List Char)
    (h : ¬ Meets e.chars rest) :
    replaceAll old new (e.chars ++ rest) =
      replaceAll old new e.chars ++ replaceAll old new rest := by
  cases e with
  | lf => simp [chars, replaceAll]
  | crLf => cases old <;> simp [chars, replaceAll]
  | cr =>
    have hr : rest.head? ≠ some '\n' := fun hr => h ⟨rfl, hr⟩
    rw [chars, List.singleton_append, replaceAll_cr old new rest hr,
      replaceAll_cr old new [] (by simp), replaceAll, List.append_nil]

/-- Texts may be rewritten one by one where no terminator lies across. -/
theorem replaceAll_append (before after : List Char) (h : ¬ Meets before after) :
    replaceAll old new (before ++ after) =
      replaceAll old new before ++ replaceAll old new after := by
  induction before using lines_induction with
  | nil => rfl
  | last content _ hc =>
    rw [replaceAll_unbroken_append old new content after hc, replaceAll_unbroken old new content hc]
  | line content e rest hc hm ih =>
    obtain ⟨hline, hafter⟩ := not_meets_of_line content rest after e hm h
    rw [List.append_assoc, List.append_assoc, replaceAll_unbroken_append old new content _ hc,
      replaceAll_unbroken_append old new content _ hc,
      replaceAll_terminator_append old new e _ hline, replaceAll_terminator_append old new e _ hm,
      ih hafter, List.append_assoc, List.append_assoc]

/-- A terminator never becomes a text that ends inside a line. -/
theorem endsLine_replaceAll_chars (e : LineEnding) :
    endsLine (replaceAll old new e.chars) = true := by
  cases old <;> cases new <;> cases e <;> decide

theorem filter_isContent_replaceAll (text : List Char) :
    (replaceAll old new text).filter isContent = text.filter isContent := by
  have hnew : new.chars.filter isContent = [] := by cases new <;> rfl
  have hcr : isContent '\r' = false := rfl
  have hlf : isContent '\n' = false := rfl
  fun_induction replaceAll old new text with
  | case1 => rfl
  | case2 rest ih => cases old <;> simp [hcr, hlf, hnew, ih]
  | case3 rest h ih => split <;> simp [hcr, hnew, ih]
  | case4 rest ih => split <;> simp [hlf, hnew, ih]
  | case5 c rest h hc hl ih => simp [List.filter_cons, ih]

/-! ## Torn pieces -/

/-- The piece of a text at which replacing terminators adds or loses a line. One character of a
CR LF replaced alone makes two terminators of one; a CR LF replaced by an LF joins a CR before it,
and one replaced by a CR joins an LF after it. -/
def torn : LineEnding → LineEnding → List Char
  | .crLf, .lf => ['\r', '\r', '\n']
  | .crLf, .cr => ['\r', '\n', '\n']
  | _, _ => ['\r', '\n']

theorem torn_of_ne_crLf (h : old ≠ .crLf) : torn old new = chars .crLf := by
  cases old with
  | lf => rfl
  | crLf => exact absurd rfl h
  | cr => rfl

theorem cons_isPrefix_iff (c : Char) (start text : List Char) :
    c :: start <+: text ↔ text.head? = some c ∧ start <+: text.tail := by
  cases text with
  | nil => simp
  | cons d text => simp [List.cons_prefix_cons, eq_comm]

/-- What becomes of a terminator. -/
def renamed (e : LineEnding) : LineEnding := if e = old then new else e

/-- A terminator becomes another one, unless it is a CR LF of which one character is replaced. -/
theorem replaceAll_chars (e : LineEnding) (h : e = .crLf → old = .crLf) :
    replaceAll old new e.chars = (renamed old new e).chars := by
  cases e with
  | lf => cases old <;> simp [chars, replaceAll, renamed]
  | cr => cases old <;> simp [chars, replaceAll, renamed]
  | crLf =>
    obtain rfl := h rfl
    simp [chars, replaceAll, renamed]

/-- An LF stands at the start of the new text if one stood there and is not replaced, or if one
replaces what stood there. -/
theorem head?_replaceAll_eq_lf_iff (rest : List Char) (h : new ≠ old) :
    (replaceAll old new rest).head? = some '\n' ↔
      (rest.head? = some '\n' ∧ old ≠ .lf) ∨ (new = .lf ∧ old.chars <+: rest) := by
  fun_cases replaceAll old new rest with
  | case1 => cases old <;> simp [chars]
  | case2 rest => cases old <;> cases new <;> simp_all [chars]
  | case3 rest hr =>
    have hlf : rest.head? ≠ some '\n' := by
      cases rest with
      | nil => simp
      | cons c more => exact fun hc => hr more (by rw [Option.some.inj hc])
    cases old <;> cases new <;> simp_all [chars, cons_isPrefix_iff]
  | case4 rest => cases old <;> cases new <;> simp_all [chars]
  | case5 c rest hr hc hl =>
    have hcr : '\r' ≠ c := fun h => hc h.symm
    cases old <;> cases new <;> simp_all [chars]

/-- Two terminators become one exactly at a torn piece. -/
theorem meets_renamed_iff (e : LineEnding) (rest : List Char) (h : new ≠ old)
    (hm : ¬ Meets e.chars rest) (he : e = .crLf → old = .crLf) :
    Meets (renamed old new e).chars (replaceAll old new rest) ↔
      torn old new <+: e.chars ++ rest := by
  rw [Meets, head?_replaceAll_eq_lf_iff old new rest h]
  cases old <;> cases new <;> cases e <;>
    simp_all [Meets, chars, torn, renamed, cons_isPrefix_iff]

theorem torn_isInfix_line_iff (content rest : List Char) (e : LineEnding) (hc : Unbroken content) :
    torn old new <:+: content ++ (e.chars ++ rest) ↔
      torn old new <+: e.chars ++ rest ∨ torn old new <:+: rest := by
  obtain ⟨more, htorn⟩ : ∃ more, torn old new = '\r' :: more := by
    cases old <;> cases new <;> exact ⟨_, rfl⟩
  have hskip : ∀ c text, c ≠ '\r' → (torn old new <:+: c :: text ↔ torn old new <:+: text) := by
    intro c text hne
    rw [List.infix_cons_iff, htorn, cons_isPrefix_iff]
    simp [hne]
  induction content with
  | nil =>
    rw [List.nil_append]
    cases e with
    | lf =>
      rw [chars, List.singleton_append, hskip '\n' rest (by decide), htorn, cons_isPrefix_iff]
      simp
    | cr => rw [chars, List.singleton_append, List.infix_cons_iff]
    | crLf =>
      rw [chars, List.cons_append, List.singleton_append, List.infix_cons_iff,
        hskip '\n' rest (by decide)]
  | cons c content ih =>
    obtain ⟨hterm, hcontent⟩ := (unbroken_cons c content).1 hc
    have hne : c ≠ '\r' := fun hcr => by simp [hcr, isTerminatorChar] at hterm
    rw [List.cons_append, hskip c _ hne]
    exact ih hcontent

/-! ## Lines kept and lines lost -/

theorem bareLines_replaceAll (text : List Char) (h : new ≠ old) (ht : ¬ torn old new <:+: text) :
    bareLines (replaceAll old new text) = bareLines text := by
  induction text using lines_induction with
  | nil => rfl
  | last content _ hc => rw [replaceAll_unbroken old new content hc]
  | line content e rest hc hm ih =>
    rw [torn_isInfix_line_iff old new content rest e hc, not_or] at ht
    have he : e = .crLf → old = .crLf := by
      rintro rfl
      refine Decidable.byContradiction fun hold => ht.1 ?_
      rw [torn_of_ne_crLf old new hold]
      exact List.prefix_append _ _
    have hmeets : ¬ Meets (renamed old new e).chars (replaceAll old new rest) := by
      rw [meets_renamed_iff old new e rest h hm he]
      exact ht.1
    rw [replaceAll_unbroken_append old new content _ hc,
      replaceAll_terminator_append old new e _ hm, replaceAll_chars old new e he,
      bareLines_line content _ _ hc hmeets, ih ht.2,
      bareLines_line content rest e hc hm]

theorem not_torn_of_unbroken (content : List Char) (h : Unbroken content) :
    ¬ torn old new <:+: content := by
  intro htorn
  have hmem : '\r' ∈ torn old new := by cases old <;> cases new <;> simp [torn]
  exact absurd (h '\r' (htorn.subset hmem)) (by decide)

/-- Where a CR LF becomes one character, no line is added, and a torn piece loses one. -/
theorem length_bareLines_replaceAll_crLf (text : List Char) (h : new ≠ .crLf) :
    (bareLines (replaceAll .crLf new text)).length ≤ (bareLines text).length ∧
      (torn .crLf new <:+: text →
        (bareLines (replaceAll .crLf new text)).length < (bareLines text).length) := by
  induction text using lines_induction with
  | nil =>
    have hnone := not_torn_of_unbroken .crLf new [] unbroken_nil
    exact ⟨Nat.le_refl _, fun ht => absurd ht hnone⟩
  | last content _ hc =>
    rw [replaceAll_unbroken .crLf new content hc]
    exact ⟨Nat.le_refl _, fun ht => absurd ht (not_torn_of_unbroken .crLf new content hc)⟩
  | line content e rest hc hm ih =>
    obtain ⟨hle, hlt⟩ := ih
    have hmeets := meets_renamed_iff .crLf new e rest h hm fun _ => rfl
    rw [replaceAll_unbroken_append .crLf new content _ hc,
      replaceAll_terminator_append .crLf new e _ hm, replaceAll_chars .crLf new e fun _ => rfl,
      length_bareLines_line content _ _ hc, bareLines_line content rest e hc hm, List.length_cons,
      torn_isInfix_line_iff .crLf new content rest e hc, ← hmeets]
    by_cases hjoin : Meets (renamed .crLf new e).chars (replaceAll .crLf new rest)
    · rw [if_pos hjoin]
      exact ⟨by omega, fun _ => by omega⟩
    · rw [if_neg hjoin]
      refine ⟨by omega, fun ht => ?_⟩
      have := hlt (ht.resolve_left hjoin)
      omega

theorem exists_replaceAll_crLf (h : new ≠ old) (ho : old ≠ .crLf) :
    ∃ first second, replaceAll old new (chars .crLf) = chars first ++ chars second ∧
      (∀ rest, ¬ Meets first.chars (second.chars ++ rest)) ∧
      ∀ rest, ¬ Meets second.chars (replaceAll old new rest) := by
  cases old with
  | crLf => exact absurd rfl ho
  | cr =>
    refine ⟨new, .lf, by simp [chars, replaceAll], ?_, fun _ hm => by simp [Meets, chars] at hm⟩
    cases new <;> simp_all [Meets, chars]
  | lf =>
    refine ⟨.cr, new, by simp [chars, replaceAll], ?_, fun rest hm => ?_⟩
    · cases new <;> simp_all [Meets, chars]
    · have hlf := (head?_replaceAll_eq_lf_iff .lf new rest h).1 hm.2
      simp [h] at hlf

/-- Where one character of a CR LF is replaced, no line is lost, and a CR LF adds one. -/
theorem length_bareLines_replaceAll_of_ne (text : List Char) (h : new ≠ old) (ho : old ≠ .crLf) :
    (bareLines text).length ≤ (bareLines (replaceAll old new text)).length ∧
      (torn old new <:+: text →
        (bareLines text).length < (bareLines (replaceAll old new text)).length) := by
  induction text using lines_induction with
  | nil =>
    have hnone := not_torn_of_unbroken old new [] unbroken_nil
    exact ⟨Nat.le_refl _, fun ht => absurd ht hnone⟩
  | last content _ hc =>
    rw [replaceAll_unbroken old new content hc]
    exact ⟨Nat.le_refl _, fun ht => absurd ht (not_torn_of_unbroken old new content hc)⟩
  | line content e rest hc hm ih =>
    obtain ⟨hle, hlt⟩ := ih
    rw [replaceAll_unbroken_append old new content _ hc,
      replaceAll_terminator_append old new e _ hm, bareLines_line content rest e hc hm,
      List.length_cons, torn_isInfix_line_iff old new content rest e hc]
    by_cases he : e = .crLf
    · obtain ⟨first, second, hboth, hfirst, hsecond⟩ := exists_replaceAll_crLf old new h ho
      have htwo := bareLines_line [] _ second unbroken_nil (hsecond rest)
      rw [List.nil_append] at htwo
      rw [he, hboth, List.append_assoc, bareLines_line content _ first hc (hfirst _), htwo,
        List.length_cons, List.length_cons]
      exact ⟨by omega, fun _ => by omega⟩
    · have htorn : ¬ torn old new <+: e.chars ++ rest := by
        rw [torn_of_ne_crLf old new ho]
        cases e <;> simp_all [Meets, chars, cons_isPrefix_iff]
      have hmeets := mt (meets_renamed_iff old new e rest h hm fun hcr => absurd hcr he).1 htorn
      rw [replaceAll_chars old new e fun hcr => absurd hcr he, bareLines_line content _ _ hc hmeets,
        List.length_cons]
      exact ⟨by omega, fun ht => Nat.succ_lt_succ (hlt (ht.resolve_left htorn))⟩

theorem length_bareLines_replaceAll_ne (text : List Char) (h : new ≠ old)
    (ht : torn old new <:+: text) :
    (bareLines (replaceAll old new text)).length ≠ (bareLines text).length := by
  by_cases ho : old = .crLf
  · subst ho
    exact Nat.ne_of_lt ((length_bareLines_replaceAll_crLf new text h).2 ht)
  · exact Nat.ne_of_gt ((length_bareLines_replaceAll_of_ne old new text h ho).2 ht)

end Replacing

/-! ## Endings of another text -/

theorem adopt_of_ne (model text : List Char) (expected actual : LineEnding)
    (hmodel : first? model = some expected) (htext : first? text = some actual)
    (h : expected ≠ actual) : adopt model text = replaceAll actual expected text := by
  simp only [adopt, hmodel, htext, if_neg h]

/-- A text is left alone or all of its first terminator is replaced. -/
theorem adopt_cases (model text : List Char) :
    (adopt model text = text ∧ ∀ expected actual, first? model = some expected →
      first? text = some actual → expected = actual) ∨
    ∃ expected actual, first? model = some expected ∧ first? text = some actual ∧
      expected ≠ actual ∧ adopt model text = replaceAll actual expected text := by
  cases hmodel : first? model with
  | none => exact .inl ⟨by simp only [adopt, hmodel], fun _ _ h => by cases h⟩
  | some expected =>
    cases htext : first? text with
    | none => exact .inl ⟨by simp only [adopt, hmodel, htext], fun _ _ _ h => by cases h⟩
    | some actual =>
      by_cases hsame : expected = actual
      · refine .inl ⟨by simp only [adopt, hmodel, htext, if_pos hsame], ?_⟩
        rintro _ _ ⟨⟩ ⟨⟩
        exact hsame
      · exact .inr ⟨expected, actual, rfl, rfl, hsame,
          adopt_of_ne model text expected actual hmodel htext hsame⟩

/-- A terminator at the end of a text adds a terminator to what becomes of the text. -/
theorem exists_adopt_append (model before : List Char) (e : LineEnding)
    (h : ¬ Meets before e.chars) :
    ∃ more, adopt model (before ++ e.chars) = adopt model before ++ more ∧
      endsLine more = true := by
  rcases adopt_cases model before with ⟨hleft, hsame⟩ | ⟨expected, actual, hm, hb, hne, hadopt⟩
  · rcases adopt_cases model (before ++ e.chars) with
      ⟨hall, -⟩ | ⟨expected, actual, hm, hb, hne, hadopt⟩
    · exact ⟨e.chars, by rw [hall, hleft], endsLine_chars e⟩
    · -- The text before has no terminator: its first one would be that of the whole text.
      have hnone : first? before = none := by
        cases hfirst : first? before with
        | none => rfl
        | some first =>
          rw [first?_append_of_some before _ first h hfirst] at hb
          obtain rfl := Option.some.inj hb
          exact absurd (hsame expected first hm hfirst) hne
      refine ⟨replaceAll actual expected e.chars, ?_, endsLine_replaceAll_chars actual expected e⟩
      rw [hadopt, hleft, replaceAll_append actual expected before _ h,
        replaceAll_unbroken actual expected before (unbroken_of_first?_eq_none before hnone)]
  · have hboth := first?_append_of_some before _ actual h hb
    refine ⟨replaceAll actual expected e.chars, ?_, endsLine_replaceAll_chars actual expected e⟩
    rw [hadopt, adopt_of_ne model _ expected actual hm hboth hne,
      replaceAll_append actual expected before _ h]

/-- A text that is given the endings of another one keeps every character between terminators. It
keeps its lines exactly when its first terminator is that of the other text, or one of the two has
none, or no piece of it is torn. -/
theorem adopt_keeps_lines_iff (model text : List Char) :
    (adopt model text).filter isContent = text.filter isContent ∧
    (bareLines (adopt model text) = bareLines text ↔
      ∀ expected actual, first? model = some expected → first? text = some actual →
        expected ≠ actual → ¬ torn actual expected <:+: text) := by
  rcases adopt_cases model text with ⟨hleft, hsame⟩ | ⟨expected, actual, hm, ht, hne, hadopt⟩
  · rw [hleft]
    refine ⟨rfl, iff_of_true rfl fun expected actual hm ht hne => ?_⟩
    exact absurd (hsame expected actual hm ht) hne
  · rw [hadopt, hm, ht]
    refine ⟨filter_isContent_replaceAll actual expected text, fun hlines => ?_, fun hnone => ?_⟩
    · rintro _ _ ⟨⟩ ⟨⟩ - htorn
      exact length_bareLines_replaceAll_ne actual expected text hne htorn
        (congrArg List.length hlines)
    · exact bareLines_replaceAll actual expected text hne (hnone expected actual rfl rfl hne)

/-- The CR LF of a text that starts with LF is torn when LF becomes CR LF. -/
theorem mixedText_torn :
    bareLines (adopt "x\r\n".toList "a\nb\r\n".toList) = ["a".toList, "b".toList, []] ∧
    bareLines (adopt "x\r\n".toList "a\nb\r\n".toList) ≠ bareLines "a\nb\r\n".toList := by
  refine ⟨by decide, fun hlines => ?_⟩
  exact (adopt_keeps_lines_iff "x\r\n".toList "a\nb\r\n".toList).2.1 hlines .crLf .lf (by decide)
    (by decide) (by decide) ⟨"a\nb".toList, [], by decide⟩

end LineEnding
end LintBridge
