import LintBridge.Proofs.Suppression.Covered
import Mathlib.Data.List.Pairwise

/-!
The list of codes of a line, stated without the reader.

`Lists` says which text is the list of the first suppression of a line, and `MaximalCode` which rule
codes of a text no longer one holds.

* `lists_iff`: a line is taken apart at the list that `Lists` describes, the longest one there;
* `mem_placed_iff`: the codes that are read are the maximal ones, where they stand;
* `pairwise_placed`: they come in the order in which they are read, and none starts before the one
  before it ends.
-/

namespace LintBridge.Suppression

/-- A text that is codes and what separates them, and holds at least one. -/
def IsCodeList (body : List Char) : Prop :=
  ∃ codes : List ListedCode, codes ≠ [] ∧ (∀ c ∈ codes, c.Valid) ∧ codeChars codes = body

/-- A rule code in a text that no longer one around it holds. -/
structure MaximalCode (body left code right : List Char) : Prop where
  split : body = left ++ (code ++ right)
  rule : IsRuleCode code
  maximal : ∀ more further, more <:+ left → further <+: right →
    IsRuleCode (more ++ (code ++ further)) → more = [] ∧ further = []

/-- A line whose first suppression has a list of codes behind it, the longest that can be read
there. -/
structure Lists (line front body after : List Char) : Prop where
  split : line = front ++ (body ++ after)
  mark : ∃ before mark colon, front = before ++ (mark ++ colon) ∧ Unmarked before ∧ IsMark mark ∧
    IsColon colon
  list : IsCodeList body
  longest : ∀ longer, IsCodeList longer → longer <+: body ++ after → longer.length ≤ body.length

/-- The codes that are read in a text, each with what stands before it; `done` stands before the
first. -/
def placed (done : List Char) : List ListedCode → List (List Char × List Char)
  | [] => []
  | c :: codes => (done, c.code) :: placed (done ++ (c.code ++ c.gap)) codes

/-! ## Characters of a rule code -/

theorem IsRuleCode.large_or_digit {code : List Char} (h : IsRuleCode code) :
    ∀ c ∈ code, isLarge c = true ∨ isDigit c = true := by
  obtain ⟨letters, digits, rfl, -, -, hlarge, hdigit⟩ := h
  intro c hc
  exact (List.mem_append.1 hc).imp (hlarge c) (hdigit c)

theorem IsRuleCode.pairwise {code : List Char} (h : IsRuleCode code) :
    code.Pairwise fun c d => isLarge d = true → isLarge c = true := by
  obtain ⟨letters, digits, rfl, -, -, hlarge, hdigit⟩ := h
  refine List.pairwise_append.2 ⟨?_, ?_, fun c hc _ _ _ => hlarge c hc⟩
  · exact List.pairwise_of_forall_mem_list fun c hc _ _ _ => hlarge c hc
  · refine List.pairwise_of_forall_mem_list fun c _ d hd hlarge => ?_
    rw [isLarge_eq_false_of_isDigit d (hdigit d hd)] at hlarge
    cases hlarge

theorem IsRuleCode.exists_concat {code : List Char} (h : IsRuleCode code) :
    ∃ before d, code = before ++ [d] ∧ isDigit d = true := by
  obtain ⟨letters, digits, rfl, -, hne, -, hdigit⟩ := h
  have hlast := List.dropLast_concat_getLast hne
  exact ⟨letters ++ digits.dropLast, digits.getLast hne, by rw [List.append_assoc, hlast],
    hdigit _ (List.getLast_mem hne)⟩

/-- A large letter in front of a rule code, and a digit behind it, make a longer one. -/
theorem IsRuleCode.cons {code : List Char} (h : IsRuleCode code) (c : Char)
    (hc : isLarge c = true) : IsRuleCode (c :: code) := by
  obtain ⟨letters, digits, rfl, -, hne, hlarge, hdigit⟩ := h
  exact ⟨c :: letters, digits, rfl, List.cons_ne_nil c letters, hne,
    List.forall_mem_cons.2 ⟨hc, hlarge⟩, hdigit⟩

theorem IsRuleCode.concat {code : List Char} (h : IsRuleCode code) (d : Char)
    (hd : isDigit d = true) : IsRuleCode (code ++ [d]) := by
  obtain ⟨letters, digits, rfl, hne, -, hlarge, hdigit⟩ := h
  refine ⟨letters, digits ++ [d], List.append_assoc .., hne, by simp, hlarge, fun c hc => ?_⟩
  rcases List.mem_append.1 hc with hc | hc
  · exact hdigit c hc
  · exact List.mem_singleton.1 hc ▸ hd

/-! ## Maximal codes -/

/-- Only the characters beside it can make a rule code longer. -/
theorem maximalCode_iff (body left code right : List Char) :
    MaximalCode body left code right ↔ body = left ++ (code ++ right) ∧ IsRuleCode code ∧
      (∀ c, left.getLast? = some c → isLarge c = false) ∧
      ∀ d, right.head? = some d → isDigit d = false := by
  constructor
  · rintro ⟨hsplit, hcode, hmax⟩
    refine ⟨hsplit, hcode, fun c hc => Bool.eq_false_iff.2 fun hlarge => ?_,
      fun d hd => Bool.eq_false_iff.2 fun hdigit => ?_⟩
    · obtain ⟨before, rfl⟩ := List.getLast?_eq_some_iff.1 hc
      have hlong := hmax [c] [] (List.suffix_append before [c]) List.nil_prefix
        (by rw [List.append_nil]; exact hcode.cons c hlarge)
      exact List.cons_ne_nil c [] hlong.1
    · obtain ⟨after, rfl⟩ := List.head?_eq_some_iff.1 hd
      have hlong := hmax [] [d] List.nil_suffix (List.prefix_append [d] after)
        (hcode.concat d hdigit)
      exact List.cons_ne_nil d [] hlong.2
  · rintro ⟨hsplit, hcode, hleft, hright⟩
    refine ⟨hsplit, hcode, fun more further hmore hfurther hlong => ⟨?_, ?_⟩⟩
    · rcases List.eq_nil_or_concat more with rfl | ⟨more, c, rfl⟩
      · rfl
      · rw [List.concat_eq_append] at hmore hlong
        obtain ⟨x, rest, rfl, hx⟩ := hcode.exists_cons
        have hc : isLarge c = true :=
          (List.pairwise_append.1 hlong.pairwise).2.2 c (by simp) x (by simp) hx
        obtain ⟨before, rfl⟩ := hmore
        rw [hleft c (by simp)] at hc
        cases hc
    · cases further with
      | nil => rfl
      | cons d further =>
        obtain ⟨before, y, rfl, hy⟩ := hcode.exists_concat
        obtain ⟨after, rfl⟩ := hfurther
        have hd := hright d rfl
        have hlarge : isLarge d = true :=
          (hlong.large_or_digit d (by simp)).resolve_right (by rw [hd]; exact Bool.false_ne_true)
        rw [← List.append_assoc] at hlong
        have hylarge := (List.pairwise_append.1 hlong.pairwise).2.2 y (by simp) d (by simp) hlarge
        rw [isLarge_eq_false_of_isDigit y hy] at hylarge
        cases hylarge

/-- Where no digit follows, the same characters start with one rule code only. -/
theorem eq_of_append_eq {code other right right' : List Char} (hcode : IsRuleCode code)
    (hother : IsRuleCode other) (hright : ∀ d, right.head? = some d → isDigit d = false)
    (hright' : ∀ d, right'.head? = some d → isDigit d = false)
    (heq : code ++ right = other ++ right') : code = other := by
  have hread := readCode?_append code right hcode
  rw [heq, readCode?_append other right' hother, (takeWhile_eq_nil_iff isDigit right).2 hright,
    (takeWhile_eq_nil_iff isDigit right').2 hright', List.append_nil, List.append_nil] at hread
  exact (congrArg (fun found => found.1.code) (Option.some.inj hread)).symm

theorem isLarge_eq_false_of_isGap (c : Char) (h : isGap c = true) : isLarge c = false :=
  Bool.eq_false_iff.2 fun hlarge => by rw [isGap_eq_false_of_isLarge c hlarge] at h; cases h

/-- Before a large letter of a code and of what separates it there are only large letters. -/
theorem ListedCode.Valid.pairwise {c : ListedCode} (hc : c.Valid) :
    (c.code ++ c.gap).Pairwise fun x y => isLarge y = true → isLarge x = true := by
  have hgap : ∀ y ∈ c.gap, ¬ isLarge y = true := fun y hy =>
    Bool.eq_false_iff.1 (isLarge_eq_false_of_isGap y (hc.gap y hy))
  refine List.pairwise_append.2 ⟨hc.code.pairwise, ?_, fun _ _ y hy hl => absurd hl (hgap y hy)⟩
  exact List.pairwise_of_forall_mem_list fun _ _ y hy hl => absurd hl (hgap y hy)

/-- Neither a code nor what separates it ends in a large letter. -/
theorem ListedCode.Valid.getLast?_eq {c : ListedCode} (hc : c.Valid) :
    ∀ x, (c.code ++ c.gap).getLast? = some x → isLarge x = false := by
  intro x hx
  rcases List.eq_nil_or_concat c.gap with hgap | ⟨gap, y, hgap⟩
  · obtain ⟨before, d, hcode, hd⟩ := hc.code.exists_concat
    rw [hgap, List.append_nil, hcode, List.getLast?_concat] at hx
    exact Option.some.inj hx ▸ isLarge_eq_false_of_isDigit d hd
  · rw [List.concat_eq_append] at hgap
    rw [hgap, ← List.append_assoc, List.getLast?_concat] at hx
    exact Option.some.inj hx ▸ isLarge_eq_false_of_isGap y (hc.gap y (by rw [hgap]; simp))

/-- Behind anything but large letters, no large letter stands in a code or in what separates it. -/
theorem ListedCode.Valid.eq_nil_of_large {c : ListedCode} (hc : c.Valid) {left more : List Char}
    {x : Char} (hsplit : c.code ++ c.gap = left ++ x :: more) (hx : isLarge x = true)
    (hleft : ∀ z, left.getLast? = some z → isLarge z = false) : left = [] := by
  cases hlast : left.getLast? with
  | none => exact List.getLast?_eq_none_iff.1 hlast
  | some z =>
    obtain ⟨before, rfl⟩ := List.getLast?_eq_some_iff.1 hlast
    have hpair := hc.pairwise
    rw [hsplit] at hpair
    have hz := (List.pairwise_append.1 hpair).2.2 z (by simp) x List.mem_cons_self hx
    rw [hleft z hlast] at hz
    cases hz

/-- The maximal codes of a text that starts with a code are that code and those behind it. -/
theorem maximalCode_append_iff (c : ListedCode) (text left code right : List Char) (hc : c.Valid)
    (htext : ∀ x, text.head? = some x → isLarge x = true) :
    MaximalCode (c.code ++ (c.gap ++ text)) left code right ↔
      (left = [] ∧ code = c.code ∧ right = c.gap ++ text) ∨
        ∃ inner, left = (c.code ++ c.gap) ++ inner ∧ MaximalCode text inner code right := by
  simp only [maximalCode_iff]
  constructor
  · rintro ⟨hsplit, hcode, hleft, hright⟩
    rw [← List.append_assoc] at hsplit
    -- Either the code starts within the first one, or all of that stands before it.
    rcases List.append_eq_append_iff.1 hsplit with ⟨inner, rfl, htext'⟩ | ⟨more, hmore, hrest⟩
    · refine .inr ⟨inner, rfl, htext', hcode, fun x hx => hleft x ?_, hright⟩
      rw [List.getLast?_append, hx, Option.some_or]
    · cases more with
      | nil =>
        rw [List.append_nil] at hmore
        exact .inr ⟨[], by rw [List.append_nil, hmore], hrest.symm, hcode, by simp, hright⟩
      | cons y more =>
        obtain ⟨x, rest, hx, hlarge⟩ := hcode.exists_cons
        obtain rfl : x = y := by rw [hx] at hrest; exact (List.cons.inj hrest).1
        obtain rfl := hc.eq_nil_of_large hmore hlarge hleft
        rw [List.nil_append, List.append_assoc] at hsplit
        obtain rfl := eq_of_append_eq hcode hc.code hright (hc.head?_gap htext) hsplit.symm
        exact .inl ⟨rfl, rfl, (List.append_cancel_left hsplit).symm⟩
  · rintro (⟨rfl, rfl, rfl⟩ | ⟨inner, rfl, rfl, hcode, hleft, hright⟩)
    · exact ⟨rfl, hc.code, by simp, hc.head?_gap htext⟩
    · refine ⟨by simp only [List.append_assoc], hcode, fun x hx => ?_, hright⟩
      rw [List.getLast?_append] at hx
      rcases Option.or_eq_some_iff.1 hx with hinner | ⟨-, hfirst⟩
      · exact hleft x hinner
      · exact hc.getLast?_eq x hfirst

theorem head?_codeChars (codes : List ListedCode) (hvalid : ∀ c ∈ codes, c.Valid) :
    ∀ x, (codeChars codes).head? = some x → isLarge x = true := by
  cases codes with
  | nil => exact fun x hx => nomatch hx
  | cons c codes =>
    obtain ⟨y, rest, hy, hlarge⟩ := (hvalid c List.mem_cons_self).code.exists_cons
    rw [codeChars_cons, hy]
    rintro x ⟨⟩
    exact hlarge

theorem mem_placed_iff (codes : List ListedCode) (done left code : List Char)
    (hvalid : ∀ c ∈ codes, c.Valid) :
    (left, code) ∈ placed done codes ↔
      ∃ inner right, left = done ++ inner ∧ MaximalCode (codeChars codes) inner code right := by
  induction codes generalizing done with
  | nil =>
    refine ⟨fun h => absurd h List.not_mem_nil, ?_⟩
    rintro ⟨inner, right, -, hsplit, hcode, -⟩
    obtain ⟨x, rest, rfl, -⟩ := hcode.exists_cons
    simp [codeChars] at hsplit
  | cons c codes ih =>
    obtain ⟨hc, hcodes⟩ := List.forall_mem_cons.1 hvalid
    have hstep (left right : List Char) :=
      maximalCode_append_iff c (codeChars codes) left code right hc (head?_codeChars codes hcodes)
    simp only [placed, List.mem_cons, Prod.mk.injEq, ih _ hcodes, codeChars_cons, hstep]
    constructor
    · rintro (⟨rfl, rfl⟩ | ⟨inner, right, rfl, hmax⟩)
      · exact ⟨[], _, (List.append_nil left).symm, .inl ⟨rfl, rfl, rfl⟩⟩
      · exact ⟨_, right, List.append_assoc .., .inr ⟨inner, rfl, hmax⟩⟩
    · rintro ⟨_, right, rfl, ⟨rfl, rfl, -⟩ | ⟨inner, rfl, hmax⟩⟩
      · exact .inl ⟨List.append_nil done, rfl⟩
      · exact .inr ⟨inner, right, (List.append_assoc ..).symm, hmax⟩

theorem isPrefix_of_mem_placed (codes : List ListedCode) (done : List Char)
    (token : List Char × List Char) (h : token ∈ placed done codes) : done <+: token.1 := by
  induction codes generalizing done with
  | nil => exact absurd h List.not_mem_nil
  | cons c codes ih =>
    rcases List.mem_cons.1 h with rfl | h
    · exact List.prefix_rfl
    · exact (List.prefix_append done _).trans (ih _ h)

/-- A code ends before the next one starts. -/
theorem pairwise_placed (codes : List ListedCode) (done : List Char) :
    (placed done codes).Pairwise fun a b => a.1 ++ a.2 <+: b.1 := by
  induction codes generalizing done with
  | nil => exact List.Pairwise.nil
  | cons c codes ih =>
    refine List.pairwise_cons.2 ⟨fun token htoken => ?_, ih _⟩
    have hle := isPrefix_of_mem_placed codes _ token htoken
    rw [← List.append_assoc] at hle
    exact (List.prefix_append _ c.gap).trans hle

/-! ## The list of a line -/

/-- The code that is read at a code takes it and what separates it, and perhaps more. -/
theorem ListedCode.Valid.exists_read {c : ListedCode} (hc : c.Valid) (after : List Char) :
    ∃ d rest, readCode? (c.code ++ (c.gap ++ after)) = some (d, rest) ∧
      c.code ++ c.gap <+: d.code ++ d.gap := by
  refine ⟨_, _, readCode?_append c.code _ hc.code, ?_⟩
  cases hgap : c.gap with
  | nil =>
    rw [List.append_nil, List.append_assoc]
    exact List.prefix_append _ _
  | cons y gap =>
    -- A separator ends the digits, so that no more of them are read.
    have hall : ∀ x ∈ y :: gap, isGap x = true := hgap ▸ hc.gap
    have hhead : ∀ x, (y :: gap ++ after).head? = some x → isDigit x = false := by
      rintro x ⟨⟩
      exact isDigit_eq_false_of_isGap y (hall y List.mem_cons_self)
    have htake := takeWhile_run isDigit [] _ (by simp) hhead
    have hdrop := dropWhile_run isDigit [] _ (by simp) hhead
    rw [List.nil_append] at htake hdrop
    rw [htake, hdrop, List.append_nil, List.takeWhile_append_of_pos hall]
    exact (List.prefix_append_right_inj _).2 (List.prefix_append _ _)

/-- What is read starts with every list of codes that the text starts with. -/
theorem isPrefix_codeChars_allCodes (codes : List ListedCode) (after : List Char)
    (hvalid : ∀ c ∈ codes, c.Valid) :
    codeChars codes <+: codeChars (allCodes (codeChars codes ++ after)).1 := by
  induction codes with
  | nil => exact List.nil_prefix
  | cons c codes ih =>
    obtain ⟨hc, hcodes⟩ := List.forall_mem_cons.1 hvalid
    rw [codeChars_cons, List.append_assoc, List.append_assoc]
    cases codes with
    | nil =>
      obtain ⟨d, rest, hread, hle⟩ := hc.exists_read after
      rw [show codeChars [] = [] from rfl, List.append_nil, List.nil_append,
        allCodes_of_some _ _ _ hread, codeChars_cons, ← List.append_assoc]
      exact hle.trans (List.prefix_append _ _)
    | cons d codes =>
      obtain ⟨x, rest, hx, hlarge⟩ := (hcodes d List.mem_cons_self).code.exists_cons
      have hread := readCode?_valid c (codeChars (d :: codes) ++ after) hc (by
        rw [codeChars_cons, hx]
        rintro y ⟨⟩
        exact hlarge)
      rw [allCodes_of_some _ _ _ hread, codeChars_cons c (allCodes _).1]
      exact (List.prefix_append_right_inj _).2 ((List.prefix_append_right_inj _).2 (ih hcodes))

theorem IsCodeList.ne_nil {body : List Char} (h : IsCodeList body) : body ≠ [] := by
  obtain ⟨codes, hne, hvalid, rfl⟩ := h
  obtain ⟨c, codes, rfl⟩ := List.exists_cons_of_ne_nil hne
  obtain ⟨x, rest, hx, -⟩ := (hvalid c List.mem_cons_self).code.exists_cons
  rw [codeChars_cons, hx]
  exact List.cons_ne_nil _ _

theorem isCodeList_allCodes (text : List Char) (h : (allCodes text).1 ≠ []) :
    IsCodeList (codeChars (allCodes text).1) :=
  ⟨_, h, valid_of_mem_allCodes text, rfl⟩

theorem isPrefix_allCodes (text : List Char) : codeChars (allCodes text).1 <+: text :=
  ⟨_, codeChars_allCodes text⟩

theorem allCodes_of_longest (body after : List Char) (hlist : IsCodeList body)
    (hlongest : ∀ longer, IsCodeList longer → longer <+: body ++ after →
      longer.length ≤ body.length) :
    (allCodes (body ++ after)).1 ≠ [] ∧ codeChars (allCodes (body ++ after)).1 = body ∧
      (allCodes (body ++ after)).2 = after := by
  have hle : body <+: codeChars (allCodes (body ++ after)).1 := by
    obtain ⟨codes, -, hvalid, rfl⟩ := hlist
    exact isPrefix_codeChars_allCodes codes after hvalid
  have hne : (allCodes (body ++ after)).1 ≠ [] := by
    intro hnil
    rw [hnil] at hle
    exact hlist.ne_nil (List.prefix_nil.1 hle)
  have hbody : codeChars (allCodes (body ++ after)).1 = body :=
    (hle.eq_of_length_le
      (hlongest _ (isCodeList_allCodes _ hne) (isPrefix_allCodes _))).symm
  have hsplit := codeChars_allCodes (body ++ after)
  rw [hbody] at hsplit
  exact ⟨hne, hbody, List.append_cancel_left hsplit⟩

theorem lists_iff (line front body after : List Char) :
    Lists line front body after ↔ ∃ p, find? line = some p ∧ p.codes ≠ [] ∧
      front = p.front ++ p.colon ∧ body = codeChars p.codes ∧ after = p.rest := by
  constructor
  · rintro ⟨rfl, ⟨before, mark, colon, rfl, hu, hmark, hcolon⟩, hlist, hlongest⟩
    obtain ⟨hne, hbody, hafter⟩ := allCodes_of_longest body after hlist hlongest
    refine ⟨⟨before ++ mark, colon, (allCodes (body ++ after)).1, (allCodes (body ++ after)).2⟩,
      ?_, hne, (List.append_assoc ..).symm, hbody.symm, hafter.symm⟩
    rw [List.append_assoc, List.append_assoc, find?_mark before mark _ hu hmark,
      ofRest_append _ colon _ hcolon hne]
  · rintro ⟨p, hp, hne, rfl, rfl, rfl⟩
    have hchars := chars_of_find? line p hp
    obtain ⟨before, mark, rest, -, hu, hmark, rfl⟩ := exists_mark_of_find? line p hp
    rcases ofRest_cases (before ++ mark) rest with h | ⟨colon, body, hcolon, hbody, rfl, h⟩
    · rw [h] at hne
      exact absurd rfl hne
    · rw [h] at hchars ⊢
      refine ⟨by rw [← hchars]; simp only [Parts.chars, List.append_assoc],
        ⟨before, mark, colon, List.append_assoc .., hu, hmark, hcolon⟩,
        isCodeList_allCodes body hbody, fun longer hlonger hle => ?_⟩
      rw [codeChars_allCodes] at hle
      obtain ⟨codes, -, hvalid, rfl⟩ := hlonger
      obtain ⟨rest, rfl⟩ := hle
      exact (isPrefix_codeChars_allCodes codes rest hvalid).length_le

end LintBridge.Suppression
