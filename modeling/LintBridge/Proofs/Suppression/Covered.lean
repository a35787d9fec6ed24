import LintBridge.Proofs.Suppression.CodeList
import LintBridge.Proofs.Suppression.Mark
import LintBridge.Proofs.Text.Position

/-!
Which codes a line suppresses once a code is added.

`suppress` puts a code behind the codes there are, and what stood behind them stays. So the line is
taken apart at the same place again (`find?_suppress`), and every code listed before keeps its
place. The added code takes the digits that follow it: `covers_suppress_iff` says when the line
covers it, and `thirdPartyLine_not_covered` is a line that does not.
-/

namespace LintBridge.Suppression

/-- A line taken apart for a code to be added. One without a suppression gets a bare one. -/
def parts (line : List Char) : Parts :=
  (find? line).getD ⟨line ++ "  # noqa".toList, [], [], []⟩

/-- The codes that a line lists. -/
def listed (line : List Char) : List (List Char) := (parts line).codes.map ListedCode.code

def behind (line : List Char) : List Char := (parts line).rest

def listedBehind (line : List Char) : List (List Char) :=
  (allCodes (((behind line).dropWhile isDigit).dropWhile isGap)).1.map ListedCode.code

def Parts.chars (p : Parts) : List Char := p.front ++ (p.colon ++ (codeChars p.codes ++ p.rest))

/-- The parts of a line with a code added. -/
def Parts.withCode (p : Parts) (code : List Char) : Parts :=
  ⟨p.front, if p.codes = [] then ": ".toList else p.colon,
    widen ", ".toList p.codes ++ (allCodes (code ++ p.rest)).1, (allCodes (code ++ p.rest)).2⟩

/-! ## Parts -/

theorem ofRest_append (front colon body : List Char) (hcolon : IsColon colon)
    (hbody : (allCodes body).1 ≠ []) :
    Parts.ofRest front (colon ++ body) = ⟨front, colon, (allCodes body).1, (allCodes body).2⟩ := by
  rw [Parts.ofRest, readList?_append colon body hcolon hbody]

/-- Behind a mark stands a list, or nothing that is taken apart. -/
theorem ofRest_cases (front text : List Char) :
    Parts.ofRest front text = ⟨front, [], [], text⟩ ∨
      ∃ colon body, IsColon colon ∧ (allCodes body).1 ≠ [] ∧ text = colon ++ body ∧
        Parts.ofRest front text = ⟨front, colon, (allCodes body).1, (allCodes body).2⟩ := by
  cases hread : readList? text with
  | none => exact .inl (by rw [Parts.ofRest, hread])
  | some found =>
    obtain ⟨colon, codes, after⟩ := found
    obtain ⟨hcolon, hcodes, body, htext, hbody⟩ := exists_of_readList? text colon after codes hread
    exact .inr ⟨colon, body, hcolon, by rwa [hbody], htext, by rw [Parts.ofRest, hread, hbody]⟩

theorem chars_ofRest (front text : List Char) :
    (Parts.ofRest front text).chars = front ++ text := by
  rcases ofRest_cases front text with h | ⟨colon, body, -, -, rfl, h⟩
  · rw [h]
    rfl
  · simp only [h, Parts.chars, codeChars_allCodes]

theorem valid_ofRest (front text : List Char) : ∀ c ∈ (Parts.ofRest front text).codes, c.Valid := by
  rcases ofRest_cases front text with h | ⟨colon, body, -, -, -, h⟩
  · rw [h]
    exact fun _ hc => absurd hc List.not_mem_nil
  · rw [h]
    exact valid_of_mem_allCodes body

theorem exists_mark_of_find? (line : List Char) (p : Parts) (h : find? line = some p) :
    ∃ before mark rest, line = before ++ (mark ++ rest) ∧ Unmarked before ∧ IsMark mark ∧
      p = Parts.ofRest (before ++ mark) rest := by
  rcases unmarked_or_exists_mark line with hu | ⟨before, mark, rest, rfl, hu, hmark⟩
  · rw [find?_of_unmarked line hu] at h
    cases h
  · rw [find?_mark before mark rest hu hmark] at h
    exact ⟨before, mark, rest, rfl, hu, hmark, (Option.some.inj h).symm⟩

theorem chars_of_find? (line : List Char) (p : Parts) (h : find? line = some p) :
    p.chars = line := by
  obtain ⟨before, mark, rest, rfl, -, -, rfl⟩ := exists_mark_of_find? line p h
  rw [chars_ofRest, List.append_assoc]

theorem valid_of_find? (line : List Char) (p : Parts) (h : find? line = some p) :
    ∀ c ∈ p.codes, c.Valid := by
  obtain ⟨before, mark, rest, -, -, -, rfl⟩ := exists_mark_of_find? line p h
  exact valid_ofRest (before ++ mark) rest

/-- The bare suppression a line gets stands where a line would be taken apart. -/
theorem exists_mark (line : List Char) :
    ∃ before mark rest, Unmarked before ∧ IsMark mark ∧
      parts line = Parts.ofRest (before ++ mark) rest := by
  rcases unmarked_or_exists_mark line with hu | ⟨before, mark, rest, rfl, hu, hmark⟩
  · have hspaces := unmarked_append_space _ (unmarked_append_space line hu)
    have hmark : IsMark "# noqa".toList :=
      ⟨_, by decide, spells_self "# noqa".toList (List.all_eq_true.1 (by decide))⟩
    refine ⟨_, _, [], hspaces, hmark, ?_⟩
    rw [parts, find?_of_unmarked line hu]
    simp [Parts.ofRest, readList?]
  · exact ⟨before, mark, rest, hu, hmark, by rw [parts, find?_mark before mark rest hu hmark]; rfl⟩

/-! ## A code added -/

theorem suppress_eq (line code : List Char) :
    suppress line code =
      if (parts line).codes = [] then
        (parts line).front ++ (": ".toList ++ (code ++ (parts line).rest))
      else (parts line).front ++ ((parts line).colon ++
        (codeChars (parts line).codes ++ (", ".toList ++ (code ++ (parts line).rest)))) := by
  rw [suppress, parts]
  cases find? line with
  | none => simp
  | some p => simp only [Option.getD_some, List.append_assoc]

/-- A line with a code added is taken apart where it was, and what stood there is read again. -/
theorem find?_suppress (line code : List Char) (hcode : IsRuleCode code) :
    find? (suppress line code) = some ((parts line).withCode code) := by
  obtain ⟨before, mark, rest, hu, hmark, hparts⟩ := exists_mark line
  have hne : ∀ text, (allCodes (code ++ text)).1 ≠ [] := fun text => by
    rw [allCodes_append code text hcode]
    exact List.cons_ne_nil _ _
  rw [suppress_eq, hparts]
  rcases ofRest_cases (before ++ mark) rest with h | ⟨colon, body, hcolon, hbody, -, h⟩
  · have hcolon : IsColon ": ".toList := ⟨[' '], rfl, Nat.le_refl 1, List.all_eq_true.1 (by decide)⟩
    simp only [h, if_pos]
    rw [List.append_assoc, find?_mark before mark _ hu hmark,
      ofRest_append _ _ _ hcolon (hne rest)]
    rfl
  · have hread := allCodes_codeChars (allCodes body).1 ", ".toList (code ++ (allCodes body).2) hbody
      (valid_of_mem_allCodes body) (List.all_eq_true.1 (by decide)) (hne _)
    simp only [h, if_neg hbody]
    rw [List.append_assoc, find?_mark before mark _ hu hmark, ofRest_append _ _ _ hcolon, hread]
    · simp only [Parts.withCode, if_neg hbody]
    · rw [hread]
      exact List.append_ne_nil_of_right_ne_nil _ (hne _)

/-- A line with a code added lists what it listed, the code with the digits behind it, and what is
read from there. -/
theorem listed_suppress (line code : List Char) (hcode : IsRuleCode code) :
    listed (suppress line code) =
      listed line ++ (code ++ (behind line).takeWhile isDigit) :: listedBehind line := by
  rw [listed, parts, find?_suppress line code hcode, Option.getD_some, Parts.withCode]
  simp only [List.map_append, map_code_widen, allCodes_append code _ hcode]
  rfl

/-! ## Places -/

/-- A code keeps its place when more codes follow. -/
theorem codeFrom?_widen (gap : List Char) (codes more : List ListedCode) (start character : Nat)
    (c : List Char) (h : codeFrom? start character codes = some c) :
    codeFrom? start character (widen gap codes ++ more) = some c := by
  fun_induction widen gap codes generalizing start with
  | case1 => cases h
  | case2 d =>
    simp only [List.cons_append, codeFrom?] at h ⊢
    split at h
    · next hin => rw [if_pos hin, h]
    · cases h
  | case3 d e codes ih =>
    rw [codeFrom?] at h
    rw [List.cons_append, codeFrom?]
    split at h
    · next hin => rw [if_pos hin, h]
    · next hout => rw [if_neg hout, ih _ h]

theorem mem_of_codeFrom? (codes : List ListedCode) (start character : Nat) (c : List Char)
    (h : codeFrom? start character codes = some c) : c ∈ codes.map ListedCode.code := by
  induction codes generalizing start with
  | nil => cases h
  | cons d codes ih =>
    rw [codeFrom?] at h
    split at h
    · obtain rfl := Option.some.inj h
      exact List.mem_cons_self
    · exact List.mem_cons_of_mem _ (ih _ h)

theorem utf16Size_pos (text : List Char) (h : text ≠ []) : 0 < utf16Size text := by
  obtain ⟨c, text, rfl⟩ := List.exists_cons_of_ne_nil h
  have := utf16Width_pos c
  rw [utf16Size_cons]
  omega

/-- Each listed code lies where it starts, as far as positions reach. -/
theorem exists_codeFrom? (codes : List ListedCode) (start : Nat) (c : List Char)
    (hvalid : ∀ d ∈ codes, d.Valid) (hsize : start + utf16Size (codeChars codes) ≤ maxCount)
    (hc : c ∈ codes.map ListedCode.code) :
    ∃ character, start ≤ character ∧ codeFrom? start character codes = some c := by
  induction codes generalizing start with
  | nil => cases hc
  | cons d codes ih =>
    rw [codeChars_cons, utf16Size_append, utf16Size_append] at hsize
    obtain ⟨x, code, hcode, -⟩ := (hvalid d List.mem_cons_self).code.exists_cons
    have hpos : 0 < utf16Size d.code := utf16Size_pos d.code (hcode ▸ List.cons_ne_nil x code)
    rcases List.mem_cons.1 hc with rfl | hc
    · refine ⟨start, Nat.le_refl start, ?_⟩
      rw [codeFrom?, if_pos]
      unfold clampCount
      omega
    · obtain ⟨character, hle, hfrom⟩ := ih (start + utf16Size d.code + utf16Size d.gap)
        (fun e he => hvalid e (List.mem_cons_of_mem d he)) (by omega) hc
      refine ⟨character, by omega, ?_⟩
      rw [codeFrom?, if_neg, hfrom]
      unfold clampCount
      omega

/-- A line that positions reach covers the codes it lists. -/
theorem exists_codeAt?_iff (line c : List Char) (hsize : utf16Size line ≤ maxCount) :
    (∃ character, codeAt? line character = some c) ↔ c ∈ listed line := by
  cases hp : find? line with
  | none => simp [codeAt?, listed, parts, hp]
  | some p =>
    have hlisted : listed line = p.codes.map ListedCode.code := by
      rw [listed, parts, hp, Option.getD_some]
    have hat : ∀ character, codeAt? line character =
        codeFrom? (utf16Size p.front + utf16Size p.colon) character p.codes := fun character => by
      rw [codeAt?, hp]
      rfl
    simp only [hat, hlisted]
    constructor
    · rintro ⟨character, hfrom⟩
      exact mem_of_codeFrom? p.codes _ character c hfrom
    · intro hc
      rw [← chars_of_find? line p hp, Parts.chars, utf16Size_append, utf16Size_append,
        utf16Size_append] at hsize
      obtain ⟨character, -, hfrom⟩ := exists_codeFrom? p.codes
        (utf16Size p.front + utf16Size p.colon) c (valid_of_find? line p hp) (by omega) hc
      exact ⟨character, hfrom⟩

theorem codeAt?_suppress (line code : List Char) (character : Nat) (c : List Char)
    (hcode : IsRuleCode code) (h : codeAt? line character = some c) :
    codeAt? (suppress line code) character = some c := by
  obtain ⟨p, hp, hfrom⟩ := Option.bind_eq_some_iff.1 h
  have hne : p.codes ≠ [] := by
    rintro hnil
    rw [hnil] at hfrom
    cases hfrom
  have hparts : parts line = p := by rw [parts, hp, Option.getD_some]
  rw [codeAt?, find?_suppress line code hcode, hparts, Parts.withCode, if_neg hne]
  exact codeFrom?_widen ", ".toList p.codes _ _ character c hfrom

/-- A line with a code added covers that code unless the digits behind it have become part of it and
the line lists it nowhere else. What the line covered before, it covers at the same places. -/
theorem covers_suppress_iff (line code : List Char) (hcode : IsRuleCode code) :
    (utf16Size (suppress line code) ≤ maxCount →
      ((∃ character, codeAt? (suppress line code) character = some code) ↔
        (∀ d, (behind line).head? = some d → isDigit d = false) ∨ code ∈ listed line ∨
          code ∈ listedBehind line)) ∧
    ∀ character c, codeAt? line character = some c →
      codeAt? (suppress line code) character = some c := by
  constructor
  · intro hsize
    have hself : code = code ++ (behind line).takeWhile isDigit ↔
        ∀ d, (behind line).head? = some d → isDigit d = false := by
      rw [List.self_eq_append_right, takeWhile_eq_nil_iff]
    rw [exists_codeAt?_iff _ code hsize, listed_suppress line code hcode, List.mem_append,
      List.mem_cons, hself]
    exact or_left_comm
  · intro character c h
    exact codeAt?_suppress line code character c hcode h

/-- A line with a reason that starts with a digit. -/
def thirdPartyLine : List Char := "import os  # noqa: E402 3rd party must come later".toList

/-- The digit of the reason becomes part of the code. -/
theorem thirdPartyLine_not_covered :
    IsRuleCode "F401".toList ∧ utf16Size (suppress thirdPartyLine "F401".toList) ≤ maxCount ∧
    suppress thirdPartyLine "F401".toList =
      "import os  # noqa: E402 , F4013rd party must come later".toList ∧
    ¬ ∃ character,
      codeAt? (suppress thirdPartyLine "F401".toList) character = some "F401".toList := by
  have hcode : IsRuleCode "F401".toList :=
    ⟨['F'], ['4', '0', '1'], by decide, by decide, by decide, List.all_eq_true.1 (by decide),
      List.all_eq_true.1 (by decide)⟩
  have hsize : utf16Size (suppress thirdPartyLine "F401".toList) ≤ maxCount := by decide
  refine ⟨hcode, hsize, by decide, fun hcovered => ?_⟩
  rcases ((covers_suppress_iff thirdPartyLine "F401".toList hcode).1 hsize).1 hcovered with
    hdigit | hlisted | hbehind
  · exact absurd (hdigit '3' (by decide)) (by decide)
  · exact absurd hlisted (by decide)
  · exact absurd hbehind (by decide)

end LintBridge.Suppression
