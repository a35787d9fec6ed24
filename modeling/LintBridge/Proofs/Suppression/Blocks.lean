import LintBridge.Proofs.Suppression.Maximal
import LintBridge.Proofs.Text.Places

/-!
Where on a line a listed code is found.

A code of the list takes a block of UTF-16 code units. `codeAt?_blocks` says that the blocks are
those of the maximal codes of the list in their order, that they do not meet, and that a code is
found at the units of its block and nowhere else. A line without a list has none.

A number of code units past `maxCount` does not fit a position, so that a code there is not found
(`lateCode_not_found`).
-/

namespace LintBridge

/-- The UTF-16 code units of a character: its number, or two surrogates. -/
def utf16Units (c : Char) : List Nat :=
  if c.toNat < 0x10000 then [c.toNat]
  else [0xD800 + (c.toNat - 0x10000) / 0x400, 0xDC00 + (c.toNat - 0x10000) % 0x400]

/-- The UTF-16 code units of a text. -/
def utf16 (text : List Char) : List Nat := text.flatMap utf16Units

theorem utf16_append (text more : List Char) : utf16 (text ++ more) = utf16 text ++ utf16 more :=
  List.flatMap_append

theorem length_utf16 (text : List Char) : (utf16 text).length = utf16Size text := by
  induction text with
  | nil => rfl
  | cons c text ih =>
    have hwidth : (utf16Units c).length = utf16Width c := by
      unfold utf16Units utf16Width
      split <;> rfl
    rw [utf16, List.flatMap_cons, List.length_append, ← utf16, hwidth, ih, utf16Size_cons]

/-- The code units of a part of a text lie behind those of what stands before it. -/
theorem take_drop_utf16 (before part after : List Char) :
    ((utf16 (before ++ (part ++ after))).drop (utf16Size before)).take (utf16Size part) =
      utf16 part := by
  rw [utf16_append, utf16_append, ← length_utf16 before, List.drop_left, ← length_utf16 part,
    List.take_left]

theorem utf16Size_eq_length (text : List Char) (h : ∀ c ∈ text, c.toNat < 0x10000) :
    utf16Size text = text.length := by
  induction text with
  | nil => rfl
  | cons c text ih =>
    obtain ⟨hc, htext⟩ := List.forall_mem_cons.1 h
    rw [utf16Size_cons, utf16Width, if_pos hc, ih htext, List.length_cons, Nat.add_comm]

namespace Suppression

/-- Code units of a line, from `start` on, and the code that they are. -/
structure Block where
  start : Nat
  code : List Char
  deriving DecidableEq, Repr

def Block.stop (b : Block) : Nat := b.start + b.code.length

def Block.Has (b : Block) (character : Nat) : Prop := b.start ≤ character ∧ character < b.stop

/-- The block of a code of a list; `front` stands before the list. -/
def blockOf (front : List Char) (token : List Char × List Char) : Block :=
  ⟨utf16Size (front ++ token.1), token.2⟩

/-- The maximal codes of a list in the order in which they stand there, each with what stands before
it. -/
structure Tokens (body : List Char) (tokens : List (List Char × List Char)) : Prop where
  mem_iff : ∀ left code, (left, code) ∈ tokens ↔ ∃ right, MaximalCode body left code right
  ordered : tokens.Pairwise fun a b => a.1 ++ a.2 <+: b.1

theorem IsRuleCode.utf16Size_eq {code : List Char} (h : IsRuleCode code) :
    utf16Size code = code.length := by
  refine utf16Size_eq_length code fun c hc => ?_
  rcases h.large_or_digit c hc with hlarge | hdigit
  · have := toNat_of_isLarge c hlarge
    omega
  · have := toNat_of_isDigit c hdigit
    omega

theorem tokens_placed (codes : List ListedCode) (hvalid : ∀ c ∈ codes, c.Valid) :
    Tokens (codeChars codes) (placed [] codes) where
  mem_iff left code := by
    rw [mem_placed_iff codes [] left code hvalid]
    constructor
    · rintro ⟨inner, right, rfl, hmax⟩
      exact ⟨right, hmax⟩
    · rintro ⟨right, hmax⟩
      exact ⟨left, right, rfl, hmax⟩
  ordered := pairwise_placed codes []

/-- A code is found from its first code unit to its last, as far as positions reach. -/
theorem codeFrom?_eq_some_iff (codes : List ListedCode) (front done : List Char) (character : Nat)
    (code : List Char) :
    codeFrom? (utf16Size (front ++ done)) character codes = some code ↔
      character < maxCount ∧ ∃ left, (left, code) ∈ placed done codes ∧
        utf16Size (front ++ left) ≤ character ∧
        character < utf16Size (front ++ left) + utf16Size code := by
  induction codes generalizing done with
  | nil => simp [codeFrom?, placed]
  | cons c codes ih =>
    have hnext : utf16Size (front ++ done) + utf16Size c.code + utf16Size c.gap =
        utf16Size (front ++ (done ++ (c.code ++ c.gap))) := by
      simp only [utf16Size_append]
      omega
    rw [codeFrom?]
    simp only [hnext]
    split
    · next hin =>
      unfold clampCount at hin
      constructor
      · rintro ⟨⟩
        exact ⟨by omega, done, List.mem_cons_self, by omega, by omega⟩
      · rintro ⟨-, left, hmem, hle, -⟩
        rcases List.mem_cons.1 hmem with heq | hlater
        · exact congrArg some (Prod.mk.inj heq).2.symm
        · -- A later code starts behind the code unit that is looked for.
          have hpre := isPrefix_of_mem_placed codes _ _ hlater
          have hsize := utf16Size_le_of_isPrefix ((List.prefix_append_right_inj front).2 hpre)
          rw [← hnext] at hsize
          simp only at hsize
          omega
    · next hout =>
      rw [ih]
      refine and_congr_right fun hlt => exists_congr fun left => and_congr_left fun hin => ?_
      refine ⟨List.mem_cons_of_mem _, fun hmem => (List.mem_cons.1 hmem).resolve_left fun heq => ?_⟩
      obtain ⟨rfl, rfl⟩ := Prod.mk.inj heq
      unfold clampCount at hout
      omega

theorem codeAt?_of_lists (line front body after : List Char) (h : Lists line front body after) :
    ∃ tokens, Tokens body tokens ∧ ∀ character code, codeAt? line character = some code ↔
      character < maxCount ∧ ∃ b ∈ tokens.map (blockOf front), b.code = code ∧ b.Has character := by
  obtain ⟨p, hp, -, rfl, rfl, rfl⟩ := (lists_iff line front body after).1 h
  have htokens := tokens_placed p.codes (valid_of_find? line p hp)
  refine ⟨_, htokens, fun character code => ?_⟩
  have hat : codeAt? line character =
      codeFrom? (utf16Size ((p.front ++ p.colon) ++ [])) character p.codes := by
    rw [codeAt?, hp, List.append_nil, utf16Size_append]
    rfl
  rw [hat, codeFrom?_eq_some_iff]
  refine and_congr_right fun _ => ?_
  constructor
  · rintro ⟨left, hmem, hle, hlt⟩
    obtain ⟨right, hmax⟩ := (htokens.mem_iff left code).1 hmem
    rw [hmax.rule.utf16Size_eq] at hlt
    exact ⟨_, List.mem_map_of_mem hmem, rfl, hle, hlt⟩
  · rintro ⟨b, hb, rfl, hle, hlt⟩
    obtain ⟨⟨left, code⟩, hmem, rfl⟩ := List.mem_map.1 hb
    obtain ⟨right, hmax⟩ := (htokens.mem_iff left code).1 hmem
    have hsize : utf16Size code = code.length := hmax.rule.utf16Size_eq
    exact ⟨left, hmem, hle, hsize ▸ hlt⟩

theorem Tokens.block_of_mem {line front body after : List Char}
    {tokens : List (List Char × List Char)} (h : Tokens body tokens)
    (hsplit : line = front ++ (body ++ after)) (b : Block) (hb : b ∈ tokens.map (blockOf front)) :
    IsRuleCode b.code ∧ utf16Size front ≤ b.start ∧ b.stop ≤ utf16Size (front ++ body) ∧
      ((utf16 line).drop b.start).take b.code.length = utf16 b.code := by
  obtain ⟨⟨left, code⟩, hmem, rfl⟩ := List.mem_map.1 hb
  obtain ⟨right, hmax⟩ := (h.mem_iff left code).1 hmem
  have hsize := hmax.rule.utf16Size_eq
  obtain rfl := hmax.split
  have hslice := take_drop_utf16 (front ++ left) code (right ++ after)
  simp only [blockOf, Block.stop, ← hsize]
  refine ⟨hmax.rule, ?_, ?_, ?_⟩
  · rw [utf16Size_append]
    omega
  · simp only [utf16Size_append]
    omega
  · rw [← hslice, hsplit]
    simp only [List.append_assoc]

theorem Tokens.pairwise_blocks {body : List Char} {tokens : List (List Char × List Char)}
    (h : Tokens body tokens) (front : List Char) :
    (tokens.map (blockOf front)).Pairwise fun a b => a.stop ≤ b.start := by
  refine List.pairwise_map.2 (h.ordered.imp_of_mem fun {a b} ha _ hle => ?_)
  obtain ⟨right, hmax⟩ := (h.mem_iff a.1 a.2).1 ha
  have hsize := utf16Size_le_of_isPrefix ((List.prefix_append_right_inj front).2 hle)
  rw [← List.append_assoc, utf16Size_append, hmax.rule.utf16Size_eq] at hsize
  exact hsize

/-- A code is found on a line at the blocks of the maximal codes of the list that the line has, and
nowhere else. -/
theorem codeAt?_blocks (line : List Char) :
    (∀ front body after, Lists line front body after →
      ∃ tokens, Tokens body tokens ∧
        (tokens.map (blockOf front)).Pairwise (fun a b => a.stop ≤ b.start) ∧
        (∀ b ∈ tokens.map (blockOf front), IsRuleCode b.code ∧ utf16Size front ≤ b.start ∧
          b.stop ≤ utf16Size (front ++ body) ∧
          ((utf16 line).drop b.start).take b.code.length = utf16 b.code) ∧
        (∀ character code, codeAt? line character = some code ↔
          character < maxCount ∧
            ∃ b ∈ tokens.map (blockOf front), b.code = code ∧ b.Has character) ∧
        (utf16Size line ≤ maxCount → ∀ character code, codeAt? line character = some code ↔
          ∃ b ∈ tokens.map (blockOf front), b.code = code ∧ b.Has character)) ∧
    ((∀ front body after, ¬ Lists line front body after) →
      ∀ character, codeAt? line character = none) := by
  constructor
  · intro front body after hlists
    obtain ⟨tokens, htokens, hat⟩ := codeAt?_of_lists line front body after hlists
    have hblock := htokens.block_of_mem hlists.split
    refine ⟨tokens, htokens, htokens.pairwise_blocks front, hblock, hat,
      fun hsize character code => ?_⟩
    rw [hat, and_iff_right_iff_imp]
    rintro ⟨b, hb, -, -, hlt⟩
    have hstop := (hblock b hb).2.2.1
    have hbody : utf16Size (front ++ body) ≤ utf16Size line := by
      rw [hlists.split, ← List.append_assoc]
      exact utf16Size_le_of_isPrefix (List.prefix_append _ after)
    omega
  · intro hnone character
    rw [codeAt?]
    cases hp : find? line with
    | none => rfl
    | some p =>
      by_cases hcodes : p.codes = []
      · simp only [Option.bind_eq_bind, Option.bind_some, hcodes, codeFrom?]
      · exact absurd ((lists_iff line _ _ _).2 ⟨p, hp, hcodes, rfl, rfl, rfl⟩) (hnone _ _ _)

/-- What stands before a list of codes, with a character of two code units. -/
def astralFront : List Char := "s = '😀' # noqa: ".toList

def touchingLine : List Char := astralFront ++ "A1B22".toList

theorem touchingLine_blocks :
    Lists touchingLine astralFront "A1B22".toList [] ∧
      [16, 17, 18, 19, 21, 22].map (codeAt? touchingLine) =
        [none, some "A1".toList, some "A1".toList, some "B22".toList, some "B22".toList, none] ∧
      ∃ tokens, Tokens "A1B22".toList tokens ∧ ∀ character code,
        codeAt? touchingLine character = some code ↔
          ∃ b ∈ tokens.map (blockOf astralFront), b.code = code ∧ b.Has character := by
  have hlists : Lists touchingLine astralFront "A1B22".toList [] :=
    (lists_iff ..).2 ⟨⟨"s = '😀' # noqa".toList, ": ".toList,
      [⟨"A1".toList, []⟩, ⟨"B22".toList, []⟩], []⟩, by decide, by decide, by decide, by decide, rfl⟩
  obtain ⟨tokens, htokens, -, -, -, hat⟩ := (codeAt?_blocks touchingLine).1 _ _ _ hlists
  exact ⟨hlists, by decide, tokens, htokens, hat (by decide)⟩

def indentedFront (n : Nat) : List Char := List.replicate n ' ' ++ "# noqa: ".toList

theorem isRuleCode_a1 : IsRuleCode "A1".toList :=
  ⟨['A'], ['1'], rfl, List.cons_ne_nil _ _, List.cons_ne_nil _ _, List.all_eq_true.1 rfl,
    List.all_eq_true.1 rfl⟩

theorem lists_indented (n : Nat) :
    Lists (indentedFront n ++ "A1".toList) (indentedFront n) "A1".toList [] where
  split := by rw [List.append_nil]
  mark := by
    refine ⟨List.replicate n ' ', "# noqa".toList, ": ".toList, rfl, ?_, ?_, [' '], rfl,
      by decide, List.all_eq_true.1 rfl⟩
    · exact unmarked_of_not_mem _ fun hmem =>
        absurd (List.eq_of_mem_replicate hmem) (by decide)
    · exact ⟨"# noqa".toList, by decide, spells_self _ (List.all_eq_true.1 rfl)⟩
  list := ⟨[⟨"A1".toList, []⟩], List.cons_ne_nil _ _, by
    simp only [List.mem_singleton, forall_eq]
    exact ⟨isRuleCode_a1, nofun⟩, rfl⟩
  longest longer _ hpre := hpre.length_le

theorem utf16Size_indentedFront (n : Nat) : utf16Size (indentedFront n) = n + 8 := by
  rw [indentedFront, utf16Size_append, utf16Size_eq_length _ fun c hc => ?_, List.length_replicate]
  · rfl
  · rw [List.eq_of_mem_replicate hc]
    decide

/-- The code of this list starts at the greatest number that a position can carry. It is not found
there. -/
theorem lateCode_not_found :
    Lists (indentedFront 4294967287 ++ "A1".toList) (indentedFront 4294967287) "A1".toList [] ∧
    ¬ ∃ tokens, Tokens "A1".toList tokens ∧ ∀ character code, character ≤ maxCount →
      (codeAt? (indentedFront 4294967287 ++ "A1".toList) character = some code ↔
        ∃ b ∈ tokens.map (blockOf (indentedFront 4294967287)), b.code = code ∧
          b.Has character) := by
  refine ⟨lists_indented _, ?_⟩
  rintro ⟨tokens, htokens, hat⟩
  have hmax : MaximalCode "A1".toList [] "A1".toList [] :=
    (maximalCode_iff _ _ _ _).2 ⟨rfl, isRuleCode_a1, nofun, nofun⟩
  have hmem := (htokens.mem_iff [] "A1".toList).2 ⟨[], hmax⟩
  have hstart : (blockOf (indentedFront 4294967287) ([], "A1".toList)).start = maxCount := by
    rw [blockOf, List.append_nil, utf16Size_indentedFront]
    rfl
  have hfound := (hat maxCount "A1".toList (Nat.le_refl _)).2
    ⟨_, List.mem_map_of_mem hmem, rfl, Nat.le_of_eq hstart, by
      rw [Block.stop, hstart]
      exact Nat.lt_add_of_pos_right (by decide)⟩
  obtain ⟨_, -, hiff⟩ := codeAt?_of_lists _ _ _ _ (lists_indented 4294967287)
  exact absurd ((hiff _ _).1 hfound).1 (Nat.lt_irrefl _)

end Suppression

end LintBridge
