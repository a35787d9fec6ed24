import LintBridge.Proofs.Version.Strict

/-!
Reading what a tool prints about itself is reading a version in its strict form.

`token?` is the word that states the version, and `Pads` says how its numbers are filled up.
`find?_eq_some_iff` says that a text has the version that the strict form has, once the numbers that
the word leaves out are filled up with zeros; so a text that names the tool and a version as it is
written has that version, whatever follows.
-/

namespace LintBridge.Version

/-- The words of a text: what stands between its blanks. -/
def words (text : List Char) : List (List Char) := (text.splitOnP isBlank).filter (· ≠ [])

/-- The word that states a version: the first one, or the second if the first is the name of the
tool in any case; the letters `v` at its start do not count. -/
def token? (text : List Char) : Option (List Char) :=
  let named := (words text).head?.any fun word => word.map Char.toLower = toolName
  (words text)[if named then 1 else 0]?.map (·.dropWhile (· = 'v'))

/-- A word cut at its first `-` or `+`. -/
structure Cuts (word core suffix : List Char) : Prop where
  split : word = core ++ suffix
  unmarked : ∀ c ∈ core, c ≠ '-' ∧ c ≠ '+'
  marked : ∀ c, suffix.head? = some c → c = '-' ∨ c = '+'

/-- One to three numbers in digits, with dots between them, and the same with zeros for those that
are left out. -/
def Pads (core padded : List Char) : Prop :=
  ∃ pieces : List (List Char), core = joinWith ['.'] pieces ∧ 1 ≤ pieces.length ∧
    pieces.length ≤ 3 ∧ (∀ piece ∈ pieces, piece ≠ [] ∧ ∀ c ∈ piece, isDigit c = true) ∧
    padded = joinWith ['.'] (pieces ++ List.replicate (3 - pieces.length) ['0'])

/-! ## Words -/

theorem words_cons_blank (c : Char) (text : List Char) (hc : isBlank c = true) :
    words (c :: text) = words text := by
  rw [words, List.splitOnP_cons_eq_if_modifyHead, if_pos hc]
  rfl

/-- A run of characters that are not blank, up to a blank or the end, is a word. -/
theorem words_run (word rest : List Char) (hne : word ≠ [])
    (hword : ∀ c ∈ word, isBlank c = false)
    (hrest : ∀ c, rest.head? = some c → isBlank c = true) :
    words (word ++ rest) = word :: words rest := by
  cases rest with
  | nil => simp [words, List.splitOnP_eq_singleton hword, hne]
  | cons c rest =>
    have hc := hrest c rfl
    rw [words_cons_blank c rest hc, words, List.splitOnP_append_cons_of_forall_mem hword c hc]
    simp [words, hne]

theorem words_trimStart (text : List Char) : words (trimStart text) = words text := by
  induction text with
  | nil => rfl
  | cons c text ih =>
    rw [trimStart]
    cases hc : isBlank c with
    | true => rw [List.dropWhile_cons_of_pos hc, words_cons_blank c text hc, ← ih, trimStart]
    | false => rw [List.dropWhile_cons_of_neg (by rw [hc]; exact Bool.false_ne_true)]

theorem words_of_firstWord?_none (text : List Char) (h : firstWord? text = none) :
    words text = [] := by
  rw [← words_trimStart]
  unfold firstWord? at h
  cases htrim : trimStart text with
  | nil => rfl
  | cons c after =>
    rw [htrim] at h
    cases h

theorem words_of_firstWord? (text word rest : List Char) (h : firstWord? text = some (word, rest)) :
    words text = word :: words rest := by
  rw [← words_trimStart]
  unfold firstWord? at h
  cases htrim : trimStart text with
  | nil =>
    rw [htrim] at h
    cases h
  | cons c after =>
    rw [htrim] at h
    obtain ⟨rfl, rfl⟩ := Prod.mk.inj (Option.some.inj h)
    have hc : isBlank c = false := head?_dropWhile isBlank text c (congrArg List.head? htrim)
    have hrun := words_run ((c :: after).takeWhile (!isBlank ·))
      ((c :: after).dropWhile (!isBlank ·))
      (by simp [hc])
      (fun d hd => by simpa using List.all_eq_true.1 (List.all_takeWhile (l := c :: after)) d hd)
      (fun d hd => by simpa using head?_dropWhile _ (c :: after) d hd)
    rwa [List.takeWhile_append_dropWhile] at hrun

theorem token?_eq (text : List Char) :
    token? text = (versionWord? text).map (·.dropWhile (· = 'v')) := by
  rw [token?, versionWord?]
  cases hfirst : firstWord? text with
  | none => simp [words_of_firstWord?_none text hfirst]
  | some found =>
    obtain ⟨word, rest⟩ := found
    rw [words_of_firstWord? text word rest hfirst]
    by_cases hname : word.map Char.toLower = toolName
    · cases hsecond : firstWord? rest with
      | none => simp [hname, hsecond, words_of_firstWord?_none rest hsecond]
      | some next => simp [hname, hsecond, words_of_firstWord? rest next.1 next.2 hsecond]
    · simp [hname]

theorem find?_eq (text : List Char) : find? text = (token? text).bind ofLooseWord? := by
  rw [token?_eq, find?]
  cases versionWord? text <;> rfl

/-! ## Cutting a word -/

theorem exists_cuts (word : List Char) : ∃ core suffix, Cuts word core suffix := by
  let plain : Char → Bool := fun c => !(c == '-' || c == '+')
  refine ⟨word.takeWhile plain, word.dropWhile plain, List.takeWhile_append_dropWhile.symm,
    fun c hc => ?_, fun c hc => ?_⟩
  · simpa [plain] using List.all_eq_true.1 (List.all_takeWhile (l := word)) c hc
  · have hhead := head?_dropWhile plain word c hc
    simpa only [plain, Bool.not_eq_false', Bool.or_eq_true, beq_iff_eq] using hhead

theorem Cuts.takeWhile_eq {word core suffix : List Char} (h : Cuts word core suffix) :
    word.takeWhile (fun c => !(c == '-' || c == '+')) = core ∧
      word.dropWhile (fun c => !(c == '-' || c == '+')) = suffix := by
  have hcore : ∀ c ∈ core, (!(c == '-' || c == '+')) = true := fun c hc => by
    simpa using h.unmarked c hc
  have hsuffix : ∀ c, suffix.head? = some c → (!(c == '-' || c == '+')) = false := by
    intro c hc
    rcases h.marked c hc with rfl | rfl <;> rfl
  rw [h.split]
  exact ⟨takeWhile_run _ core suffix hcore hsuffix, dropWhile_run _ core suffix hcore hsuffix⟩

theorem cuts_chars (v : Version) (hv : v.WellFormed) :
    Cuts v.chars (joinWith ['.'] v.numbers)
      (markedChars '-' (v.pre.map PreId.chars) ++ markedChars '+' (v.build.map BuildId.chars)) := by
  have hd := divides_chars v hv
  refine ⟨chars_eq v, hd.unmarked, fun c hc => ?_⟩
  rw [List.head?_append] at hc
  cases hpre : (markedChars '-' (v.pre.map PreId.chars)).head? with
  | none =>
    rw [hpre] at hc
    exact .inr (hd.plus c hc)
  | some d =>
    rw [hpre] at hc
    obtain rfl := Option.some.inj hc
    exact .inl (hd.hyphen d hpre)

/-! ## Numbers that are left out -/

theorem padNumbers?_eq_some_iff (core padded : List Char) :
    padNumbers? core = some padded ↔ Pads core padded := by
  simp only [padNumbers?, Option.ite_none_right_eq_some, List.all_eq_true, Bool.and_eq_true,
    decide_eq_true_eq, Option.some.injEq]
  constructor
  · rintro ⟨⟨hthree, hall⟩, rfl⟩
    have hpos := List.length_pos_iff.2 (splitAtChar_ne_nil '.' core)
    exact ⟨_, (joinWith_splitAtChar '.' core).symm, hpos, hthree, hall, rfl⟩
  · rintro ⟨pieces, rfl, hpos, hthree, hall, rfl⟩
    have hdots : ∀ piece ∈ pieces, '.' ∉ piece := fun piece hpiece hmem =>
      absurd ((hall piece hpiece).2 '.' hmem) (by decide)
    rw [splitAtChar_joinWith '.' pieces (List.length_pos_iff.1 hpos) hdots]
    exact ⟨⟨hthree, hall⟩, rfl⟩

theorem Pads.unique {core padded other : List Char} (h : Pads core padded) (h' : Pads core other) :
    padded = other := by
  rw [← padNumbers?_eq_some_iff] at h h'
  exact Option.some.inj (h.symm.trans h')

/-- In the strict form no number is left out. -/
theorem pads_of_ofChars? {word core suffix : List Char} (h : Cuts word core suffix) (v : Version)
    (hread : ofChars? word = some v) : Pads core core := by
  obtain ⟨hv, rfl⟩ := (ofChars?_eq_some_iff word v).1 hread
  obtain rfl := h.takeWhile_eq.1.symm.trans (cuts_chars v hv).takeWhile_eq.1
  exact ⟨v.numbers, rfl, by simp [numbers], by simp [numbers], isDigit_of_mem_numbers v, rfl⟩

/-- A word is read as the strict form that it has once its numbers are filled up. -/
theorem ofLooseWord?_eq_some_iff {word core suffix : List Char} (h : Cuts word core suffix)
    (v : Version) :
    ofLooseWord? word = some v ↔
      ∃ padded, Pads core padded ∧ ofChars? (padded ++ suffix) = some v := by
  cases hstrict : ofChars? word with
  | some w =>
    have hpads := pads_of_ofChars? h w hstrict
    have hread : ofChars? (core ++ suffix) = some w := by rw [← h.split, hstrict]
    rw [ofLooseWord?, hstrict]
    simp only
    constructor
    · intro hw
      exact ⟨core, hpads, hread.trans hw⟩
    · rintro ⟨padded, hpadded, hv⟩
      rw [hpadded.unique hpads, hread] at hv
      exact hv
  | none =>
    rw [ofLooseWord?, hstrict]
    simp only [h.takeWhile_eq, Option.bind_eq_bind, Option.bind_eq_some_iff,
      padNumbers?_eq_some_iff]

/-! ## What a tool prints -/

theorem isBlank_eq_false (c : Char) (hlow : 33 ≤ c.toNat) (hhigh : c.toNat ≤ 122) :
    isBlank c = false := by
  refine Bool.eq_false_iff.2 fun hblank => ?_
  simp only [isBlank, inRanges, blankRanges, List.any_cons, List.any_nil, Bool.or_eq_true,
    decide_eq_true_eq, Bool.false_eq_true, or_false] at hblank
  omega

theorem isBlank_eq_false_of_isDigit (c : Char) (h : isDigit c = true) : isBlank c = false := by
  have hbounds := toNat_of_isDigit c h
  exact isBlank_eq_false c (by omega) (by omega)

theorem toNat_of_isAlphanum (c : Char) (h : c.isAlphanum = true) :
    48 ≤ c.toNat ∧ c.toNat ≤ 122 := by
  have hrange : ∀ low high : Char, 48 ≤ low.toNat → high.toNat ≤ 122 →
      low.val ≤ c.val ∧ c.val ≤ high.val → 48 ≤ c.toNat ∧ c.toNat ≤ 122 := by
    rintro low high hleast hgreatest ⟨hlow, hhigh⟩
    exact ⟨Nat.le_trans hleast (UInt32.le_iff_toNat_le.1 hlow),
      Nat.le_trans (UInt32.le_iff_toNat_le.1 hhigh) hgreatest⟩
  rcases Bool.or_eq_true_iff.1 h with halpha | hdigit
  · rcases Bool.or_eq_true_iff.1 halpha with hupper | hlower
    · exact hrange 'A' 'Z' (by decide) (by decide) (of_decide_eq_true hupper)
    · exact hrange 'a' 'z' (by decide) (by decide)
        ((Bool.and_eq_true_iff.1 hlower).imp of_decide_eq_true of_decide_eq_true)
  · exact hrange '0' '9' (by decide) (by decide)
      ((Bool.and_eq_true_iff.1 hdigit).imp of_decide_eq_true of_decide_eq_true)

theorem isBlank_eq_false_of_isIdentifier (cs : List Char) (h : isIdentifier cs = true) :
    ∀ c ∈ cs, isBlank c = false := by
  intro c hc
  rcases ((isIdentifier_iff cs).1 h).2 c hc with halnum | rfl
  · have hbounds := toNat_of_isAlphanum c halnum
    exact isBlank_eq_false c (by omega) hbounds.2
  · decide

theorem isBlank_eq_false_of_mem_chars (v : Version) (hv : v.WellFormed) :
    ∀ c ∈ v.chars, isBlank c = false := by
  intro c hc
  rw [chars_eq, List.mem_append, List.mem_append] at hc
  rcases hc with hnumbers | hpre | hbuild
  · rcases mem_joinWith '.' _ hnumbers with rfl | ⟨piece, hpiece, hmem⟩
    · decide
    · exact isBlank_eq_false_of_isDigit c ((isDigit_of_mem_numbers v piece hpiece).2 c hmem)
  · rcases mem_markedChars hpre with rfl | rfl | ⟨piece, hpiece, hmem⟩
    · decide
    · decide
    · obtain ⟨id, hid, rfl⟩ := List.mem_map.1 hpiece
      exact isBlank_eq_false_of_isIdentifier _ (hv.pre id hid).isIdentifier c hmem
  · rcases mem_markedChars hbuild with rfl | rfl | ⟨piece, hpiece, hmem⟩
    · decide
    · decide
    · obtain ⟨id, hid, rfl⟩ := List.mem_map.1 hpiece
      exact isBlank_eq_false_of_isIdentifier _ (hv.build id hid).isIdentifier c hmem

/-- The name of the tool and a version as it is written are the words of what a tool prints. -/
theorem token?_printed (v : Version) (blank : Char) (tail : List Char) (hv : v.WellFormed)
    (hblank : isBlank blank = true) :
    token? ("ruff ".toList ++ (v.chars ++ blank :: tail)) = some v.chars := by
  obtain ⟨d, rest, hcons⟩ := List.exists_cons_of_ne_nil (digits_ne_nil v.major)
  have hd : d ≠ 'v' := by
    rintro rfl
    exact absurd (isDigit_of_mem_digits v.major 'v' (hcons ▸ List.mem_cons_self)) (by decide)
  have hchars : ∃ more, v.chars = d :: more := by
    rw [chars, hcons]
    exact ⟨_, rfl⟩
  obtain ⟨more, hmore⟩ := hchars
  have hsecond := words_run v.chars (blank :: tail) (by rw [hmore]; exact List.cons_ne_nil d more)
    (isBlank_eq_false_of_mem_chars v hv) (by rintro c ⟨⟩; exact hblank)
  have hfirst := words_run toolName (' ' :: (v.chars ++ blank :: tail)) (by decide)
    (isBlank_eq_false_of_isIdentifier toolName (by decide)) (by rintro c ⟨⟩; decide)
  rw [words_cons_blank ' ' _ (by decide), hsecond] at hfirst
  rw [token?, show "ruff ".toList ++ (v.chars ++ blank :: tail) =
    toolName ++ ' ' :: (v.chars ++ blank :: tail) from rfl, hfirst]
  have hname : toolName.map Char.toLower = toolName := by decide
  simp [hname, hmore, hd]

/-- The version of a text is that of its word with the numbers filled up. -/
theorem find?_eq_some_iff (text : List Char) (v : Version) :
    find? text = some v ↔ ∃ word core suffix padded, token? text = some word ∧
      Cuts word core suffix ∧ Pads core padded ∧ ofChars? (padded ++ suffix) = some v := by
  rw [find?_eq, Option.bind_eq_some_iff]
  constructor
  · rintro ⟨word, hword, hread⟩
    obtain ⟨core, suffix, hcuts⟩ := exists_cuts word
    obtain ⟨padded, hpads, hstrict⟩ := (ofLooseWord?_eq_some_iff hcuts v).1 hread
    exact ⟨word, core, suffix, padded, hword, hcuts, hpads, hstrict⟩
  · rintro ⟨word, core, suffix, padded, hword, hcuts, hpads, hstrict⟩
    exact ⟨word, hword, (ofLooseWord?_eq_some_iff hcuts v).2 ⟨padded, hpads, hstrict⟩⟩

/-- A text has the version that the strict form has, once the numbers that its word leaves out are
filled up with zeros. The name of the tool and a version as it is written, with a blank and anything
behind it, have that version. -/
theorem find?_reads_padded :
    (∀ text v, find? text = some v ↔ ∃ word core suffix padded, token? text = some word ∧
      Cuts word core suffix ∧ Pads core padded ∧ ofChars? (padded ++ suffix) = some v) ∧
    ∀ (v : Version) (blank : Char) (tail : List Char), v.WellFormed → isBlank blank = true →
      find? ("ruff ".toList ++ (v.chars ++ blank :: tail)) = some v := by
  refine ⟨find?_eq_some_iff, fun v blank tail hv hblank => ?_⟩
  have hcuts := cuts_chars v hv
  have hread : ofChars? v.chars = some v := (ofChars?_eq_some_iff v.chars v).2 ⟨hv, rfl⟩
  have hpads := pads_of_ofChars? hcuts v hread
  rw [hcuts.split] at hread
  exact (find?_eq_some_iff _ v).2
    ⟨v.chars, _, _, _, token?_printed v blank tail hv hblank, hcuts, hpads, hread⟩

def previewVersion : Version := ⟨0, 3, 0, [.word "dev", .number 2], [.number 7 3]⟩

theorem previewVersion_read :
    previewVersion.WellFormed ∧ previewVersion.chars = "0.3.0-dev.2+007".toList ∧
      find? ("ruff ".toList ++ (previewVersion.chars ++ ' ' :: "(abc 2024-01-01)".toList)) =
        some previewVersion := by
  have hv : previewVersion.WellFormed :=
    ⟨by decide, by decide, by decide,
      List.forall_mem_cons.2 ⟨⟨by decide, by decide⟩, List.forall_mem_singleton.2 trivial⟩,
      List.forall_mem_singleton.2 (by decide : (digits 7).length ≤ 3)⟩
  exact ⟨hv, by decide, find?_reads_padded.2 previewVersion ' ' _ hv (by decide)⟩

/-- One number that is left out, and a fourth one. -/
example : ["RUFF v0.2-rc".toList, "0.1.6.2".toList].map find? =
    [some ⟨0, 2, 0, [.word "rc"], []⟩, none] := by decide

end LintBridge.Version
