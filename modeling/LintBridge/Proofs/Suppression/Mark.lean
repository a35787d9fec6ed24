import LintBridge.Suppression

/-!
Where a suppression is found in a line.

A mark is what `afterMark?` reads over: `# `, perhaps the name of a tool, and the word that
suppresses, in any case (`IsMark`). A line without a mark is not taken apart
(`find?_of_unmarked`), and another one is taken apart after its first mark, whatever follows it
(`find?_mark`). So a change behind the first mark leaves the place where it is found, and marks do
not overlap, as `#` only starts one.
-/

namespace LintBridge.Suppression

/-- A text that spells a word in any case. -/
inductive Spells : List Char → List Char → Prop
  | nil : Spells [] []
  | cons (w c : Char) {word text : List Char} : matchesLetter w c = true → Spells word text →
      Spells (w :: word) (c :: text)

/-- What a mark spells: it may name one of the tools. -/
def markWords : List (List Char) :=
  toolMarks.map fun tool => "# ".toList ++ (tool ++ "noqa".toList)

def IsMark (mark : List Char) : Prop := ∃ word ∈ markWords, Spells word mark

def Unmarked (text : List Char) : Prop := ∀ mark, IsMark mark → ¬ mark <:+: text

/-! ## Words in any case -/

theorem Spells.length_eq {word text : List Char} (h : Spells word text) :
    text.length = word.length := by
  induction h with
  | nil => rfl
  | cons w c _ _ ih => rw [List.length_cons, List.length_cons, ih]

theorem spells_self (word : List Char) (h : ∀ c ∈ word, matchesLetter c c = true) :
    Spells word word := by
  induction word with
  | nil => exact .nil
  | cons c word ih =>
    obtain ⟨hc, hword⟩ := List.forall_mem_cons.1 h
    exact .cons c c hc (ih hword)

theorem Spells.getElem? {word text : List Char} (h : Spells word text) (n : Nat) (w : Char)
    (hw : word[n]? = some w) : ∃ c, text[n]? = some c ∧ matchesLetter w c = true := by
  induction h generalizing n with
  | nil => cases hw
  | cons v c hc _ ih =>
    cases n with
    | zero =>
      obtain rfl := Option.some.inj hw
      exact ⟨c, rfl, hc⟩
    | succ n => exact ih n hw

theorem eq_hash_of_matchesLetter (c : Char) (h : matchesLetter '#' c = true) : c = '#' := by
  have hlower : c.toLower = '#' := by simpa [matchesLetter] using h
  unfold Char.toLower at hlower
  split at hlower
  · next hc =>
    have hlow : 65 ≤ c.val.toNat := UInt32.le_iff_toNat_le.1 hc.1
    have hhigh : c.val.toNat ≤ 90 := UInt32.le_iff_toNat_le.1 hc.2
    have hsum : (c.val.toNat + 32) % 2 ^ 32 = 35 := congrArg (fun d : Char => d.val.toNat) hlower
    omega
  · exact hlower

theorem Spells.hash_mem {word text : List Char} (h : Spells word text) (hmem : '#' ∈ text) :
    '#' ∈ word := by
  induction h with
  | nil => exact hmem
  | cons w c hc _ ih =>
    rcases List.mem_cons.1 hmem with rfl | hrest
    · have hw : '#'.toLower = w := by simpa [matchesLetter] using hc
      exact hw ▸ List.mem_cons_self
    · exact List.mem_cons_of_mem w (ih hrest)

/-- A character is one letter at most, but for the sign of the unit kelvin. -/
theorem eq_of_matchesLetter (w v c : Char) (hw : w ≠ 'k') (hv : v ≠ 'k')
    (hwc : matchesLetter w c = true) (hvc : matchesLetter v c = true) : w = v := by
  simp only [matchesLetter, Bool.or_eq_true, Bool.and_eq_true, beq_iff_eq, hw, hv, false_and,
    or_false] at hwc hvc
  rw [← hwc, hvc]

theorem afterWord?_spelt (word spelt rest : List Char) (h : Spells word spelt) :
    afterWord? word (spelt ++ rest) = some rest := by
  induction h with
  | nil => cases rest <;> rfl
  | cons w c hc _ ih => rw [List.cons_append, afterWord?, if_pos hc, ih]

theorem exists_of_afterWord? (word text rest : List Char) (h : afterWord? word text = some rest) :
    ∃ spelt, Spells word spelt ∧ text = spelt ++ rest := by
  induction word generalizing text with
  | nil => cases text <;> cases h <;> exact ⟨[], .nil, rfl⟩
  | cons w word ih =>
    cases text with
    | nil => cases h
    | cons c text =>
      rw [afterWord?] at h
      split at h
      · next hc =>
        obtain ⟨spelt, hspelt, htext⟩ := ih text h
        exact ⟨c :: spelt, .cons w c hc hspelt, by rw [htext, List.cons_append]⟩
      · cases h

theorem afterWord?_append (first second text : List Char) :
    afterWord? (first ++ second) text = (afterWord? first text).bind (afterWord? second) := by
  induction first generalizing text with
  | nil => cases text <;> rfl
  | cons w first ih =>
    cases text with
    | nil => rfl
    | cons c text =>
      rw [List.cons_append, afterWord?, afterWord?]
      split
      · exact ih text
      · rfl

/-! ## Marks -/

theorem afterMark?_eq (text : List Char) :
    afterMark? text = markWords.findSome? (afterWord? · text) := by
  have hword : ∀ tool, afterWord? ("# ".toList ++ (tool ++ "noqa".toList)) text =
      (afterWord? "# ".toList text).bind fun rest =>
        (afterWord? tool rest).bind (afterWord? "noqa".toList) := fun tool => by
    rw [afterWord?_append]
    exact congrArg _ (funext (afterWord?_append tool "noqa".toList))
  rw [afterMark?, markWords, List.findSome?_map, Function.comp_def, funext hword]
  cases afterWord? "# ".toList text <;> rfl

theorem eq_of_spells (word other mark mark' rest rest' : List Char) (hword : word ∈ markWords)
    (hother : other ∈ markWords) (h : Spells word mark) (h' : Spells other mark')
    (heq : mark ++ rest = mark' ++ rest') : word = other := by
  -- The words differ in the letter after the blank.
  have hletter : ∀ word ∈ markWords, word[2]? ≠ none ∧ word[2]? ≠ some 'k' := by decide
  have hdiffer : ∀ word ∈ markWords, ∀ other ∈ markWords, word[2]? = other[2]? → word = other := by
    decide
  obtain ⟨w, hw⟩ := Option.ne_none_iff_exists'.1 (hletter word hword).1
  obtain ⟨v, hv⟩ := Option.ne_none_iff_exists'.1 (hletter other hother).1
  have hwk : w ≠ 'k' := fun h => (hletter word hword).2 (h ▸ hw)
  have hvk : v ≠ 'k' := fun h => (hletter other hother).2 (h ▸ hv)
  obtain ⟨c, hc, hwc⟩ := h.getElem? 2 w hw
  obtain ⟨d, hd, hvd⟩ := h'.getElem? 2 v hv
  have hcd : c = d := by
    have hc' : (mark ++ rest)[2]? = some c := by
      rw [List.getElem?_append_left (List.getElem?_eq_some_iff.1 hc).1, hc]
    have hd' : (mark' ++ rest')[2]? = some d := by
      rw [List.getElem?_append_left (List.getElem?_eq_some_iff.1 hd).1, hd]
    rw [heq, hd'] at hc'
    exact (Option.some.inj hc').symm
  subst hcd
  exact hdiffer word hword other hother (by rw [hw, hv, eq_of_matchesLetter w v c hwk hvk hwc hvd])

theorem afterMark?_mark (mark rest : List Char) (h : IsMark mark) :
    afterMark? (mark ++ rest) = some rest := by
  obtain ⟨word, hword, hspells⟩ := h
  have hread := afterWord?_spelt word mark rest hspells
  rw [afterMark?_eq]
  cases hfound : markWords.findSome? (afterWord? · (mark ++ rest)) with
  | none =>
    have hnone := List.findSome?_eq_none_iff.1 hfound word hword
    rw [hread] at hnone
    cases hnone
  | some found =>
    obtain ⟨other, hother, hafter⟩ := List.exists_of_findSome?_eq_some hfound
    obtain ⟨spelt, hspelt, htext⟩ := exists_of_afterWord? other _ found hafter
    obtain rfl := eq_of_spells word other mark spelt rest found hword hother hspells hspelt htext
    rw [hread] at hafter
    exact hafter.symm

theorem exists_of_afterMark? (text rest : List Char) (h : afterMark? text = some rest) :
    ∃ mark, IsMark mark ∧ text = mark ++ rest := by
  rw [afterMark?_eq] at h
  obtain ⟨word, hword, hafter⟩ := List.exists_of_findSome?_eq_some h
  obtain ⟨mark, hmark, htext⟩ := exists_of_afterWord? word text rest hafter
  exact ⟨mark, ⟨word, hword, hmark⟩, htext⟩

theorem IsMark.exists_cons {mark : List Char} (h : IsMark mark) :
    ∃ tail, mark = '#' :: tail ∧ '#' ∉ tail := by
  obtain ⟨word, hword, hspells⟩ := h
  have hhash : ∀ word ∈ markWords, word.head? = some '#' ∧ '#' ∉ word.tail := by decide
  obtain ⟨hhead, htail⟩ := hhash word hword
  cases hspells with
  | nil => cases hhead
  | cons w c hc hrest =>
    obtain rfl := Option.some.inj hhead
    exact ⟨_, by rw [eq_hash_of_matchesLetter c hc], fun hmem => htail (hrest.hash_mem hmem)⟩

theorem IsMark.getLast?_ne {mark : List Char} (h : IsMark mark) : mark.getLast? ≠ some ' ' := by
  obtain ⟨word, hword, hspells⟩ := h
  have hlast : ∀ word ∈ markWords, word[word.length - 1]? = some 'a' := by decide
  obtain ⟨c, hc, hletter⟩ := hspells.getElem? _ 'a' (hlast word hword)
  rw [List.getLast?_eq_getElem?, hspells.length_eq, hc]
  rintro ⟨⟩
  exact absurd hletter (by decide)

theorem IsMark.isPrefix_of_append {mark before rest : List Char} (h : IsMark mark)
    (hne : before ≠ []) (hp : mark <+: before ++ '#' :: rest) : mark <+: before := by
  rcases List.prefix_or_prefix_of_prefix hp (List.prefix_append before _) with hle | ⟨more, hmore⟩
  · exact hle
  · obtain ⟨tail, hcons, hhash⟩ := h.exists_cons
    obtain ⟨after, hafter⟩ := hp
    cases before with
    | nil => exact absurd rfl hne
    | cons c before =>
      cases more with
      | nil =>
        rw [List.append_nil] at hmore
        exact hmore ▸ List.prefix_rfl
      | cons d more =>
        rw [← hmore, List.append_assoc] at hafter
        obtain rfl : d = '#' := (List.cons.inj (List.append_cancel_left hafter)).1
        have htail := (List.cons.inj (hmore.trans hcons)).2
        exact absurd (htail ▸ List.mem_append_right before List.mem_cons_self) hhash

theorem afterMark?_eq_none_of_unmarked (text rest : List Char) (hu : Unmarked text)
    (hne : text ≠ []) (hrest : ∀ c, rest.head? = some c → c = '#') :
    afterMark? (text ++ rest) = none := by
  cases hread : afterMark? (text ++ rest) with
  | none => rfl
  | some after =>
    obtain ⟨mark, hmark, heq⟩ := exists_of_afterMark? _ after hread
    have hp : mark <+: text ++ rest := ⟨after, heq.symm⟩
    refine absurd (List.IsPrefix.isInfix ?_) (hu mark hmark)
    cases rest with
    | nil => rwa [List.append_nil] at hp
    | cons c rest =>
      obtain rfl := hrest c rfl
      exact hmark.isPrefix_of_append hne hp

theorem Unmarked.of_cons {c : Char} {text : List Char} (h : Unmarked (c :: text)) :
    Unmarked text := fun mark hmark hin =>
  h mark hmark (hin.trans (List.suffix_cons c text).isInfix)

/-- A text is unmarked if no mark starts with its first character and what follows is unmarked. -/
theorem unmarked_cons (c : Char) (text rest : List Char) (hu : Unmarked text)
    (hnone : afterMark? (c :: (text ++ rest)) = none) : Unmarked (c :: text) := by
  intro mark hmark hin
  rcases List.infix_cons_iff.1 hin with ⟨after, hafter⟩ | hlater
  · have hread := afterMark?_mark mark (after ++ rest) hmark
    rw [← List.append_assoc, hafter, List.cons_append, hnone] at hread
    cases hread
  · exact hu mark hmark hlater

theorem unmarked_of_not_mem (text : List Char) (h : '#' ∉ text) : Unmarked text :=
  fun mark hmark hin => by
    obtain ⟨tail, rfl, -⟩ := hmark.exists_cons
    exact h (hin.subset List.mem_cons_self)

theorem unmarked_nil : Unmarked [] := by
  intro mark hmark hin
  obtain ⟨tail, rfl, -⟩ := hmark.exists_cons
  cases List.infix_nil.1 hin

/-- A space after a text without a mark makes no mark. -/
theorem unmarked_append_space (text : List Char) (h : Unmarked text) :
    Unmarked (text ++ [' ']) := by
  intro mark hmark hin
  rcases List.infix_concat_iff.1 hin with ⟨before, hbefore⟩ | hinside
  · obtain ⟨tail, hcons, -⟩ := hmark.exists_cons
    have hlast := congrArg List.getLast? hbefore
    rw [List.getLast?_append, List.getLast?_concat, hcons, List.getLast?_cons, Option.some_or,
      ← List.getLast?_cons, ← hcons] at hlast
    exact hmark.getLast?_ne hlast
  · exact h mark hmark hinside

/-! ## The first mark -/

theorem findFrom?_of_unmarked (done before rest : List Char) (hu : Unmarked before)
    (hrest : ∀ c, rest.head? = some c → c = '#') :
    findFrom? done (before ++ rest) = findFrom? (before.reverse ++ done) rest := by
  induction before generalizing done with
  | nil => rfl
  | cons c before ih =>
    have hnone := afterMark?_eq_none_of_unmarked (c :: before) rest hu (by simp) hrest
    rw [List.cons_append] at hnone
    rw [List.cons_append, findFrom?, hnone]
    simp only
    rw [ih _ hu.of_cons, List.reverse_cons, List.append_assoc, List.singleton_append]

/-- A line without a mark is not taken apart. -/
theorem find?_of_unmarked (line : List Char) (h : Unmarked line) : find? line = none := by
  have hfind := findFrom?_of_unmarked [] line [] h (by simp)
  rw [List.append_nil, findFrom?] at hfind
  exact hfind

/-- A line is taken apart after its first mark. -/
theorem find?_mark (before mark rest : List Char) (hu : Unmarked before) (hm : IsMark mark) :
    find? (before ++ (mark ++ rest)) = some (Parts.ofRest (before ++ mark) rest) := by
  obtain ⟨tail, hcons, -⟩ := hm.exists_cons
  have hread := afterMark?_mark mark rest hm
  have hfind := findFrom?_of_unmarked [] before (mark ++ rest) hu (by rw [hcons]; simp)
  have htake : (mark ++ rest).take ((mark ++ rest).length - rest.length) = mark :=
    List.take_left' (by rw [List.length_append, Nat.add_sub_cancel])
  rw [hcons, List.cons_append] at hread hfind htake
  rw [find?, hcons, List.cons_append, hfind, findFrom?, hread]
  simp only [htake, List.append_nil, List.reverse_reverse]

theorem unmarked_or_exists_mark (line : List Char) :
    Unmarked line ∨ ∃ before mark rest, line = before ++ (mark ++ rest) ∧ Unmarked before ∧
      IsMark mark := by
  induction line with
  | nil => exact .inl unmarked_nil
  | cons c line ih =>
    cases hread : afterMark? (c :: line) with
    | some rest =>
      obtain ⟨mark, hmark, heq⟩ := exists_of_afterMark? _ rest hread
      exact .inr ⟨[], mark, rest, heq, unmarked_nil, hmark⟩
    | none =>
      rcases ih with hu | ⟨before, mark, rest, rfl, hu, hmark⟩
      · exact .inl (unmarked_cons c line [] hu (by rwa [List.append_nil]))
      · exact .inr ⟨c :: before, mark, rest, rfl, unmarked_cons c before _ hu hread, hmark⟩

end LintBridge.Suppression
