import LintBridge.Proofs.Text.Split
import LintBridge.Version.Reading

/-!
The strict form of a version is the one in which it is written.

`WellFormed` says which versions there are: the three numbers fit 64 bits, an identifier that is not
a number is made of letters, digits and hyphens, and a number of a build is as wide as its digits at
least. `ofChars?_eq_some_iff` says that reading takes what is written, and nothing else, back to the
version that it was written for.
-/

namespace LintBridge.Version

/-- An identifier that is not read as a number. -/
def IsWord (s : String) : Prop := isIdentifier s.toList = true ∧ s.toList.all isDigit = false

def PreId.WellFormed : PreId → Prop
  | .number _ => True
  | .word s => IsWord s

def BuildId.WellFormed : BuildId → Prop
  | .number n width => (digits n).length ≤ width
  | .word s => IsWord s

structure WellFormed (v : Version) : Prop where
  major : v.major ≤ maxNumber
  minor : v.minor ≤ maxNumber
  patch : v.patch ≤ maxNumber
  pre : ∀ id ∈ v.pre, id.WellFormed
  build : ∀ id ∈ v.build, id.WellFormed

/-! ## Digits -/

theorem toNat_of_isDigit (c : Char) (h : isDigit c = true) : 48 ≤ c.toNat ∧ c.toNat ≤ 57 := by
  obtain ⟨hlow, hhigh⟩ := of_decide_eq_true h
  exact ⟨UInt32.le_iff_toNat_le.1 hlow, UInt32.le_iff_toNat_le.1 hhigh⟩

theorem isDigit_of_mem_digits (n : Nat) : ∀ c ∈ digits n, isDigit c = true := by
  intro c hc
  have hdigit : c.isDigit = true := Nat.isDigit_of_mem_toDigits (by omega) (by omega) hc
  simpa [isDigit, Char.isDigit, Char.le_def] using hdigit

theorem digits_ne_nil (n : Nat) : digits n ≠ [] := Nat.toDigits_ne_nil

theorem digits_of_isDigit (c : Char) (h : isDigit c = true) : digits (c.toNat - 48) = [c] := by
  have hbounds := toNat_of_isDigit c h
  have hchar : (c.toNat - 48).digitChar = c := by
    apply Char.toNat_inj.1
    rw [Nat.toNat_digitChar_of_lt_ten (by omega)]
    omega
  rw [digits, Nat.toDigits_of_lt_base (by omega), hchar]

/-- A digit read behind a number that is not zero is written behind its digits. -/
theorem digits_foldl (ds : List Char) (n : Nat) (hn : 0 < n) (h : ∀ c ∈ ds, isDigit c = true) :
    digits (ds.foldl (fun n c => n * 10 + (c.toNat - 48)) n) = digits n ++ ds := by
  induction ds generalizing n with
  | nil => exact (List.append_nil _).symm
  | cons c ds ih =>
    obtain ⟨hc, hds⟩ := List.forall_mem_cons.1 h
    have hbounds := toNat_of_isDigit c hc
    have hstep : digits (n * 10 + (c.toNat - 48)) = digits n ++ [c] := by
      rw [← digits_of_isDigit c hc, Nat.mul_comm]
      exact (Nat.toDigits_append_toDigits (by omega) hn (by omega)).symm
    rw [List.foldl_cons, ih _ (by omega) hds, hstep, List.append_assoc, List.singleton_append]

theorem ofDigits_digits (n : Nat) : ofDigits (digits n) = n := by
  have hchars : Nat.ofDigitChars 10 (Nat.toDigits 10 n) 0 = n := Nat.ofDigitChars_ten_toDigits
  rw [Nat.ofDigitChars_eq_foldl] at hchars
  simp only [Nat.mul_comm 10] at hchars
  exact hchars

/-- Digits are those of their number behind needless zeros. -/
theorem exists_zeros (ds : List Char) (hne : ds ≠ []) (h : ∀ c ∈ ds, isDigit c = true) :
    ∃ k, ds = List.replicate k '0' ++ digits (ofDigits ds) := by
  induction ds with
  | nil => exact absurd rfl hne
  | cons c ds ih =>
    obtain ⟨hc, hds⟩ := List.forall_mem_cons.1 h
    by_cases hzero : c = '0'
    · subst hzero
      cases ds with
      | nil => exact ⟨0, by decide⟩
      | cons d ds =>
        obtain ⟨k, hk⟩ := ih (List.cons_ne_nil d ds) hds
        exact ⟨k + 1, congrArg ('0' :: ·) hk⟩
    · have hbounds := toNat_of_isDigit c hc
      have hpos : 0 < 0 * 10 + (c.toNat - 48) := by
        have hnot : c.toNat ≠ '0'.toNat := fun heq => hzero (Char.toNat_inj.1 heq)
        have hcode : '0'.toNat = 48 := rfl
        omega
      refine ⟨0, ?_⟩
      rw [ofDigits, List.foldl_cons, digits_foldl ds _ hpos hds, Nat.zero_mul, Nat.zero_add,
        digits_of_isDigit c hc]
      rfl

theorem head?_digits (n : Nat) (h : 0 < n) : (digits n).head? ≠ some '0' := by
  induction n using Nat.strongRecOn with
  | ind n ih =>
    by_cases hsmall : n < 10
    · have hdigit : ∀ d < 10, 0 < d → d.digitChar ≠ '0' := by decide
      rw [digits, Nat.toDigits_of_lt_base hsmall]
      exact fun heq => hdigit n hsmall h (Option.some.inj heq)
    · have hrest := ih (n / 10) (by omega) (by omega)
      obtain ⟨c, ds, hcons⟩ := List.exists_cons_of_ne_nil (digits_ne_nil (n / 10))
      rw [digits] at hcons
      rw [digits, hcons] at hrest
      rw [digits, Nat.toDigits_eq_if (by omega), if_neg (by omega), hcons]
      exact hrest

theorem isPlainNumber_iff (ds : List Char) : isPlainNumber ds = true ↔ ∃ n, ds = digits n := by
  constructor
  · intro h
    simp only [isPlainNumber, Bool.and_eq_true, Bool.or_eq_true, decide_eq_true_eq, beq_iff_eq,
      bne_iff_ne, List.all_eq_true] at h
    obtain ⟨⟨hne, hall⟩, hplain⟩ := h
    obtain ⟨k, hk⟩ := exists_zeros ds hne hall
    cases k with
    | zero => exact ⟨_, hk⟩
    | succ k =>
      have hpos := List.length_pos_iff.2 (digits_ne_nil (ofDigits ds))
      rcases hplain with hone | hhead
      · rw [hk, List.length_append, List.length_replicate] at hone
        omega
      · rw [hk] at hhead
        exact absurd rfl hhead
  · rintro ⟨n, rfl⟩
    have hplain : (digits n).length = 1 ∨ (digits n).head? ≠ some '0' := by
      cases n with
      | zero => exact .inl rfl
      | succ n => exact .inr (head?_digits (n + 1) (Nat.succ_pos n))
    simp only [isPlainNumber, Bool.and_eq_true, Bool.or_eq_true, decide_eq_true_eq, beq_iff_eq,
      bne_iff_ne, List.all_eq_true]
    exact ⟨⟨digits_ne_nil n, isDigit_of_mem_digits n⟩, hplain⟩

theorem readNumber?_eq_some_iff (ds : List Char) (n : Nat) :
    readNumber? ds = some n ↔ n ≤ maxNumber ∧ ds = digits n := by
  rw [readNumber?, Option.ite_none_right_eq_some, isPlainNumber_iff]
  constructor
  · rintro ⟨⟨⟨m, rfl⟩, hle⟩, hn⟩
    rw [ofDigits_digits] at hle hn
    obtain rfl := Option.some.inj hn
    exact ⟨hle, rfl⟩
  · rintro ⟨hle, rfl⟩
    rw [ofDigits_digits]
    exact ⟨⟨⟨n, rfl⟩, hle⟩, rfl⟩

/-! ## Identifiers -/

theorem isIdentifier_iff (cs : List Char) :
    isIdentifier cs = true ↔ cs ≠ [] ∧ ∀ c ∈ cs, c.isAlphanum = true ∨ c = '-' := by
  simp [isIdentifier]

theorem isIdentifier_of_digits (cs : List Char) (hne : cs ≠ []) (h : ∀ c ∈ cs, isDigit c = true) :
    isIdentifier cs = true := by
  refine (isIdentifier_iff cs).2 ⟨hne, fun c hc => .inl ?_⟩
  have hdigit : c.isDigit = true := by
    simpa [isDigit, Char.isDigit, Char.le_def] using h c hc
  rw [Char.isAlphanum, hdigit, Bool.or_true]

theorem isWord_ofList (cs : List Char) (hident : isIdentifier cs = true)
    (hall : cs.all isDigit = false) : IsWord (String.ofList cs) := by
  rw [IsWord, String.toList_ofList]
  exact ⟨hident, hall⟩

theorem readPreId?_eq_some_iff (cs : List Char) (id : PreId) :
    readPreId? cs = some id ↔ id.WellFormed ∧ cs = id.chars := by
  rw [readPreId?, Option.ite_none_right_eq_some]
  cases hall : cs.all isDigit with
  | true =>
    rw [if_pos rfl, Option.ite_none_right_eq_some, isPlainNumber_iff]
    constructor
    · rintro ⟨-, ⟨n, rfl⟩, hid⟩
      obtain rfl := Option.some.inj hid
      rw [ofDigits_digits]
      exact ⟨trivial, rfl⟩
    · rintro ⟨hid, rfl⟩
      cases id with
      | number n =>
        have hident := isIdentifier_of_digits _ (digits_ne_nil n) (isDigit_of_mem_digits n)
        exact ⟨hident, ⟨n, rfl⟩, by rw [PreId.chars, ofDigits_digits]⟩
      | word s =>
        rw [PreId.chars, hid.2] at hall
        cases hall
  | false =>
    rw [if_neg Bool.false_ne_true]
    constructor
    · rintro ⟨hident, hid⟩
      obtain rfl := Option.some.inj hid
      exact ⟨isWord_ofList cs hident hall, String.toList_ofList.symm⟩
    · rintro ⟨hid, rfl⟩
      cases id with
      | number n =>
        rw [PreId.chars, List.all_eq_true.2 (isDigit_of_mem_digits n)] at hall
        cases hall
      | word s => exact ⟨hid.1, by rw [PreId.chars, String.ofList_toList]⟩

theorem ofDigits_zeros (k n : Nat) : ofDigits (List.replicate k '0' ++ digits n) = n := by
  induction k with
  | zero => exact ofDigits_digits n
  | succ k ih => exact ih

theorem readBuildId?_eq_some_iff (cs : List Char) (id : BuildId) :
    readBuildId? cs = some id ↔ id.WellFormed ∧ cs = id.chars := by
  rw [readBuildId?, Option.ite_none_right_eq_some]
  cases hall : cs.all isDigit with
  | true =>
    rw [if_pos rfl]
    constructor
    · rintro ⟨hident, hid⟩
      obtain rfl := Option.some.inj hid
      obtain ⟨k, hk⟩ := exists_zeros cs ((isIdentifier_iff cs).1 hident).1 (List.all_eq_true.1 hall)
      have hlength := congrArg List.length hk
      rw [List.length_append, List.length_replicate] at hlength
      refine ⟨(by omega : (digits (ofDigits cs)).length ≤ cs.length), ?_⟩
      rw [BuildId.chars, show cs.length - (digits (ofDigits cs)).length = k by omega]
      exact hk
    · rintro ⟨hid, rfl⟩
      cases id with
      | number n width =>
        have hwidth : (BuildId.number n width).chars.length = width := by
          have hle : (digits n).length ≤ width := hid
          rw [BuildId.chars, List.length_append, List.length_replicate]
          omega
        have hne : (BuildId.number n width).chars ≠ [] :=
          List.append_ne_nil_of_right_ne_nil _ (digits_ne_nil n)
        refine ⟨isIdentifier_of_digits _ hne (List.all_eq_true.1 hall), ?_⟩
        rw [hwidth, BuildId.chars, ofDigits_zeros]
      | word s =>
        rw [BuildId.chars, hid.2] at hall
        cases hall
  | false =>
    rw [if_neg Bool.false_ne_true]
    constructor
    · rintro ⟨hident, hid⟩
      obtain rfl := Option.some.inj hid
      exact ⟨isWord_ofList cs hident hall, String.toList_ofList.symm⟩
    · rintro ⟨hid, rfl⟩
      cases id with
      | number n width =>
        refine absurd (List.all_eq_true.2 fun c hc => ?_) (Bool.eq_false_iff.1 hall)
        rcases List.mem_append.1 hc with hzero | hdigit
        · rw [List.eq_of_mem_replicate hzero]
          decide
        · exact isDigit_of_mem_digits n c hdigit
      | word s => exact ⟨hid.1, by rw [BuildId.chars, String.ofList_toList]⟩

theorem PreId.WellFormed.isIdentifier {id : PreId} (h : id.WellFormed) :
    isIdentifier id.chars = true := by
  have hread := (readPreId?_eq_some_iff id.chars id).2 ⟨h, rfl⟩
  rw [readPreId?, Option.ite_none_right_eq_some] at hread
  exact hread.1

theorem BuildId.WellFormed.isIdentifier {id : BuildId} (h : id.WellFormed) :
    isIdentifier id.chars = true := by
  have hread := (readBuildId?_eq_some_iff id.chars id).2 ⟨h, rfl⟩
  rw [readBuildId?, Option.ite_none_right_eq_some] at hread
  exact hread.1

/-- No mark of a version occurs in an identifier, but for the hyphen. -/
theorem not_mem_of_isIdentifier (cs : List Char) (h : isIdentifier cs = true) :
    '.' ∉ cs ∧ '+' ∉ cs := by
  have hchars := ((isIdentifier_iff cs).1 h).2
  exact ⟨fun hmem => absurd (hchars _ hmem) (by decide),
    fun hmem => absurd (hchars _ hmem) (by decide)⟩

/-! ## Lists of identifiers -/

section Lists

variable {α : Type} {read : List Char → Option α} {chars : α → List Char} {Good : α → Prop}

theorem mapM_eq_some_iff (hread : ∀ cs id, read cs = some id ↔ Good id ∧ cs = chars id)
    (pieces : List (List Char)) (ids : List α) :
    pieces.mapM read = some ids ↔ (∀ id ∈ ids, Good id) ∧ pieces = ids.map chars := by
  induction pieces generalizing ids with
  | nil =>
    constructor
    · rintro ⟨⟩
      exact ⟨fun _ hid => absurd hid List.not_mem_nil, rfl⟩
    · rintro ⟨-, hmap⟩
      obtain rfl := List.map_eq_nil_iff.1 hmap.symm
      rfl
  | cons piece pieces ih =>
    simp only [List.mapM_cons, Option.bind_eq_bind, Option.bind_eq_some_iff, hread, ih,
      Option.pure_def, Option.some.injEq]
    constructor
    · rintro ⟨id, ⟨hid, rfl⟩, rest, ⟨hrest, rfl⟩, rfl⟩
      exact ⟨List.forall_mem_cons.2 ⟨hid, hrest⟩, rfl⟩
    · rintro ⟨hgood, hmap⟩
      cases ids with
      | nil => cases hmap
      | cons id ids =>
        obtain ⟨hid, hids⟩ := List.forall_mem_cons.1 hgood
        obtain ⟨rfl, rfl⟩ := List.cons.inj hmap
        exact ⟨id, ⟨hid, rfl⟩, ids, ⟨hids, rfl⟩, rfl⟩

theorem head?_markedChars (mark : Char) (ids : List (List Char)) :
    ∀ c, (markedChars mark ids).head? = some c → c = mark := by
  intro c hc
  unfold markedChars at hc
  split at hc
  · cases hc
  · exact (Option.some.inj hc).symm

theorem mem_markedChars {c mark : Char} {ids : List (List Char)} (h : c ∈ markedChars mark ids) :
    c = mark ∨ c = '.' ∨ ∃ id ∈ ids, c ∈ id := by
  unfold markedChars at h
  split at h
  · cases h
  · exact (List.mem_cons.1 h).imp_right (mem_joinWith '.' ids)

/-- What stands behind a mark is read if it is what is written for a list of identifiers. -/
theorem readIds?_eq_some_iff (hread : ∀ cs id, read cs = some id ↔ Good id ∧ cs = chars id)
    (hdot : ∀ id, Good id → '.' ∉ chars id) (mark : Char) (tail : List Char)
    (htail : ∀ c, tail.head? = some c → c = mark) (ids : List α) :
    readIds? read tail = some ids ↔
      (∀ id ∈ ids, Good id) ∧ tail = markedChars mark (ids.map chars) := by
  cases tail with
  | nil =>
    constructor
    · rintro ⟨⟩
      exact ⟨fun _ hid => absurd hid List.not_mem_nil, rfl⟩
    · rintro ⟨-, hmarked⟩
      cases ids with
      | nil => rfl
      | cons id ids => cases hmarked
  | cons c rest =>
    obtain rfl := htail c rfl
    rw [readIds?, mapM_eq_some_iff hread]
    refine and_congr_right fun hgood => ?_
    rw [splitAtChar_eq_iff, markedChars]
    constructor
    · rintro ⟨rfl, hne, -⟩
      rw [if_neg hne]
    · intro hmarked
      split at hmarked
      · cases hmarked
      · next hne =>
        refine ⟨(List.cons.inj hmarked).2, hne, fun piece hpiece => ?_⟩
        obtain ⟨id, hid, rfl⟩ := List.mem_map.1 hpiece
        exact hdot id (hgood id hid)

end Lists

/-! ## Versions -/

/-- The three parts of a text: the numbers, and what comes behind them from the first mark on and
from the first `+` on. -/
structure Divides (numbers pre build : List Char) : Prop where
  unmarked : ∀ c ∈ numbers, c ≠ '-' ∧ c ≠ '+'
  hyphen : ∀ c, pre.head? = some c → c = '-'
  noPlus : ∀ c ∈ pre, c ≠ '+'
  plus : ∀ c, build.head? = some c → c = '+'

theorem exists_divides (text : List Char) :
    ∃ numbers pre build, text = numbers ++ (pre ++ build) ∧ Divides numbers pre build := by
  let numbers := text.takeWhile fun c => c ≠ '-' && c ≠ '+'
  let rest := text.dropWhile fun c => c ≠ '-' && c ≠ '+'
  refine ⟨numbers, rest.takeWhile (· ≠ '+'), rest.dropWhile (· ≠ '+'), ?_, ?_, ?_, ?_, ?_⟩
  · rw [List.takeWhile_append_dropWhile, List.takeWhile_append_dropWhile]
  · intro c hc
    simpa using List.all_eq_true.1 (List.all_takeWhile (l := text)) c hc
  · intro c hc
    rw [List.head?_takeWhile, Option.filter_eq_some_iff] at hc
    have hnot : c ≠ '+' := by simpa using hc.2
    simpa [hnot] using head?_dropWhile _ text c hc.1
  · intro c hc
    simpa using List.all_eq_true.1 (List.all_takeWhile (l := rest)) c hc
  · intro c hc
    simpa using head?_dropWhile _ rest c hc

theorem ofChars?_eq_some_iff_parts {numbers pre build : List Char} (h : Divides numbers pre build)
    (v : Version) :
    ofChars? (numbers ++ (pre ++ build)) = some v ↔
      readIds? readPreId? pre = some v.pre ∧ readIds? readBuildId? build = some v.build ∧
        ∃ a b c, splitAtChar '.' numbers = [a, b, c] ∧ readNumber? a = some v.major ∧
          readNumber? b = some v.minor ∧ readNumber? c = some v.patch := by
  have hnumbers : ∀ c ∈ numbers, (decide (c ≠ '-') && decide (c ≠ '+')) = true := fun c hc => by
    simpa using h.unmarked c hc
  have hmark : ∀ c, (pre ++ build).head? = some c →
      (decide (c ≠ '-') && decide (c ≠ '+')) = false := by
    intro c hc
    cases pre with
    | nil =>
      obtain rfl := h.plus c hc
      rfl
    | cons d pre =>
      obtain rfl := h.hyphen c hc
      rfl
  have hpre : ∀ c ∈ pre, decide (c ≠ '+') = true := fun c hc => decide_eq_true (h.noPlus c hc)
  have hbuild : ∀ c, build.head? = some c → decide (c ≠ '+') = false := by
    intro c hc
    obtain rfl := h.plus c hc
    rfl
  rw [ofChars?]
  simp only [takeWhile_run _ numbers _ hnumbers hmark, dropWhile_run _ numbers _ hnumbers hmark,
    takeWhile_run _ pre _ hpre hbuild, dropWhile_run _ pre _ hpre hbuild, Option.bind_eq_bind,
    Option.bind_eq_some_iff]
  constructor
  · rintro ⟨ids, hids, builds, hbuilds, hread⟩
    split at hread
    · next a b c hsplit =>
      simp only [Option.bind_eq_some_iff, Option.pure_def] at hread
      obtain ⟨x, hx, y, hy, z, hz, hv⟩ := hread
      obtain rfl := Option.some.inj hv
      exact ⟨hids, hbuilds, a, b, c, hsplit, hx, hy, hz⟩
    · cases hread
  · rintro ⟨hids, hbuilds, a, b, c, hsplit, hx, hy, hz⟩
    exact ⟨_, hids, _, hbuilds, by rw [hsplit]; simp [hx, hy, hz]⟩

def numbers (v : Version) : List (List Char) := [digits v.major, digits v.minor, digits v.patch]

theorem chars_eq (v : Version) :
    v.chars = joinWith ['.'] v.numbers ++
      (markedChars '-' (v.pre.map PreId.chars) ++ markedChars '+' (v.build.map BuildId.chars)) := by
  simp [chars, numbers, joinWith]

theorem isDigit_of_mem_numbers (v : Version) :
    ∀ piece ∈ v.numbers, piece ≠ [] ∧ ∀ c ∈ piece, isDigit c = true := by
  simp only [numbers, List.forall_mem_cons]
  exact ⟨⟨digits_ne_nil _, isDigit_of_mem_digits _⟩, ⟨digits_ne_nil _, isDigit_of_mem_digits _⟩,
    ⟨digits_ne_nil _, isDigit_of_mem_digits _⟩, fun _ h => absurd h List.not_mem_nil⟩

theorem divides_chars (v : Version) (hv : v.WellFormed) :
    Divides (joinWith ['.'] v.numbers) (markedChars '-' (v.pre.map PreId.chars))
      (markedChars '+' (v.build.map BuildId.chars)) where
  unmarked c hc := by
    rcases mem_joinWith '.' _ hc with rfl | ⟨piece, hpiece, hmem⟩
    · decide
    · have hdigit := (isDigit_of_mem_numbers v piece hpiece).2 c hmem
      constructor <;> rintro rfl <;> exact absurd hdigit (by decide)
  hyphen := head?_markedChars '-' _
  noPlus c hc := by
    rcases mem_markedChars hc with rfl | rfl | ⟨piece, hpiece, hmem⟩
    · decide
    · decide
    · obtain ⟨id, hid, rfl⟩ := List.mem_map.1 hpiece
      rintro rfl
      exact (not_mem_of_isIdentifier _ (hv.pre id hid).isIdentifier).2 hmem
  plus := head?_markedChars '+' _

/-- A version is read from what is written for it and from nothing else. -/
theorem ofChars?_eq_some_iff (text : List Char) (v : Version) :
    ofChars? text = some v ↔ v.WellFormed ∧ text = v.chars := by
  have hpre := readIds?_eq_some_iff readPreId?_eq_some_iff
    fun id h => (not_mem_of_isIdentifier _ h.isIdentifier).1
  have hbuild := readIds?_eq_some_iff readBuildId?_eq_some_iff
    fun id h => (not_mem_of_isIdentifier _ h.isIdentifier).1
  constructor
  · obtain ⟨numbers, pre, build, rfl, hd⟩ := exists_divides text
    rw [ofChars?_eq_some_iff_parts hd, hpre '-' pre hd.hyphen, hbuild '+' build hd.plus]
    simp only [splitAtChar_eq_iff, readNumber?_eq_some_iff]
    rintro ⟨⟨hp, rfl⟩, ⟨hb, rfl⟩, a, b, c, ⟨rfl, -⟩, ⟨hmajor, rfl⟩, ⟨hminor, rfl⟩, hpatch, rfl⟩
    exact ⟨⟨hmajor, hminor, hpatch, hp, hb⟩, (chars_eq v).symm⟩
  · rintro ⟨hv, rfl⟩
    have hd := divides_chars v hv
    have hdots : ∀ piece ∈ v.numbers, '.' ∉ piece := fun piece hpiece hmem =>
      absurd ((isDigit_of_mem_numbers v piece hpiece).2 '.' hmem) (by decide)
    rw [chars_eq, ofChars?_eq_some_iff_parts hd, hpre '-' _ hd.hyphen, hbuild '+' _ hd.plus]
    exact ⟨⟨hv.pre, rfl⟩, ⟨hv.build, rfl⟩, _, _, _,
      splitAtChar_joinWith '.' _ (List.cons_ne_nil _ _) hdots,
      (readNumber?_eq_some_iff _ _).2 ⟨hv.major, rfl⟩,
      (readNumber?_eq_some_iff _ _).2 ⟨hv.minor, rfl⟩,
      (readNumber?_eq_some_iff _ _).2 ⟨hv.patch, rfl⟩⟩

end LintBridge.Version
