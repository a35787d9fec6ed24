import LintBridge.Text.Utf8

/-!
A text written in UTF-8 is read as itself.

`readFrom_encodeChar` says so for one character before any octets, with one lemma for each number of
octets that a character takes; `readUnits_encode` and `decodeLossy_encode` for a whole text. An
octet that is a character of its own is one in any octets, and keeps those before it apart from
those after it (`readUnits_append_char`).
-/

namespace LintBridge.Utf8

/-! ## One octet -/

theorem toNat_ofNat_of_lt (n : Nat) (h : n < 256) : (UInt8.ofNat n).toNat = n := by
  rw [UInt8.toNat_ofNat', Nat.mod_eq_of_lt h]

theorem readFrom_char (b : UInt8) (c : Char) (rest : List UInt8) (h : lead b = .char c) :
    readFrom none (b :: rest) = some c :: readFrom none rest := by
  rw [readFrom, h]

theorem readFrom_opens (b : UInt8) (p : Pending) (rest : List UInt8) (h : lead b = .opens p) :
    readFrom none (b :: rest) = readFrom (some p) rest := by
  rw [readFrom, h]

theorem tail_le (t : Nat) (h : t < 64) : t + 128 ≤ (0xBF : UInt8).toNat := by
  change t + 128 ≤ 191
  omega

/-- An octet within the bounds gives six bits more. -/
theorem readFrom_next (bits due t : Nat) (low high : UInt8) (rest : List UInt8) (ht : t < 64)
    (hlow : low.toNat ≤ t + 128) (hhigh : t + 128 ≤ high.toNat) :
    readFrom (some ⟨bits, due + 2, low, high⟩) (UInt8.ofNat (t + 128) :: rest) =
      readFrom (some ⟨bits * 64 + t, due + 1, 0x80, 0xBF⟩) rest := by
  have hvalue : (UInt8.ofNat (t + 128)).toNat = t + 128 := toNat_ofNat_of_lt _ (by omega)
  have hbounds : low ≤ UInt8.ofNat (t + 128) ∧ UInt8.ofNat (t + 128) ≤ high := by
    rw [UInt8.le_iff_toNat_le, UInt8.le_iff_toNat_le, hvalue]
    exact ⟨hlow, hhigh⟩
  rw [readFrom, if_pos hbounds]
  simp only [hvalue, Nat.add_sub_cancel]
  exact if_neg (by omega)

theorem readFrom_last (bits t : Nat) (rest : List UInt8) (ht : t < 64) :
    readFrom (some ⟨bits, 1, 0x80, 0xBF⟩) (UInt8.ofNat (t + 128) :: rest) =
      some (Char.ofNat (bits * 64 + t)) :: readFrom none rest := by
  have hvalue : (UInt8.ofNat (t + 128)).toNat = t + 128 := toNat_ofNat_of_lt _ (by omega)
  have hbounds : 0x80 ≤ UInt8.ofNat (t + 128) ∧ UInt8.ofNat (t + 128) ≤ 0xBF := by
    rw [UInt8.le_iff_toNat_le, UInt8.le_iff_toNat_le, hvalue]
    exact ⟨Nat.le_add_left _ _, tail_le t ht⟩
  rw [readFrom, if_pos hbounds]
  simp only [hvalue, Nat.add_sub_cancel]
  exact if_pos (Nat.le_refl 1)

/-! ## First octets -/

theorem lead_one (v : Nat) (h : v ≤ 0x7F) : lead (UInt8.ofNat v) = .char (Char.ofNat v) := by
  rw [lead, toNat_ofNat_of_lt v (by omega)]
  exact if_pos (by omega)

theorem lead_two (v : Nat) (hlow : 0x7F < v) (hhigh : v ≤ 0x7FF) :
    lead (UInt8.ofNat (v / 64 % 32 + 192)) = .opens ⟨v / 64, 1, 0x80, 0xBF⟩ := by
  have hbits : v / 64 % 32 + 192 - 0xC0 = v / 64 := by omega
  rw [lead, toNat_ofNat_of_lt _ (by omega)]
  simp only [hbits]
  rw [if_neg (by omega), if_neg (by omega), if_pos (by omega)]

/-- The bounds that the first of three octets puts on the second leave out no character. -/
theorem lead_three (v : Nat) (hlow : 0x7FF < v) (hhigh : v ≤ 0xFFFF) (h : v.isValidChar) :
    ∃ low high : UInt8, lead (UInt8.ofNat (v / 4096 % 16 + 224)) =
        .opens ⟨v / 4096, 2, low, high⟩ ∧
      low.toNat ≤ v / 64 % 64 + 128 ∧ v / 64 % 64 + 128 ≤ high.toNat := by
  have hbits : v / 4096 % 16 + 224 - 0xE0 = v / 4096 := by omega
  rw [lead, toNat_ofNat_of_lt _ (by omega)]
  simp only [hbits]
  rw [if_neg (by omega), if_neg (by omega), if_neg (by omega)]
  by_cases hfirst : v / 4096 % 16 + 224 = 0xE0
  · refine ⟨0xA0, 0xBF, ?_, ?_, ?_⟩
    · rw [if_pos hfirst, show v / 4096 = 0 by omega]
    · change 160 ≤ _
      omega
    · change _ ≤ 191
      omega
  rw [if_neg hfirst]
  by_cases hsurrogates : v / 4096 % 16 + 224 = 0xED
  · refine ⟨0x80, 0x9F, ?_, Nat.le_add_left _ _, ?_⟩
    · rw [if_pos hsurrogates, show v / 4096 = 0xD by omega]
    · change _ ≤ 159
      rcases h with h | h <;> omega
  · refine ⟨0x80, 0xBF, ?_, Nat.le_add_left _ _, ?_⟩
    · rw [if_neg hsurrogates, if_pos (by omega)]
    · change _ ≤ 191
      omega

/-- The bounds that the first of four octets puts on the second leave out no character. -/
theorem lead_four (v : Nat) (hlow : 0xFFFF < v) (h : v.isValidChar) :
    ∃ low high : UInt8, lead (UInt8.ofNat (v / 262144 % 8 + 240)) =
        .opens ⟨v / 262144, 3, low, high⟩ ∧
      low.toNat ≤ v / 4096 % 64 + 128 ∧ v / 4096 % 64 + 128 ≤ high.toNat := by
  have hhigh : v < 0x110000 := by rcases h with h | h <;> omega
  have hbits : v / 262144 % 8 + 240 - 0xF0 = v / 262144 := by omega
  rw [lead, toNat_ofNat_of_lt _ (by omega)]
  simp only [hbits]
  rw [if_neg (by omega), if_neg (by omega), if_neg (by omega), if_neg (by omega),
    if_neg (by omega), if_neg (by omega)]
  by_cases hfirst : v / 262144 % 8 + 240 = 0xF0
  · refine ⟨0x90, 0xBF, ?_, ?_, ?_⟩
    · rw [if_pos hfirst, show v / 262144 = 0 by omega]
    · change 144 ≤ _
      omega
    · change _ ≤ 191
      omega
  rw [if_neg hfirst]
  by_cases hlast : v / 262144 % 8 + 240 = 0xF4
  · refine ⟨0x80, 0x8F, ?_, Nat.le_add_left _ _, ?_⟩
    · rw [if_neg (by omega), if_pos hlast, show v / 262144 = 4 by omega]
    · change _ ≤ 143
      omega
  · refine ⟨0x80, 0xBF, ?_, Nat.le_add_left _ _, ?_⟩
    · rw [if_pos (by omega)]
    · change _ ≤ 191
      omega

/-! ## Characters and texts -/

/-- The octets of a character are read as that character, whatever follows them. -/
theorem readFrom_encodeChar (c : Char) (rest : List UInt8) :
    readFrom none (String.utf8EncodeChar c ++ rest) = some c :: readFrom none rest := by
  have hvalid : c.toNat.isValidChar := c.valid
  have hchar : Char.ofNat c.toNat = c := Char.ofNat_toNat c
  have hencode : String.utf8EncodeChar c = if c.toNat ≤ 127 then [UInt8.ofNat c.toNat]
      else if c.toNat ≤ 2047 then
        [UInt8.ofNat (c.toNat / 64 % 32 + 192), UInt8.ofNat (c.toNat % 64 + 128)]
      else if c.toNat ≤ 65535 then
        [UInt8.ofNat (c.toNat / 4096 % 16 + 224), UInt8.ofNat (c.toNat / 64 % 64 + 128),
          UInt8.ofNat (c.toNat % 64 + 128)]
      else
        [UInt8.ofNat (c.toNat / 262144 % 8 + 240), UInt8.ofNat (c.toNat / 4096 % 64 + 128),
          UInt8.ofNat (c.toNat / 64 % 64 + 128), UInt8.ofNat (c.toNat % 64 + 128)] := rfl
  generalize c.toNat = v at hvalid hchar hencode
  rw [hencode]
  split
  · next hone =>
    rw [List.singleton_append, readFrom_char _ _ rest (lead_one v hone), hchar]
  split
  · next hlow hhigh =>
    rw [List.cons_append, List.singleton_append,
      readFrom_opens _ _ _ (lead_two v (by omega) hhigh),
      readFrom_last _ _ rest (Nat.mod_lt v (by omega)),
      show v / 64 * 64 + v % 64 = v by omega, hchar]
  split
  · next hlow hhigh =>
    obtain ⟨low, high, hlead, hle, hge⟩ := lead_three v (by omega) hhigh hvalid
    rw [List.cons_append, List.cons_append, List.singleton_append, readFrom_opens _ _ _ hlead,
      readFrom_next _ 0 _ _ _ _ (Nat.mod_lt _ (by omega)) hle hge,
      readFrom_last _ _ rest (Nat.mod_lt v (by omega)),
      show (v / 4096 * 64 + v / 64 % 64) * 64 + v % 64 = v by omega, hchar]
  · next hlow =>
    obtain ⟨low, high, hlead, hle, hge⟩ := lead_four v (by omega) hvalid
    rw [List.cons_append, List.cons_append, List.cons_append, List.singleton_append,
      readFrom_opens _ _ _ hlead, readFrom_next _ 1 _ _ _ _ (Nat.mod_lt _ (by omega)) hle hge,
      readFrom_next _ 0 _ _ _ _ (Nat.mod_lt _ (by omega)) (Nat.le_add_left _ _)
        (tail_le _ (Nat.mod_lt _ (by omega))),
      readFrom_last _ _ rest (Nat.mod_lt v (by omega)),
      show ((v / 262144 * 64 + v / 4096 % 64) * 64 + v / 64 % 64) * 64 + v % 64 = v by omega,
      hchar]

theorem readUnits_encode (text : List Char) : readUnits (encode text) = text.map some := by
  induction text with
  | nil => rfl
  | cons c text ih =>
    rw [encode, List.flatMap_cons, readUnits, readFrom_encodeChar, List.map_cons]
    exact congrArg (some c :: ·) ih

theorem decodeLossy_encode (text : List Char) : decodeLossy (encode text) = text := by
  rw [decodeLossy, readUnits_encode, List.map_map]
  exact List.map_id text

/-- Only the empty text takes no octets. -/
theorem encode_eq_nil_iff (text : List Char) : encode text = [] ↔ text = [] := by
  refine ⟨fun h => ?_, fun h => h ▸ rfl⟩
  rw [← decodeLossy_encode text, h]
  rfl

/-! ## Octets between others -/

/-- What goes on with a sequence is above the octets that are a character each. -/
theorem low_of_lead {b : UInt8} {p : Pending} (h : lead b = .opens p) : 0x80 ≤ p.low := by
  have hnine : (0x80 : UInt8) ≤ 0x90 := by decide
  have hten : (0x80 : UInt8) ≤ 0xA0 := by decide
  unfold lead at h
  dsimp only at h
  generalize b.toNat = n at h
  split at h
  · cases h
  split at h
  · cases h
  split at h
  · obtain rfl := Lead.opens.inj h
    exact UInt8.le_refl 0x80
  split at h
  · obtain rfl := Lead.opens.inj h
    exact hten
  split at h
  · obtain rfl := Lead.opens.inj h
    exact UInt8.le_refl 0x80
  split at h
  · obtain rfl := Lead.opens.inj h
    exact UInt8.le_refl 0x80
  split at h
  · obtain rfl := Lead.opens.inj h
    exact hnine
  split at h
  · obtain rfl := Lead.opens.inj h
    exact UInt8.le_refl 0x80
  split at h
  · obtain rfl := Lead.opens.inj h
    exact UInt8.le_refl 0x80
  · cases h

/-- An octet that is a character of its own is read as it wherever it stands, and ends what has
begun before it. -/
theorem readFrom_append_char {b : UInt8} {c : Char} (hb : b < 0x80) (hchar : lead b = .char c)
    (before after : List UInt8) (p : Option Pending) (hp : ∀ q, p = some q → 0x80 ≤ q.low) :
    readFrom p (before ++ b :: after) = readFrom p before ++ some c :: readFrom none after := by
  have hnone : ∀ q : Pending, none = some q → 0x80 ≤ q.low := fun q hq => nomatch hq
  fun_induction readFrom p before with
  | case1 => exact readFrom_char b c after hchar
  | case2 q =>
    have hlow : ¬ (q.low ≤ b ∧ b ≤ q.high) := fun h =>
      absurd (UInt8.lt_of_lt_of_le hb (UInt8.le_trans (hp q rfl) h.1)) (UInt8.lt_irrefl b)
    rw [List.nil_append, readFrom, if_neg hlow, hchar]
    rfl
  | case3 a rest d hlead ih =>
    rw [List.cons_append, readFrom, hlead]
    exact congrArg (some d :: ·) (ih hnone)
  | case4 a rest q hlead ih =>
    rw [List.cons_append, readFrom, hlead]
    exact ih fun r hr => Option.some.inj hr ▸ low_of_lead hlead
  | case5 a rest hlead ih =>
    rw [List.cons_append, readFrom, hlead]
    exact congrArg (none :: ·) (ih hnone)
  | case6 q a rest hbounds bits hdue ih =>
    rw [List.cons_append, readFrom, if_pos hbounds]
    dsimp only
    rw [if_pos hdue]
    exact congrArg (some (Char.ofNat bits) :: ·) (ih hnone)
  | case7 q a rest hbounds bits hdue ih =>
    rw [List.cons_append, readFrom, if_pos hbounds]
    dsimp only
    rw [if_neg hdue]
    exact ih fun r hr => Option.some.inj hr ▸ UInt8.le_refl 0x80
  | case8 q a rest hbounds ihNone ihSome =>
    rw [List.cons_append, readFrom, if_neg hbounds]
    cases hlead : lead a with
    | char d => exact congrArg (none :: some d :: ·) (ihNone hnone)
    | opens r =>
      exact congrArg (none :: ·) (ihSome r fun s hs => Option.some.inj hs ▸ low_of_lead hlead)
    | illFormed => exact congrArg (none :: none :: ·) (ihNone hnone)

theorem readUnits_append_char {b : UInt8} {c : Char} (hb : b < 0x80) (hchar : lead b = .char c)
    (before after : List UInt8) :
    readUnits (before ++ b :: after) = readUnits before ++ some c :: readUnits after :=
  readFrom_append_char hb hchar before after none fun _ hq => nomatch hq

end LintBridge.Utf8
