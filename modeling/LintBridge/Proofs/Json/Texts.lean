import LintBridge.Json.Printer
import LintBridge.Json.Reader

/-!
Texts as they are written in JSON are read as themselves.

A character is written as itself, as a short escape, or, if it is a control character without one,
as a code unit; `pieceOf` says what the reader makes of it. `readPieces?_quoted` puts this together
for a text and what follows it, and `pieceString?_pieces` finds the text again in its pieces.
-/

namespace LintBridge.Json

/-! ## Code units -/

theorem hexValue?_hexDigit (n : Nat) (h : n < 16) : hexValue? (some (hexDigit n)) = some n := by
  revert n
  decide

theorem hexUnit?_control (n : Nat) (h : n < 0x20) :
    hexUnit? (some '0') (some '0') (some (hexDigit (n / 16))) (some (hexDigit (n % 16))) =
      some n := by
  have hzero : hexValue? (some '0') = some 0 := rfl
  rw [hexUnit?, hzero, hexValue?_hexDigit (n / 16) (by omega),
    hexValue?_hexDigit (n % 16) (Nat.mod_lt n (by omega))]
  exact congrArg some (by omega)

/-! ## Characters -/

/-- The control characters with a short escape. -/
def shortEscapes : List Char := ['\n', '\r', '\t', '\x08', '\x0c']

/-- What the reader makes of a character that has been written. -/
def pieceOf (c : Char) : Piece :=
  if c.toNat < 0x20 ∧ c ∉ shortEscapes then .unit c.toNat else .char c

section Pieces

variable {rest after : Units} {pieces : List Piece}

theorem readPieces?_plain (c : Char) (hquote : c ≠ '"') (hslash : c ≠ '\\')
    (h : 0x20 ≤ c.toNat) (hrest : readPieces? rest = some (pieces, after)) :
    readPieces? (some c :: rest) = some (.char c :: pieces, after) := by
  rw [readPieces?, if_neg (by omega), hrest]
  · rfl
  · exact hquote
  · exact fun _ _ _ _ _ _ hc => hslash hc
  · exact fun _ _ _ hc => hslash hc
  · exact hslash

theorem readPieces?_short (e c : Char) (hunit : e ≠ 'u') (h : escaped? e = some c)
    (hrest : readPieces? rest = some (pieces, after)) :
    readPieces? (some '\\' :: some e :: rest) = some (.char c :: pieces, after) := by
  rw [readPieces?, h, hrest]
  · rfl
  · exact fun _ _ _ _ _ _ hu => hunit hu

theorem readPieces?_unit (n : Nat) (h : n < 0x20)
    (hrest : readPieces? rest = some (pieces, after)) :
    readPieces? (some '\\' :: some 'u' :: some '0' :: some '0' :: some (hexDigit (n / 16)) ::
      some (hexDigit (n % 16)) :: rest) = some (.unit n :: pieces, after) := by
  rw [readPieces?, hexUnit?_control n h, hrest]
  rfl

/-- What stands for a character is read as its piece, whatever text follows. -/
theorem readPieces?_escapeChar (c : Char) (hrest : readPieces? rest = some (pieces, after)) :
    readPieces? ((escapeChar c).map some ++ rest) = some (pieceOf c :: pieces, after) := by
  unfold escapeChar
  by_cases hquote : c = '"'
  · subst hquote
    exact readPieces?_short '"' '"' (by decide) rfl hrest
  by_cases hslash : c = '\\'
  · subst hslash
    exact readPieces?_short '\\' '\\' (by decide) rfl hrest
  by_cases hplain : 0x20 ≤ c.toNat
  · have hpiece : pieceOf c = .char c := if_neg (by omega)
    rw [if_neg hquote, if_neg hslash, if_pos hplain, hpiece]
    exact readPieces?_plain c hquote hslash hplain hrest
  by_cases hn : c = '\n'
  · subst hn
    exact readPieces?_short 'n' '\n' (by decide) rfl hrest
  by_cases hr : c = '\r'
  · subst hr
    exact readPieces?_short 'r' '\r' (by decide) rfl hrest
  by_cases ht : c = '\t'
  · subst ht
    exact readPieces?_short 't' '\t' (by decide) rfl hrest
  by_cases hb : c = '\x08'
  · subst hb
    exact readPieces?_short 'b' '\x08' (by decide) rfl hrest
  by_cases hf : c = '\x0c'
  · subst hf
    exact readPieces?_short 'f' '\x0c' (by decide) rfl hrest
  · have hpiece : pieceOf c = .unit c.toNat :=
      if_pos ⟨by omega, by simp [shortEscapes, hn, hr, ht, hb, hf]⟩
    rw [if_neg hquote, if_neg hslash, if_neg hplain, if_neg hn, if_neg hr, if_neg ht, if_neg hb,
      if_neg hf, hpiece]
    exact readPieces?_unit c.toNat (by omega) hrest

end Pieces

/-! ## Texts -/

/-- The characters of a text and the quote after them are read as the pieces of the text. -/
theorem readPieces?_escaped (text : List Char) (rest : Units) :
    readPieces? ((text.flatMap escapeChar).map some ++ some '"' :: rest) =
      some (text.map pieceOf, rest) := by
  induction text with
  | nil => rfl
  | cons c text ih =>
    rw [List.flatMap_cons, List.map_append, List.append_assoc, List.map_cons]
    exact readPieces?_escapeChar c ih

theorem joinPieces?_unit (n : Nat) (pieces : List Piece) (h : n < 0xD800) :
    joinPieces? (.unit n :: pieces) = (joinPieces? pieces).map (Char.ofNat n :: ·) := by
  cases pieces with
  | nil => simp [joinPieces?, Nat.not_le.2 h]
  | cons piece pieces =>
    have hsingle : ¬ (0xD800 ≤ n ∧ n < 0xE000) := by omega
    have hhigh : ¬ (0xD800 ≤ n ∧ n < 0xDC00) := by omega
    have hlow : ¬ (0xDC00 ≤ n ∧ n < 0xE000) := by omega
    cases piece <;> simp [joinPieces?, hsingle, hhigh, hlow]

theorem joinPieces?_pieceOf (c : Char) (pieces : List Piece) :
    joinPieces? (pieceOf c :: pieces) = (joinPieces? pieces).map (c :: ·) := by
  unfold pieceOf
  split
  · next h => rw [joinPieces?_unit c.toNat pieces (by omega), Char.ofNat_toNat]
  · rfl

theorem joinPieces?_pieces (text : List Char) : joinPieces? (text.map pieceOf) = some text := by
  induction text with
  | nil => rfl
  | cons c text ih =>
    rw [List.map_cons, joinPieces?_pieceOf, ih]
    rfl

theorem pieceString?_pieces (s : String) : pieceString? (s.toList.map pieceOf) = some s := by
  rw [pieceString?, joinPieces?_pieces, Option.map_some, String.ofList_toList]

theorem readPieces?_quoted (s : String) (rest : Units) : ∃ units,
    (quoted s).map some ++ rest = some '"' :: units ∧
      readPieces? units = some (s.toList.map pieceOf, rest) := by
  refine ⟨(s.toList.flatMap escapeChar).map some ++ some '"' :: rest, ?_,
    readPieces?_escaped s.toList rest⟩
  simp [quoted]

end LintBridge.Json
