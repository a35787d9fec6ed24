import LintBridge.Json.Reader

/-!
Integers as they are written in JSON are read as themselves.

A number is written as its decimal digits after a sign, and what follows it must not continue it
(`Closes`). `readNumber?_digits` and `readNumber?_negative` say that the reader then takes exactly
the digits and gives back every integer that 64 bits can hold, signed or unsigned.
-/

namespace LintBridge.Json

/-- What may follow a value: the end, or a character that no value contains outside of texts. -/
def Closes (rest : Units) : Prop :=
  rest = [] ∨ ∃ c after, rest = some c :: after ∧ (c = ',' ∨ c = ']' ∨ c = '\x7d')

theorem closes_comma (rest : Units) : Closes (some ',' :: rest) := .inr ⟨',', rest, rfl, .inl rfl⟩

theorem closes_bracket (rest : Units) : Closes (some ']' :: rest) :=
  .inr ⟨']', rest, rfl, .inr (.inl rfl)⟩

theorem closes_brace (rest : Units) : Closes (some '\x7d' :: rest) :=
  .inr ⟨'\x7d', rest, rfl, .inr (.inr rfl)⟩

theorem readDigits_closes (rest : Units) (h : Closes rest) : readDigits rest = ([], rest) := by
  rcases h with rfl | ⟨c, after, rfl, rfl | rfl | rfl⟩ <;> rfl

theorem readFraction?_closes (rest : Units) (h : Closes rest) :
    readFraction? rest = some (none, rest) := by
  rcases h with rfl | ⟨c, after, rfl, rfl | rfl | rfl⟩ <;> rfl

theorem readExponent?_closes (rest : Units) (h : Closes rest) :
    readExponent? rest = some (none, rest) := by
  rcases h with rfl | ⟨c, after, rfl, rfl | rfl | rfl⟩ <;> rfl

/-! ## Digits -/

def spelling (n : Nat) : List Nat := (Nat.toDigits 10 n).map fun c => c.toNat - 48

theorem digit?_of_isDigit (c : Char) (h : c.isDigit = true) :
    digit? (some c) = some (c.toNat - 48) := by
  have hbounds : '0' ≤ c ∧ c ≤ '9' := by
    simpa [Char.isDigit, Char.le_def] using h
  rw [digit?, if_pos hbounds]

theorem readDigits_append (ds : List Char) (rest : Units) (hds : ∀ c ∈ ds, c.isDigit = true)
    (h : Closes rest) :
    readDigits (ds.map some ++ rest) = (ds.map fun c => c.toNat - 48, rest) := by
  induction ds with
  | nil => exact readDigits_closes rest h
  | cons c ds ih =>
    have htail := ih fun d hd => hds d (List.mem_cons_of_mem c hd)
    rw [List.map_cons, List.cons_append, readDigits, digit?_of_isDigit c (hds c List.mem_cons_self)]
    simp only [htail, List.map_cons]

theorem readDigits_toDigits (n : Nat) (rest : Units) (h : Closes rest) :
    readDigits ((Nat.toDigits 10 n).map some ++ rest) = (spelling n, rest) :=
  readDigits_append (Nat.toDigits 10 n) rest
    (fun _ hc => Nat.isDigit_of_mem_toDigits (by omega) (by omega) hc) h

theorem digitChar_sub (d : Nat) (h : d < 10) : d.digitChar.toNat - 48 = d := by
  revert d
  decide

theorem spelling_of_lt (n : Nat) (h : n < 10) : spelling n = [n] := by
  rw [spelling, Nat.toDigits_of_lt_base h, List.map_singleton, digitChar_sub n h]

theorem spelling_of_ge (n : Nat) (h : 10 ≤ n) : spelling n = spelling (n / 10) ++ [n % 10] := by
  rw [spelling, Nat.toDigits_eq_if (by omega), if_neg (by omega), List.map_append,
    List.map_singleton, digitChar_sub (n % 10) (Nat.mod_lt n (by omega))]
  rfl

/-- Among more digits than one, the first is not zero. -/
theorem spelling_cases (n : Nat) :
    spelling n = [n] ∨ ∃ d e ds, spelling n = (d + 1) :: e :: ds := by
  induction n using Nat.strongRecOn with
  | ind n ih =>
    by_cases hsmall : n < 10
    · exact .inl (spelling_of_lt n hsmall)
    · right
      rw [spelling_of_ge n (by omega)]
      rcases ih (n / 10) (by omega) with hone | ⟨d, e, ds, hmore⟩
      · refine ⟨n / 10 - 1, n % 10, [], ?_⟩
        rw [hone, Nat.sub_add_cancel (by omega)]
        rfl
      · exact ⟨d, e, ds ++ [n % 10], by rw [hmore]; rfl⟩

theorem readWhole?_toDigits (n : Nat) (rest : Units) (h : Closes rest) :
    readWhole? ((Nat.toDigits 10 n).map some ++ rest) = some (spelling n, rest) := by
  rw [readWhole?, readDigits_toDigits n rest h]
  rcases spelling_cases n with hone | ⟨d, e, ds, hmore⟩
  · rw [hone]
    cases n <;> rfl
  · rw [hmore]
    rfl

/-! ## Values of digits -/

theorem foldl_spelling (n : Nat) : (spelling n).foldl (fun v d => v * 10 + d) 0 = n := by
  have hchars : Nat.ofDigitChars 10 (Nat.toDigits 10 n) 0 = n := Nat.ofDigitChars_ten_toDigits
  rw [Nat.ofDigitChars_eq_foldl] at hchars
  rw [spelling, List.foldl_map]
  simp only [Nat.mul_comm 10] at hchars
  exact hchars

theorem le_foldl_digits (ds : List Nat) (v : Nat) : v ≤ ds.foldl (fun v d => v * 10 + d) v := by
  induction ds generalizing v with
  | nil => exact Nat.le_refl v
  | cons d ds ih => exact Nat.le_trans (by omega) (ih (v * 10 + d))

/-- Digits whose value fits 64 bits are all taken in. -/
theorem ofWhole_of_lt (ds : List Nat) (v : Nat)
    (h : ds.foldl (fun v d => v * 10 + d) v < Number.limit) :
    Number.Significand.ofWhole ⟨v, 0⟩ ds = ⟨ds.foldl (fun v d => v * 10 + d) v, 0⟩ := by
  induction ds generalizing v with
  | nil => rfl
  | cons d ds ih =>
    have hstep : ¬ Number.limit ≤ v * 10 + d :=
      Nat.not_le.2 (Nat.lt_of_le_of_lt (le_foldl_digits ds (v * 10 + d)) h)
    rw [Number.Significand.ofWhole, if_neg hstep]
    exact ih (v * 10 + d) h

theorem ofWhole_spelling (n : Nat) (h : n < Number.limit) :
    Number.Significand.ofWhole ⟨0, 0⟩ (spelling n) = ⟨n, 0⟩ := by
  rw [ofWhole_of_lt _ 0 (by rw [foldl_spelling]; exact h), foldl_spelling]

/-! ## Numbers -/

/-- Digits that what follows does not continue are read as a number without point and
exponent. -/
theorem readNumber?_toDigits (negative : Bool) (n : Nat) (rest : Units) (h : Closes rest) :
    readNumber? negative ((Nat.toDigits 10 n).map some ++ rest) =
      some ((Number.ofParts? ⟨negative, spelling n, none, none⟩).elim .unusable .number, rest) := by
  simp [readNumber?, readWhole?_toDigits n rest h, readFraction?_closes rest h,
    readExponent?_closes rest h]

theorem readNumber?_digits (n : Nat) (rest : Units) (hn : n < 18446744073709551616)
    (h : Closes rest) :
    readNumber? false ((Nat.toDigits 10 n).map some ++ rest) = some (.number (.int n), rest) := by
  rw [readNumber?_toDigits false n rest h]
  simp [Number.ofParts?, ofWhole_spelling n hn]

/-- Digits after a minus sign are read as the negative number they spell. -/
theorem readNumber?_negative (n : Nat) (rest : Units) (hpos : 0 < n)
    (hn : n ≤ 9223372036854775808) (h : Closes rest) :
    readNumber? true ((Nat.toDigits 10 n).map some ++ rest) =
      some (.number (.int (-n)), rest) := by
  have hlimit : n < Number.limit := by
    rw [Number.limit]
    omega
  rw [readNumber?_toDigits true n rest h]
  simp [Number.ofParts?, ofWhole_spelling n hlimit, hpos, hn]

/-- An integer is written as its digits, after a minus sign if it is negative. -/
theorem toList_toString_int (n : Int) :
    (toString n).toList = (if n < 0 then ['-'] else []) ++ Nat.toDigits 10 n.natAbs := by
  cases n with
  | ofNat m =>
    have hnot : ¬ Int.ofNat m < 0 := by simp
    rw [if_neg hnot]
    exact Nat.toList_repr
  | negSucc m =>
    have hneg : Int.negSucc m < 0 := Int.negSucc_lt_zero m
    rw [if_pos hneg]
    change ("-" ++ m.succ.repr).toList = _
    rw [String.toList_append, Nat.toList_repr]
    rfl

end LintBridge.Json
