import LintBridge.Proofs.Json.Texts

/-!
What a reader takes does not depend on what comes after it.

Each reader of a token takes some characters off the front and leaves the rest. A text ends itself,
so its reader takes the same characters whatever follows (`exists_of_readPieces?`). A number ends
where nothing goes on with it: its parts keep what they took in front of all that starts as the rest
did, or that starts with no character of a number (`Alike`), and so the number as a whole keeps it
in front of all of the second kind (`exists_of_readNumber?`).
-/

namespace LintBridge.Json

/-! ## Blanks -/

/-- Characters that may stand between tokens. -/
def Blanks (units : Units) : Prop := ∀ u ∈ units, ∃ c, u = some c ∧ isSpace c = true

theorem blanks_nil : Blanks [] := fun _ hu => nomatch hu

theorem skipSpace_blanks {blanks : Units} (h : Blanks blanks) (units : Units) :
    skipSpace (blanks ++ units) = skipSpace units := by
  induction blanks with
  | nil => rfl
  | cons u blanks ih =>
    obtain ⟨c, rfl, hc⟩ := h u List.mem_cons_self
    rw [List.cons_append, skipSpace, if_pos hc]
    exact ih fun v hv => h v (List.mem_cons_of_mem _ hv)

theorem exists_of_skipSpace (units : Units) :
    ∃ blanks, Blanks blanks ∧ units = blanks ++ skipSpace units := by
  fun_induction skipSpace units with
  | case1 c rest hc ih =>
    obtain ⟨blanks, hblanks, hrest⟩ := ih
    refine ⟨some c :: blanks, fun u hu => ?_, congrArg (some c :: ·) hrest⟩
    rcases List.mem_cons.1 hu with rfl | hu
    · exact ⟨c, rfl, hc⟩
    · exact hblanks u hu
  | case2 c rest hc => exact ⟨[], blanks_nil, rfl⟩
  | case3 units hunits => exact ⟨[], blanks_nil, rfl⟩

theorem skipSpace_skipSpace (units : Units) : skipSpace (skipSpace units) = skipSpace units := by
  obtain ⟨blanks, hblanks, hunits⟩ := exists_of_skipSpace units
  rw [← skipSpace_blanks hblanks, ← hunits]

/-! ## Words and texts -/

theorem eq_append_of_expect? {word : List Char} {units rest : Units}
    (h : expect? word units = some rest) : units = word.map some ++ rest := by
  fun_induction expect? word units with
  | case1 units => exact Option.some.inj h
  | case2 word c tail ih => exact congrArg (some c :: ·) (ih h)
  | case3 => cases h
  | case4 => cases h

theorem exists_of_piece {read : Option (List Piece × Units)} {piece : Piece} {pieces : List Piece}
    {rest : Units}
    (h : (do let (more, after) ← read; return (piece :: more, after)) = some (pieces, rest)) :
    ∃ more, pieces = piece :: more ∧ read = some (more, rest) := by
  cases read with
  | none => cases h
  | some result =>
    obtain ⟨rfl, rfl⟩ := Prod.mk.inj (Option.some.inj h)
    exact ⟨result.1, rfl, rfl⟩

/-- The reader of texts takes what it took in front of everything. -/
theorem exists_of_readPieces? {units rest : Units} {pieces : List Piece}
    (h : readPieces? units = some (pieces, rest)) :
    ∃ used, units = used ++ rest ∧ ∀ next, readPieces? (used ++ next) = some (pieces, next) := by
  fun_induction readPieces? units generalizing pieces rest with
  | case1 => cases h
  | case2 after =>
    obtain ⟨rfl, rfl⟩ := Prod.mk.inj (Option.some.inj h)
    exact ⟨[some '"'], rfl, fun next => rfl⟩
  | case3 a b c d tail ih =>
    obtain ⟨n, hn, h⟩ := Option.bind_eq_some_iff.1 h
    obtain ⟨more, rfl, hmore⟩ := exists_of_piece h
    obtain ⟨used, rfl, hused⟩ := ih hmore
    refine ⟨some '\\' :: some 'u' :: a :: b :: c :: d :: used, rfl, fun next => ?_⟩
    simp only [List.cons_append]
    rw [readPieces?, hn, hused next]
    rfl
  | case4 e tail hunit ih =>
    obtain ⟨c, hc, h⟩ := Option.bind_eq_some_iff.1 h
    obtain ⟨more, rfl, hmore⟩ := exists_of_piece h
    obtain ⟨used, rfl, hused⟩ := ih hmore
    -- Too few digits after a `u` make it an escape of its own, and there is none.
    have hu : e ≠ 'u' := by
      rintro rfl
      cases hc
    exact ⟨some '\\' :: some e :: used, rfl, fun next => readPieces?_short e c hu hc (hused next)⟩
  | case5 => cases h
  | case6 => cases h
  | case7 c tail hquote hunit hescape hslash hlow ih =>
    obtain ⟨more, rfl, hmore⟩ := exists_of_piece h
    obtain ⟨used, rfl, hused⟩ := ih hmore
    exact ⟨some c :: used, rfl,
      fun next => readPieces?_plain c hquote hslash (Nat.le_of_not_lt hlow) (hused next)⟩
  | case8 tail ih =>
    obtain ⟨more, rfl, hmore⟩ := exists_of_piece h
    obtain ⟨used, rfl, hused⟩ := ih hmore
    refine ⟨none :: used, rfl, fun next => ?_⟩
    rw [List.cons_append, readPieces?, hused next]
    rfl

/-! ## Numbers -/

def isNumeral (c : Char) : Bool :=
  c.isDigit || c == '.' || c == 'e' || c == 'E' || c == '+' || c == '-'

/-- What does not go on with a number. -/
def Ends (next : Units) : Prop := ∀ c, next.head? = some (some c) → isNumeral c = false

theorem ends_cons {c : Char} (h : isNumeral c = false) (rest : Units) : Ends (some c :: rest) := by
  intro d hd
  obtain rfl := Option.some.inj (Option.some.inj hd)
  exact h

theorem isNumeral_of_isSpace {c : Char} (h : isSpace c = true) : isNumeral c = false := by
  simp only [isSpace, Bool.or_eq_true, beq_iff_eq] at h
  rcases h with ((rfl | rfl) | rfl) | rfl <;> rfl

theorem ends_blanks {blanks next : Units} (h : Blanks blanks) (hnext : Ends next) :
    Ends (blanks ++ next) := by
  cases blanks with
  | nil => exact hnext
  | cons u blanks =>
    obtain ⟨c, rfl, hc⟩ := h u List.mem_cons_self
    exact ends_cons (isNumeral_of_isSpace hc) (blanks ++ next)

/-- What starts as the rest that a part of a number left, or does not go on with a number. -/
def Alike (rest next : Units) : Prop := next.head? = rest.head? ∨ Ends next

theorem Alike.append {rest next : Units} (h : Alike rest next) (used : Units) :
    Alike (used ++ rest) (used ++ next) := by
  cases used with
  | nil => exact h
  | cons u used => exact .inl rfl

/-- A character of a number does not come first, if it did not in the rest. -/
theorem Alike.ne_cons {rest next : Units} (h : Alike rest next) {c : Char}
    (hc : isNumeral c = true) (hrest : ∀ tail, rest ≠ some c :: tail) (tail : Units) :
    next ≠ some c :: tail := by
  rintro rfl
  rcases h with hsame | hends
  · obtain ⟨more, rfl⟩ := List.head?_eq_some_iff.1 hsame.symm
    exact hrest more rfl
  · rw [hends c rfl] at hc
    cases hc

/-- A reader leaves what is behind the part it takes, and takes the same part in front of all that
is like what it left. -/
def Takes {α : Type} (read : Units → Option (α × Units)) : Prop :=
  ∀ units a rest, read units = some (a, rest) →
    ∃ used, units = used ++ rest ∧ ∀ next, Alike rest next → read (used ++ next) = some (a, next)

theorem isDigit_of_digit? {c : Char} {d : Nat} (h : digit? (some c) = some d) :
    c.isDigit = true := by
  rw [digit?] at h
  split at h
  · next hbounds => simpa [Char.isDigit, Char.le_def] using hbounds
  · cases h

theorem readDigits_of_head {next : Units} (h : ∀ u, next.head? = some u → digit? u = none) :
    readDigits next = ([], next) := by
  cases next with
  | nil => rfl
  | cons u next => rw [readDigits, h u rfl]

theorem Alike.digits {rest next : Units} (h : Alike rest next)
    (hrest : ∀ u, rest.head? = some u → digit? u = none) : readDigits next = ([], next) := by
  refine readDigits_of_head fun u hu => ?_
  rcases h with hsame | hends
  · exact hrest u (hsame ▸ hu)
  · cases u with
    | none => rfl
    | some c =>
      refine Option.eq_none_iff_forall_ne_some.2 fun d hd => ?_
      have hnumeral := hends c hu
      rw [isNumeral, isDigit_of_digit? hd] at hnumeral
      cases hnumeral

theorem takes_digits : Takes fun units => some (readDigits units) := by
  intro units
  induction units with
  | nil =>
    intro ds rest h
    obtain ⟨rfl, rfl⟩ := Prod.mk.inj (Option.some.inj h)
    exact ⟨[], rfl, fun next hnext => congrArg some (hnext.digits fun u hu => nomatch hu)⟩
  | cons u units ih =>
    intro ds rest h
    cases hu : digit? u with
    | none =>
      have hstop : readDigits (u :: units) = ([], u :: units) := by rw [readDigits, hu]
      obtain ⟨rfl, rfl⟩ := Prod.mk.inj (hstop.symm.trans (Option.some.inj h))
      refine ⟨[], rfl, fun next hnext => congrArg some (hnext.digits fun v hv => ?_)⟩
      obtain rfl := Option.some.inj hv
      exact hu
    | some d =>
      have hstep : ∀ more, readDigits (u :: more) =
          (d :: (readDigits more).1, (readDigits more).2) := fun more => by rw [readDigits, hu]
      obtain ⟨rfl, rfl⟩ := Prod.mk.inj ((hstep units).symm.trans (Option.some.inj h))
      obtain ⟨used, hunits, hused⟩ := ih _ _ rfl
      refine ⟨u :: used, congrArg (u :: ·) hunits, fun next hnext => ?_⟩
      have hmore := Option.some.inj (hused next hnext)
      simp only [List.cons_append, hstep, hmore]

theorem takes_readWhole? : Takes readWhole? := by
  intro units ds rest h
  rw [readWhole?] at h
  split at h
  · cases h
  · cases h
  · next hnone hzero =>
    have hdigits := Option.some.inj h
    obtain ⟨used, hunits, hused⟩ := takes_digits units ds rest h
    refine ⟨used, hunits, fun next hnext => ?_⟩
    rw [readWhole?, Option.some.inj (hused next hnext)]
    split
    · next hsame =>
      obtain ⟨rfl, rfl⟩ := Prod.mk.inj hsame
      exact absurd hdigits (hnone rest)
    · next hsame =>
      obtain ⟨rfl, rfl⟩ := Prod.mk.inj hsame
      exact absurd hdigits (hzero _ _ rest)
    · rfl

theorem takes_readFraction? : Takes readFraction? := by
  intro units fraction rest h
  rw [readFraction?.eq_def] at h
  split at h
  · next tail =>
    split at h
    · cases h
    · next ds after hnone hds =>
      obtain ⟨rfl, rfl⟩ := Prod.mk.inj (Option.some.inj h)
      obtain ⟨used, rfl, hused⟩ := takes_digits tail ds after (congrArg some hds)
      refine ⟨some '.' :: used, rfl, fun next hnext => ?_⟩
      rw [List.cons_append, readFraction?, Option.some.inj (hused next hnext)]
      cases ds with
      | nil => exact absurd rfl hnone
      | cons d ds => rfl
  · next hpoint =>
    obtain ⟨rfl, rfl⟩ := Prod.mk.inj (Option.some.inj h)
    refine ⟨[], rfl, fun next hnext => ?_⟩
    rw [List.nil_append, readFraction?.eq_def]
    split
    · next tail => exact absurd rfl (hnext.ne_cons rfl hpoint tail)
    · rfl

theorem takes_sign : Takes fun units => some (readSign units) := by
  intro units negative rest h
  have hsign := Option.some.inj h
  rw [readSign.eq_def] at hsign
  split at hsign
  · obtain ⟨rfl, rfl⟩ := Prod.mk.inj hsign
    exact ⟨[some '+'], rfl, fun next _ => rfl⟩
  · obtain ⟨rfl, rfl⟩ := Prod.mk.inj hsign
    exact ⟨[some '-'], rfl, fun next _ => rfl⟩
  · next hplus hminus =>
    obtain ⟨rfl, rfl⟩ := Prod.mk.inj hsign
    refine ⟨[], rfl, fun next hnext => congrArg some ?_⟩
    rw [List.nil_append, readSign.eq_def]
    split
    · next tail => exact absurd rfl (hnext.ne_cons rfl hplus tail)
    · next tail => exact absurd rfl (hnext.ne_cons rfl hminus tail)
    · rfl

theorem takes_power : Takes fun units =>
    match readSign units with
    | (negative, rest) =>
      match readDigits rest with
      | ([], _) => none
      | (ds, after) =>
        some (some (if negative then -(ofDigits ds : Int) else ofDigits ds), after) := by
  intro units exponent rest h
  cases hsign : readSign units with
  | mk negative middle =>
    simp only [hsign] at h
    split at h
    · cases h
    · next ds after hnone hds =>
      obtain ⟨rfl, rfl⟩ := Prod.mk.inj (Option.some.inj h)
      obtain ⟨first, rfl, hfirst⟩ := takes_sign units negative middle (congrArg some hsign)
      obtain ⟨second, rfl, hsecond⟩ := takes_digits middle ds after (congrArg some hds)
      refine ⟨first ++ second, (List.append_assoc ..).symm, fun next hnext => ?_⟩
      have hpart := Option.some.inj (hfirst (second ++ next) (hnext.append second))
      have hmore := Option.some.inj (hsecond next hnext)
      simp only [List.append_assoc, hpart, hmore]

theorem takes_readExponent? : Takes readExponent? := by
  intro units exponent rest h
  rw [readExponent?.eq_def] at h
  split at h
  · next tail =>
    obtain ⟨used, rfl, hused⟩ := takes_power tail exponent rest h
    exact ⟨some 'e' :: used, rfl, hused⟩
  · next tail =>
    obtain ⟨used, rfl, hused⟩ := takes_power tail exponent rest h
    exact ⟨some 'E' :: used, rfl, hused⟩
  · next hsmall hlarge =>
    obtain ⟨rfl, rfl⟩ := Prod.mk.inj (Option.some.inj h)
    refine ⟨[], rfl, fun next hnext => ?_⟩
    rw [List.nil_append, readExponent?.eq_def]
    split
    · next tail => exact absurd rfl (hnext.ne_cons rfl hsmall tail)
    · next tail => exact absurd rfl (hnext.ne_cons rfl hlarge tail)
    · rfl

/-- The reader of numbers takes what it took in front of everything that does not go on with a
number. -/
theorem exists_of_readNumber? {negative : Bool} {units rest : Units} {t : Tree}
    (h : readNumber? negative units = some (t, rest)) :
    ∃ used, units = used ++ rest ∧
      ∀ next, Ends next → readNumber? negative (used ++ next) = some (t, next) := by
  obtain ⟨⟨whole, afterWhole⟩, hwhole, h⟩ := Option.bind_eq_some_iff.1 h
  obtain ⟨⟨fraction, afterFraction⟩, hfraction, h⟩ := Option.bind_eq_some_iff.1 h
  obtain ⟨⟨exponent, after⟩, hexponent, h⟩ := Option.bind_eq_some_iff.1 h
  obtain ⟨rfl, rfl⟩ := Prod.mk.inj (Option.some.inj h)
  obtain ⟨first, rfl, hfirst⟩ := takes_readWhole? _ _ _ hwhole
  obtain ⟨second, rfl, hsecond⟩ := takes_readFraction? _ _ _ hfraction
  obtain ⟨third, rfl, hthird⟩ := takes_readExponent? _ _ _ hexponent
  refine ⟨first ++ (second ++ third), by simp only [List.append_assoc], fun next hnext => ?_⟩
  have hlike : Alike after next := .inr hnext
  rw [List.append_assoc, List.append_assoc, readNumber?,
    hfirst _ ((hlike.append third).append second)]
  simp only [Option.bind_eq_bind, Option.bind_some, hsecond _ (hlike.append third), hthird _ hlike]
  rfl

end LintBridge.Json
