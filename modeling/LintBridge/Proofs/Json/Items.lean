import LintBridge.Proofs.Json.Lists
import LintBridge.Proofs.Text.Utf8

/-!
The items of an array are read each on its own.

`exists_of_readValue?` says, by induction on the fuel, that what is read as a value is a part: the
reader takes the same characters as the same value in front of all that closes a value. So a
document that is an array is a list of parts between brackets (`readUnits?_brackets_iff`), and the
items of two arrays with a comma between them are those of one array (`readOctets?_comma`).
-/

namespace LintBridge.Json

/-! ## Values -/

theorem part_of_cons {α : Type} {entry : Nat → Units → Option (α × Units)} {u : Option Char}
    {used : Units} {a : α}
    (h : ∀ fuel next, used.length ≤ fuel → Ends next →
      entry (fuel + 1) (u :: (used ++ next)) = some (a, next)) :
    Part entry (u :: used) a := by
  intro fuel next hfuel hnext
  cases fuel with
  | zero => cases hfuel
  | succ fuel => exact h fuel next (Nat.le_of_succ_le_succ hfuel) hnext

variable {depth : Nat}

theorem readValue?_skipSpace (fuel depth : Nat) (units : Units) :
    readValue? fuel depth (skipSpace units) = readValue? fuel depth units := by
  cases fuel with
  | zero => rfl
  | succ fuel => rw [readValue?, readValue?, skipSpace_skipSpace]

theorem Part.blanks {front used : Units} {t : Tree} (hfront : Blanks front)
    (h : Part (readValue? · depth) used t) : Part (readValue? · depth) (front ++ used) t := by
  intro fuel next hfuel hnext
  rw [List.length_append] at hfuel
  have hused := h fuel next (by omega) hnext
  dsimp only at hused ⊢
  rw [List.append_assoc, ← readValue?_skipSpace, skipSpace_blanks hfront, readValue?_skipSpace,
    hused]

theorem part_null : Part (readValue? · depth) (some 'n' :: ['u', 'l', 'l'].map some) .null :=
  part_of_cons fun _ _ _ _ => rfl

theorem part_true : Part (readValue? · depth) (some 't' :: ['r', 'u', 'e'].map some) (.bool true) :=
  part_of_cons fun _ _ _ _ => rfl

theorem part_false :
    Part (readValue? · depth) (some 'f' :: ['a', 'l', 's', 'e'].map some) (.bool false) :=
  part_of_cons fun _ _ _ _ => rfl

theorem exists_of_word {c : Char} {word : List Char} {tail rest : Units} {t u : Tree}
    (hpart : Part (readValue? · depth) (some c :: word.map some) t)
    (h : (expect? word tail).map ((t, ·)) = some (u, rest)) :
    ∃ used, some c :: tail = used ++ rest ∧ Part (readValue? · depth) used u := by
  obtain ⟨after, hword, h⟩ := Option.map_eq_some_iff.1 h
  obtain ⟨rfl, rfl⟩ := Prod.mk.inj h
  rw [eq_append_of_expect? hword]
  exact ⟨some c :: word.map some, rfl, hpart⟩

theorem part_text {used : Units} {pieces : List Piece}
    (h : ∀ next, readPieces? (used ++ next) = some (pieces, next)) :
    Part (readValue? · depth) (some '"' :: used)
      ((pieceString? pieces).elim .unusable .text) := by
  refine part_of_cons fun fuel next _ _ => ?_
  rw [readValue?, skipSpace_cons '"' _ rfl]
  simp [h next]

theorem part_negative {used : Units} {t : Tree}
    (h : ∀ next, Ends next → readNumber? true (used ++ next) = some (t, next)) :
    Part (readValue? · depth) (some '-' :: used) t :=
  part_of_cons fun fuel next _ hnext =>
    (readValue?_minus fuel depth (used ++ next)).trans (h next hnext)

theorem exists_digit_of_readNumber? {negative : Bool} {units rest : Units} {t : Tree}
    (h : readNumber? negative units = some (t, rest)) :
    ∃ c tail, units = some c :: tail ∧ c.isDigit = true := by
  obtain ⟨⟨whole, after⟩, hwhole, -⟩ := Option.bind_eq_some_iff.1 h
  cases units with
  | nil => cases hwhole
  | cons u tail =>
    cases hu : digit? u with
    | none => simp [readWhole?, readDigits, hu] at hwhole
    | some d =>
      cases u with
      | none => cases hu
      | some c => exact ⟨c, tail, rfl, isDigit_of_digit? hu⟩

theorem part_number {used : Units} {t : Tree}
    (h : ∀ next, Ends next → readNumber? false (used ++ next) = some (t, next)) :
    Part (readValue? · depth) used t := by
  obtain ⟨c, tail, hused, hc⟩ := exists_digit_of_readNumber? (h [] fun _ hhead => nomatch hhead)
  rw [List.append_nil] at hused
  subst hused
  exact part_of_cons fun fuel next _ hnext =>
    (readValue?_digit fuel depth c (tail ++ next) hc).trans (h next hnext)

/-! ## Arrays and objects -/

theorem readValue?_open (fuel : Nat) (units : Units) :
    readValue? (fuel + 1) depth (some '[' :: units) =
      match skipSpace units with
      | some ']' :: after => some (atDepth (depth + 1) (.array []), after)
      | rest => (readItems? fuel (depth + 1) rest).bind fun (items, after) =>
          some (atDepth (depth + 1) (.array items), after) := by
  rw [readValue?, skipSpace_cons '[' units rfl]
  rfl

theorem readItems?_skipSpace (fuel : Nat) (units : Units) :
    readItems? fuel depth (skipSpace units) = readItems? fuel depth units := by
  cases fuel with
  | zero => rfl
  | succ fuel => rw [readItems?, readItems?, readValue?_skipSpace]

theorem skipSpace_ne_bracket {fuel : Nat} {units rest : Units} {items : List Tree}
    (h : readItems? fuel depth units = some (items, rest)) (tail : Units) :
    skipSpace units ≠ some ']' :: tail := by
  intro hclose
  rw [← readItems?_skipSpace, hclose] at h
  cases fuel with
  | zero => cases h
  | succ fuel =>
    obtain ⟨t, rest, ht, -⟩ := (readsLists_items depth).cases _ _ _ _ h
    cases fuel <;> cases ht

theorem readValue?_items {fuel : Nat} {units after : Units} {items : List Tree}
    (h : readItems? fuel (depth + 1) units = some (items, after)) :
    readValue? (fuel + 1) depth (some '[' :: units) =
      some (atDepth (depth + 1) (.array items), after) := by
  rw [readValue?_open]
  split
  · next tail hclose => exact absurd hclose (skipSpace_ne_bracket h tail)
  · rw [readItems?_skipSpace, h]
    rfl

theorem part_array {body : Units} {items : List Tree}
    (h : Listed (Part (readValue? · (depth + 1))) body items) :
    Part (readValue? · depth) (some '[' :: (body ++ [some ']']))
      (atDepth (depth + 1) (.array items)) := by
  refine part_of_cons fun fuel next hfuel _ => ?_
  rw [List.length_append, List.length_singleton] at hfuel
  rw [List.append_assoc]
  exact readValue?_items (h.read_eq (readsLists_items (depth + 1)) rfl rfl fuel next hfuel)

theorem part_emptyArray {blanks : Units} (h : Blanks blanks) :
    Part (readValue? · depth) (some '[' :: (blanks ++ [some ']']))
      (atDepth (depth + 1) (.array [])) := by
  refine part_of_cons fun fuel next _ _ => ?_
  rw [readValue?_open, List.append_assoc, skipSpace_blanks h, List.singleton_append,
    skipSpace_cons ']' next rfl]
  rfl

theorem readValue?_openBrace (fuel : Nat) (units : Units) :
    readValue? (fuel + 1) depth (some '\x7b' :: units) =
      match skipSpace units with
      | some '\x7d' :: after => some (atDepth (depth + 1) (.object []), after)
      | rest => (readFields? fuel (depth + 1) rest).bind fun (fields, after) =>
          some (atDepth (depth + 1) (objectOf fields), after) := by
  rw [readValue?, skipSpace_cons '\x7b' units rfl]
  rfl

theorem readFields?_skipSpace (fuel : Nat) (units : Units) :
    readFields? fuel depth (skipSpace units) = readFields? fuel depth units := by
  cases fuel with
  | zero => rfl
  | succ fuel => rw [readFields?, readFields?, skipSpace_skipSpace]

theorem readValue?_fields {fuel : Nat} {units after : Units}
    {fields : List (Option String × Tree)}
    (h : readFields? fuel (depth + 1) units = some (fields, after)) :
    readValue? (fuel + 1) depth (some '\x7b' :: units) =
      some (atDepth (depth + 1) (objectOf fields), after) := by
  rw [readValue?_openBrace]
  split
  · next tail hclose =>
    rw [← readFields?_skipSpace, hclose] at h
    cases fuel <;> cases h
  · rw [readFields?_skipSpace, h]
    rfl

theorem part_object {body : Units} {fields : List (Option String × Tree)}
    (h : Listed (Part (readField? · (depth + 1))) body fields) :
    Part (readValue? · depth) (some '\x7b' :: (body ++ [some '\x7d']))
      (atDepth (depth + 1) (objectOf fields)) := by
  refine part_of_cons fun fuel next hfuel _ => ?_
  rw [List.length_append, List.length_singleton] at hfuel
  rw [List.append_assoc]
  exact readValue?_fields (h.read_eq (readsLists_fields (depth + 1)) rfl rfl fuel next hfuel)

theorem part_emptyObject {blanks : Units} (h : Blanks blanks) :
    Part (readValue? · depth) (some '\x7b' :: (blanks ++ [some '\x7d']))
      (atDepth (depth + 1) (.object [])) := by
  refine part_of_cons fun fuel next _ _ => ?_
  rw [readValue?_openBrace, List.append_assoc, skipSpace_blanks h, List.singleton_append,
    skipSpace_cons '\x7d' next rfl]
  rfl

theorem exists_of_readField? {fuel : Nat}
    (hvalue : ∀ units t rest, readValue? fuel depth units = some (t, rest) →
      ∃ used, units = used ++ rest ∧ Part (readValue? · depth) used t)
    (units : Units) (f : Option String × Tree) (rest : Units)
    (h : readField? fuel depth units = some (f, rest)) :
    ∃ used, units = used ++ rest ∧ Part (readField? · depth) used f := by
  obtain ⟨opened, pieces, colon, value, t, hopened, hpieces, hcolon, ht, rfl⟩ :=
    (readField?_eq_some_iff ..).1 h
  obtain ⟨front, hfront, hunits⟩ := exists_of_skipSpace units
  obtain ⟨name, rfl, hname⟩ := exists_of_readPieces? hpieces
  obtain ⟨blanks, hblanks, hsplit⟩ := exists_of_skipSpace colon
  obtain ⟨used, rfl, hused⟩ := hvalue value t rest ht
  rw [hopened] at hunits
  rw [hcolon] at hsplit
  subst hsplit hunits
  refine ⟨front ++ some '"' :: (name ++ (blanks ++ some ':' :: used)), ?_, ?_⟩
  · simp only [List.append_assoc, List.cons_append]
  · intro fuel next hfuel hnext
    simp only [List.length_append, List.length_cons] at hfuel
    simp only [List.append_assoc, List.cons_append]
    refine (readField?_eq_some_iff ..).2 ⟨name ++ (blanks ++ some ':' :: (used ++ next)), pieces,
      blanks ++ some ':' :: (used ++ next), used ++ next, t, ?_, hname _, ?_,
      hused fuel next (by omega) hnext, rfl⟩
    · rw [skipSpace_blanks hfront, skipSpace_cons '"' _ rfl]
    · rw [skipSpace_blanks hblanks, skipSpace_cons ':' _ rfl]

section Nested

variable {fuel : Nat} {tail rest : Units} {t : Tree}
  (hinner : ∀ k < fuel, ∀ units t rest, readValue? k (depth + 1) units = some (t, rest) →
    ∃ used, units = used ++ rest ∧ Part (readValue? · (depth + 1)) used t)

include hinner

theorem exists_of_array (h : readValue? (fuel + 1) depth (some '[' :: tail) = some (t, rest)) :
    ∃ used, some '[' :: tail = used ++ rest ∧ Part (readValue? · depth) used t := by
  obtain ⟨blanks, hblanks, hsplit⟩ := exists_of_skipSpace tail
  rw [readValue?_open] at h
  split at h
  · next after hclose =>
    obtain ⟨rfl, rfl⟩ := Prod.mk.inj (Option.some.inj h)
    refine ⟨some '[' :: (blanks ++ [some ']']), ?_, part_emptyArray hblanks⟩
    rw [hsplit, hclose, List.cons_append, List.append_assoc]
    rfl
  · obtain ⟨⟨items, after⟩, hitems, h⟩ := Option.bind_eq_some_iff.1 h
    obtain ⟨rfl, rfl⟩ := Prod.mk.inj (Option.some.inj h)
    rw [readItems?_skipSpace] at hitems
    obtain ⟨body, rfl, hbody⟩ := exists_listed (readsLists_items (depth + 1)) fuel hinner hitems
    refine ⟨some '[' :: (body ++ [some ']']), ?_, part_array hbody⟩
    rw [List.cons_append, List.append_assoc]
    rfl

theorem exists_of_object (h : readValue? (fuel + 1) depth (some '\x7b' :: tail) = some (t, rest)) :
    ∃ used, some '\x7b' :: tail = used ++ rest ∧ Part (readValue? · depth) used t := by
  obtain ⟨blanks, hblanks, hsplit⟩ := exists_of_skipSpace tail
  rw [readValue?_openBrace] at h
  split at h
  · next after hclose =>
    obtain ⟨rfl, rfl⟩ := Prod.mk.inj (Option.some.inj h)
    refine ⟨some '\x7b' :: (blanks ++ [some '\x7d']), ?_, part_emptyObject hblanks⟩
    rw [hsplit, hclose, List.cons_append, List.append_assoc]
    rfl
  · obtain ⟨⟨fields, after⟩, hfields, h⟩ := Option.bind_eq_some_iff.1 h
    obtain ⟨rfl, rfl⟩ := Prod.mk.inj (Option.some.inj h)
    rw [readFields?_skipSpace] at hfields
    obtain ⟨body, rfl, hbody⟩ := exists_listed (readsLists_fields (depth + 1)) fuel
      (fun k hk => exists_of_readField? (hinner k hk)) hfields
    refine ⟨some '\x7b' :: (body ++ [some '\x7d']), ?_, part_object hbody⟩
    rw [List.cons_append, List.append_assoc]
    rfl

end Nested

theorem exists_of_readValue? (fuel depth : Nat) (units : Units) (t : Tree) (rest : Units)
    (h : readValue? fuel depth units = some (t, rest)) :
    ∃ used, units = used ++ rest ∧ Part (readValue? · depth) used t := by
  induction fuel using Nat.strongRecOn generalizing depth units t rest with
  | ind fuel ih =>
  obtain ⟨front, hfront, hunits⟩ := exists_of_skipSpace units
  suffices hmain : ∃ used, skipSpace units = used ++ rest ∧ Part (readValue? · depth) used t by
    obtain ⟨used, hskip, hused⟩ := hmain
    refine ⟨front ++ used, ?_, hused.blanks hfront⟩
    rw [List.append_assoc, ← hskip]
    exact hunits
  cases fuel with
  | zero => cases h
  | succ fuel =>
    -- The readers of items and of fields read their values with less fuel.
    have hinner : ∀ k < fuel, ∀ units t rest, readValue? k (depth + 1) units = some (t, rest) →
        ∃ used, units = used ++ rest ∧ Part (readValue? · (depth + 1)) used t :=
      fun k hk => ih k (Nat.lt_succ_of_lt hk) (depth + 1)
    rw [readValue?] at h
    split at h
    · next tail hhead => exact hhead ▸ exists_of_word part_null h
    · next tail hhead => exact hhead ▸ exists_of_word part_true h
    · next tail hhead => exact hhead ▸ exists_of_word part_false h
    · next tail hhead =>
      obtain ⟨⟨pieces, after⟩, hpieces, h⟩ := Option.bind_eq_some_iff.1 h
      obtain ⟨rfl, rfl⟩ := Prod.mk.inj (Option.some.inj h)
      obtain ⟨used, rfl, hused⟩ := exists_of_readPieces? hpieces
      exact ⟨some '"' :: used, hhead, part_text hused⟩
    · next tail hhead => exact hhead ▸ exists_of_array hinner ((readValue?_open fuel tail).trans h)
    · next tail hhead =>
      exact hhead ▸ exists_of_object hinner ((readValue?_openBrace fuel tail).trans h)
    · next tail hhead =>
      obtain ⟨used, rfl, hused⟩ := exists_of_readNumber? h
      exact ⟨some '-' :: used, hhead, part_negative hused⟩
    · obtain ⟨used, hskip, hused⟩ := exists_of_readNumber? h
      exact ⟨used, hskip, part_number hused⟩

/-! ## Documents -/

theorem eq_nil_of_blanks {body other rest : Units} (hrest : Blanks rest)
    (h : body ++ [some ']'] = other ++ some ']' :: rest) : rest = [] ∧ body = other := by
  rcases List.eq_nil_or_concat rest with rfl | ⟨init, u, rfl⟩
  · exact ⟨rfl, (List.append_inj' h rfl).1⟩
  · have hlast : body ++ [some ']'] = (other ++ some ']' :: init) ++ [u] := by
      rw [h, List.append_assoc, List.cons_append, List.concat_eq_append]
    obtain ⟨c, rfl, hc⟩ := hrest u (by simp)
    obtain rfl := Option.some.inj (List.cons.inj (List.append_inj' hlast rfl).2).1
    cases hc

/-- A document that is an array with items in it is a list of parts between brackets. -/
theorem readUnits?_brackets_iff {body : Units} {items : List Tree} (hne : items ≠ []) :
    readUnits? (some '[' :: (body ++ [some ']'])) = some (.array items) ↔
      Listed (Part (readValue? · 1)) body items := by
  constructor
  · intro h
    obtain ⟨⟨t, rest⟩, ht, h⟩ := Option.bind_eq_some_iff.1 h
    dsimp only at h
    split at h
    · next hend =>
      obtain rfl := Option.some.inj h
      obtain ⟨blanks, hblanks, hrest⟩ := exists_of_skipSpace rest
      rw [hend, List.append_nil] at hrest
      subst hrest
      rw [readValue?_open] at ht
      split at ht
      · obtain ⟨hitems, -⟩ := Prod.mk.inj (Option.some.inj ht)
        exact absurd (Tree.array.inj hitems).symm hne
      · obtain ⟨⟨told, after⟩, htold, ht⟩ := Option.bind_eq_some_iff.1 ht
        obtain ⟨hitems, rfl⟩ := Prod.mk.inj (Option.some.inj ht)
        obtain rfl := Tree.array.inj hitems
        rw [readItems?_skipSpace] at htold
        obtain ⟨other, hbody, hlisted⟩ := exists_listed (readsLists_items 1) _
          (fun k _ => exists_of_readValue? k 1) htold
        obtain ⟨-, rfl⟩ := eq_nil_of_blanks hblanks hbody
        exact hlisted
    · cases h
  · intro h
    have hread := part_array h (2 * (some '[' :: (body ++ [some ']'])).length + 2) [] (by omega)
      fun _ hhead => nomatch hhead
    dsimp only at hread
    rw [List.append_nil] at hread
    rw [readUnits?, hread]
    rfl

/-- The octets of an array, from those of its items. -/
def brackets (octets : List UInt8) : List UInt8 := 0x5B :: (octets ++ [0x5D])

theorem readOctets?_brackets (octets : List UInt8) :
    readOctets? (brackets octets) =
      readUnits? (some '[' :: (Utf8.readUnits octets ++ [some ']'])) := by
  rw [readOctets?, brackets, Utf8.readUnits, Utf8.readFrom_char 0x5B '[' _ rfl]
  exact congrArg (fun units => readUnits? (some '[' :: units))
    (Utf8.readUnits_append_char (by decide) rfl octets [])

/-- The items of two arrays are those of one array in which they stand one after the other. -/
theorem readOctets?_comma {first second : List UInt8} {as bs : List Tree} (has : as ≠ [])
    (hbs : bs ≠ []) (ha : readOctets? (brackets first) = some (.array as))
    (hb : readOctets? (brackets second) = some (.array bs)) :
    readOctets? (brackets (first ++ 0x2C :: second)) = some (.array (as ++ bs)) := by
  rw [readOctets?_brackets, readUnits?_brackets_iff has] at ha
  rw [readOctets?_brackets, readUnits?_brackets_iff hbs] at hb
  have hne : as ++ bs ≠ [] := fun h => has (List.append_eq_nil_iff.1 h).1
  rw [readOctets?_brackets, readUnits?_brackets_iff hne,
    Utf8.readUnits_append_char (by decide) rfl first second]
  exact ha.append hb

end LintBridge.Json
