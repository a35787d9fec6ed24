import LintBridge.Proofs.Json.Integers
import LintBridge.Proofs.Json.Texts

/-!
A value that is written is read as itself.

`Readable` values nest no deeper than the reader goes, and their numbers are integers that 64 bits
can hold. `Readable.readsBack` says, by induction on the value, that the reader takes exactly the
characters of such a value and gives its document; `readTree?_render` is what this means for a whole
text.
-/

namespace LintBridge.Json

/-- Values that nest at most so deep and whose numbers are integers of 64 bits. -/
inductive Readable : Nat → Json → Prop
  | null (n : Nat) : Readable n .null
  | bool (n : Nat) (b : Bool) : Readable n (.bool b)
  | int (n : Nat) (i : Int) : -9223372036854775808 ≤ i → i < 18446744073709551616 →
      Readable n (.number (.int i))
  | text (n : Nat) (s : String) : Readable n (.text s)
  | array (n : Nat) (items : List Json) : (∀ v ∈ items, Readable n v) →
      Readable (n + 1) (.array items)
  | object (n : Nat) (fields : List (String × Json)) : (∀ f ∈ fields, Readable n f.2) →
      Readable (n + 1) (.object fields)

/-- What the reader makes of the characters of a value, whatever closes it. -/
structure ReadsBack (n : Nat) (v : Json) : Prop where
  opens : ∃ c cs, v.chars = c :: cs ∧ isSpace c = false ∧ c ≠ ']'
  read : ∀ fuel depth rest, 2 * v.chars.length ≤ fuel → depth + n ≤ depthLimit → Closes rest →
    readValue? fuel depth (v.chars.map some ++ rest) = some (v.toTree, rest)

theorem skipSpace_cons (c : Char) (rest : Units) (h : isSpace c = false) :
    skipSpace (some c :: rest) = some c :: rest := by
  rw [skipSpace, if_neg (by simp [h])]

/-! ## Values without parts -/

theorem readsBack_null (n : Nat) : ReadsBack n .null where
  opens := ⟨'n', _, rfl, rfl, by decide⟩
  read
    | 0, _, _, hfuel, _, _ => absurd hfuel (by decide)
    | _ + 1, _, _, _, _, _ => rfl

theorem readsBack_bool (n : Nat) (b : Bool) : ReadsBack n (.bool b) := by
  cases b with
  | true =>
    exact ⟨⟨'t', _, rfl, rfl, by decide⟩, fun
      | 0, _, _, hfuel, _, _ => absurd hfuel (by decide)
      | _ + 1, _, _, _, _, _ => rfl⟩
  | false =>
    exact ⟨⟨'f', _, rfl, rfl, by decide⟩, fun
      | 0, _, _, hfuel, _, _ => absurd hfuel (by decide)
      | _ + 1, _, _, _, _, _ => rfl⟩

theorem readsBack_text (n : Nat) (s : String) : ReadsBack n (.text s) := by
  refine ⟨⟨'"', _, rfl, rfl, by decide⟩, fun fuel depth rest hfuel _ _ => ?_⟩
  obtain ⟨units, hunits, hpieces⟩ := readPieces?_quoted s rest
  cases fuel with
  | zero => simp [chars, quoted] at hfuel
  | succ fuel =>
    rw [chars, hunits, readValue?, skipSpace_cons '"' units rfl]
    simp [hpieces, pieceString?_pieces, toTree]

/-! ## Numbers -/

theorem isDigit_ne (c : Char) (h : c.isDigit = true) :
    isSpace c = false ∧ c ≠ ']' ∧ c ≠ 'n' ∧ c ≠ 't' ∧ c ≠ 'f' ∧ c ≠ '"' ∧ c ≠ '[' ∧
      c ≠ '\x7b' ∧ c ≠ '-' := by
  refine ⟨?_, ?_, ?_, ?_, ?_, ?_, ?_, ?_, ?_⟩
  · have hspaces : c ≠ ' ' ∧ c ≠ '\n' ∧ c ≠ '\t' ∧ c ≠ '\r' := by
      refine ⟨?_, ?_, ?_, ?_⟩ <;> (rintro rfl; revert h; decide)
    simp [isSpace, hspaces]
  all_goals (rintro rfl; revert h; decide)

theorem readValue?_digit (fuel depth : Nat) (c : Char) (rest : Units) (h : c.isDigit = true) :
    readValue? (fuel + 1) depth (some c :: rest) = readNumber? false (some c :: rest) := by
  obtain ⟨hspace, -, hn, ht, hf, hquote, hbracket, hbrace, hminus⟩ := isDigit_ne c h
  rw [readValue?, skipSpace_cons c rest hspace]
  simp [hn, ht, hf, hquote, hbracket, hbrace, hminus]

theorem readValue?_minus (fuel depth : Nat) (rest : Units) :
    readValue? (fuel + 1) depth (some '-' :: rest) = readNumber? true rest := by
  rw [readValue?, skipSpace_cons '-' rest rfl]
  rfl

theorem toDigits_ne_nil (n : Nat) : ∃ c cs, Nat.toDigits 10 n = c :: cs ∧ c.isDigit = true := by
  cases hdigits : Nat.toDigits 10 n with
  | nil => exact absurd hdigits Nat.toDigits_ne_nil
  | cons c cs =>
    have hmem : c ∈ Nat.toDigits 10 n := hdigits ▸ List.mem_cons_self
    exact ⟨c, cs, rfl, Nat.isDigit_of_mem_toDigits (by omega) (by omega) hmem⟩

theorem readsBack_int (n : Nat) (i : Int) (hlow : -9223372036854775808 ≤ i)
    (hhigh : i < 18446744073709551616) : ReadsBack n (.number (.int i)) := by
  obtain ⟨c, cs, hdigits, hdigit⟩ := toDigits_ne_nil i.natAbs
  have hchars : (Json.number (.int i)).chars =
      (if i < 0 then ['-'] else []) ++ Nat.toDigits 10 i.natAbs := toList_toString_int i
  by_cases hneg : i < 0
  · rw [if_pos hneg] at hchars
    refine ⟨⟨'-', _, hchars, rfl, by decide⟩, fun fuel depth rest hfuel _ hrest => ?_⟩
    rw [hchars] at hfuel ⊢
    cases fuel with
    | zero => simp at hfuel
    | succ fuel =>
      have hvalue : -(i.natAbs : Int) = i := by omega
      rw [List.singleton_append, List.map_cons, List.cons_append, readValue?_minus,
        readNumber?_negative i.natAbs rest (by omega) (by omega) hrest, hvalue, toTree]
  · rw [if_neg hneg, List.nil_append] at hchars
    refine ⟨⟨c, cs, hchars.trans hdigits, (isDigit_ne c hdigit).1, (isDigit_ne c hdigit).2.1⟩,
      fun fuel depth rest hfuel _ hrest => ?_⟩
    rw [hchars] at hfuel ⊢
    cases fuel with
    | zero => simp [hdigits] at hfuel
    | succ fuel =>
      have hvalue : (i.natAbs : Int) = i := by omega
      have hread := readNumber?_digits i.natAbs rest (by omega) hrest
      rw [hdigits, List.map_cons, List.cons_append] at hread ⊢
      rw [readValue?_digit fuel depth c _ hdigit, hread, hvalue, toTree]

/-! ## Arrays -/

theorem itemChars_cons (v w : Json) (items : List Json) :
    itemChars (v :: w :: items) = v.chars ++ ',' :: itemChars (w :: items) := by
  rw [itemChars]
  exact fun h => nomatch h

theorem readItems?_written (n : Nat) (v : Json) (items : List Json)
    (hitems : ∀ w ∈ v :: items, ReadsBack n w) (fuel depth : Nat) (rest : Units)
    (hfuel : 2 * (itemChars (v :: items)).length < fuel) (hdepth : depth + n ≤ depthLimit) :
    readItems? fuel depth ((itemChars (v :: items)).map some ++ some ']' :: rest) =
      some (itemTrees (v :: items), rest) := by
  induction items generalizing v fuel with
  | nil =>
    cases fuel with
    | zero => omega
    | succ fuel =>
      have hv := (hitems v List.mem_cons_self).read fuel depth (some ']' :: rest)
        (by rw [itemChars] at hfuel; omega) hdepth (closes_bracket rest)
      rw [readItems?, itemChars, hv]
      rfl
  | cons w items ih =>
    cases fuel with
    | zero => omega
    | succ fuel =>
      rw [itemChars_cons, List.length_append, List.length_cons] at hfuel
      have hv := (hitems v List.mem_cons_self).read fuel depth
        (some ',' :: ((itemChars (w :: items)).map some ++ some ']' :: rest))
        (by omega) hdepth (closes_comma _)
      have htail := ih w (fun u hu => hitems u (List.mem_cons_of_mem v hu)) fuel (by omega)
      rw [itemChars_cons, List.map_append, List.append_assoc, List.map_cons, List.cons_append,
        readItems?, hv]
      simp [skipSpace_cons ',' _ rfl, htail, itemTrees]

theorem itemChars_opens (v : Json) (items : List Json) (cs : List Char) (c : Char)
    (h : v.chars = c :: cs) : ∃ more, itemChars (v :: items) = c :: more := by
  cases items with
  | nil => exact ⟨cs, h⟩
  | cons w items => exact ⟨_, by rw [itemChars_cons, h]; rfl⟩

theorem readValue?_bracket (fuel depth : Nat) (c : Char) (units after : Units)
    (items : List Tree) (hspace : isSpace c = false) (hc : c ≠ ']')
    (h : readItems? fuel (depth + 1) (some c :: units) = some (items, after)) :
    readValue? (fuel + 1) depth (some '[' :: some c :: units) =
      some (atDepth (depth + 1) (.array items), after) := by
  rw [readValue?, skipSpace_cons '[' _ rfl]
  simp [skipSpace_cons c units hspace, hc, h]

theorem atDepth_of_lt (depth n : Nat) (t : Tree) (h : depth + (n + 1) ≤ depthLimit) :
    atDepth (depth + 1) t = t :=
  if_pos (by omega)

theorem readsBack_array (n : Nat) (items : List Json) (hitems : ∀ v ∈ items, ReadsBack n v) :
    ReadsBack (n + 1) (.array items) := by
  refine ⟨⟨'[', _, by rw [chars]; rfl, rfl, by decide⟩, fun fuel depth rest hfuel hdepth _ => ?_⟩
  cases fuel with
  | zero => simp [chars] at hfuel
  | succ fuel =>
    rw [toTree, ← atDepth_of_lt depth n (.array (itemTrees items)) hdepth]
    cases items with
    | nil => rfl
    | cons v items =>
      obtain ⟨c, cs, hv, hspace, hc⟩ := (hitems v List.mem_cons_self).opens
      obtain ⟨more, hmore⟩ := itemChars_opens v items cs c hv
      rw [chars, List.length_append, List.length_cons] at hfuel
      have hread := readItems?_written n v items hitems fuel (depth + 1) rest
        (by rw [List.length_singleton] at hfuel; omega) (by omega)
      rw [hmore, List.map_cons, List.cons_append] at hread
      rw [chars, hmore]
      simp only [List.map_append, List.map_cons, List.cons_append, List.append_assoc]
      exact readValue?_bracket fuel depth c _ rest _ hspace hc hread

/-! ## Objects -/

theorem fieldChars_cons (name : String) (v : Json) (f : String × Json)
    (fields : List (String × Json)) :
    fieldChars ((name, v) :: f :: fields) =
      quoted name ++ ':' :: (v.chars ++ ',' :: fieldChars (f :: fields)) := by
  rw [fieldChars]
  exact fun h => nomatch h

theorem readFields?_last (fuel depth : Nat) (name : String) (units after : Units) (t : Tree)
    (ht : readValue? fuel depth units = some (t, some '\x7d' :: after)) :
    readFields? (fuel + 1) depth ((quoted name).map some ++ some ':' :: units) =
      some ([(some name, t)], after) := by
  obtain ⟨text, htext, hpieces⟩ := readPieces?_quoted name (some ':' :: units)
  rw [htext, readFields?, skipSpace_cons '"' text rfl]
  simp [hpieces, pieceString?_pieces, skipSpace_cons ':' units rfl, ht,
    skipSpace_cons '\x7d' after rfl]

theorem readFields?_more (fuel depth : Nat) (name : String) (units rest after : Units) (t : Tree)
    (fields : List (Option String × Tree))
    (ht : readValue? fuel depth units = some (t, some ',' :: rest))
    (hfields : readFields? fuel depth rest = some (fields, after)) :
    readFields? (fuel + 1) depth ((quoted name).map some ++ some ':' :: units) =
      some ((some name, t) :: fields, after) := by
  obtain ⟨text, htext, hpieces⟩ := readPieces?_quoted name (some ':' :: units)
  rw [htext, readFields?, skipSpace_cons '"' text rfl]
  simp [hpieces, pieceString?_pieces, skipSpace_cons ':' units rfl, ht,
    skipSpace_cons ',' rest rfl, hfields]

theorem readFields?_written (n : Nat) (f : String × Json) (fields : List (String × Json))
    (hfields : ∀ g ∈ f :: fields, ReadsBack n g.2) (fuel depth : Nat) (rest : Units)
    (hfuel : 2 * (fieldChars (f :: fields)).length < fuel) (hdepth : depth + n ≤ depthLimit) :
    readFields? fuel depth ((fieldChars (f :: fields)).map some ++ some '\x7d' :: rest) =
      some ((f :: fields).map fun g => (some g.1, g.2.toTree), rest) := by
  induction fields generalizing f fuel with
  | nil =>
    obtain ⟨name, v⟩ := f
    cases fuel with
    | zero => omega
    | succ fuel =>
      rw [fieldChars, List.length_append, List.length_cons] at hfuel
      have hv : ReadsBack n v := hfields (name, v) List.mem_cons_self
      have hread := hv.read fuel depth (some '\x7d' :: rest) (by omega) hdepth (closes_brace rest)
      rw [fieldChars, List.map_append, List.append_assoc, List.map_cons, List.cons_append]
      exact readFields?_last fuel depth name _ rest v.toTree hread
  | cons g fields ih =>
    obtain ⟨name, v⟩ := f
    cases fuel with
    | zero => omega
    | succ fuel =>
      rw [fieldChars_cons, List.length_append, List.length_cons, List.length_append,
        List.length_cons] at hfuel
      have hv : ReadsBack n v := hfields (name, v) List.mem_cons_self
      have hread := hv.read fuel depth
        (some ',' :: ((fieldChars (g :: fields)).map some ++ some '\x7d' :: rest))
        (by omega) hdepth (closes_comma _)
      have htail := ih g (fun u hu => hfields u (List.mem_cons_of_mem (name, v) hu)) fuel
        (by omega)
      rw [fieldChars_cons, List.map_append, List.append_assoc, List.map_cons, List.cons_append,
        List.map_append, List.append_assoc, List.map_cons, List.cons_append]
      exact readFields?_more fuel depth name _ _ rest v.toTree _ hread htail

theorem objectOf_written (fields : List (String × Json)) :
    objectOf (fields.map fun g => (some g.1, g.2.toTree)) = .object (fieldTrees fields) := by
  have hnames : (fields.map fun g => (some g.1, g.2.toTree)).mapM
      (fun f => f.1.map ((·, f.2))) = some (fieldTrees fields) := by
    induction fields with
    | nil => rfl
    | cons g fields ih =>
      obtain ⟨name, v⟩ := g
      simp [fieldTrees, ih]
  unfold objectOf
  split
  · next named h => rw [Option.some.inj (h.symm.trans hnames)]
  · next h => exact absurd (h.symm.trans hnames) (by simp)

theorem fieldChars_opens (f : String × Json) (fields : List (String × Json)) :
    ∃ more, fieldChars (f :: fields) = '"' :: more := by
  obtain ⟨name, v⟩ := f
  cases fields with
  | nil => exact ⟨_, by rw [fieldChars, quoted]; rfl⟩
  | cons g fields => exact ⟨_, by rw [fieldChars_cons, quoted]; rfl⟩

theorem readValue?_brace (fuel depth : Nat) (units after : Units)
    (fields : List (Option String × Tree))
    (h : readFields? fuel (depth + 1) (some '"' :: units) = some (fields, after)) :
    readValue? (fuel + 1) depth (some '\x7b' :: some '"' :: units) =
      some (atDepth (depth + 1) (objectOf fields), after) := by
  rw [readValue?, skipSpace_cons '\x7b' _ rfl]
  simp [skipSpace_cons '"' units rfl, h]

theorem readsBack_object (n : Nat) (fields : List (String × Json))
    (hfields : ∀ f ∈ fields, ReadsBack n f.2) : ReadsBack (n + 1) (.object fields) := by
  refine ⟨⟨'\x7b', _, by rw [chars]; rfl, rfl, by decide⟩,
    fun fuel depth rest hfuel hdepth _ => ?_⟩
  cases fuel with
  | zero => simp [chars] at hfuel
  | succ fuel =>
    rw [toTree, ← atDepth_of_lt depth n (.object (fieldTrees fields)) hdepth]
    cases fields with
    | nil => rfl
    | cons f fields =>
      obtain ⟨more, hmore⟩ := fieldChars_opens f fields
      rw [chars, List.length_append, List.length_cons] at hfuel
      have hread := readFields?_written n f fields hfields fuel (depth + 1) rest
        (by rw [List.length_singleton] at hfuel; omega) (by omega)
      rw [hmore, List.map_cons, List.cons_append] at hread
      rw [← objectOf_written, chars, hmore]
      simp only [List.map_append, List.map_cons, List.cons_append, List.append_assoc]
      exact readValue?_brace fuel depth _ rest _ hread

/-! ## All values -/

/-- The characters of a value that nests no deeper than the reader goes are read as its document. -/
theorem Readable.readsBack {n : Nat} {v : Json} (h : Readable n v) : ReadsBack n v := by
  induction h with
  | null n => exact readsBack_null n
  | bool n b => exact readsBack_bool n b
  | int n i hlow hhigh => exact readsBack_int n i hlow hhigh
  | text n s => exact readsBack_text n s
  | array n items _ ih => exact readsBack_array n items ih
  | object n fields _ ih => exact readsBack_object n fields ih

theorem readTree?_render {n : Nat} {v : Json} (h : Readable n v) (hn : n ≤ depthLimit) :
    readTree? v.render = some v.toTree := by
  have hread := h.readsBack.read (2 * v.chars.length + 2) 0 [] (by omega) (by omega) (.inl rfl)
  rw [List.append_nil] at hread
  rw [readTree?, render, String.toList_ofList, readUnits?, List.length_map, hread]
  rfl

end LintBridge.Json
