import LintBridge.Proofs.Finding.Floor
import LintBridge.Proofs.Json.Items

/-!
Findings are read each on its own.

What the tool printed as an array is read item by item (`ofOctets_of_array`): one item that is no
finding makes all of it unreadable, and else each item gives its finding, or none if it is a syntax
error and these are not to be shown. So the findings of two arrays, one after the other, are those
of one array with the items of both (`reads_each_alone`). A finding that is shown and that has the
least number where one is taken off leaves all of it without a result, which it does not do where it
is left out.
-/

namespace LintBridge.Finding

open Json (Tree)

/-! ## Arrays and blanks -/

/-- Blanks are left where the reader of values starts, or a form feed comes first. -/
theorem skipSpace_readUnits_blank (octets : List UInt8) (h : octets.all isBlankOctet = true) :
    Json.skipSpace (Utf8.readUnits octets) = [] ∨
      ∃ rest, Json.skipSpace (Utf8.readUnits octets) = some '\x0c' :: rest := by
  induction octets with
  | nil => exact .inl rfl
  | cons b octets ih =>
    rw [List.all_cons, Bool.and_eq_true] at h
    obtain ⟨hb, htail⟩ := h
    simp only [isBlankOctet, Bool.or_eq_true, beq_iff_eq] at hb
    rcases hb with (((rfl | rfl) | rfl) | rfl) | rfl
    · exact ih htail
    · exact ih htail
    · exact ih htail
    · exact .inr ⟨Utf8.readUnits octets, rfl⟩
    · exact ih htail

theorem readOctets?_blank (octets : List UInt8) (h : octets.all isBlankOctet = true) :
    Json.readOctets? octets = none := by
  rw [Json.readOctets?, Json.readUnits?, ← Json.readValue?_skipSpace]
  rcases skipSpace_readUnits_blank octets h with hnil | ⟨rest, hfeed⟩
  · rw [hnil]
    rfl
  · rw [hfeed]
    rfl

theorem statedIn?_of_array {octets : List UInt8} {items : List Tree}
    (h : Json.readOctets? octets = some (.array items)) :
    statedIn? octets = items.mapM Stated.ofTree? := by
  have hblank : ¬ octets.all isBlankOctet = true := by
    intro hblank
    rw [readOctets?_blank octets hblank] at h
    cases h
  rw [statedIn?, if_neg hblank, h]
  rfl

theorem ofOctets_of_array (c : Capabilities) (showSyntaxErrors : Bool) {octets : List UInt8}
    {items : List Tree} (h : Json.readOctets? octets = some (.array items)) (found : List Finding) :
    ofOctets c showSyntaxErrors octets = .ok found ↔
      ∃ stated, items.mapM Stated.ofTree? = some stated ∧
        ofStated? c showSyntaxErrors stated = some found := by
  rw [ofOctets_eq_ok_iff, statedIn?_of_array h, Option.bind_eq_some_iff]

theorem exists_array_of_ofOctets {c : Capabilities} {showSyntaxErrors : Bool}
    {octets : List UInt8} {f : Finding} {found : List Finding}
    (h : ofOctets c showSyntaxErrors octets = .ok (f :: found)) :
    ∃ items, items ≠ [] ∧ Json.readOctets? octets = some (.array items) := by
  obtain ⟨stated, hstated, hshown⟩ :=
    Option.bind_eq_some_iff.1 ((ofOctets_eq_ok_iff _ _ _ _).1 h)
  rw [statedIn?] at hstated
  split at hstated
  · obtain rfl := Option.some.inj hstated
    cases hshown
  · obtain ⟨t, ht, htree⟩ := Option.bind_eq_some_iff.1 hstated
    cases t with
    | array items =>
      refine ⟨items, ?_, ht⟩
      rintro rfl
      obtain rfl := Option.some.inj htree
      cases hshown
    | _ => cases htree

/-! ## Stated findings -/

theorem ofStated?_append (c : Capabilities) (showSyntaxErrors : Bool) (first second : List Stated)
    (found : List Finding) :
    ofStated? c showSyntaxErrors (first ++ second) = some found ↔
      ∃ front back, ofStated? c showSyntaxErrors first = some front ∧
        ofStated? c showSyntaxErrors second = some back ∧ found = front ++ back := by
  rw [ofStated?, List.filter_append, List.mapM_append]
  simp only [Option.bind_eq_bind, Option.bind_eq_some_iff, Option.pure_def, Option.some.injEq,
    eq_comm (a := found)]
  exact exists_congr fun front => exists_and_left.symm

/-- Whether a finding is left out with the syntax errors: it has no code, or one that versions
below 0.5.0 give to syntax errors. -/
def isHidden (v : Version) (f : Finding) : Bool :=
  f.code == none || (v.isBelow (.release 0 5 0) && f.code == some "E999")

theorem isHidden_finding {v : Version} {s : Stated} {f : Finding}
    (h : s.finding? (.ofVersion v) = some f) :
    isHidden v f = (Capabilities.ofVersion v).isSyntaxError s.code := by
  have hcode : f.code = s.code := by
    rw [Stated.finding?_eq] at h
    split at h
    · obtain ⟨fix, -, rfl⟩ := Option.map_eq_some_iff.1 h
      rfl
    · cases h
  have hbelow : v.isBelow (.release 0 5 0) = !v.atLeast (.release 0 5 0) := by
    rw [Version.isBelow, Version.atLeast, bne, Bool.not_not]
  rw [isHidden, hcode, hbelow]
  cases s.code <;> rfl

/-- To leave syntax errors out is to take them away from what is shown with them. -/
theorem ofStated?_false (v : Version) (stated : List Stated) (found : List Finding)
    (h : ofStated? (.ofVersion v) true stated = some found) :
    ofStated? (.ofVersion v) false stated = some (found.filter fun f => !isHidden v f) := by
  have hall : stated.filter (fun s => true || !(Capabilities.ofVersion v).isSyntaxError s.code) =
      stated := List.filter_eq_self.2 fun _ _ => rfl
  rw [ofStated?, hall] at h
  clear hall
  simp only [ofStated?, Bool.false_or]
  induction stated generalizing found with
  | nil =>
    obtain rfl := Option.some.inj h
    rfl
  | cons s rest ih =>
    simp only [List.mapM_cons, Option.bind_eq_bind, Option.bind_eq_some_iff, Option.pure_def,
      Option.some.injEq] at h
    obtain ⟨f, hf, fs, hfs, rfl⟩ := h
    rw [List.filter_cons, List.filter_cons, isHidden_finding hf]
    cases (Capabilities.ofVersion v).isSyntaxError s.code with
    | true => exact ih fs hfs
    | false =>
      simp only [Bool.not_false, if_true, List.mapM_cons, hf, ih fs hfs]
      rfl

theorem not_before_latest (p q : Position) : (p.latest q).before q = false := by
  unfold Position.latest
  split
  · simp [Position.before]
  · next h => exact Bool.eq_false_iff.2 h

theorem range_ofStated? (c : Capabilities) (showSyntaxErrors : Bool) (stated : List Stated)
    (found : List Finding) (h : ofStated? c showSyntaxErrors stated = some found) (f : Finding)
    (hf : f ∈ found) : f.range.stop.before f.range.start = false := by
  obtain ⟨s, -, hs⟩ := exists_of_mem_mapM _ _ h f hf
  rw [range_of_finding? hs]
  exact not_before_latest (s.stop.landing true) (s.start.landing true)

/-! ## Two arrays -/

/-- An array with the items of two others gives findings exactly if both of these do, and they are
then those of the first and behind them those of the second. The items with a comma between them are
such an array. An array is malformed exactly if one of its items is no finding; it gives findings
exactly if it is not, and one is taken off the least number in none of those that are shown. Not to
show syntax errors takes these away and nothing else, and no range ends before it starts. -/
theorem reads_each_alone (v : Version) (a b : List UInt8) (as bs : List Tree)
    (ha : Json.readOctets? a = some (.array as)) (hb : Json.readOctets? b = some (.array bs)) :
    (∀ showSyntaxErrors c found, Json.readOctets? c = some (.array (as ++ bs)) →
      (ofOctets (.ofVersion v) showSyntaxErrors c = .ok found ↔
        ∃ front back, ofOctets (.ofVersion v) showSyntaxErrors a = .ok front ∧
          ofOctets (.ofVersion v) showSyntaxErrors b = .ok back ∧ found = front ++ back)) ∧
    (∀ first second, a = Json.brackets first → b = Json.brackets second → as ≠ [] → bs ≠ [] →
      Json.readOctets? (Json.brackets (first ++ 0x2C :: second)) = some (.array (as ++ bs))) ∧
    (∀ showSyntaxErrors,
      ofOctets (.ofVersion v) showSyntaxErrors a = .error (.failed .outputNotJson) ↔
        ∃ t ∈ as, Stated.ofTree? t = none) ∧
    (∀ showSyntaxErrors, (∃ found, ofOctets (.ofVersion v) showSyntaxErrors a = .ok found) ↔
      ∃ stated, as.mapM Stated.ofTree? = some stated ∧
        ∀ told ∈ shown v showSyntaxErrors stated,
          -9223372036854775808 ∉ told.loweredOnReading v) ∧
    (∀ found, ofOctets (.ofVersion v) true a = .ok found →
      ofOctets (.ofVersion v) false a = .ok (found.filter fun f => !isHidden v f)) ∧
    ∀ showSyntaxErrors found, ofOctets (.ofVersion v) showSyntaxErrors a = .ok found →
      ∀ f ∈ found, f.range.stop.before f.range.start = false := by
  refine ⟨fun showSyntaxErrors c found hc => ?_, ?_, fun showSyntaxErrors => ?_,
    fun showSyntaxErrors => ?_, fun found hfound => ?_, ?_⟩
  · rw [ofOctets_of_array _ _ hc, List.mapM_append]
    simp only [Option.bind_eq_bind, Option.bind_eq_some_iff, Option.pure_def, Option.some.injEq,
      ofOctets_of_array _ _ ha, ofOctets_of_array _ _ hb]
    constructor
    · rintro ⟨_, ⟨first, hfirst, second, hsecond, rfl⟩, hfound⟩
      obtain ⟨front, back, hfront, hback, rfl⟩ := (ofStated?_append _ _ _ _ _).1 hfound
      exact ⟨front, back, ⟨first, hfirst, hfront⟩, ⟨second, hsecond, hback⟩, rfl⟩
    · rintro ⟨front, back, ⟨first, hfirst, hfront⟩, ⟨second, hsecond, hback⟩, rfl⟩
      exact ⟨_, ⟨first, hfirst, second, hsecond, rfl⟩,
        (ofStated?_append _ _ _ _ _).2 ⟨front, back, hfront, hback, rfl⟩⟩
  · rintro first second rfl rfl has hbs
    exact Json.readOctets?_comma has hbs ha hb
  · rw [← mapM_eq_none_iff, ofOctets, statedIn?_of_array ha]
    cases as.mapM Stated.ofTree? with
    | none => exact iff_of_true rfl rfl
    | some stated =>
      cases hshown : ofStated? (.ofVersion v) showSyntaxErrors stated <;> simp [orOverflow, hshown]
  · constructor
    · rintro ⟨found, hfound⟩
      obtain ⟨stated, hstated, -⟩ := (ofOctets_of_array _ _ ha found).1 hfound
      have hread := (statedIn?_of_array ha).trans hstated
      exact ⟨stated, hstated, (exists_ofOctets_iff v showSyntaxErrors hread).1 ⟨found, hfound⟩⟩
    · rintro ⟨stated, hstated, hleast⟩
      have hread := (statedIn?_of_array ha).trans hstated
      exact (exists_ofOctets_iff v showSyntaxErrors hread).2 hleast
  · obtain ⟨stated, hstated, hshown⟩ := (ofOctets_of_array _ _ ha found).1 hfound
    exact (ofOctets_of_array _ _ ha _).2 ⟨stated, hstated, ofStated?_false v stated found hshown⟩
  · intro showSyntaxErrors found hfound
    obtain ⟨stated, -, hshown⟩ := (ofOctets_of_array _ _ ha found).1 hfound
    exact range_ofStated? _ showSyntaxErrors stated found hshown

/-- A finding without a code. -/
def uncodedItem : List UInt8 := Utf8.encode "[null,\"m\",[1,1],[1,2]]".toList

/-- A finding that has the old code of syntax errors, and whose end is stated before its start. -/
def turnedItem : List UInt8 := Utf8.encode " [\"E999\",\"n\",[3,5],[2,1]] ".toList

def floorItem : List UInt8 := Utf8.encode "[null,\"n\",[-9223372036854775808,1],[1,2]]".toList

/-- The findings of two arrays are those of one array. Without syntax errors those of an array may
come to nothing, where with them it has no result. -/
theorem uncodedItem_turnedItem_apart : ∃ as bs,
    Json.readOctets? (Json.brackets uncodedItem) = some (.array as) ∧
    Json.readOctets? (Json.brackets turnedItem) = some (.array bs) ∧
    Json.readOctets? (Json.brackets (uncodedItem ++ 0x2C :: turnedItem)) =
      some (.array (as ++ bs)) ∧
    ofOctets (.ofVersion (.release 0 4 10)) true
      (Json.brackets (uncodedItem ++ 0x2C :: turnedItem)) =
        .ok [⟨⟨⟨0, 0⟩, ⟨0, 1⟩⟩, "m", none, none, none, none, none⟩,
          ⟨⟨⟨2, 4⟩, ⟨2, 4⟩⟩, "n", some "E999", none, none, none, none⟩] ∧
    ofOctets (.ofVersion (.release 0 4 10)) false (Json.brackets turnedItem) = .ok [] ∧
    ofOctets (.ofVersion (.release 0 4 10)) false (Json.brackets floorItem) = .ok [] ∧
    ∀ found,
      ofOctets (.ofVersion (.release 0 4 10)) true (Json.brackets floorItem) ≠ .ok found := by
  have huncoded : ofOctets (.ofVersion (.release 0 4 10)) true (Json.brackets uncodedItem) =
      .ok [⟨⟨⟨0, 0⟩, ⟨0, 1⟩⟩, "m", none, none, none, none, none⟩] :=
    (ofOctets_eq_ok_iff _ _ _ _).2 (by decide +kernel)
  have hturned : ofOctets (.ofVersion (.release 0 4 10)) true (Json.brackets turnedItem) =
      .ok [⟨⟨⟨2, 4⟩, ⟨2, 4⟩⟩, "n", some "E999", none, none, none, none⟩] :=
    (ofOctets_eq_ok_iff _ _ _ _).2 (by decide +kernel)
  obtain ⟨as, has, ha⟩ := exists_array_of_ofOctets huncoded
  obtain ⟨bs, hbs, hb⟩ := exists_array_of_ofOctets hturned
  obtain ⟨hjoined, hcomma, -⟩ := reads_each_alone (.release 0 4 10) _ _ as bs ha hb
  have hc := hcomma _ _ rfl rfl has hbs
  refine ⟨as, bs, ha, hb, hc, ?_, ?_, ?_, fun found hfound => ?_⟩
  · exact (hjoined true _ _ hc).2 ⟨_, _, huncoded, hturned, rfl⟩
  · obtain ⟨-, -, -, -, hhidden, -⟩ := reads_each_alone (.release 0 4 10) _ _ bs as hb ha
    exact hhidden _ hturned
  · exact (ofOctets_eq_ok_iff _ _ _ _).2 (by decide +kernel)
  · have hnone : (statedIn? (Json.brackets floorItem)).bind
        (ofStated? (.ofVersion (.release 0 4 10)) true) = none := by decide +kernel
    cases hnone.symm.trans ((ofOctets_eq_ok_iff _ _ _ _).1 hfound)

end LintBridge.Finding
