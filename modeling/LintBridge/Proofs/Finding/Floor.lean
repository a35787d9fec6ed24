import LintBridge.Proofs.Finding.Landing

/-!
The places of a finding at the ends of 64 bits.

`Stated.lowered` lists the numbers of a finding that one is taken off on the way to the editor, and
`Stated.loweredOnReading` those of them where this is done as the finding is read. The difference
fits 64 bits but for the least number. So what the tool printed has no result exactly if that is
among the numbers of a finding that is shown, and the places of all findings land where plain
integers say if it is not (`findings_land_iff`).
-/

namespace LintBridge

namespace Finding

/-- A finding as the editor gets it: its range, and the edits of its fix. -/
def forEditor? (f : Finding) : Option (Range × Option (List TextEdit)) := do
  return (f.range, ← f.fix.mapM fun fix => fix.edits.mapM FixEdit.textEdit?)

/-- A finding as the editor should get it. -/
def Stated.landed (v : Version) (s : Stated) : Range × Option (List TextEdit) :=
  (s.landedRange, s.fix.map fun f => f.replacements.map (FixEdit.landed (f.countsFromOne v)))

/-- The numbers of a finding that one is taken off, for a version of the tool. -/
def Stated.lowered (v : Version) (s : Stated) : List Int :=
  s.start.lowered true ++ s.stop.lowered true ++ s.fix.elim [] (StatedFix.lowered v)

/-- The numbers of a fix that one is taken off when it is read: its columns that count from one. -/
def StatedFix.loweredOnReading (v : Version) (f : StatedFix) : List Int :=
  if f.countsFromOne v then f.replacements.flatMap fun e => [e.start.column, e.stop.column] else []

/-- The numbers of a finding that one is taken off when it is read. -/
def Stated.loweredOnReading (v : Version) (s : Stated) : List Int :=
  s.start.lowered true ++ s.stop.lowered true ++ s.fix.elim [] (StatedFix.loweredOnReading v)

def shown (v : Version) (showSyntaxErrors : Bool) (stated : List Stated) : List Stated :=
  stated.filter fun s => showSyntaxErrors || !(Capabilities.ofVersion v).isSyntaxError s.code

/-! ## One finding -/

/-- To bring a finding to the editor is to place its range and to make the edits of its fix. -/
theorem Stated.forEditor?_eq_ite (v : Version) (s : Stated) :
    (s.finding? (.ofVersion v)).bind forEditor? =
      if ∀ n ∈ s.start.lowered true ++ s.stop.lowered true, Signed64 (n - 1) then
        (s.fix.mapM (StatedFix.textEdits? v)).map fun edits => (s.landedRange, edits)
      else none := by
  rw [finding?_eq]
  split
  · cases s.fix with
    | none => rfl
    | some f =>
      rw [Option.mapM_some, Option.mapM_some, StatedFix.textEdits?]
      cases f.fix? (Capabilities.ofVersion v).fixSchema with
      | none => rfl
      | some fix => cases hedits : fix.edits.mapM FixEdit.textEdit? <;> simp [forEditor?, hedits]
  · rfl

/-- A finding comes to the editor where plain integers say, if no number of it leaves 64 bits on the
way. -/
theorem Stated.forEditor?_eq (v : Version) (s : Stated) :
    (s.finding? (.ofVersion v)).bind forEditor? =
      if ∀ n ∈ s.lowered v, Signed64 (n - 1) then some (s.landed v) else none := by
  rw [forEditor?_eq_ite, lowered, landed]
  cases s.fix with
  | none =>
    rw [Option.elim_none, List.append_nil]
    rfl
  | some f =>
    rw [Option.elim_some, Option.mapM_some, f.textEdits?_eq v]
    by_cases hrange : ∀ n ∈ s.start.lowered true ++ s.stop.lowered true, Signed64 (n - 1)
    · have hall : (∀ n ∈ s.start.lowered true ++ s.stop.lowered true ++ f.lowered v,
          Signed64 (n - 1)) ↔ ∀ n ∈ f.lowered v, Signed64 (n - 1) :=
        List.forall_mem_append.trans (and_iff_right hrange)
      simp only [if_pos hrange, hall]
      split <;> rfl
    · rw [if_neg hrange, if_neg fun hall => hrange (List.forall_mem_append.1 hall).1]

/-- A fix is read unless a column of it leaves 64 bits. -/
theorem StatedFix.isSome_fix? (v : Version) (f : StatedFix) :
    (f.fix? (Capabilities.ofVersion v).fixSchema).isSome ↔
      ∀ n ∈ f.loweredOnReading v, Signed64 (n - 1) := by
  cases f with
  | single message edit => simp [fix?, loweredOnReading, countsFromOne, isList]
  | edits fix =>
    have hcounts : (StatedFix.edits fix).countsFromOne v ↔
        (Capabilities.ofVersion v).fixSchema = .editsOneBased :=
      (fixSchema_eq_editsOneBased_iff v).symm
    rw [fix?, loweredOnReading]
    by_cases hschema : (Capabilities.ofVersion v).fixSchema = .editsOneBased
    · have hread : (fix.edits.mapM FixEdit.columnsFromZero?).isSome ↔
          ∀ e ∈ fix.edits, e.columnsFromZero?.isSome := by
        rw [isSome_mapM, List.all_eq_true]
      rw [if_pos hschema, if_pos (hcounts.2 hschema), List.forall_mem_flatMap]
      refine Iff.trans ?_ (hread.trans (forall₂_congr fun e _ => e.isSome_columnsFromZero?))
      cases fix.edits.mapM FixEdit.columnsFromZero? <;> simp
    · rw [if_neg hschema, if_neg (hschema ∘ hcounts.1)]
      simp

/-- A finding is made ready for the editor unless a number of it leaves 64 bits by it. -/
theorem Stated.isSome_finding? (v : Version) (s : Stated) :
    (s.finding? (.ofVersion v)).isSome ↔ ∀ n ∈ s.loweredOnReading v, Signed64 (n - 1) := by
  have hfix : (s.fix.mapM (StatedFix.fix? (Capabilities.ofVersion v).fixSchema)).isSome ↔
      ∀ n ∈ s.fix.elim [] (StatedFix.loweredOnReading v), Signed64 (n - 1) := by
    cases s.fix with
    | none => simp
    | some f => simpa using f.isSome_fix? v
  rw [finding?_eq, loweredOnReading]
  refine Iff.trans ?_ List.forall_mem_append.symm
  rw [← hfix]
  split
  · next hrange => rw [Option.isSome_map, and_iff_right hrange]
  · next hrange => exact iff_of_false Bool.false_ne_true fun h => hrange h.1

theorem Stated.signed64_of_mem (v : Version) (s : Stated) (h : s.Bounded) :
    (∀ n ∈ s.lowered v, Signed64 n) ∧ ∀ n ∈ s.loweredOnReading v, Signed64 n := by
  have hplace : ∀ (fromOne : Bool) (l : Location), l.Signed →
      ∀ n ∈ l.lowered fromOne, Signed64 n := by
    intro fromOne l hl
    cases fromOne <;> simp [Location.lowered, hl.1, hl.2]
  have hrange : ∀ n ∈ s.start.lowered true ++ s.stop.lowered true, Signed64 n :=
    List.forall_mem_append.2 ⟨hplace _ _ h.start, hplace _ _ h.stop⟩
  refine ⟨List.forall_mem_append.2 ⟨hrange, ?_⟩, List.forall_mem_append.2 ⟨hrange, ?_⟩⟩
  · cases hfix : s.fix with
    | none => simp
    | some f =>
      rw [Option.elim_some, StatedFix.lowered, List.forall_mem_flatMap]
      intro e he
      have hsigned := h.fix f hfix e he
      exact List.forall_mem_append.2 ⟨hplace _ _ hsigned.1, hplace _ _ hsigned.2⟩
  · cases hfix : s.fix with
    | none => simp
    | some f =>
      rw [Option.elim_some, StatedFix.loweredOnReading]
      split
      · rw [List.forall_mem_flatMap]
        intro e he
        have hsigned := h.fix f hfix e he
        simp [hsigned.1.2, hsigned.2.2]
      · simp

/-- No number leaves 64 bits when one is taken off it exactly if the least number is not among
them. -/
theorem forall_signed64_sub_one_iff (l : List Int) (h : ∀ n ∈ l, Signed64 n) :
    (∀ n ∈ l, Signed64 (n - 1)) ↔ -9223372036854775808 ∉ l := by
  rw [← List.forall_mem_ne']
  exact forall₂_congr fun n hn => signed64_sub_one_iff n (h n hn)

theorem Stated.isSome_finding?_iff (v : Version) (s : Stated) (h : s.Bounded) :
    (s.finding? (.ofVersion v)).isSome ↔ -9223372036854775808 ∉ s.loweredOnReading v := by
  rw [s.isSome_finding? v, forall_signed64_sub_one_iff _ (s.signed64_of_mem v h).2]

/-! ## What was printed -/

section

variable (v : Version) (showSyntaxErrors : Bool) {octets : List UInt8} {stated : List Stated}
  (hread : statedIn? octets = some stated)
include hread

theorem ofOctets_of_statedIn? : ofOctets (.ofVersion v) showSyntaxErrors octets =
    orOverflow ((shown v showSyntaxErrors stated).mapM (Stated.finding? (.ofVersion v))) := by
  rw [ofOctets, hread]
  rfl

theorem bounded_of_mem_shown {told : Stated} (h : told ∈ shown v showSyntaxErrors stated) :
    told.Bounded :=
  Stated.bounded_of_statedIn? octets stated hread told (List.mem_filter.1 h).1

/-- The output has a result exactly if one is taken off the least number in no finding that is
shown. -/
theorem exists_ofOctets_iff :
    (∃ found, ofOctets (.ofVersion v) showSyntaxErrors octets = .ok found) ↔
    ∀ told ∈ shown v showSyntaxErrors stated, -9223372036854775808 ∉ told.loweredOnReading v := by
  have hsome : (∃ found, ofOctets (.ofVersion v) showSyntaxErrors octets = .ok found) ↔
      ((shown v showSyntaxErrors stated).mapM (Stated.finding? (.ofVersion v))).isSome := by
    rw [ofOctets_of_statedIn? v showSyntaxErrors hread]
    cases (shown v showSyntaxErrors stated).mapM (Stated.finding? (.ofVersion v)) <;>
      simp [orOverflow]
  rw [hsome, isSome_mapM, List.all_eq_true]
  exact forall₂_congr fun told htold =>
    told.isSome_finding?_iff v (bounded_of_mem_shown v showSyntaxErrors hread htold)

end

/-- Whatever numbers of 64 bits the tool prints, reading its output has no result if one is taken
off the least of them in a finding that is shown. Else all of these are read, with a range between
where its places land whose end is raised to its start if it lies before it. They are then brought
to the editor, with each edit of their fixes where its places land, exactly if one is taken off the
least number nowhere. -/
theorem findings_land_iff (v : Version) (showSyntaxErrors : Bool) (octets : List UInt8)
    (stated : List Stated) (hread : statedIn? octets = some stated) :
    ((∃ told ∈ shown v showSyntaxErrors stated,
        -9223372036854775808 ∈ told.loweredOnReading v) ∧
      ofOctets (.ofVersion v) showSyntaxErrors octets = .error .overflow) ∨
    ((∀ told ∈ shown v showSyntaxErrors stated,
        -9223372036854775808 ∉ told.loweredOnReading v) ∧
      ∃ found, ofOctets (.ofVersion v) showSyntaxErrors octets = .ok found ∧
        found.map (·.range) = (shown v showSyntaxErrors stated).map Stated.landedRange ∧
        found.mapM forEditor? =
          if ∀ told ∈ shown v showSyntaxErrors stated, -9223372036854775808 ∉ told.lowered v then
            some ((shown v showSyntaxErrors stated).map (Stated.landed v))
          else none) := by
  have hbounded : ∀ told ∈ shown v showSyntaxErrors stated, told.Bounded :=
    fun _ => bounded_of_mem_shown v showSyntaxErrors hread
  have hresult := exists_ofOctets_iff v showSyntaxErrors hread
  rw [ofOctets_of_statedIn? v showSyntaxErrors hread] at hresult ⊢
  generalize shown v showSyntaxErrors stated = told at hbounded hresult
  cases hfound : told.mapM (Stated.finding? (.ofVersion v)) with
  | none =>
    refine .inl ⟨Classical.byContradiction fun hleast => ?_, rfl⟩
    rw [hfound] at hresult
    obtain ⟨found, hsome⟩ := hresult.2 fun s hs hmem => hleast ⟨s, hs, hmem⟩
    cases hsome
  | some found =>
    rw [hfound] at hresult
    refine .inr ⟨hresult.1 ⟨found, rfl⟩, found, rfl,
      map_of_mapM found hfound fun s f => range_of_finding?, ?_⟩
    have hway : found.mapM forEditor? = told.mapM fun s =>
        if ∀ n ∈ s.lowered v, Signed64 (n - 1) then some (s.landed v) else none := by
      rw [← funext (Stated.forEditor?_eq v), ← mapM_bind_mapM, hfound, Option.bind_some]
    have hleast : (∀ s ∈ told, ∀ n ∈ s.lowered v, Signed64 (n - 1)) ↔
        ∀ s ∈ told, -9223372036854775808 ∉ s.lowered v :=
      forall₂_congr fun s hs =>
        forall_signed64_sub_one_iff _ (s.signed64_of_mem v (hbounded s hs)).1
    rw [hway, mapM_ite]
    simp only [hleast]

/-- What a tool prints: a finding that ends in the row before the least one, with a replacement
between the ends of 64 bits. -/
def aboveFloorOutput : List UInt8 :=
  Utf8.encode ("[[null,\"m\",[9223372036854775807,0],[-9223372036854775807,3],\x7b\"edits\":" ++
    "[[\"\",[0,-9223372036854775807],[2,9223372036854775807]]]\x7d]]").toList

def aboveFloor : Stated :=
  ⟨none, "m", ⟨9223372036854775807, 0⟩, ⟨-9223372036854775807, 3⟩,
    some (.edits ⟨none, none, [⟨"", ⟨0, -9223372036854775807⟩, ⟨2, 9223372036854775807⟩⟩]⟩),
    none, none, none⟩

/-- What a tool prints: a finding without a code that starts in the least row. -/
def floorOutput : List UInt8 :=
  Utf8.encode "[[null,\"n\",[-9223372036854775808,1],[1,2]]]".toList

def onFloor : Stated :=
  ⟨none, "n", ⟨-9223372036854775808, 1⟩, ⟨1, 2⟩, none, none, none, none⟩

/-- The first finding lands where plain integers say. The second one would be in line zero, but what
the tool printed has no result. -/
theorem aboveFloor_lands :
    statedIn? aboveFloorOutput = some [aboveFloor] ∧
    (∃ found, ofOctets (.ofVersion (.release 0 5 0)) true aboveFloorOutput = .ok found ∧
      found.mapM forEditor? =
        some [(⟨⟨4294967295, 0⟩, ⟨4294967295, 0⟩⟩,
          some [⟨⟨⟨0, 0⟩, ⟨1, 4294967295⟩⟩, ""⟩])]) ∧
    statedIn? floorOutput = some [onFloor] ∧
    (onFloor.landed (.release 0 5 0)).1 = ⟨⟨0, 0⟩, ⟨0, 1⟩⟩ ∧
    ofOctets (.ofVersion (.release 0 5 0)) true floorOutput = .error .overflow := by
  have habove : statedIn? aboveFloorOutput = some [aboveFloor] := by decide +kernel
  have hfloor : statedIn? floorOutput = some [onFloor] := by decide +kernel
  refine ⟨habove, ?_, hfloor, by decide, ?_⟩
  · rcases findings_land_iff (.release 0 5 0) true aboveFloorOutput _ habove with
      ⟨hleast, -⟩ | ⟨-, found, hfound, -, hlands⟩
    · exact absurd hleast (by decide)
    · refine ⟨found, hfound, ?_⟩
      rw [hlands]
      decide
  · rcases findings_land_iff (.release 0 5 0) true floorOutput _ hfloor with
      ⟨-, hoverflow⟩ | ⟨hleast, -⟩
    · exact hoverflow
    · exact absurd hleast (by decide)

end Finding
end LintBridge
