import LintBridge.Proofs.Finding.Stated

/-!
Where the places that the tool names end up in the editor.

`Location.landing` says it with plain integers: one off the row, one off the column if columns count
from one, and no less than zero or more than a position can carry. There are two ways of a place
through the program: that of a range is corrected when the position is made, that of a replacement
in part when the fix is read and in part when its edit is made. Both come to this if none of the
numbers that one is taken off (`lowered`) leaves 64 bits by it, and to nothing otherwise
(`Location.placed?_eq`, `StatedFix.textEdits?_eq`). So they do for all places above the least number
(`Stated.finding?_eq_some`, `StatedFix.exists_textEdits`).
-/

namespace LintBridge

/-- A number, but none below zero and none above the greatest that a position can carry. -/
def capped (n : Int) : Nat := (min (max n 0) 4294967295).toNat

theorem clampPosition_eq_capped (n : Int) : clampPosition n = capped n := by
  unfold clampPosition clampCount maxCount capped
  omega

namespace Location

/-- Where a place lands whose row counts from one, and whose column from one or from zero. -/
def landing (fromOne : Bool) (l : Location) : Position :=
  ⟨capped (l.row - 1), capped (if fromOne then l.column - 1 else l.column)⟩

/-- The numbers of a place that one is taken off: its row, and its column if columns count from
one. -/
def lowered (fromOne : Bool) (l : Location) : List Int :=
  if fromOne then [l.row, l.column] else [l.row]

/-- The position of a place in a fix, whose column counts from one or from zero. -/
def placed? (fromOne : Bool) (l : Location) : Option Position :=
  if fromOne then l.columnFromZero?.bind editPosition? else l.editPosition?

/-- A place of a fix is brought to the editor in two steps, or in one if its column counts from
zero. -/
theorem placed?_eq (fromOne : Bool) (l : Location) :
    l.placed? fromOne =
      if ∀ n ∈ l.lowered fromOne, Signed64 (n - 1) then some (l.landing fromOne) else none := by
  by_cases hrow : Signed64 (l.row - 1) <;> by_cases hcolumn : Signed64 (l.column - 1) <;>
    cases fromOne <;>
      simp [placed?, columnFromZero?, editPosition?, signed64?, lowered, landing, hrow, hcolumn,
        clampPosition_eq_capped]

/-- What is done with a place of a fix in two steps is done at once with a place of a range. -/
theorem position?_eq_placed? (l : Location) : l.position? = l.placed? true := by
  by_cases hrow : Signed64 (l.row - 1) <;> by_cases hcolumn : Signed64 (l.column - 1) <;>
    simp [placed?, columnFromZero?, editPosition?, position?, signed64?, hrow, hcolumn]

theorem position?_eq (l : Location) :
    l.position? =
      if ∀ n ∈ l.lowered true, Signed64 (n - 1) then some (l.landing true) else none := by
  rw [position?_eq_placed?, placed?_eq]

theorem editPosition?_eq (l : Location) :
    l.editPosition? =
      if ∀ n ∈ l.lowered false, Signed64 (n - 1) then some (l.landing false) else none :=
  l.placed?_eq false

/-- Row and column are above the least number of 64 bits. -/
def AboveFloor (l : Location) : Prop :=
  -9223372036854775808 < l.row ∧ -9223372036854775808 < l.column

instance (l : Location) : Decidable l.AboveFloor := inferInstanceAs (Decidable (_ ∧ _))

theorem signed64_of_mem_lowered (l : Location) (hl : l.Signed) (h : l.AboveFloor)
    (fromOne : Bool) : ∀ n ∈ l.lowered fromOne, Signed64 (n - 1) := by
  have hrow := (signed64_sub_one_iff l.row hl.1).2 (Int.ne_of_gt h.1)
  have hcolumn := (signed64_sub_one_iff l.column hl.2).2 (Int.ne_of_gt h.2)
  cases fromOne <;> simp [lowered, hrow, hcolumn]

end Location

/-! ## Replacements -/

namespace FixEdit

/-- The edit of a text that a replacement asks for, as the tool states it. -/
def landed (fromOne : Bool) (e : FixEdit) : TextEdit :=
  ⟨⟨e.start.landing fromOne, e.stop.landing fromOne⟩, e.content⟩

/-- The edit that a replacement comes to when its columns count from one or from zero. -/
def placed? (fromOne : Bool) (e : FixEdit) : Option TextEdit :=
  if fromOne then e.columnsFromZero?.bind textEdit? else e.textEdit?

/-- The numbers of a replacement that one is taken off. -/
def lowered (fromOne : Bool) (e : FixEdit) : List Int :=
  e.start.lowered fromOne ++ e.stop.lowered fromOne

/-- A replacement is brought to the editor by bringing both of its ends there. -/
theorem placed?_eq_bind (fromOne : Bool) (e : FixEdit) :
    e.placed? fromOne = do
      return ⟨⟨← e.start.placed? fromOne, ← e.stop.placed? fromOne⟩, e.content⟩ := by
  cases fromOne with
  | false => rfl
  | true =>
    -- Both columns come before both rows here, which makes no difference.
    simp only [placed?, columnsFromZero?, textEdit?, Location.placed?, if_true]
    cases e.start.columnFromZero? with
    | none => rfl
    | some start =>
      cases hstop : e.stop.columnFromZero? with
      | some stop => rfl
      | none =>
        cases hposition : start.editPosition? <;> simp [hposition]

theorem placed?_eq (fromOne : Bool) (e : FixEdit) :
    e.placed? fromOne =
      if ∀ n ∈ e.lowered fromOne, Signed64 (n - 1) then some (e.landed fromOne) else none := by
  simp only [placed?_eq_bind, Location.placed?_eq, lowered, List.forall_mem_append]
  exact bind₂_ite _ _ _ _ _

theorem signed64_of_mem_lowered (e : FixEdit) (he : e.Signed) (hstart : e.start.AboveFloor)
    (hstop : e.stop.AboveFloor) (fromOne : Bool) :
    ∀ n ∈ e.lowered fromOne, Signed64 (n - 1) :=
  List.forall_mem_append.2 ⟨e.start.signed64_of_mem_lowered he.1 hstart fromOne,
    e.stop.signed64_of_mem_lowered he.2 hstop fromOne⟩

theorem isSome_columnsFromZero? (e : FixEdit) :
    e.columnsFromZero?.isSome ↔ ∀ n ∈ [e.start.column, e.stop.column], Signed64 (n - 1) := by
  by_cases hstart : Signed64 (e.start.column - 1) <;>
    by_cases hstop : Signed64 (e.stop.column - 1) <;>
      simp [columnsFromZero?, Location.columnFromZero?, signed64?, hstart, hstop]

end FixEdit

namespace Finding

/-! ## Fixes -/

/-- Whether the columns of a fix count from one: those of a list do since a version. -/
def StatedFix.countsFromOne (v : Version) (f : StatedFix) : Bool :=
  f.isList && v.atLeast (.release 0 0 266)

theorem fixSchema_eq_editsOneBased_iff (v : Version) :
    (Capabilities.ofVersion v).fixSchema = .editsOneBased ↔
      v.atLeast (.release 0 0 266) = true := by
  unfold Capabilities.ofVersion
  cases v.atLeast (.release 0 0 266) with
  | true => simp
  | false => cases hlist : v.atLeast (.release 0 0 260) <;> simp

def StatedFix.places (f : StatedFix) : List Location :=
  f.replacements.flatMap fun e => [e.start, e.stop]

def StatedFix.textEdits? (v : Version) (f : StatedFix) : Option (List TextEdit) :=
  (f.fix? (Capabilities.ofVersion v).fixSchema).bind fun fix => fix.edits.mapM FixEdit.textEdit?

theorem StatedFix.textEdits?_eq_mapM (v : Version) (f : StatedFix) :
    f.textEdits? v = f.replacements.mapM (FixEdit.placed? (f.countsFromOne v)) := by
  cases f with
  | single message edit => rfl
  | edits fix =>
    have hcounts : (StatedFix.edits fix).countsFromOne v = v.atLeast (.release 0 0 266) := rfl
    rw [textEdits?, StatedFix.fix?, hcounts]
    cases hversion : v.atLeast (.release 0 0 266) with
    | false =>
      have hschema : (Capabilities.ofVersion v).fixSchema ≠ .editsOneBased := by
        rw [Ne, fixSchema_eq_editsOneBased_iff, hversion]
        exact Bool.false_ne_true
      rw [if_neg hschema]
      rfl
    | true =>
      rw [if_pos ((fixSchema_eq_editsOneBased_iff v).2 hversion)]
      refine Eq.trans ?_ (mapM_bind_mapM FixEdit.columnsFromZero? FixEdit.textEdit? fix.edits)
      cases fix.edits.mapM FixEdit.columnsFromZero? <;> rfl

/-- The numbers of a fix that one is taken off. -/
def StatedFix.lowered (v : Version) (f : StatedFix) : List Int :=
  f.replacements.flatMap (FixEdit.lowered (f.countsFromOne v))

/-- The edits of a fix are its replacements in their order, each where its places land, if no number
of it leaves 64 bits on the way. -/
theorem StatedFix.textEdits?_eq (v : Version) (f : StatedFix) :
    f.textEdits? v =
      if ∀ n ∈ f.lowered v, Signed64 (n - 1) then
        some (f.replacements.map (FixEdit.landed (f.countsFromOne v)))
      else none := by
  have hplaced := mapM_ite (fun e : FixEdit => ∀ n ∈ e.lowered (f.countsFromOne v),
    Signed64 (n - 1)) (FixEdit.landed (f.countsFromOne v)) f.replacements
  rw [textEdits?_eq_mapM, funext (FixEdit.placed?_eq (f.countsFromOne v)), hplaced]
  simp only [lowered, List.forall_mem_flatMap]

theorem StatedFix.signed64_of_mem_lowered (v : Version) (f : StatedFix)
    (hf : ∀ e ∈ f.replacements, e.Signed) (h : ∀ l ∈ f.places, l.AboveFloor) :
    ∀ n ∈ f.lowered v, Signed64 (n - 1) := by
  rw [lowered, List.forall_mem_flatMap]
  intro e he
  have hstart := h e.start (List.mem_flatMap.2 ⟨e, he, by simp⟩)
  have hstop := h e.stop (List.mem_flatMap.2 ⟨e, he, by simp⟩)
  exact e.signed64_of_mem_lowered (hf e he) hstart hstop _

def Stated.places (s : Stated) : List Location :=
  s.start :: s.stop :: s.fix.elim [] StatedFix.places

/-- Where the range of a finding lies: between where its places land, but it does not end before it
starts. -/
def Stated.landedRange (s : Stated) : Range :=
  ⟨s.start.landing true, (s.stop.landing true).latest (s.start.landing true)⟩

/-- A finding is made ready for the editor unless a number leaves 64 bits by it, and it says then
what it was stated with. -/
theorem Stated.finding?_eq (c : Capabilities) (s : Stated) :
    s.finding? c =
      if ∀ n ∈ s.start.lowered true ++ s.stop.lowered true, Signed64 (n - 1) then
        (s.fix.mapM (StatedFix.fix? c.fixSchema)).map fun fix =>
          ⟨s.landedRange, s.message, s.code, s.url, fix, s.noqaRow, s.cell⟩
      else none := by
  simp only [finding?, Location.position?_eq, List.forall_mem_append]
  refine (bind₂_ite _ _ _ _ _).trans ?_
  cases s.fix.mapM (StatedFix.fix? c.fixSchema) <;> rfl

theorem range_of_finding? {c : Capabilities} {s : Stated} {f : Finding}
    (h : s.finding? c = some f) : f.range = s.landedRange := by
  rw [Stated.finding?_eq] at h
  split at h
  · obtain ⟨fix, -, rfl⟩ := Option.map_eq_some_iff.1 h
    rfl
  · cases h

theorem Stated.bounded_of_statedIn? (octets : List UInt8) (told : List Stated)
    (h : statedIn? octets = some told) : ∀ s ∈ told, s.Bounded := by
  intro s hs
  unfold statedIn? at h
  split at h
  · obtain rfl := Option.some.inj h
    cases hs
  · obtain ⟨t, -, ht⟩ := Option.bind_eq_some_iff.1 h
    obtain ⟨u, hu⟩ := Json.exists_of_list? ht s hs
    exact Stated.bounded_of_ofTree? hu

/-- What the tool printed gives findings exactly if it can be read as stated ones, and these can be
made ready for the editor. -/
theorem ofOctets_eq_ok_iff (c : Capabilities) (showSyntaxErrors : Bool) (octets : List UInt8)
    (found : List Finding) :
    ofOctets c showSyntaxErrors octets = .ok found ↔
      (statedIn? octets).bind (ofStated? c showSyntaxErrors) = some found := by
  rw [ofOctets]
  cases statedIn? octets with
  | none => simp
  | some stated =>
    cases hshown : ofStated? c showSyntaxErrors stated <;> simp [orOverflow, hshown]

end Finding
end LintBridge
