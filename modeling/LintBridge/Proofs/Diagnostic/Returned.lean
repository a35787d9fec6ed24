import LintBridge.Proofs.Diagnostic.Data
import LintBridge.Proofs.Json.Written

/-!
What a diagnostic carries of its finding comes back, as a value and as text.

The server keeps the data of a finding as a JSON value, and an editor sees the text of that value.
Both ways back give the data: the decoder undoes the encoder (`FindingData.ofJson_toJson`), and the
reader undoes the printer (`Json.read?_render`), since the data nests five deep and its numbers fit
64 bits (`FindingData.readable_toJson`).
-/

namespace LintBridge

namespace Json

theorem readable_ofFields (n : Nat) (fields : List (String × Json))
    (h : ∀ f ∈ fields, Readable n f.2) : Readable (n + 1) (ofFields fields) := by
  refine .object n _ fun f hf => ?_
  rcases mem_setFields fields [] f hf with hf | hf
  · cases hf
  · exact h f hf

theorem readable_ofGiven (n : Nat) (fields : List (String × Option Json))
    (h : ∀ name v, (name, some v) ∈ fields → Readable n v) : Readable (n + 1) (ofGiven fields) := by
  refine readable_ofFields n (givenFields fields) fun f hf => ?_
  obtain ⟨⟨name, v⟩, hmem, hf⟩ := List.mem_filterMap.1 hf
  obtain ⟨w, rfl, rfl⟩ := Option.map_eq_some_iff.1 hf
  exact h name w hmem

theorem readable_list {α : Type} (n : Nat) (toJson : α → Json) (items : List α)
    (h : ∀ a ∈ items, Readable n (toJson a)) : Readable (n + 1) (list toJson items) := by
  refine .array n _ fun v hv => ?_
  obtain ⟨a, ha, rfl⟩ := List.mem_map.1 hv
  exact h a ha

/-- A value whose objects are in order is read back from its text. -/
theorem read?_render {n : Nat} {v : Json} (h : Readable n v) (hn : n ≤ depthLimit)
    (hsorted : v.Sorted) : read? v.render = some v := by
  rw [read?, readTree?_render h hn, Option.bind_some, hsorted.value?_toTree]

end Json

open Json (Readable)

/-! ## The data of a finding as text -/

theorem Signed64.readable (n : Nat) {i : Int} (h : Signed64 i) : Readable n (.int i) :=
  .int n i h.1 (by have := h.2; omega)

theorem Location.readable_toJson (l : Location) (h : l.Signed) : Readable 1 l.toJson := by
  unfold toJson
  refine Json.readable_ofFields 0 _ fun f hf => ?_
  simp only [List.mem_cons, List.not_mem_nil, or_false] at hf
  rcases hf with rfl | rfl
  · exact h.1.readable 0
  · exact h.2.readable 0

theorem FixEdit.readable_toJson (e : FixEdit) (h : e.Signed) : Readable 2 e.toJson := by
  unfold toJson
  refine Json.readable_ofFields 1 _ fun f hf => ?_
  simp only [List.mem_cons, List.not_mem_nil, or_false] at hf
  rcases hf with rfl | rfl | rfl
  · exact .text 1 _
  · exact e.start.readable_toJson h.1
  · exact e.stop.readable_toJson h.2

theorem Fix.readable_toJson (f : Fix) (h : f.Signed) : Readable 4 f.toJson := by
  unfold toJson
  refine Json.readable_ofFields 3 _ fun field hfield => ?_
  simp only [List.mem_cons, List.not_mem_nil, or_false] at hfield
  rcases hfield with rfl | rfl | rfl
  · cases f.applicability with
    | none => exact .null 3
    | some a => exact .text 3 _
  · cases f.message with
    | none => exact .null 3
    | some message => exact .text 3 _
  · exact Json.readable_list 2 _ f.edits fun e he => e.readable_toJson (h e he)

theorem FindingData.readable_toJson (d : FindingData) (h : d.Bounded) : Readable 5 d.toJson := by
  unfold toJson
  refine Json.readable_ofGiven 4 _ fun name v hv => ?_
  simp only [List.mem_cons, List.not_mem_nil, or_false, Prod.mk.injEq, eq_comm (a := some v),
    Option.map_eq_some_iff] at hv
  rcases hv with ⟨-, fix, hfix, rfl⟩ | ⟨-, row, hrow, rfl⟩ | ⟨-, cell, hcell, rfl⟩
  · exact fix.readable_toJson (h.fix fix hfix)
  · have hle := h.noqaRow row hrow
    exact .int 4 row (by omega) (by omega)
  · have hle := h.cell cell hcell
    exact .int 4 cell (by omega) (by omega)

/-- The value that a diagnostic carries says the fix, the suppression row and the cell of its
finding, and nothing else. So does the value that is read from its text. -/
theorem Diagnostic.data_comes_back (f : Finding) (h : f.data.Bounded) :
    (ofFinding f).findingData = ⟨f.fix, f.noqaRow, f.cell⟩ ∧
    ∃ v, (ofFinding f).data = some v ∧
      FindingData.ofJson (Json.read? v.render) = ⟨f.fix, f.noqaRow, f.cell⟩ := by
  refine ⟨FindingData.ofJson_toJson f.data h, f.data.toJson, rfl, ?_⟩
  rw [Json.read?_render (f.data.readable_toJson h) (by decide) f.data.sorted_toJson]
  exact FindingData.ofJson_toJson f.data h

def extremeFinding : Finding where
  range := ⟨⟨0, 0⟩, ⟨0, 0⟩⟩
  message := ""
  code := none
  url := none
  fix := some ⟨some .displayOnly, none,
    [⟨"\"\\\n\x00😀", ⟨-9223372036854775808, 9223372036854775807⟩, ⟨0, -1⟩⟩,
      ⟨"", ⟨9223372036854775807, 0⟩, ⟨1, 1⟩⟩]⟩
  noqaRow := some 4294967295
  cell := some 18446744073709551615

theorem extremeFinding_comes_back :
    extremeFinding.data.Bounded ∧
    (Diagnostic.ofFinding extremeFinding).findingData =
      ⟨extremeFinding.fix, some 4294967295, some 18446744073709551615⟩ ∧
    ∃ v, (Diagnostic.ofFinding extremeFinding).data = some v ∧
      FindingData.ofJson (Json.read? v.render) =
        ⟨extremeFinding.fix, some 4294967295, some 18446744073709551615⟩ := by
  have h : extremeFinding.data.Bounded := by
    refine ⟨?_, ?_, ?_⟩
    · rintro fix ⟨⟩ e he
      simp only [List.mem_cons, List.not_mem_nil, or_false] at he
      rcases he with rfl | rfl <;> exact ⟨⟨by decide, by decide⟩, by decide, by decide⟩
    · rintro row ⟨⟩
      decide
    · rintro cell ⟨⟩
      decide
  exact ⟨h, Diagnostic.data_comes_back extremeFinding h⟩

end LintBridge
