import LintBridge.Finding.Reading
import LintBridge.Proofs.Json.Records

/-!
The numbers of findings that were read.

Rows and columns are signed numbers of 64 bits (`Location.Signed`), and one can be taken off each of
them but the least. `Stated.bounded_of_ofTree?` says that a finding that was read keeps these bounds
throughout, and those of its suppression row and its cell.
-/

namespace LintBridge

open Json (Tree exists_of_required exists_of_optionalOr exists_of_list? of_intWithin?)

theorem signed64_sub_one_iff (n : Int) (h : Signed64 n) :
    Signed64 (n - 1) ↔ n ≠ -9223372036854775808 := by
  unfold Signed64 at h ⊢
  omega

def Location.Signed (l : Location) : Prop := Signed64 l.row ∧ Signed64 l.column

def FixEdit.Signed (e : FixEdit) : Prop := e.start.Signed ∧ e.stop.Signed

def Fix.Signed (f : Fix) : Prop := ∀ e ∈ f.edits, e.Signed

theorem Location.signed_of_ofTree? {t : Tree} {l : Location} (h : Location.ofTree? t = some l) :
    l.Signed := by
  simp only [Location.ofTree?, Option.bind_eq_bind, Option.bind_eq_some_iff, Option.pure_def,
    Option.some.injEq] at h
  obtain ⟨slot, -, row, hrow, column, hcolumn, rfl⟩ := h
  obtain ⟨rowTree, hrow⟩ := exists_of_required hrow
  obtain ⟨columnTree, hcolumn⟩ := exists_of_required hcolumn
  exact ⟨of_intWithin? hrow, of_intWithin? hcolumn⟩

theorem FixEdit.signed_of_ofTree? {t : Tree} {e : FixEdit} (h : FixEdit.ofTree? t = some e) :
    e.Signed := by
  simp only [FixEdit.ofTree?, Option.bind_eq_bind, Option.bind_eq_some_iff, Option.pure_def,
    Option.some.injEq] at h
  obtain ⟨slot, -, content, -, start, hstart, stop, hstop, rfl⟩ := h
  obtain ⟨_, hstart⟩ := exists_of_required hstart
  obtain ⟨_, hstop⟩ := exists_of_required hstop
  exact ⟨Location.signed_of_ofTree? hstart, Location.signed_of_ofTree? hstop⟩

theorem Fix.signed_of_ofSlots? {slot : String → Json.Slot} {f : Fix}
    (h : Fix.ofSlots? slot = some f) : f.Signed := by
  simp only [Fix.ofSlots?, Option.bind_eq_bind, Option.bind_eq_some_iff, Option.pure_def,
    Option.some.injEq] at h
  obtain ⟨applicability, -, message, -, edits, hedits, rfl⟩ := h
  obtain ⟨_, hedits⟩ := exists_of_required hedits
  intro e he
  obtain ⟨_, hread⟩ := exists_of_list? hedits e he
  exact FixEdit.signed_of_ofTree? hread

namespace Finding

def StatedFix.replacements : StatedFix → List FixEdit
  | .edits fix => fix.edits
  | .single _ edit => [edit]

def StatedFix.isList : StatedFix → Bool
  | .edits _ => true
  | .single .. => false

theorem StatedFix.signed_of_ofTree? {t : Tree} {f : StatedFix} (h : StatedFix.ofTree? t = some f) :
    ∀ e ∈ f.replacements, e.Signed := by
  rw [StatedFix.ofTree?, Tree.firstOf?] at h
  split at h
  · cases hedits : StatedFix.edits? t with
    | some g =>
      simp [hedits] at h
      subst h
      simp only [StatedFix.edits?, Option.map_eq_some_iff, Option.bind_eq_some_iff] at hedits
      obtain ⟨fix, ⟨slot, -, hfix⟩, rfl⟩ := hedits
      exact Fix.signed_of_ofSlots? hfix
    | none =>
      simp [hedits] at h
      simp only [StatedFix.single?, Option.bind_eq_bind, Option.bind_eq_some_iff, Option.pure_def,
        Option.some.injEq] at h
      obtain ⟨slot, -, message, -, content, -, start, hstart, stop, hstop, rfl⟩ := h
      obtain ⟨_, hstart⟩ := exists_of_required hstart
      obtain ⟨_, hstop⟩ := exists_of_required hstop
      intro e he
      obtain rfl := List.mem_singleton.1 he
      exact ⟨Location.signed_of_ofTree? hstart, Location.signed_of_ofTree? hstop⟩
  · cases h

/-- The bounds of the numbers of a finding. -/
structure Stated.Bounded (s : Stated) : Prop where
  start : s.start.Signed
  stop : s.stop.Signed
  fix : ∀ fix, s.fix = some fix → ∀ e ∈ fix.replacements, e.Signed
  noqaRow : ∀ row, s.noqaRow = some row → row ≤ 4294967295
  cell : ∀ cell, s.cell = some cell → cell ≤ 18446744073709551615

theorem le_of_count32? {t : Tree} {n : Nat} (h : t.count32? = some n) : n ≤ 4294967295 := by
  obtain ⟨i, hi, rfl⟩ := Option.map_eq_some_iff.1 h
  have hbounds := of_intWithin? hi
  omega

theorem le_of_count64? {t : Tree} {n : Nat} (h : t.count64? = some n) :
    n ≤ 18446744073709551615 := by
  obtain ⟨i, hi, rfl⟩ := Option.map_eq_some_iff.1 h
  have hbounds := of_intWithin? hi
  omega

theorem Stated.bounded_of_ofTree? {t : Tree} {s : Stated} (h : Stated.ofTree? t = some s) :
    s.Bounded := by
  simp only [Stated.ofTree?, Option.bind_eq_bind, Option.bind_eq_some_iff, Option.pure_def,
    Option.some.injEq] at h
  obtain ⟨slot, -, code, -, message, -, start, hstart, stop, hstop, fix, hfix, noqaRow, hnoqaRow,
    cell, hcell, url, -, rfl⟩ := h
  obtain ⟨_, hstart⟩ := exists_of_required hstart
  obtain ⟨_, hstop⟩ := exists_of_required hstop
  refine ⟨Location.signed_of_ofTree? hstart, Location.signed_of_ofTree? hstop, ?_, ?_, ?_⟩
  · rintro fix rfl
    obtain ⟨_, hread⟩ := exists_of_optionalOr hfix
    exact StatedFix.signed_of_ofTree? hread
  · rintro row rfl
    obtain ⟨_, hread⟩ := exists_of_optionalOr hnoqaRow
    exact le_of_count32? hread
  · rintro cell rfl
    obtain ⟨_, hread⟩ := exists_of_optionalOr hcell
    exact le_of_count64? hread

end Finding
end LintBridge
