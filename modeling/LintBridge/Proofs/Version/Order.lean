import LintBridge.Version.Order

/-!
Versions stand in one line.

A comparison puts things in a line if it turns around with its two sides and is transitive
(`Std.TransCmp`), and it tells all of them apart if only equal ones are the same to it
(`Std.LawfulEqCmp`). Both are kept when things are compared by a key, by kind, from the front of a
list, or by a second comparison where a first one does not decide. The comparison of versions is put
together in these ways, so both hold of it, with pre-release and build counted in full; what follows
for the test against a least version are `atLeast_of_isLE` and `atLeast_of_atLeast`.
-/

namespace LintBridge.Version

open Std (OrientedCmp TransCmp LawfulEqCmp LawfulEqOrd ReflCmp)

/-! ## Keys and kinds -/

section Keys

variable {α β : Type}

theorem transCmp_of_key {cmp : α → α → Ordering} {byKey : β → β → Ordering} [TransCmp byKey]
    (key : α → β) (h : ∀ a b, cmp a b = byKey (key a) (key b)) : TransCmp cmp where
  eq_swap {a b} := by
    rw [h, h]
    exact OrientedCmp.eq_swap
  isLE_trans {a b c} hab hbc := by
    rw [h] at hab hbc ⊢
    exact TransCmp.isLE_trans hab hbc

/-- A key that differs wherever two things differ tells them apart. -/
theorem lawfulEqCmp_of_key {cmp : α → α → Ordering} {byKey : β → β → Ordering}
    [LawfulEqCmp byKey] (key : α → β) (hkey : Function.Injective key)
    (h : ∀ a b, cmp a b = byKey (key a) (key b)) : LawfulEqCmp cmp where
  compare_self {a} := by
    rw [h]
    exact ReflCmp.compare_self
  eq_of_compare {a b} hab := by
    rw [h] at hab
    exact hkey (LawfulEqCmp.eq_of_compare hab)

/-- Compares things of two kinds, all of one kind before all of the other. -/
def compareKinds (first : α → α → Ordering) (second : β → β → Ordering) :
    α ⊕ β → α ⊕ β → Ordering
  | .inl a, .inl b => first a b
  | .inl _, .inr _ => .lt
  | .inr _, .inl _ => .gt
  | .inr a, .inr b => second a b

variable (first : α → α → Ordering) (second : β → β → Ordering)

instance [TransCmp first] [TransCmp second] : TransCmp (compareKinds first second) where
  eq_swap {a b} := by
    cases a with
    | inl a =>
      cases b with
      | inl b => exact @OrientedCmp.eq_swap _ first _ a b
      | inr b => rfl
    | inr a =>
      cases b with
      | inl b => rfl
      | inr b => exact @OrientedCmp.eq_swap _ second _ a b
  isLE_trans {a b c} hab hbc := by
    -- What stands between two things of one kind is of that kind.
    cases a with
    | inl a =>
      cases c with
      | inr c => rfl
      | inl c =>
        cases b with
        | inl b => exact @TransCmp.isLE_trans _ first _ a b c hab hbc
        | inr b => cases hbc
    | inr a =>
      cases b with
      | inl b => cases hab
      | inr b =>
        cases c with
        | inl c => cases hbc
        | inr c => exact @TransCmp.isLE_trans _ second _ a b c hab hbc

instance [LawfulEqCmp first] [LawfulEqCmp second] : LawfulEqCmp (compareKinds first second) where
  compare_self {a} := by
    cases a with
    | inl a => exact @ReflCmp.compare_self _ first _ a
    | inr a => exact @ReflCmp.compare_self _ second _ a
  eq_of_compare {a b} h := by
    cases a with
    | inl a =>
      cases b with
      | inl b => exact congrArg Sum.inl (@LawfulEqCmp.eq_of_compare _ first _ a b h)
      | inr b => cases h
    | inr a =>
      cases b with
      | inl b => cases h
      | inr b => exact congrArg Sum.inr (@LawfulEqCmp.eq_of_compare _ second _ a b h)

end Keys

/-! ## Lists and words -/

theorem compareLists_eq {α : Type} (cmp : α → α → Ordering) (as bs : List α) :
    compareLists cmp as bs = List.compareLex cmp as bs := by
  induction as generalizing bs with
  | nil => cases bs <;> rfl
  | cons a as ih =>
    cases bs with
    | nil => rfl
    | cons b bs => rw [compareLists, ih, List.compareLex_cons_cons]

section Lists

variable {α : Type} (cmp : α → α → Ordering)

instance [TransCmp cmp] : TransCmp (compareLists cmp) := transCmp_of_key id (compareLists_eq cmp)

instance [LawfulEqCmp cmp] : LawfulEqCmp (compareLists cmp) :=
  lawfulEqCmp_of_key id Function.injective_id (compareLists_eq cmp)

end Lists

def codes (s : String) : List Nat := s.toList.map Char.toNat

theorem codes_injective : Function.Injective codes := by
  intro s t h
  exact String.toList_inj.1 (List.map_inj_right (fun _ _ => Char.toNat_inj.1) |>.1 h)

def compareWords (s t : String) : Ordering := compareLists Ord.compare (codes s) (codes t)

instance : TransCmp compareWords := transCmp_of_key codes fun _ _ => rfl

instance : LawfulEqCmp compareWords := lawfulEqCmp_of_key codes codes_injective fun _ _ => rfl

/-! ## Identifiers -/

def PreId.kind : PreId → Nat ⊕ String
  | .number n => .inl n
  | .word s => .inr s

theorem PreId.kind_injective : Function.Injective kind := by
  rintro (m | s) (n | t) h <;> cases h <;> rfl

theorem PreId.compare_eq (a b : PreId) :
    a.compare b = compareKinds Ord.compare compareWords a.kind b.kind := by
  cases a <;> cases b <;> rfl

instance : TransCmp PreId.compare := transCmp_of_key PreId.kind PreId.compare_eq

instance : LawfulEqCmp PreId.compare :=
  lawfulEqCmp_of_key PreId.kind PreId.kind_injective PreId.compare_eq

/-- An identifier of a build by its kind; a number comes with its width. -/
def BuildId.kind : BuildId → (Nat × Nat) ⊕ String
  | .number n width => .inl (n, width)
  | .word s => .inr s

theorem BuildId.kind_injective : Function.Injective kind := by
  rintro (⟨m, w⟩ | s) (⟨n, x⟩ | t) h <;> cases h <;> rfl

/-- Numbers of a build go by value, and by width where the value does not decide. -/
def compareWidths : Nat × Nat → Nat × Nat → Ordering :=
  compareLex (compareOn Prod.fst) (compareOn Prod.snd)

instance : TransCmp compareWidths :=
  inferInstanceAs (TransCmp (compareLex (compareOn Prod.fst) (compareOn Prod.snd)))

instance : LawfulEqCmp compareWidths where
  compare_self := Ordering.then_eq_eq.2 ⟨ReflCmp.compare_self, ReflCmp.compare_self⟩
  eq_of_compare h := by
    obtain ⟨hvalue, hwidth⟩ := Ordering.then_eq_eq.1 h
    exact Prod.ext (LawfulEqOrd.eq_of_compare hvalue) (LawfulEqOrd.eq_of_compare hwidth)

theorem BuildId.compare_eq (a b : BuildId) :
    a.compare b = compareKinds compareWidths compareWords a.kind b.kind := by
  cases a <;> cases b <;> rfl

instance : TransCmp BuildId.compare := transCmp_of_key BuildId.kind BuildId.compare_eq

instance : LawfulEqCmp BuildId.compare :=
  lawfulEqCmp_of_key BuildId.kind BuildId.kind_injective BuildId.compare_eq

/-! ## Versions -/

/-- All pre-releases go before the release, which has nothing that makes one. -/
theorem comparePre_eq (as bs : List PreId) :
    comparePre as bs = compareLex (compareOn List.isEmpty) (compareLists PreId.compare) as bs := by
  cases as <;> cases bs <;> rfl

instance : TransCmp comparePre := transCmp_of_key id comparePre_eq

instance : LawfulEqCmp comparePre where
  compare_self {as} := by
    rw [comparePre_eq]
    exact ReflCmp.compare_self
  eq_of_compare {as bs} h := by
    rw [comparePre_eq] at h
    exact LawfulEqCmp.eq_of_compare (Ordering.then_eq_eq.1 h).2

def compareBy {α : Type} (part : Version → α) (cmp : α → α → Ordering) (v w : Version) : Ordering :=
  cmp (part v) (part w)

instance {α : Type} (part : Version → α) (cmp : α → α → Ordering) [TransCmp cmp] :
    TransCmp (compareBy part cmp) := transCmp_of_key part fun _ _ => rfl

theorem compare_eq (v w : Version) :
    v.compare w =
      compareLex (compareBy major Ord.compare) (compareLex (compareBy minor Ord.compare)
        (compareLex (compareBy patch Ord.compare) (compareLex (compareBy pre comparePre)
          (compareBy build (compareLists BuildId.compare))))) v w := rfl

instance : TransCmp compare := transCmp_of_key id compare_eq

instance : LawfulEqCmp compare where
  compare_self {v} := by
    simp only [compare, Ordering.then_eq_eq]
    exact ⟨ReflCmp.compare_self, ReflCmp.compare_self, ReflCmp.compare_self,
      ReflCmp.compare_self, ReflCmp.compare_self⟩
  eq_of_compare {v w} h := by
    simp only [compare, Ordering.then_eq_eq] at h
    obtain ⟨hmajor, hminor, hpatch, hpre, hbuild⟩ := h
    cases v
    cases w
    rw [mk.injEq]
    exact ⟨LawfulEqOrd.eq_of_compare hmajor, LawfulEqOrd.eq_of_compare hminor,
      LawfulEqOrd.eq_of_compare hpatch, LawfulEqCmp.eq_of_compare hpre,
      LawfulEqCmp.eq_of_compare hbuild⟩

theorem atLeast_iff (v w : Version) : v.atLeast w = true ↔ (w.compare v).isLE = true := by
  rw [atLeast, @OrientedCmp.eq_swap _ compare _ v w]
  cases w.compare v <;> decide

theorem atLeast_of_isLE {v w least : Version} (h : (v.compare w).isLE = true)
    (hv : v.atLeast least = true) : w.atLeast least = true := by
  rw [atLeast_iff] at hv ⊢
  exact TransCmp.isLE_trans hv h

theorem atLeast_of_atLeast {v least below : Version} (hbelow : (below.compare least).isLE = true)
    (h : v.atLeast least = true) : v.atLeast below = true := by
  rw [atLeast_iff] at h ⊢
  exact TransCmp.isLE_trans hbelow h

end LintBridge.Version
