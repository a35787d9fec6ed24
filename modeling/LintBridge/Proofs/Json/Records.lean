import LintBridge.Json.Decode
import LintBridge.Proofs.Partial

/-!
Records that are written are read back field by field.

`slots?_ofGiven` says what the decoder of a record finds in an object that was written from fields
with distinct names: each field that was given, and no other. `optionalOr_written` and
`list?_written` carry a round trip over from the parts of a record to its fields, and
`exists_of_required` and its like find the part that a field was read from. `Sorted.value?_toTree`
is the round trip of a value as such, whose objects have to be in order, as all written objects are.
-/

namespace LintBridge.Json

/-! ## Fields in order -/

def FieldLt (f g : String × Json) : Prop := f.1 < g.1

theorem find?_of_not_mem {α : Type} (name : String) (fields : List (String × α))
    (h : name ∉ fields.map Prod.fst) : fields.find? (·.1 == name) = none := by
  rw [List.find?_eq_none]
  intro f hf hsame
  exact h (List.mem_map.2 ⟨f, hf, by simpa using hsame⟩)

theorem find?_setField (name other : String) (v : Json) (fields : List (String × Json)) :
    (setField name v fields).find? (·.1 == other) =
      if name = other then some (name, v) else fields.find? (·.1 == other) := by
  induction fields with
  | nil => by_cases h : name = other <;> simp [setField, h]
  | cons f rest ih =>
    obtain ⟨n, w⟩ := f
    unfold setField
    by_cases hn : n = name
    · subst hn
      by_cases h : n = other <;> simp [h]
    · rw [if_neg hn]
      by_cases hlt : name < n
      · rw [if_pos hlt]
        by_cases h : name = other <;> simp [h]
      · rw [if_neg hlt, List.find?_cons, ih, List.find?_cons]
        by_cases h : name = other
        · subst h
          simp [beq_eq_false_iff_ne.2 hn]
        · simp [h]

theorem mem_setField (name : String) (v : Json) (fields : List (String × Json))
    (f : String × Json) (h : f ∈ setField name v fields) : f = (name, v) ∨ f ∈ fields := by
  induction fields with
  | nil => exact .inl (List.mem_singleton.1 h)
  | cons g rest ih =>
    obtain ⟨n, w⟩ := g
    unfold setField at h
    split at h
    · rcases List.mem_cons.1 h with rfl | h
      · exact .inl rfl
      · exact .inr (List.mem_cons_of_mem _ h)
    split at h
    · exact List.mem_cons.1 h
    · rcases List.mem_cons.1 h with rfl | h
      · exact .inr List.mem_cons_self
      · exact (ih h).imp id (List.mem_cons_of_mem _)

theorem pairwise_setField (name : String) (v : Json) (fields : List (String × Json))
    (h : fields.Pairwise FieldLt) : (setField name v fields).Pairwise FieldLt := by
  induction fields with
  | nil => exact List.pairwise_singleton FieldLt _
  | cons f rest ih =>
    obtain ⟨n, w⟩ := f
    obtain ⟨hfirst, hrest⟩ := List.pairwise_cons.1 h
    unfold setField
    split
    · next hsame =>
      subst hsame
      exact List.pairwise_cons.2 ⟨fun g hg => hfirst g hg, hrest⟩
    split
    · next hlt =>
      refine List.pairwise_cons.2 ⟨fun g hg => ?_, h⟩
      rcases List.mem_cons.1 hg with rfl | hg
      · exact hlt
      · exact String.lt_trans hlt (hfirst g hg)
    · next hne hlt =>
      refine List.pairwise_cons.2 ⟨fun g hg => ?_, ih hrest⟩
      rcases mem_setField name v rest g hg with rfl | hg
      · have hle : n ≤ name := String.not_lt.1 hlt
        by_cases hlater : n < name
        · exact hlater
        · exact absurd (String.le_antisymm hle (String.not_lt.1 hlater)) hne
      · exact hfirst g hg

theorem setField_append (name : String) (v : Json) (fields : List (String × Json))
    (h : ∀ f ∈ fields, f.1 < name) : setField name v fields = fields ++ [(name, v)] := by
  induction fields with
  | nil => rfl
  | cons f rest ih =>
    obtain ⟨n, w⟩ := f
    have hlt : n < name := h (n, w) List.mem_cons_self
    have hne : n ≠ name := fun hsame => String.lt_irrefl n (hsame ▸ hlt)
    rw [setField, if_neg hne, if_neg (String.lt_asymm hlt),
      ih fun g hg => h g (List.mem_cons_of_mem _ hg)]
    rfl

def setFields (done fields : List (String × Json)) : List (String × Json) :=
  fields.foldl (fun done (n, v) => setField n v done) done

theorem pairwise_setFields (fields done : List (String × Json)) (h : done.Pairwise FieldLt) :
    (setFields done fields).Pairwise FieldLt := by
  induction fields generalizing done with
  | nil => exact h
  | cons f rest ih => exact ih _ (pairwise_setField f.1 f.2 done h)

theorem mem_setFields (fields done : List (String × Json)) (f : String × Json)
    (h : f ∈ setFields done fields) : f ∈ done ∨ f ∈ fields := by
  induction fields generalizing done with
  | nil => exact .inl h
  | cons g rest ih =>
    rcases ih _ h with h | h
    · rcases mem_setField g.1 g.2 done f h with rfl | h
      · exact .inr List.mem_cons_self
      · exact .inl h
    · exact .inr (List.mem_cons_of_mem g h)

/-- Of fields with distinct names, each is found under its name, and under another name what was
there before. -/
theorem find?_setFields (fields done : List (String × Json)) (h : (fields.map Prod.fst).Nodup)
    (name : String) :
    (setFields done fields).find? (·.1 == name) =
      (fields.find? (·.1 == name)).or (done.find? (·.1 == name)) := by
  induction fields generalizing done with
  | nil => rfl
  | cons f rest ih =>
    obtain ⟨n, v⟩ := f
    obtain ⟨hn, hrest⟩ := List.nodup_cons.1 h
    change (setFields (setField n v done) rest).find? (·.1 == name) = _
    rw [ih (setField n v done) hrest, find?_setField, List.find?_cons]
    by_cases hname : n = name
    · subst hname
      have hnone := find?_of_not_mem n rest hn
      simp [hnone]
    · simp [hname, beq_eq_false_iff_ne.2 hname]

theorem setFields_append (fields done : List (String × Json))
    (h : (done ++ fields).Pairwise FieldLt) : setFields done fields = done ++ fields := by
  induction fields generalizing done with
  | nil => rw [List.append_nil]; rfl
  | cons f rest ih =>
    obtain ⟨n, v⟩ := f
    have hdone : ∀ g ∈ done, g.1 < n := fun g hg =>
      (List.pairwise_append.1 h).2.2 g hg (n, v) List.mem_cons_self
    change setFields (setField n v done) rest = _
    rw [setField_append n v done hdone, ih (done ++ [(n, v)]) (by simpa using h)]
    simp

/-! ## Slots -/

/-- What a decoder finds for a field that was written if it has a value. -/
def Slot.written (v : Option Json) : Slot := v.elim .absent fun v => .given v.toTree

theorem find?_fieldTrees (name : String) (fields : List (String × Json)) :
    ((fieldTrees fields).find? (·.1 == name)).map Prod.snd =
      ((fields.find? (·.1 == name)).map Prod.snd).map toTree := by
  induction fields with
  | nil => rfl
  | cons f rest ih =>
    obtain ⟨n, v⟩ := f
    rw [fieldTrees, List.find?_cons, List.find?_cons]
    cases n == name with
    | true => rfl
    | false => exact ih

theorem map_fst_fieldTrees (fields : List (String × Json)) :
    (fieldTrees fields).map Prod.fst = fields.map Prod.fst := by
  induction fields with
  | nil => rfl
  | cons f rest ih => rw [fieldTrees, List.map_cons, List.map_cons, ih]

/-- No name is repeated among fields in order. -/
theorem length_filter_le_one (name : String) (fields : List (String × Json))
    (h : fields.Pairwise FieldLt) :
    ((fieldTrees fields).filter (·.1 == name)).length ≤ 1 := by
  have hnodup : ((fieldTrees fields).map Prod.fst).Nodup := by
    rw [map_fst_fieldTrees, List.Nodup, List.pairwise_map]
    refine h.imp ?_
    intro f g hlt hsame
    have hself : f.1 < f.1 := by rw [FieldLt, ← hsame] at hlt; exact hlt
    exact String.lt_irrefl f.1 hself
  have hcount := List.nodup_iff_count.1 hnodup name
  rw [List.count, List.countP_map, List.countP_eq_length_filter] at hcount
  exact hcount

def givenFields (fields : List (String × Option Json)) : List (String × Json) :=
  fields.filterMap fun (name, v) => v.map (name, ·)

theorem map_fst_givenFields (fields : List (String × Option Json)) :
    ((givenFields fields).map Prod.fst).Sublist (fields.map Prod.fst) := by
  induction fields with
  | nil => exact List.Sublist.slnil
  | cons f rest ih =>
    obtain ⟨n, v⟩ := f
    cases v with
    | none => exact ih.cons n
    | some v => exact ih.cons_cons n

theorem find?_givenFields (name : String) (v : Option Json)
    (fields : List (String × Option Json)) (h : (fields.map Prod.fst).Nodup)
    (hmem : (name, v) ∈ fields) :
    ((givenFields fields).find? (·.1 == name)).map Prod.snd = v := by
  induction fields with
  | nil => cases hmem
  | cons f rest ih =>
    obtain ⟨n, w⟩ := f
    obtain ⟨hn, hrest⟩ := List.nodup_cons.1 h
    rcases List.mem_cons.1 hmem with heq | hmem
    · obtain ⟨rfl, rfl⟩ := Prod.mk.inj heq
      have hnone := find?_of_not_mem name (givenFields rest) fun hname =>
        hn ((map_fst_givenFields rest).subset hname)
      cases v with
      | none => exact congrArg (Option.map Prod.snd) hnone
      | some v => simp [givenFields]
    · have hne : n ≠ name := by
        rintro rfl
        exact hn (List.mem_map.2 ⟨(n, v), hmem, rfl⟩)
      have htail := ih hrest hmem
      cases w with
      | none => exact htail
      | some w =>
        change (((n, w) :: givenFields rest).find? (·.1 == name)).map Prod.snd = v
        rw [List.find?_cons, beq_eq_false_iff_ne.2 hne]
        exact htail

/-- In an object written from fields with distinct names, a decoder finds each field under its
name. -/
theorem slots?_ofGiven (names : List String) (fields : List (String × Option Json))
    (h : (fields.map Prod.fst).Nodup) :
    ∃ slot, (ofGiven fields).toTree.slots? names = some slot ∧
      ∀ name v, (name, v) ∈ fields → slot name = .written v := by
  have hgiven : ((givenFields fields).map Prod.fst).Nodup := h.sublist (map_fst_givenFields fields)
  have hordered : (setFields [] (givenFields fields)).Pairwise FieldLt :=
    pairwise_setFields (givenFields fields) [] List.Pairwise.nil
  have honce : (names.all fun n => decide
      (((fieldTrees (setFields [] (givenFields fields))).filter (·.1 == n)).length ≤ 1)) =
        true := by
    rw [List.all_eq_true]
    intro n _
    exact decide_eq_true (length_filter_le_one n _ hordered)
  have hslots : (ofGiven fields).toTree.slots? names =
      (Tree.object (fieldTrees (setFields [] (givenFields fields)))).objectSlots? names := rfl
  rw [Tree.objectSlots?, if_pos honce] at hslots
  refine ⟨_, hslots, fun name v hmem => ?_⟩
  rw [find?_fieldTrees, find?_setFields _ _ hgiven, List.find?_nil, Option.or_none,
    find?_givenFields name v fields h hmem]
  cases v <;> rfl

/-! ## Fields of a record -/

section Fields

variable {α : Type}

theorem toTree_eq_null_iff (v : Json) : v.toTree = .null ↔ v = .null := by
  cases v <;> simp [toTree]

theorem optionalOr_given (decode : Tree → Option α) (t : Tree) (h : t ≠ .null) :
    (Slot.given t).optionalOr decode = (decode t).map some := by
  cases t with
  | null => exact absurd rfl h
  | _ => rfl

variable (toJson : α → Json) (decode : Tree → Option α)

theorem optionalOr_given_toTree (a : α) (hnull : toJson a ≠ .null)
    (h : decode (toJson a).toTree = some a) :
    (Slot.given (toJson a).toTree).optionalOr decode = some (some a) := by
  have htree : (toJson a).toTree ≠ .null := mt (toTree_eq_null_iff _).1 hnull
  rw [optionalOr_given decode _ htree, h, Option.map_some]

theorem optionalOr_written (x : Option α) (hnull : ∀ a, toJson a ≠ .null)
    (h : ∀ a, x = some a → decode (toJson a).toTree = some a) :
    (Slot.written (x.map toJson)).optionalOr decode = some x := by
  cases x with
  | none => rfl
  | some a => exact optionalOr_given_toTree toJson decode a (hnull a) (h a rfl)

theorem optionalOr_written_or_null (x : Option α) (hnull : ∀ a, toJson a ≠ .null)
    (h : ∀ a, x = some a → decode (toJson a).toTree = some a) :
    (Slot.given ((x.map toJson).getD .null).toTree).optionalOr decode = some x := by
  cases x with
  | none => rfl
  | some a => exact optionalOr_given_toTree toJson decode a (hnull a) (h a rfl)

theorem itemTrees_eq_map (items : List Json) : itemTrees items = items.map toTree := by
  induction items with
  | nil => rfl
  | cons v rest ih => rw [itemTrees, ih, List.map_cons]

/-- The decoder of the items need only read back those that the list has. -/
theorem list?_written (items : List α) (h : ∀ a ∈ items, decode (toJson a).toTree = some a) :
    (list toJson items).toTree.list? decode = some items := by
  change (itemTrees (items.map toJson)).mapM decode = some items
  rw [itemTrees_eq_map]
  induction items with
  | nil => rfl
  | cons a rest ih =>
    have hfirst := h a List.mem_cons_self
    have hrest := ih fun b hb => h b (List.mem_cons_of_mem a hb)
    rw [List.map_cons, List.map_cons, List.mapM_cons, hfirst, hrest]
    rfl

end Fields

/-! ## Fields that were read -/

section Read

variable {α : Type} {decode : Tree → Option α}

theorem exists_of_required {slot : Slot} {a : α} (h : slot.required decode = some a) :
    ∃ t, decode t = some a := by
  cases slot with
  | given t => exact ⟨t, h⟩
  | absent => cases h
  | missing => cases h

theorem exists_of_optionalOr {slot : Slot} {a : α} (h : slot.optionalOr decode = some (some a)) :
    ∃ t, decode t = some a := by
  cases slot with
  | given t =>
    by_cases hnull : t = .null
    · subst hnull
      cases h
    · rw [optionalOr_given decode t hnull, Option.map_eq_some_iff] at h
      obtain ⟨b, hb, hsame⟩ := h
      exact ⟨t, hb.trans hsame⟩
  | absent => cases h
  | missing => cases h

theorem exists_of_list? {t : Tree} {as : List α} (h : t.list? decode = some as) (a : α)
    (ha : a ∈ as) : ∃ u, decode u = some a := by
  cases t with
  | array items =>
    obtain ⟨u, -, hu⟩ := exists_of_mem_mapM items as h a ha
    exact ⟨u, hu⟩
  | _ => cases h

theorem of_intWithin? {low high n : Int} {t : Tree} (h : t.intWithin? low high = some n) :
    low ≤ n ∧ n ≤ high := by
  cases t with
  | number m =>
    cases m with
    | int m =>
      rw [Tree.intWithin?] at h
      split at h
      · next hbounds =>
        obtain rfl := Option.some.inj h
        exact hbounds
      · cases h
    | real bits => cases h
  | _ => cases h

end Read

/-! ## Values as such -/

/-- Values in whose objects the fields stand in order. -/
inductive Sorted : Json → Prop
  | null : Sorted .null
  | bool (b : Bool) : Sorted (.bool b)
  | number (n : Number) : Sorted (.number n)
  | text (s : String) : Sorted (.text s)
  | array (items : List Json) : (∀ v ∈ items, Sorted v) → Sorted (.array items)
  | object (fields : List (String × Json)) : fields.Pairwise FieldLt →
      (∀ f ∈ fields, Sorted f.2) → Sorted (.object fields)

theorem sorted_ofFields (fields : List (String × Json)) (h : ∀ f ∈ fields, f.2.Sorted) :
    (ofFields fields).Sorted := by
  refine .object _ (pairwise_setFields fields [] List.Pairwise.nil) fun f hf => ?_
  rcases mem_setFields fields [] f hf with hf | hf
  · cases hf
  · exact h f hf

theorem sorted_ofGiven (fields : List (String × Option Json))
    (h : ∀ name v, (name, some v) ∈ fields → v.Sorted) : (ofGiven fields).Sorted := by
  refine sorted_ofFields (givenFields fields) fun f hf => ?_
  obtain ⟨⟨name, v⟩, hmem, hf⟩ := List.mem_filterMap.1 hf
  obtain ⟨w, rfl, rfl⟩ := Option.map_eq_some_iff.1 hf
  exact h name w hmem

theorem sorted_list {α : Type} (toJson : α → Json) (items : List α)
    (h : ∀ a ∈ items, (toJson a).Sorted) : (list toJson items).Sorted := by
  refine .array _ fun v hv => ?_
  obtain ⟨a, ha, rfl⟩ := List.mem_map.1 hv
  exact h a ha

theorem itemValues?_itemTrees (items : List Json)
    (h : ∀ v ∈ items, v.toTree.value? = some v) :
    Tree.itemValues? (itemTrees items) = some items := by
  induction items with
  | nil => rfl
  | cons v rest ih =>
    have hfirst := h v List.mem_cons_self
    have hrest := ih fun w hw => h w (List.mem_cons_of_mem v hw)
    rw [itemTrees, Tree.itemValues?, hfirst, hrest]
    rfl

theorem fieldValues?_fieldTrees (fields : List (String × Json))
    (h : ∀ f ∈ fields, f.2.toTree.value? = some f.2) :
    Tree.fieldValues? (fieldTrees fields) = some fields := by
  induction fields with
  | nil => rfl
  | cons f rest ih =>
    obtain ⟨name, v⟩ := f
    have hfirst := h (name, v) List.mem_cons_self
    have hrest := ih fun g hg => h g (List.mem_cons_of_mem (name, v) hg)
    rw [fieldTrees, Tree.fieldValues?, hfirst, hrest]
    rfl

theorem Sorted.value?_toTree {v : Json} (h : v.Sorted) : v.toTree.value? = some v := by
  induction h with
  | null => rfl
  | bool b => rfl
  | number n => rfl
  | text s => rfl
  | array items _ ih =>
    rw [toTree, Tree.value?, itemValues?_itemTrees items ih]
    rfl
  | object fields hordered _ ih =>
    have hfields : ofFields fields = .object fields :=
      congrArg Json.object (setFields_append fields [] hordered)
    rw [toTree, Tree.value?, fieldValues?_fieldTrees fields ih, Option.map_some, hfields]

end LintBridge.Json
