/-!
Steps that may have no result, put together.

`bind₂_ite` and `mapM_ite` are about steps that have a result under a condition: together they have
one if all the conditions are met. The other rules take what was made of a list apart again.
-/

namespace LintBridge

variable {α β γ : Type}

/-- Two steps that have a result under a condition have one together if both conditions are met. -/
theorem bind₂_ite (p q : Prop) [Decidable p] [Decidable q] (a : α) (b : β)
    (f : α → β → Option γ) :
    ((if p then some a else none).bind fun x => (if q then some b else none).bind (f x)) =
      if p ∧ q then f a b else none := by
  by_cases hp : p <;> by_cases hq : q <;> simp [hp, hq]

/-- What is made of each element under a condition is made of all if all meet it. -/
theorem mapM_ite (p : α → Prop) [DecidablePred p] (f : α → β) (l : List α) :
    l.mapM (fun a => if p a then some (f a) else none) =
      if ∀ a ∈ l, p a then some (l.map f) else none := by
  induction l with
  | nil => exact (if_pos fun _ ha => nomatch ha).symm
  | cons a rest ih =>
    rw [List.mapM_cons, ih]
    by_cases ha : p a
    · by_cases hrest : ∀ b ∈ rest, p b
      · rw [if_pos ha, if_pos hrest, if_pos (List.forall_mem_cons.2 ⟨ha, hrest⟩)]
        rfl
      · rw [if_pos ha, if_neg hrest, if_neg fun hall => hrest (List.forall_mem_cons.1 hall).2]
        rfl
    · rw [if_neg ha, if_neg fun hall => ha (List.forall_mem_cons.1 hall).1]
      rfl

/-- To do one thing to all elements and then another one to the results is to do both to each. -/
theorem mapM_bind_mapM (f : α → Option β) (g : β → Option γ) (l : List α) :
    (l.mapM f).bind (List.mapM g) = l.mapM fun a => (f a).bind g := by
  induction l with
  | nil => rfl
  | cons a rest ih =>
    rw [List.mapM_cons, List.mapM_cons, ← ih]
    cases f a with
    | none => rfl
    | some b =>
      cases rest.mapM f with
      | none => cases hg : g b <;> simp [hg]
      | some bs => exact List.mapM_cons

theorem exists_of_mem_mapM {f : α → Option β} (l : List α) (bs : List β)
    (h : l.mapM f = some bs) (b : β) (hb : b ∈ bs) : ∃ a ∈ l, f a = some b := by
  induction l generalizing bs with
  | nil =>
    obtain rfl := Option.some.inj h
    cases hb
  | cons a rest ih =>
    simp only [List.mapM_cons, Option.bind_eq_bind, Option.bind_eq_some_iff, Option.pure_def,
      Option.some.injEq] at h
    obtain ⟨c, hc, cs, hcs, rfl⟩ := h
    rcases List.mem_cons.1 hb with rfl | hb
    · exact ⟨a, List.mem_cons_self, hc⟩
    · obtain ⟨d, hd, hf⟩ := ih cs hcs hb
      exact ⟨d, List.mem_cons_of_mem a hd, hf⟩

theorem exists_of_mapM {f : α → Option β} {l : List α} {bs : List β} (h : l.mapM f = some bs)
    (a : α) (ha : a ∈ l) : ∃ b, f a = some b := by
  induction l generalizing bs with
  | nil => cases ha
  | cons c rest ih =>
    simp only [List.mapM_cons, Option.bind_eq_bind, Option.bind_eq_some_iff, Option.pure_def,
      Option.some.injEq] at h
    obtain ⟨b, hb, cs, hcs, -⟩ := h
    rcases List.mem_cons.1 ha with rfl | ha
    · exact ⟨b, hb⟩
    · exact ih hcs ha

/-- What the results say is known of the elements that they were made of. -/
theorem map_of_mapM {f : α → Option β} {g : β → γ} {k : α → γ} {l : List α} (bs : List β)
    (h : l.mapM f = some bs) (hf : ∀ a b, f a = some b → g b = k a) : bs.map g = l.map k := by
  induction l generalizing bs with
  | nil =>
    obtain rfl := Option.some.inj h
    rfl
  | cons a rest ih =>
    simp only [List.mapM_cons, Option.bind_eq_bind, Option.bind_eq_some_iff, Option.pure_def,
      Option.some.injEq] at h
    obtain ⟨b, hb, cs, hcs, rfl⟩ := h
    rw [List.map_cons, List.map_cons, hf a b hb, ih cs hcs]

/-- Nothing comes of a list exactly if nothing comes of one of its elements. -/
theorem mapM_eq_none_iff {f : α → Option β} (l : List α) :
    l.mapM f = none ↔ ∃ a ∈ l, f a = none := by
  induction l with
  | nil => simp
  | cons a rest ih =>
    cases hf : f a with
    | none => simp [hf]
    | some b =>
      simp only [List.mapM_cons, hf, Option.bind_eq_bind, Option.bind_some, List.mem_cons,
        exists_eq_or_imp, reduceCtorEq, false_or, ← ih]
      cases rest.mapM f <;> simp

theorem isSome_mapM (f : α → Option β) (l : List α) :
    (l.mapM f).isSome = l.all fun a => (f a).isSome := by
  induction l with
  | nil => rfl
  | cons a rest ih =>
    rw [List.mapM_cons, List.all_cons, ← ih]
    cases f a <;> cases rest.mapM f <;> rfl

theorem exists_mapM {f : α → Option β} {l : List α} (h : ∀ a ∈ l, ∃ b, f a = some b) :
    ∃ bs, l.mapM f = some bs := by
  rw [← Option.ne_none_iff_exists', Ne, mapM_eq_none_iff]
  rintro ⟨a, ha, hnone⟩
  obtain ⟨b, hb⟩ := h a ha
  cases hnone.symm.trans hb

end LintBridge
