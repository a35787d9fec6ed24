import LintBridge.Proofs.Text.Endings
import LintBridge.Proofs.Text.Window

/-!
Texts with terminators of one kind.

A tool writes its terminators in one way. `terminators` lists those of a text, and a text is
`Uniform` if they are all alike. Replacing them neither makes nor splits a CR LF, so

* `terminators_adopt`: a uniform text that is given the endings of another one has as many
  terminators as before, all of the kind of the first one of the other text;
* `adopt_adopt`: a text with these endings gives them to the same text again;
* `uniform_endings_settle`: hence the edits for what a tool writes leave one kind of terminator,
  whatever the old text mixed, and the same output asks for no edit again;
* `edit_again_past_count`: which it may do if positions cannot count the lines.
-/

namespace LintBridge

/-- The terminators of a text, in their order. -/
def terminators : List Char → List LineEnding
  | [] => []
  | '\r' :: '\n' :: rest => .crLf :: terminators rest
  | '\r' :: rest => .cr :: terminators rest
  | '\n' :: rest => .lf :: terminators rest
  | _ :: rest => terminators rest

/-- The terminators of a text are all of one kind. -/
def Uniform (text : List Char) : Prop :=
  ∀ e ∈ terminators text, ∀ f ∈ terminators text, e = f

instance (text : List Char) : Decidable (Uniform text) :=
  inferInstanceAs (Decidable (∀ e ∈ terminators text, ∀ f ∈ terminators text, e = f))

/-! ## Terminators line by line -/

theorem terminators_unbroken_append (content rest : List Char) (h : Unbroken content) :
    terminators (content ++ rest) = terminators rest := by
  induction content with
  | nil => rfl
  | cons c content ih =>
    obtain ⟨hc, hcontent⟩ := (unbroken_cons c content).1 h
    have hne : c ≠ '\n' ∧ c ≠ '\r' := by simpa [isTerminatorChar] using hc
    rw [List.cons_append, terminators.eq_5 c _ (fun _ h _ => hne.2 h) hne.2 hne.1, ih hcontent]

theorem terminators_unbroken (content : List Char) (h : Unbroken content) :
    terminators content = [] := by
  have happend := terminators_unbroken_append content [] h
  rwa [List.append_nil] at happend

theorem terminators_line (content rest : List Char) (e : LineEnding) (hc : Unbroken content)
    (h : ¬ Meets e.chars rest) :
    terminators (content ++ (e.chars ++ rest)) = e :: terminators rest := by
  rw [terminators_unbroken_append content _ hc]
  cases e with
  | lf => rfl
  | crLf => rfl
  | cr =>
    have hr : ∀ more, rest = '\n' :: more → False := fun more hmore => h ⟨rfl, by rw [hmore]; rfl⟩
    exact terminators.eq_3 rest hr

theorem first?_eq_head?_terminators (text : List Char) :
    LineEnding.first? text = (terminators text).head? := by
  induction text using lines_induction with
  | nil => rfl
  | last content _ hc =>
    rw [LineEnding.first?_unbroken content hc, terminators_unbroken content hc]
    rfl
  | line content e rest hc hm _ =>
    rw [LineEnding.first?_line content rest e hc hm, terminators_line content rest e hc hm]
    rfl

theorem head?_terminators_of_lf (text : List Char) (h : text.head? = some '\n') :
    (terminators text).head? = some .lf := by
  cases text with
  | nil => cases h
  | cons c rest =>
    obtain rfl := Option.some.inj h
    rfl

/-! ## Replacing terminators of one kind -/

namespace LineEnding

theorem terminators_replaceAll (old new : LineEnding) (text : List Char) (hne : new ≠ old)
    (h : ∀ e ∈ terminators text, e = old) :
    terminators (replaceAll old new text) = (terminators text).map fun _ => new := by
  induction text using lines_induction with
  | nil => rfl
  | last content _ hc =>
    rw [replaceAll_unbroken old new content hc, terminators_unbroken content hc]
    rfl
  | line content e rest hc hm ih =>
    rw [terminators_line content rest e hc hm] at h ⊢
    obtain ⟨rfl, hrest⟩ := List.forall_mem_cons.1 h
    have hlf : rest.head? = some '\n' → e = .lf := by
      intro hhead
      have hfirst := head?_terminators_of_lf rest hhead
      exact (hrest .lf (List.mem_of_mem_head? hfirst)).symm
    -- A new CR would meet an LF only if the text had one at the start of a line. Then it would be
    -- uniform in LF, and this one replaced as well.
    have hmeets : ¬ Meets new.chars (replaceAll e new rest) := by
      rintro ⟨hcr, hhead⟩
      rcases (head?_replaceAll_eq_lf_iff e new rest hne).1 hhead with ⟨hold, hnot⟩ | ⟨hnew, -⟩
      · exact hnot (hlf hold)
      · rw [hnew] at hcr
        simp [chars] at hcr
    have hchars : replaceAll e new e.chars = new.chars := by
      rw [replaceAll_chars e new e id, renamed, if_pos rfl]
    rw [replaceAll_unbroken_append e new content _ hc, replaceAll_terminator_append e new e _ hm,
      hchars, terminators_line content _ new hc hmeets, ih hrest, List.map_cons]

theorem eq_of_first? (text : List Char) (h : Uniform text) (first : LineEnding)
    (hfirst : first? text = some first) : ∀ e ∈ terminators text, e = first := by
  rw [first?_eq_head?_terminators] at hfirst
  intro e he
  exact h e he first (List.mem_of_mem_head? hfirst)

/-- A uniform text that is given the endings of another one has as many terminators as before, of
the kind of the first one of the other text, if that has any. -/
theorem terminators_adopt (model text : List Char) (h : Uniform text) :
    terminators (adopt model text) =
      (terminators text).map fun e => (terminators model).head?.getD e := by
  rw [← first?_eq_head?_terminators]
  rcases adopt_cases model text with ⟨hleft, hsame⟩ | ⟨expected, actual, hm, ht, hne, hadopt⟩
  · have hall : ∀ e ∈ terminators text, (first? model).getD e = e := by
      intro e he
      cases hm : first? model with
      | none => rfl
      | some expected =>
        cases ht : first? text with
        | none =>
          rw [first?_eq_head?_terminators, List.head?_eq_none_iff] at ht
          rw [ht] at he
          cases he
        | some actual =>
          rw [eq_of_first? text h actual ht e he]
          exact hsame expected actual hm ht
    rw [hleft, List.map_congr_left hall, List.map_id']
  · rw [hadopt, terminators_replaceAll actual expected text hne (eq_of_first? text h actual ht), hm]
    rfl

/-- A text that has been given the endings of another one gives them to the same text again. -/
theorem adopt_adopt (model text : List Char) (h : Uniform text) :
    adopt (adopt model text) text = adopt model text := by
  rcases adopt_cases model text with ⟨hleft, -⟩ | ⟨expected, actual, hm, ht, hne, hadopt⟩
  · rw [hleft, adopt_self]
  · have hfirst : first? (adopt model text) = some expected := by
      rw [first?_eq_head?_terminators] at hm ht ⊢
      rw [terminators_adopt model text h, List.head?_map, ht, hm]
      rfl
    rw [adopt_of_ne (adopt model text) text expected actual hfirst ht hne, hadopt]

end LineEnding

/-! ## What a tool writes -/

/-- A uniform text that is given the endings of another one is uniform in the first terminator of
that text, and in its own if that text has none. -/
theorem kind_of_mem_terminators_adopt (model text : List Char) (h : Uniform text) (e : LineEnding)
    (he : e ∈ terminators (LineEnding.adopt model text)) :
    some e = (terminators model).head?.or (terminators text).head? := by
  rw [LineEnding.terminators_adopt model text h] at he
  obtain ⟨own, hown, rfl⟩ := List.mem_map.1 he
  cases hmodel : (terminators model).head? with
  | some expected => rfl
  | none =>
    cases hfirst : (terminators text).head? with
    | none =>
      rw [List.head?_eq_none_iff.1 hfirst] at hown
      cases hown
    | some first =>
      rw [h own hown first (List.mem_of_mem_head? hfirst)]
      rfl

/-- Let a tool write terminators of one kind. The edits for its output turn a text, whose lines
positions can reach, into one with as many terminators as the output has, all of the kind of the
first one of the old text, or of the kind of the output if the old text has none. The same output
then asks for no edit. -/
theorem uniform_endings_settle (original fixed : List Char) (h : Uniform fixed)
    (hreach : Reachable original) :
    ∃ t, applyEdits? original (reconcile original fixed) = some t ∧
      (terminators t).length = (terminators fixed).length ∧
      (∀ e ∈ terminators t, some e = (terminators original).head?.or (terminators fixed).head?) ∧
      reconcile t fixed = [] := by
  refine ⟨LineEnding.adopt original fixed, ?_, ?_, ?_, ?_⟩
  · exact applyEdits?_reconcile original fixed hreach
  · rw [LineEnding.terminators_adopt original fixed h, List.length_map]
  · intro e he
    exact kind_of_mem_terminators_adopt original fixed h e he
  · rcases reconcile_cases (LineEnding.adopt original fixed) fixed with ⟨-, hnone⟩ | ⟨hne, -⟩
    · exact hnone
    · exact absurd (LineEnding.adopt_adopt original fixed h) hne

/-- A text with all three terminators, and the text that a tool returns for it with LF. -/
theorem mixedOriginal_settles :
    Uniform "a\nb\nx\n".toList ∧ Reachable "a\r\nb\nc\rd".toList ∧
    terminators "a\r\nb\nc\rd".toList = [.crLf, .lf, .cr] ∧
    applyEdits? "a\r\nb\nc\rd".toList
      (reconcile "a\r\nb\nc\rd".toList "a\nb\nx\n".toList) =
        some "a\r\nb\r\nx\r\n".toList ∧
    (∀ e ∈ terminators "a\r\nb\r\nx\r\n".toList, some e = some .crLf) ∧
    reconcile "a\r\nb\r\nx\r\n".toList "a\nb\nx\n".toList = [] := by
  have huniform : Uniform "a\nb\nx\n".toList := by decide
  have hreach : Reachable "a\r\nb\nc\rd".toList := by decide
  have hadopt : LineEnding.adopt "a\r\nb\nc\rd".toList "a\nb\nx\n".toList =
      "a\r\nb\r\nx\r\n".toList := by decide
  obtain ⟨t, happly, -, hkind, hnone⟩ :=
    uniform_endings_settle "a\r\nb\nc\rd".toList "a\nb\nx\n".toList huniform hreach
  have ht : t = "a\r\nb\r\nx\r\n".toList := by
    rw [applyEdits?_reconcile _ _ hreach, hadopt] at happly
    exact (Option.some.inj happly).symm
  subst ht
  exact ⟨huniform, hreach, by decide, happly, hkind, hnone⟩

/-- Past the greatest count an edit may do nothing, so that the same output asks for it again. -/
theorem edit_again_past_count (n : Nat) (h : maxCount ≤ n) :
    let original := List.replicate (n + 1) '\n'
    let fixed := List.replicate n '\n'
    Uniform fixed ∧ reconcile original fixed ≠ [] ∧
    applyEdits? original (reconcile original fixed) = some original := by
  intro original fixed
  have hkinds : ∀ m, terminators (List.replicate m '\n') = List.replicate m .lf := by
    intro m
    induction m with
    | zero => rfl
    | succ m ih =>
      rw [List.replicate_succ, List.replicate_succ, ← ih]
      rfl
  have hedit : reconcile original fixed = [⟨⟨⟨maxCount, 0⟩, ⟨maxCount, 0⟩⟩, ""⟩] :=
    reconcile_replicate_past_count n h
  refine ⟨?_, ?_, ?_⟩
  · intro e he f hf
    rw [hkinds] at he hf
    rw [List.eq_of_mem_replicate he, List.eq_of_mem_replicate hf]
  · rw [hedit]
    exact List.cons_ne_nil _ _
  · have hplace := textBefore_lineStart original maxCount
    have hsplit : original = ((splitLines original).take maxCount).flatten ++
        ([] ++ ((splitLines original).drop maxCount).flatten) := by
      rw [List.nil_append, ← List.flatten_append, List.take_append_drop, flatten_splitLines]
    have hcounted := counted_lineStart original maxCount
    have happly := applyEdits?_singleton original _ [] _
      ⟨⟨⟨maxCount, 0⟩, ⟨maxCount, 0⟩⟩, ""⟩ ⟨hcounted, hcounted⟩ hsplit hplace
      (by rwa [List.append_nil])
    rw [hedit, happly, String.toList_empty, List.append_nil, ← List.flatten_append,
      List.take_append_drop, flatten_splitLines]

/-- One empty line too many to count is to lose one of them. The text stays as it was, so that the
same output asks for the edit once more. -/
theorem manyLines_edited_again :
    let original := List.replicate 4294967296 '\n'
    let fixed := List.replicate 4294967295 '\n'
    Uniform fixed ∧ applyEdits? original (reconcile original fixed) = some original ∧
      reconcile original fixed ≠ [] := by
  intro original fixed
  obtain ⟨huniform, hedit, happly⟩ := edit_again_past_count 4294967295 (Nat.le_refl _)
  exact ⟨huniform, happly, hedit⟩

end LintBridge
