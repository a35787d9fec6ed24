import LintBridge.CommandLine

/-!
What a request for findings keeps of the user's arguments.

For all rules it leaves out the refused arguments and nothing else. For one rule it leaves out every
choice of rules as well, and a flag that takes its value from the next argument takes that argument
with it, whatever it looks like.

* `leftForOneRule_iff`: what is kept is what a reading from left to right leaves
  (`LeftForOneRule`), which drops one thing after the other;
* `keepForOneRule_eq`: an argument is the value of a flag exactly if an odd number of such flags
  stands right before it, so that each place can be judged by itself;
* `check_keeps_allowed`: the whole command line.
-/

namespace LintBridge.CommandLine

/-! ## Choices of rules -/

/-- An argument that is a flag that chooses rules together with its value. -/
def JoinsSelection (arg : String) : Prop :=
  ∃ flag ∈ selectionFlags, ∃ value, arg = flag ++ "=" ++ value

theorem isJoinedSelection_iff (arg : String) :
    isJoinedSelection arg = true ↔ JoinsSelection arg := by
  rw [isJoinedSelection, List.any_eq_true]
  refine exists_congr fun flag => and_congr_right fun _ => ?_
  rw [List.isPrefixOf_iff_prefix]
  constructor
  · rintro ⟨value, hvalue⟩
    refine ⟨String.ofList value, String.toList_inj.1 ?_⟩
    simp [← hvalue]
  · rintro ⟨value, rfl⟩
    exact ⟨value.toList, by simp⟩

theorem not_selection_of_refused {arg : String} (h : arg ∈ refusedByCheck) :
    arg ∉ selectionFlags := by
  revert arg
  decide

/-- A flag that takes its value from the next argument has none in itself. -/
theorem not_joined_of_selection {arg : String} (h : arg ∈ selectionFlags) :
    ¬ JoinsSelection arg := by
  rw [← isJoinedSelection_iff]
  revert arg
  decide

/-- An argument that a request for one rule has no reason of its own to leave out. -/
def Allowed (arg : String) : Prop :=
  arg ∉ refusedByCheck ∧ arg ∉ selectionFlags ∧ ¬ JoinsSelection arg

instance (arg : String) : Decidable (JoinsSelection arg) :=
  decidable_of_iff _ (isJoinedSelection_iff arg)

instance (arg : String) : Decidable (Allowed arg) := inferInstanceAs (Decidable (_ ∧ _))

/-! ## From left to right -/

theorem keepForOneRule_selection {flag : String} (rest : List String)
    (h : flag ∈ selectionFlags) : keepForOneRule (flag :: rest) = keepForOneRule rest.tail := by
  have hrefused : flag ∉ refusedByCheck := fun hrefused => not_selection_of_refused hrefused h
  rw [keepForOneRule.eq_def]
  cases rest <;> simp [hrefused, h, keepForOneRule]

theorem keepForOneRule_allowed {arg : String} (rest : List String) (h : Allowed arg) :
    keepForOneRule (arg :: rest) = arg :: keepForOneRule rest := by
  rw [keepForOneRule.eq_def]
  simp [h.1, h.2.1, isJoinedSelection_iff, h.2.2]

theorem keepForOneRule_dropped {arg : String} (rest : List String) (h : arg ∉ selectionFlags)
    (hallowed : ¬ Allowed arg) : keepForOneRule (arg :: rest) = keepForOneRule rest := by
  rw [keepForOneRule.eq_def]
  by_cases hrefused : arg ∈ refusedByCheck
  · simp [hrefused]
  · have hjoined : JoinsSelection arg := Decidable.byContradiction fun hjoined =>
      hallowed ⟨hrefused, h, hjoined⟩
    simp [hrefused, h, isJoinedSelection_iff, hjoined]

/-- What is left of arguments that are read from left to right, for one rule. -/
inductive LeftForOneRule : List String → List String → Prop
  | nil : LeftForOneRule [] []
  | refused {arg : String} {rest left : List String} : arg ∈ refusedByCheck →
      LeftForOneRule rest left → LeftForOneRule (arg :: rest) left
  | selection {flag value : String} {rest left : List String} : flag ∈ selectionFlags →
      LeftForOneRule rest left → LeftForOneRule (flag :: value :: rest) left
  | lastSelection {flag : String} : flag ∈ selectionFlags → LeftForOneRule [flag] []
  | joined {arg : String} {rest left : List String} : JoinsSelection arg →
      LeftForOneRule rest left → LeftForOneRule (arg :: rest) left
  | allowed {arg : String} {rest left : List String} : Allowed arg →
      LeftForOneRule rest left → LeftForOneRule (arg :: rest) (arg :: left)

/-- Reading from left to right leaves what is kept, and nothing else. -/
theorem leftForOneRule_iff (args left : List String) :
    LeftForOneRule args left ↔ left = keepForOneRule args := by
  constructor
  · intro h
    induction h with
    | nil => rfl
    | refused hrefused _ ih =>
      rw [ih, keepForOneRule_dropped _ (not_selection_of_refused hrefused) fun h => h.1 hrefused]
    | selection hselection _ ih => rw [ih, keepForOneRule_selection _ hselection, List.tail_cons]
    | lastSelection hselection => rw [keepForOneRule_selection [] hselection]; rfl
    | joined hjoined _ ih =>
      rw [ih, keepForOneRule_dropped _ (fun h => not_joined_of_selection h hjoined)
        fun h => h.2.2 hjoined]
    | allowed hallowed _ ih => rw [ih, keepForOneRule_allowed _ hallowed]
  · rintro rfl
    induction args using keepForOneRule.induct with
    | case1 => exact .nil
    | case2 arg rest hrefused ih =>
      have hrefused := List.contains_iff_mem.1 hrefused
      rw [keepForOneRule_dropped rest (not_selection_of_refused hrefused) fun h => h.1 hrefused]
      exact .refused hrefused ih
    | case3 flag _ hselection =>
      have hselection := List.contains_iff_mem.1 hselection
      rw [keepForOneRule_selection [] hselection]
      exact .lastSelection hselection
    | case4 flag _ hselection value rest ih =>
      have hselection := List.contains_iff_mem.1 hselection
      rw [keepForOneRule_selection _ hselection]
      exact .selection hselection ih
    | case5 arg rest _ _ hjoined ih =>
      have hjoined := (isJoinedSelection_iff arg).1 hjoined
      rw [keepForOneRule_dropped rest (fun h => not_joined_of_selection h hjoined)
        fun h => h.2.2 hjoined]
      exact .joined hjoined ih
    | case6 arg rest hrefused hselection hjoined ih =>
      have hallowed : Allowed arg :=
        ⟨mt List.contains_iff_mem.2 hrefused, mt List.contains_iff_mem.2 hselection,
          mt (isJoinedSelection_iff arg).2 hjoined⟩
      rw [keepForOneRule_allowed rest hallowed]
      exact .allowed hallowed ih

theorem LeftForOneRule.sublist {args left : List String} (h : LeftForOneRule args left) :
    left.Sublist args := by
  induction h with
  | nil => exact .slnil
  | refused _ _ ih => exact ih.cons _
  | selection _ _ ih => exact (ih.cons _).cons _
  | lastSelection _ => exact List.nil_sublist _
  | joined _ _ ih => exact ih.cons _
  | allowed _ _ ih => exact ih.cons_cons _

theorem LeftForOneRule.allowed_of_mem {args left : List String} (h : LeftForOneRule args left) :
    ∀ arg ∈ left, Allowed arg := by
  induction h with
  | nil | lastSelection _ => simp
  | refused _ _ ih | selection _ _ ih | joined _ _ ih => exact ih
  | allowed hallowed _ ih => exact List.forall_mem_cons.2 ⟨hallowed, ih⟩

/-! ## Place by place -/

/-- How many flags that take their values from the next argument stand at the end of some
arguments. -/
def flagsAtEnd (before : List String) : Nat :=
  (before.reverse.takeWhile fun arg => decide (arg ∈ selectionFlags)).length

theorem flagsAtEnd_append (before : List String) (arg : String) :
    flagsAtEnd (before ++ [arg]) = if arg ∈ selectionFlags then flagsAtEnd before + 1 else 0 := by
  rw [flagsAtEnd, List.reverse_append, List.reverse_singleton, List.singleton_append,
    List.takeWhile_cons]
  by_cases h : arg ∈ selectionFlags <;> simp [h, flagsAtEnd]

/-- Whether the argument at a place stays: it is allowed, and it is no value, since flags and values
take turns in the row of flags before it. -/
def Stays (args : List String) (place : String × Nat) : Prop :=
  Allowed place.1 ∧ flagsAtEnd (args.take place.2) % 2 = 0

instance (args : List String) (place : String × Nat) : Decidable (Stays args place) :=
  inferInstanceAs (Decidable (_ ∧ _))

/-- The places after some arguments. The first of them holds a value if the flags at the end of
those are odd in number. -/
theorem filter_stays_append (rest before : List String) :
    ((rest.zipIdx before.length).filter fun place => Stays (before ++ rest) place).map Prod.fst =
      if flagsAtEnd before % 2 = 0 then keepForOneRule rest else keepForOneRule rest.tail := by
  induction rest generalizing before with
  | nil => simp [keepForOneRule]
  | cons arg rest ih =>
    have hafter := ih (before ++ [arg])
    rw [List.append_assoc, List.singleton_append, List.length_append, List.length_singleton,
      flagsAtEnd_append] at hafter
    have hhere : Stays (before ++ arg :: rest) (arg, before.length) ↔
        Allowed arg ∧ flagsAtEnd before % 2 = 0 := by
      rw [Stays, List.take_left]
    rw [List.zipIdx_cons, List.filter_cons]
    simp only [hhere, List.tail_cons]
    by_cases heven : flagsAtEnd before % 2 = 0
    · rw [if_pos heven]
      by_cases hselection : arg ∈ selectionFlags
      · rw [if_pos hselection, if_neg (by omega)] at hafter
        rw [keepForOneRule_selection rest hselection, if_neg (by simp [Allowed, hselection]),
          hafter]
      rw [if_neg hselection, if_pos (Nat.zero_mod 2)] at hafter
      by_cases hallowed : Allowed arg
      · rw [if_pos (by simp [hallowed, heven]), List.map_cons, hafter,
          keepForOneRule_allowed rest hallowed]
      · rw [if_neg (by simp [hallowed]), hafter, keepForOneRule_dropped rest hselection hallowed]
    · have hvalue : (if arg ∈ selectionFlags then flagsAtEnd before + 1 else 0) % 2 = 0 := by
        split <;> omega
      rw [if_pos hvalue] at hafter
      rw [if_neg heven, if_neg (by simp [heven]), hafter]

theorem keepForOneRule_eq (args : List String) :
    keepForOneRule args = (args.zipIdx.filter fun place => Stays args place).map Prod.fst :=
  (filter_stays_append args []).symm

/-! ## The command line -/

theorem checkStart_ofVersion (v : Version) :
    checkStart (.ofVersion v) =
      (if v.atLeast (.release 0 0 238) then ["check"] else []) ++
        ["--force-exclude", "--no-cache", "--no-fix", "--quiet",
          if v.atLeast (.release 0 0 291) then "--output-format" else "--format", "json", "-"] := by
  rw [checkStart, Capabilities.ofVersion]
  cases v.atLeast (.release 0 0 291) <;> rfl

theorem keepForAllRules_eq (args : List String) :
    keepForAllRules args = args.filter fun arg => arg ∉ refusedByCheck := by
  refine List.filter_congr fun arg _ => ?_
  simp

/-- A request for findings has the fixed arguments of the version, its own additions, what is kept
of the user's arguments in their order, the one rule if there is one, and the name of the file. For
all rules, only refused arguments are missing. For one rule, what is kept is what a reading from
left to right leaves; no choice of rules is among it, and every other argument is, unless it is
refused or a value. -/
theorem check_keeps_allowed (v : Version) (user extra : List String) (only : Option String)
    (path : Path) :
    ∃ kept, check (.ofVersion v) user extra only path =
        (if v.atLeast (.release 0 0 238) then ["check"] else []) ++
          ["--force-exclude", "--no-cache", "--no-fix", "--quiet",
            if v.atLeast (.release 0 0 291) then "--output-format" else "--format", "json", "-"] ++
          extra ++ kept ++ (only.elim [] fun rule => ["--select", rule]) ++
          ["--stdin-filename", path.text] ∧
      kept.Sublist user ∧
      (only = none → kept = user.filter fun arg => arg ∉ refusedByCheck) ∧
      ∀ rule, only = some rule →
        (∀ left, LeftForOneRule user left ↔ left = kept) ∧
        (∀ arg ∈ kept, arg ∉ selectionFlags ∧ ¬ JoinsSelection arg) ∧
        kept = (user.zipIdx.filter fun place => Stays user place).map Prod.fst := by
  cases only with
  | none =>
    refine ⟨keepForAllRules user, ?_, List.filter_sublist, fun _ => keepForAllRules_eq user, ?_⟩
    · simp [check, checkStart_ofVersion]
    · rintro rule ⟨⟩
  | some rule =>
    have hleft := (leftForOneRule_iff user (keepForOneRule user)).2 rfl
    refine ⟨keepForOneRule user, ?_, hleft.sublist, by rintro ⟨⟩, fun _ _ => ?_⟩
    · simp [check, checkStart_ofVersion]
    · exact ⟨leftForOneRule_iff user, fun arg harg => (hleft.allowed_of_mem arg harg).2,
        keepForOneRule_eq user⟩

/-- Arguments with a flag as the value of a flag, a refused argument as one, and a flag at the
end. -/
def flagRow : List String :=
  ["--select", "--ignore", "E,F", "--ignore=E501", "--no-cache", "--extend-select", "--fix",
    "--selection", "--line-length=100", "--select"]

/-- The value of a flag chooses nothing, so what stands behind it stays. -/
theorem flagRow_kept :
    check (.ofVersion (.release 0 5 0)) flagRow ["--fix"] (some "I001") ⟨"/w/a.py"⟩ =
      ["check", "--force-exclude", "--no-cache", "--no-fix", "--quiet", "--output-format", "json",
        "-", "--fix", "E,F", "--selection", "--line-length=100", "--select", "I001",
        "--stdin-filename", "/w/a.py"] ∧
    LeftForOneRule flagRow ["E,F", "--selection", "--line-length=100"] := by
  obtain ⟨kept, hcheck, -, -, hrule⟩ :=
    check_keeps_allowed (.release 0 5 0) flagRow ["--fix"] (some "I001") ⟨"/w/a.py"⟩
  obtain ⟨hleft, -, hplaces⟩ := hrule "I001" rfl
  have hkept : kept = ["E,F", "--selection", "--line-length=100"] := by
    rw [hplaces]
    decide
  refine ⟨?_, (hleft _).2 hkept.symm⟩
  rw [hcheck, hkept]
  decide

end LintBridge.CommandLine
