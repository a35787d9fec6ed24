import LintBridge.Host.Expansion
import LintBridge.Proofs.Text.Split

/-!
What a path in settings stands for.

A variable is named with a dollar sign, with braces around its name or without, and the name goes as
far as it can (`Marked`). The marks are replaced from the left, and what a variable stands for is
not looked at again (`Expands`). The home directory comes last (`Stands`), and `path_eq_iff` says
that `path` gives what a path stands for and nothing else.
-/

namespace LintBridge.Expansion

structure IsName (name : List Char) : Prop where
  ne_nil : name ≠ []
  word : ∀ c ∈ name, isWordChar c = true

/-- What a mark stands for: the value of its variable, or else itself. -/
def valueOr (h : Host) (name written : List Char) : List Char :=
  match h.env.get? (String.ofList name) with
  | some value => value.toList
  | none => written

/-- A mark at the start of a text, what it stands for, and what comes after it. A name between
percent signs stands for itself. -/
inductive Marked (h : Host) : List Char → List Char → List Char → Prop where
  | braced {name after : List Char} (hname : IsName name) :
      Marked h ('$' :: '\x7b' :: (name ++ '\x7d' :: after))
        (valueOr h name ('$' :: '\x7b' :: name ++ ['\x7d'])) after
  | bare {name after : List Char} (hname : IsName name)
      (hend : ∀ c, after.head? = some c → isWordChar c = false) :
      Marked h ('$' :: (name ++ after)) (valueOr h name ('$' :: name)) after
  | percent {name after : List Char} (hname : IsName name) :
      Marked h ('%' :: (name ++ '%' :: after)) ('%' :: name ++ ['%']) after

/-- What a text stands for. -/
inductive Expands (h : Host) : List Char → List Char → Prop where
  | nil : Expands h [] []
  | mark {text value after out : List Char} (hmark : Marked h text value after)
      (hrest : Expands h after out) : Expands h text (value ++ out)
  | plain {c : Char} {rest out : List Char}
      (hmark : ∀ value after, ¬ Marked h (c :: rest) value after) (hrest : Expands h rest out) :
      Expands h (c :: rest) (c :: out)

/-- A tilde that no other name than that of the home directory starts with. -/
def AtHome (text : List Char) : Prop :=
  ∃ rest, text = '~' :: rest ∧ ∀ c, rest.head? = some c → c = '/' ∨ c = '\\'

/-- What a path in settings stands for. -/
inductive Stands (h : Host) (raw : String) : Path → Prop where
  | asItIs {text : List Char} (htext : Expands h raw.toList text)
      (haway : h.home? = none ∨ ¬ AtHome text) : Stands h raw ⟨String.ofList text⟩
  | belowHome {separators rest : List Char} {home : Path}
      (htext : Expands h raw.toList ('~' :: (separators ++ rest)))
      (hseparators : ∀ c ∈ separators, c = '/' ∨ c = '\\')
      (hrest : ∀ c, rest.head? = some c → c ≠ '/' ∧ c ≠ '\\')
      (hname : separators = [] → rest = []) (hhome : h.home? = some home) :
      Stands h raw (home.join (String.ofList rest))

/-! ## The marks that are read -/

variable {h : Host}

theorem Part.value_variable (name written : List Char) :
    (Part.variable name written).value h = valueOr h name written := by
  rw [Part.value, valueOr, Host.valueOf?]
  cases h.env.get? (String.ofList name) <;> rfl

theorem IsName.takeWhile {name rest : List Char} (hname : IsName name)
    (hend : ∀ c, rest.head? = some c → isWordChar c = false) :
    (name ++ rest).takeWhile isWordChar = name :=
  takeWhile_run isWordChar name rest hname.word hend

theorem IsName.dropWhile {name rest : List Char} (hname : IsName name)
    (hend : ∀ c, rest.head? = some c → isWordChar c = false) :
    (name ++ rest).dropWhile isWordChar = rest :=
  dropWhile_run isWordChar name rest hname.word hend

theorem isName_takeWhile {rest : List Char} (hne : rest.takeWhile isWordChar ≠ []) :
    IsName (rest.takeWhile isWordChar) :=
  ⟨hne, List.all_eq_true.1 List.all_takeWhile⟩

theorem isWordChar_of_mark (c : Char) (hc : c ∈ ['\x7b', '\x7d', '%']) :
    isWordChar c = false := by
  simp only [List.mem_cons, List.not_mem_nil, or_false] at hc
  rcases hc with rfl | rfl | rfl <;> decide +kernel

theorem ends_name {c d : Char} {after : List Char} (hc : c ∈ ['\x7b', '\x7d', '%'])
    (hd : (c :: after).head? = some d) : isWordChar d = false := by
  obtain rfl := Option.some.inj hd
  exact isWordChar_of_mark c hc

theorem Marked.of_readMarked? {text after : List Char} {part : Part}
    (hread : readMarked? text = some (part, after)) : Marked h text (part.value h) after := by
  unfold readMarked? at hread
  split at hread
  · next rest =>
    dsimp only at hread
    split at hread
    · next c name after' hname hafter =>
      obtain ⟨rfl, rfl⟩ := Prod.mk.inj (Option.some.inj hread)
      have hrest : rest = rest.takeWhile isWordChar ++ '\x7d' :: after' := by
        rw [← hafter, List.takeWhile_append_dropWhile]
      rw [Part.value_variable]
      conv => arg 2; rw [hrest]
      exact .braced (isName_takeWhile (by rw [hname]; exact List.cons_ne_nil c name))
    · cases hread
  · next rest _ =>
    dsimp only at hread
    split at hread
    · cases hread
    · next hne =>
      obtain ⟨rfl, rfl⟩ := Prod.mk.inj (Option.some.inj hread)
      rw [Part.value_variable]
      conv => arg 2; rw [← List.takeWhile_append_dropWhile (p := isWordChar) (l := rest)]
      exact .bare (isName_takeWhile hne) (head?_dropWhile isWordChar rest)
  · next rest =>
    dsimp only at hread
    split at hread
    · next c name after' hname hafter =>
      obtain ⟨rfl, rfl⟩ := Prod.mk.inj (Option.some.inj hread)
      have hrest : rest = rest.takeWhile isWordChar ++ '%' :: after' := by
        rw [← hafter, List.takeWhile_append_dropWhile]
      conv => arg 2; rw [hrest]
      exact .percent (isName_takeWhile (by rw [hname]; exact List.cons_ne_nil c name))
    · cases hread
  · cases hread

theorem Marked.readMarked? {text value after : List Char} (hmark : Marked h text value after) :
    ∃ part, readMarked? text = some (part, after) ∧ part.value h = value := by
  cases hmark with
  | @braced name _ hname =>
    have htake : (name ++ '\x7d' :: after).takeWhile isWordChar = name :=
      hname.takeWhile fun _ => ends_name (by simp)
    have hdrop : (name ++ '\x7d' :: after).dropWhile isWordChar = '\x7d' :: after :=
      hname.dropWhile fun _ => ends_name (by simp)
    refine ⟨_, ?_, Part.value_variable name _⟩
    obtain ⟨c, rest, rfl⟩ := List.exists_cons_of_ne_nil hname.ne_nil
    simp only [Expansion.readMarked?, htake, hdrop]
  | @bare name _ hname hend =>
    have htake := hname.takeWhile hend
    have hdrop := hname.dropWhile hend
    refine ⟨_, ?_, Part.value_variable name _⟩
    obtain ⟨c, rest, rfl⟩ := List.exists_cons_of_ne_nil hname.ne_nil
    unfold Expansion.readMarked?
    split
    · next heq =>
      -- No name starts with a brace.
      obtain ⟨rfl, -⟩ := List.cons.inj (List.cons.inj heq).2
      have hbrace := isWordChar_of_mark '\x7b' (by simp)
      rw [hname.word '\x7b' List.mem_cons_self] at hbrace
      cases hbrace
    · next heq =>
      obtain rfl := (List.cons.inj heq).2
      dsimp only
      rw [htake, hdrop, if_neg (List.cons_ne_nil c rest)]
    · next heq => cases (List.cons.inj heq).1
    · next _ hnot _ => exact absurd rfl (hnot _)
  | @percent name _ hname =>
    have htake : (name ++ '%' :: after).takeWhile isWordChar = name :=
      hname.takeWhile fun _ => ends_name (by simp)
    have hdrop : (name ++ '%' :: after).dropWhile isWordChar = '%' :: after :=
      hname.dropWhile fun _ => ends_name (by simp)
    refine ⟨.fixed ('%' :: name ++ ['%']), ?_, rfl⟩
    obtain ⟨c, rest, rfl⟩ := List.exists_cons_of_ne_nil hname.ne_nil
    simp only [Expansion.readMarked?, htake, hdrop]

theorem Marked.length_lt {text value after : List Char} (hmark : Marked h text value after) :
    after.length < text.length := by
  cases hmark <;> simp only [List.length_cons, List.length_append] <;> omega

/-! ## The text that comes of it -/

/-- The parts that are read put together are what the text stands for. -/
theorem expands_parts (n : Nat) (text : List Char) (hn : text.length ≤ n) :
    Expands h text ((parts n text).flatMap (Part.value h)) := by
  induction n generalizing text with
  | zero =>
    obtain rfl := List.length_eq_zero_iff.1 (Nat.le_zero.1 hn)
    exact .nil
  | succ n ih =>
    cases text with
    | nil => exact .nil
    | cons c rest =>
      rw [parts]
      cases hread : readMarked? (c :: rest) with
      | none =>
        refine .plain (fun value after hmark => ?_) (ih rest (Nat.le_of_succ_le_succ hn))
        obtain ⟨part, hpart, -⟩ := hmark.readMarked?
        cases hread.symm.trans hpart
      | some found =>
        obtain ⟨part, after⟩ := found
        have hmark : Marked h (c :: rest) (part.value h) after := .of_readMarked? hread
        have hlength := hmark.length_lt
        exact .mark hmark (ih after (by omega))

theorem Expands.unique {text a b : List Char} (ha : Expands h text a) (hb : Expands h text b) :
    a = b := by
  induction ha generalizing b with
  | nil =>
    cases hb with
    | nil => rfl
    | mark hmark _ => cases hmark
  | mark hmark _ ih =>
    cases hb with
    | nil => cases hmark
    | mark hmark' hrest =>
      obtain ⟨part, hread, rfl⟩ := hmark.readMarked?
      obtain ⟨part', hread', rfl⟩ := hmark'.readMarked?
      obtain ⟨rfl, rfl⟩ := Prod.mk.inj (Option.some.inj (hread.symm.trans hread'))
      rw [ih hrest]
    | plain hnone _ => exact absurd hmark (hnone _ _)
  | plain hnone _ ih =>
    cases hb with
    | mark hmark _ => exact absurd hmark (hnone _ _)
    | plain _ hrest => rw [ih hrest]

theorem expands_iff {text out : List Char} : Expands h text out ↔ withVariables h text = out := by
  constructor
  · exact (expands_parts text.length text Nat.le.refl).unique
  · rintro rfl
    exact expands_parts text.length text Nat.le.refl

/-! ## The home directory -/

theorem isSeparator_iff (c : Char) : isSeparator c = true ↔ c = '/' ∨ c = '\\' := by
  simp [isSeparator]

theorem path_of_away (raw : String)
    (haway : h.home? = none ∨ ¬ AtHome (withVariables h raw.toList)) :
    path h raw = ⟨String.ofList (withVariables h raw.toList)⟩ := by
  unfold path
  dsimp only
  split
  · next rest home htext hhome =>
    rcases haway with hnone | hname
    · cases hhome.symm.trans hnone
    · rw [if_neg, htext]
      intro hat
      refine hname ⟨rest, htext, fun c hc => ?_⟩
      rcases hat with rfl | hany
      · cases hc
      · rw [hc] at hany
        exact (isSeparator_iff c).1 hany
  · rfl

theorem path_of_home {raw : String} {separators rest : List Char} {home : Path}
    (htext : withVariables h raw.toList = '~' :: (separators ++ rest))
    (hseparators : ∀ c ∈ separators, c = '/' ∨ c = '\\')
    (hrest : ∀ c, rest.head? = some c → c ≠ '/' ∧ c ≠ '\\')
    (hname : separators = [] → rest = []) (hhome : h.home? = some home) :
    path h raw = home.join (String.ofList rest) := by
  have hdrop : (separators ++ rest).dropWhile isSeparator = rest := by
    refine dropWhile_run isSeparator separators rest (fun c hc => ?_) fun c hc => ?_
    · exact (isSeparator_iff c).2 (hseparators c hc)
    · exact Bool.eq_false_iff.2 fun hsep => ((isSeparator_iff c).1 hsep).elim (hrest c hc).1
        (hrest c hc).2
  unfold path
  rw [htext, hhome]
  simp only [hdrop]
  rw [if_pos]
  cases separators with
  | nil => exact .inl (hname rfl)
  | cons c more => exact .inr ((isSeparator_iff c).2 (hseparators c List.mem_cons_self))

theorem AtHome.split {text : List Char} (hat : AtHome text) :
    ∃ separators rest, text = '~' :: (separators ++ rest) ∧
      (∀ c ∈ separators, c = '/' ∨ c = '\\') ∧
      (∀ c, rest.head? = some c → c ≠ '/' ∧ c ≠ '\\') ∧ (separators = [] → rest = []) := by
  obtain ⟨text, rfl, hhead⟩ := hat
  refine ⟨text.takeWhile isSeparator, text.dropWhile isSeparator,
    congrArg _ List.takeWhile_append_dropWhile.symm, fun c hc => ?_, fun c hc => ?_, fun hnil => ?_⟩
  · exact (isSeparator_iff c).1 (List.all_eq_true.1 List.all_takeWhile c hc)
  · rw [← not_or, ← isSeparator_iff, head?_dropWhile isSeparator text c hc]
    exact Bool.false_ne_true
  · cases text with
    | nil => rfl
    | cons c more =>
      rw [List.takeWhile_cons_of_pos ((isSeparator_iff c).2 (hhead c rfl))] at hnil
      cases hnil

theorem path_eq_iff (h : Host) (raw : String) (p : Path) : path h raw = p ↔ Stands h raw p := by
  have hexpands : Expands h raw.toList (withVariables h raw.toList) := expands_iff.2 rfl
  constructor
  · rintro rfl
    by_cases haway : h.home? = none ∨ ¬ AtHome (withVariables h raw.toList)
    · rw [path_of_away raw haway]
      exact .asItIs hexpands haway
    · rw [not_or, Classical.not_not] at haway
      obtain ⟨home, hhome⟩ := Option.ne_none_iff_exists'.1 haway.1
      obtain ⟨separators, rest, htext, hseparators, hrest, hname⟩ := haway.2.split
      rw [path_of_home htext hseparators hrest hname hhome]
      exact .belowHome (htext ▸ hexpands) hseparators hrest hname hhome
  · rintro (⟨htext, haway⟩ | ⟨htext, hseparators, hrest, hname, hhome⟩)
    · obtain rfl := expands_iff.1 htext
      exact path_of_away raw haway
    · exact path_of_home (expands_iff.1 htext) hseparators hrest hname hhome

end LintBridge.Expansion
