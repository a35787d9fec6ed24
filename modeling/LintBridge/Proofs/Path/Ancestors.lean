import LintBridge.Path
import LintBridge.Proofs.Text.Split

/-!
The paths above a path, by their components.

A parent is cut off as it was written, while paths are compared by components. `parent?_cases` says
what the parent is in components: all but the last, and there is none where no component is left but
the leading slash. So the paths above a path are the starts of its components, from the longest on,
and the first of them that has a value in some table is the longest start that has one
(`longest_of_findSome?_ancestors`).
-/

namespace LintBridge.Path

/-- The leading slash of a path, if it has one. -/
def rootOf (p : Path) : List Component := if p.isAbsolute then [.root] else []

def componentOf? (m : Bool × List Char) : Option Component := component? m.1 m.2

theorem markedPieces_eq {p : Path} {first : List Char} {rest : List (List Char)}
    (h : p.pieces = first :: rest) : p.markedPieces = (true, first) :: rest.map ((false, ·)) := by
  rw [markedPieces, h]

/-- A path starts at the root if a slash comes before all else. -/
theorem isAbsolute_iff (p : Path) :
    p.isAbsolute = true ↔ ∃ next rest, p.pieces = [] :: next :: rest := by
  rw [isAbsolute, pieces]
  cases p.text.toList with
  | nil => simp [splitAtChar]
  | cons c text =>
    by_cases hc : c = '/'
    · obtain ⟨next, rest, htext⟩ := List.exists_cons_of_ne_nil (splitAtChar_ne_nil '/' text)
      simp [hc, splitAtChar_separator, htext]
    · obtain ⟨piece, pieces, -, hcons⟩ := splitAtChar_cons '/' hc text
      simp [hc, hcons]

/-- The components of a path: the leading slash, and what its pieces stand for. -/
theorem components_eq (p : Path) :
    p.components = p.rootOf ++ p.markedPieces.filterMap componentOf? := by
  obtain ⟨first, rest, hpieces⟩ := List.exists_cons_of_ne_nil (splitAtChar_ne_nil '/' p.text.toList)
  change p.pieces = _ at hpieces
  have hrest : (rest.map ((false, ·))).filterMap componentOf? =
      rest.filterMap (component? false) := by
    rw [List.filterMap_map]
    rfl
  rw [components, hpieces, markedPieces_eq hpieces, List.filterMap_cons, hrest, rootOf]
  cases habsolute : p.isAbsolute with
  | true =>
    obtain ⟨_, _, hslash⟩ := (isAbsolute_iff p).1 habsolute
    obtain ⟨rfl, -⟩ := List.cons.inj (hpieces.symm.trans hslash)
    rfl
  | false =>
    show (component? true first).toList ++ _ = _
    cases h : component? true first with
    | none => simp [componentOf?, h]
    | some c => simp [componentOf?, h]

theorem filterMap_dropWhile_counts (marked : List (Bool × List Char)) :
    (marked.dropWhile (!counts ·)).filterMap componentOf? = marked.filterMap componentOf? := by
  induction marked with
  | nil => rfl
  | cons m rest ih =>
    cases h : counts m with
    | true => rw [List.dropWhile_cons_of_neg (by simp [h])]
    | false =>
      have hnone : componentOf? m = none := Option.not_isSome_iff_eq_none.1 (by
        show ¬counts m = true
        simp [h])
      rw [List.dropWhile_cons_of_pos (by simp [h]), ih, List.filterMap_cons_none hnone]

theorem counts_of_dropWhile_cons {marked rest : List (Bool × List Char)} {m : Bool × List Char}
    (h : marked.dropWhile (!counts ·) = m :: rest) : counts m = true := by
  have hhead := List.head?_dropWhile_not (!counts ·) marked
  rw [h] at hhead
  simpa using hhead

/-- A path made of some of the first pieces of another one is absolute as that one is, unless it is
made of the empty piece before a leading slash alone. -/
theorem isAbsolute_of_pieces {p q : Path} {first : List Char} {rest taken : List (List Char)}
    (hp : p.pieces = first :: rest) (hq : q.pieces = first :: taken) (htaken : taken <+: rest)
    (halone : first = [] → taken ≠ []) : q.isAbsolute = p.isAbsolute := by
  rw [Bool.eq_iff_iff, isAbsolute_iff, isAbsolute_iff, hq, hp]
  constructor
  · rintro ⟨next, more, hcons⟩
    obtain ⟨rfl, rfl⟩ := List.cons.inj hcons
    obtain ⟨others, rfl⟩ := htaken
    exact ⟨next, more ++ others, rfl⟩
  · rintro ⟨next, more, hcons⟩
    obtain ⟨rfl, -⟩ := List.cons.inj hcons
    obtain ⟨piece, pieces, rfl⟩ := List.exists_cons_of_ne_nil (halone rfl)
    exact ⟨piece, pieces, rfl⟩

/-- Some of the first pieces of a path, of which the last one counts, are put together to a path
that has what they stand for as its components. -/
theorem components_of_pieces (p : Path) (kept : List (Bool × List Char)) (m : Bool × List Char)
    (hkept : kept ++ [m] <+: p.markedPieces) (hm : counts m = true) :
    components ⟨String.ofList (joinWith ['/'] ((kept ++ [m]).map Prod.snd))⟩ =
      p.rootOf ++ (kept ++ [m]).filterMap componentOf? := by
  obtain ⟨first, rest, hpieces⟩ := List.exists_cons_of_ne_nil (splitAtChar_ne_nil '/' p.text.toList)
  change p.pieces = _ at hpieces
  obtain ⟨taken, htaken, hmarked⟩ : ∃ taken, taken <+: rest ∧
      kept ++ [m] = (true, first) :: taken.map ((false, ·)) := by
    refine ⟨rest.take kept.length, List.take_prefix _ _, ?_⟩
    rw [List.prefix_iff_eq_take.1 hkept, markedPieces_eq hpieces, List.length_append,
      List.length_singleton, List.take_succ_cons, List.map_take]
  have hjoined : (kept ++ [m]).map Prod.snd = first :: taken := by
    rw [hmarked, List.map_cons, List.map_map]
    exact congrArg (first :: ·) (List.map_id taken)
  have hplain : ∀ piece ∈ first :: taken, '/' ∉ piece := by
    intro piece hpiece
    apply not_mem_of_mem_splitAtChar '/' p.text.toList
    change piece ∈ p.pieces
    rw [hpieces]
    exact ((List.prefix_cons_inj first).2 htaken).subset hpiece
  rw [hjoined]
  generalize hq : (⟨String.ofList (joinWith ['/'] (first :: taken))⟩ : Path) = q
  have hqpieces : q.pieces = first :: taken := by
    rw [← hq, pieces, String.toList_ofList]
    exact splitAtChar_joinWith '/' _ (List.cons_ne_nil _ _) hplain
  have habsolute : q.isAbsolute = p.isAbsolute := by
    apply isAbsolute_of_pieces hpieces hqpieces htaken
    rintro rfl rfl
    -- The empty piece before the leading slash does not count.
    have hlast : m = (true, []) := by simpa using congrArg List.getLast? hmarked
    rw [hlast] at hm
    cases hm
  rw [components_eq, rootOf, habsolute, markedPieces_eq hqpieces, ← hmarked, rootOf]

/-- The parent of a path has all its components but the last; a path has no parent if it has no
component but the leading slash. -/
theorem parent?_cases (p : Path) :
    (p.parent? = none ∧ p.components = p.rootOf) ∨
      ∃ q last, p.parent? = some q ∧ p.components = q.components ++ [last] := by
  have hall : p.markedPieces.filterMap componentOf? =
      ((p.markedPieces.reverse.dropWhile (!counts ·)).filterMap componentOf?).reverse := by
    rw [filterMap_dropWhile_counts, List.filterMap_reverse, List.reverse_reverse]
  rw [components_eq, hall, parent?]
  cases hlast : p.markedPieces.reverse.dropWhile (!counts ·) with
  | nil => exact .inl ⟨rfl, List.append_nil _⟩
  | cons last before =>
    right
    obtain ⟨c, hc⟩ : ∃ c, componentOf? last = some c :=
      Option.isSome_iff_exists.1 (counts_of_dropWhile_cons hlast)
    have hbefore : ((last :: before).filterMap componentOf?).reverse =
        ((before.dropWhile (!counts ·)).filterMap componentOf?).reverse ++ [c] := by
      rw [List.filterMap_cons_some hc, List.reverse_cons, filterMap_dropWhile_counts]
    rw [hbefore]
    cases hkept : before.dropWhile (!counts ·) with
    | nil =>
      refine ⟨⟨if p.isAbsolute then "/" else ""⟩, c, by simp only [hkept], ?_⟩
      rw [rootOf]
      cases p.isAbsolute <;> rfl
    | cons m kept =>
      have hm := counts_of_dropWhile_cons hkept
      have hstart : kept.reverse ++ [m] <+: p.markedPieces := by
        rw [← List.reverse_cons, ← List.reverse_reverse p.markedPieces, List.reverse_prefix,
          ← hkept]
        have hbehind : last :: before <:+ p.markedPieces.reverse := hlast ▸ List.dropWhile_suffix _
        exact ((List.dropWhile_suffix _).trans (List.suffix_cons _ _)).trans hbehind
      refine ⟨⟨String.ofList (joinWith ['/'] ((m :: kept).reverse.map Prod.snd))⟩, c,
        by simp only [hkept], ?_⟩
      rw [List.reverse_cons, components_of_pieces p kept.reverse m hstart hm, List.append_assoc,
        ← List.filterMap_reverse, List.reverse_cons]

theorem length_filterMap_componentOf?_le (marked : List (Bool × List Char)) :
    (marked.filterMap componentOf?).length ≤ (marked.map Prod.snd).flatten.length := by
  induction marked with
  | nil => exact Nat.le_refl 0
  | cons m rest ih =>
    obtain ⟨first, piece⟩ := m
    rw [List.map_cons, List.flatten_cons, List.length_append]
    cases hpiece : piece with
    | nil =>
      rw [List.filterMap_cons_none (show componentOf? (first, []) = none from rfl)]
      omega
    | cons c piece =>
      have hle := List.length_filterMap_le componentOf? [(first, c :: piece)]
      have hcons : (first, c :: piece) :: rest = [(first, c :: piece)] ++ rest := rfl
      rw [hcons, List.filterMap_append, List.length_append, List.length_cons]
      rw [List.length_singleton] at hle
      omega

theorem length_components_le (p : Path) : p.components.length ≤ p.text.toList.length := by
  have hlength := length_flatten_splitAtChar '/' p.text.toList
  obtain ⟨first, rest, hpieces⟩ := List.exists_cons_of_ne_nil (splitAtChar_ne_nil '/' p.text.toList)
  change p.pieces = _ at hpieces
  change p.pieces.flatten.length + p.pieces.length = _ at hlength
  have hmarked : p.markedPieces.map Prod.snd = p.pieces := by
    rw [markedPieces_eq hpieces, hpieces, List.map_cons, List.map_map]
    exact congrArg (first :: ·) (List.map_id rest)
  have hcounted := length_filterMap_componentOf?_le p.markedPieces
  rw [hmarked] at hcounted
  rw [components_eq, List.length_append, rootOf]
  cases habsolute : p.isAbsolute with
  | false =>
    have hone : 1 ≤ p.pieces.length := by simp [hpieces]
    simp only [Bool.false_eq_true, if_false, List.length_nil]
    omega
  | true =>
    obtain ⟨next, more, hslash⟩ := (isAbsolute_iff p).1 habsolute
    have htwo : 2 ≤ p.pieces.length := by simp [hslash]
    simp only [if_true, List.length_singleton]
    omega

theorem isSome_component?_first (c : Char) (piece : List Char) :
    (component? true (c :: piece)).isSome = true := by
  rw [component?, if_neg (List.cons_ne_nil _ _)]
  split
  · rfl
  · split <;> rfl

theorem components_eq_nil_iff (p : Path) : p.components = [] ↔ p.text = "" := by
  constructor
  · intro hnil
    rw [components_eq, rootOf] at hnil
    cases htext : p.text.toList with
    | nil => exact String.toList_inj.1 htext
    | cons c text =>
      by_cases hc : c = '/'
      · have habsolute : p.isAbsolute = true := by simp [isAbsolute, htext, hc]
        rw [if_pos habsolute] at hnil
        cases hnil
      · obtain ⟨piece, pieces, -, hcons⟩ := splitAtChar_cons '/' hc text
        rw [← htext] at hcons
        change p.pieces = _ at hcons
        have hnone := (List.append_eq_nil_iff.1 hnil).2
        rw [markedPieces_eq hcons, List.filterMap_eq_nil_iff] at hnone
        have hfirst := isSome_component?_first c piece
        rw [show component? true (c :: piece) = none from hnone _ List.mem_cons_self] at hfirst
        cases hfirst
  · intro htext
    obtain ⟨text⟩ := p
    subst htext
    rfl

/-! ## The nearest path above -/

variable {α : Type}

/-- A start of a path that has a value, and no longer start has one. -/
structure IsLongestStart (value? : List Component → Option α) (whole key : List Component) (a : α) :
    Prop where
  start : key <+: whole
  value : value? key = some a
  longest : ∀ other, other <+: whole → value? other ≠ none → other <+: key

theorem eq_of_prefix_rootOf {p : Path} {key : List Component} (h : key <+: p.rootOf) :
    key = [] ∨ key = p.rootOf := by
  unfold rootOf at h ⊢
  split at h
  · next habsolute =>
    rw [if_pos habsolute]
    rcases List.prefix_cons_iff.1 h with hnil | ⟨rest, rfl, hrest⟩
    · exact .inl hnil
    · rw [List.prefix_nil.1 hrest]
      exact .inr rfl
  · exact .inl (List.prefix_nil.1 h)

/-- A start is the longest of a path with one component more as well, if that has no value. -/
theorem IsLongestStart.concat {value? : List Component → Option α} {kept key : List Component}
    {last : Component} {a : α} (h : IsLongestStart value? kept key a)
    (hnone : value? (kept ++ [last]) = none) : IsLongestStart value? (kept ++ [last]) key a := by
  refine ⟨h.start.trans (List.prefix_append _ _), h.value, ?_⟩
  intro other hother hne
  rcases List.prefix_concat_iff.1 hother with rfl | hother
  · exact absurd hnone hne
  · exact h.longest other hother hne

/-- Of a path and those above it, as many as it has components, the first that has a value is the
longest start that has one. -/
theorem findSome?_ancestorsUpTo (value? : List Component → Option α) (hempty : value? [] = none)
    (n : Nat) (p : Path) (hn : p.components.length ≤ n) :
    match (ancestorsUpTo n p).findSome? fun dir => value? dir.components with
    | some a => ∃ key, IsLongestStart value? p.components key a
    | none => ∀ key, key <+: p.components → value? key = none := by
  induction n generalizing p with
  | zero =>
    have hnil : p.components = [] := List.eq_nil_of_length_eq_zero (Nat.le_zero.1 hn)
    rw [ancestorsUpTo, hnil, List.findSome?_cons, hnil, hempty]
    intro key hkey
    rw [List.prefix_nil.1 hkey, hempty]
  | succ n ih =>
    rw [ancestorsUpTo, List.findSome?_cons]
    cases hvalue : value? p.components with
    | some a => exact ⟨p.components, List.prefix_rfl, hvalue, fun other hother _ => hother⟩
    | none =>
      rcases parent?_cases p with ⟨hparent, hroot⟩ | ⟨q, last, hparent, hcomponents⟩
      · simp only [hparent, List.findSome?_nil]
        intro key hkey
        rw [hroot] at hkey hvalue
        rcases eq_of_prefix_rootOf hkey with rfl | rfl
        · exact hempty
        · exact hvalue
      · rw [hcomponents] at hn hvalue
        rw [List.length_append, List.length_singleton] at hn
        have habove := ih q (by omega)
        simp only [hparent, hcomponents]
        split at habove
        · obtain ⟨key, hkey⟩ := habove
          exact ⟨key, hkey.concat hvalue⟩
        · intro key hkey
          rcases List.prefix_concat_iff.1 hkey with rfl | hkey
          · exact hvalue
          · exact habove key hkey

/-- Of the paths above a path, the first that has a value is the longest start of the path that has
one, if the empty path has none; and if none of them has a value, no start of the path has any. -/
theorem longest_of_findSome?_ancestors (value? : List Component → Option α)
    (hempty : value? [] = none) (p : Path) :
    match p.ancestors.findSome? fun dir => value? dir.components with
    | some a => ∃ key, IsLongestStart value? p.components key a
    | none => ∀ key, key <+: p.components → value? key = none :=
  findSome?_ancestorsUpTo value? hempty p.text.length p (by
    rw [← String.length_toList]
    exact length_components_le p)

end LintBridge.Path
