import LintBridge.Proofs.Json.Tokens
import LintBridge.Proofs.Json.Written

/-!
Lists as the reader takes them: parts with commas between them.

`Part` says that some characters are read as a part whatever closes it, and `Listed` that some
characters are such parts with commas between them. The readers of items and of fields go on after a
part in the same way (`ReadsLists`). Of such a reader, `Listed.read_eq` says that it reads what is
listed, and `exists_listed` that it reads nothing else.
-/

namespace LintBridge.Json

/-! ## Parts and lists of parts -/

section Lists

variable {α : Type}

/-- Characters that are read as a part, in front of all that does not go on with a number. -/
def Part (entry : Nat → Units → Option (α × Units)) (used : Units) (a : α) : Prop :=
  ∀ fuel next, used.length ≤ fuel → Ends next → entry fuel (used ++ next) = some (a, next)

/-- Parts with commas between them, and blanks around these. -/
inductive Listed (part : Units → α → Prop) : Units → List α → Prop
  | last {used blanks : Units} {a : α} : part used a → Blanks blanks →
      Listed part (used ++ blanks) [a]
  | more {used blanks body : Units} {a : α} {as : List α} : part used a → Blanks blanks →
      Listed part body as → Listed part (used ++ (blanks ++ some ',' :: body)) (a :: as)

theorem Listed.append {part : Units → α → Prop} {first second : Units} {as bs : List α}
    (ha : Listed part first as) (hb : Listed part second bs) :
    Listed part (first ++ some ',' :: second) (as ++ bs) := by
  induction ha with
  | last hused hblanks =>
    rw [List.append_assoc]
    exact .more hused hblanks hb
  | more hused hblanks _ ih =>
    rw [List.append_assoc, List.append_assoc]
    exact .more hused hblanks ih

/-- How a reader of lists goes on after a part: what closes the list ends it, and behind a comma
comes the rest of it. -/
structure ReadsLists (entry : Nat → Units → Option (α × Units))
    (read : Nat → Units → Option (List α × Units)) (closer : Char) : Prop where
  zero : ∀ units, read 0 units = none
  last : ∀ fuel units a rest after, entry fuel units = some (a, rest) →
    skipSpace rest = some closer :: after → read (fuel + 1) units = some ([a], after)
  more : ∀ fuel units a rest tail as after, entry fuel units = some (a, rest) →
    skipSpace rest = some ',' :: tail → read fuel tail = some (as, after) →
      read (fuel + 1) units = some (a :: as, after)
  cases : ∀ fuel units as after, read (fuel + 1) units = some (as, after) →
    ∃ a rest, entry fuel units = some (a, rest) ∧
      ((skipSpace rest = some closer :: after ∧ as = [a]) ∨
        ∃ tail more, skipSpace rest = some ',' :: tail ∧ read fuel tail = some (more, after) ∧
          as = a :: more)

variable {entry : Nat → Units → Option (α × Units)}
  {read : Nat → Units → Option (List α × Units)} {closer : Char}

theorem Listed.read_eq (hread : ReadsLists entry read closer) (hspace : isSpace closer = false)
    (hnumeral : isNumeral closer = false) {body : Units} {as : List α}
    (h : Listed (Part entry) body as) (fuel : Nat) (next : Units) (hfuel : body.length < fuel) :
    read fuel (body ++ some closer :: next) = some (as, next) := by
  induction h generalizing fuel with
  | @last used blanks a hused hblanks =>
    cases fuel with
    | zero => cases hfuel
    | succ fuel =>
      rw [List.length_append] at hfuel
      have hentry := hused fuel (blanks ++ some closer :: next) (by omega)
        (ends_blanks hblanks (ends_cons hnumeral next))
      rw [List.append_assoc]
      refine hread.last fuel _ a _ next hentry ?_
      rw [skipSpace_blanks hblanks, skipSpace_cons closer next hspace]
  | @more used blanks body a as hused hblanks _ ih =>
    cases fuel with
    | zero => cases hfuel
    | succ fuel =>
      rw [List.length_append, List.length_append, List.length_cons] at hfuel
      have hentry := hused fuel (blanks ++ some ',' :: (body ++ some closer :: next)) (by omega)
        (ends_blanks hblanks (ends_cons rfl _))
      have htail := ih fuel (by omega)
      simp only [List.append_assoc, List.cons_append]
      refine hread.more fuel _ a _ _ as next hentry ?_ htail
      rw [skipSpace_blanks hblanks, skipSpace_cons ',' _ rfl]

theorem exists_listed (hread : ReadsLists entry read closer) (fuel : Nat)
    (hentry : ∀ k < fuel, ∀ units a rest, entry k units = some (a, rest) →
      ∃ used, units = used ++ rest ∧ Part entry used a)
    {units after : Units} {as : List α} (h : read fuel units = some (as, after)) :
    ∃ body, units = body ++ some closer :: after ∧ Listed (Part entry) body as := by
  induction fuel generalizing units as with
  | zero =>
    rw [hread.zero] at h
    cases h
  | succ fuel ih =>
    obtain ⟨a, rest, ha, hrest⟩ := hread.cases fuel units as after h
    obtain ⟨used, rfl, hused⟩ := hentry fuel (Nat.lt_succ_self fuel) units a rest ha
    obtain ⟨blanks, hblanks, hsplit⟩ := exists_of_skipSpace rest
    rcases hrest with ⟨hclose, rfl⟩ | ⟨tail, more, hcomma, hmore, rfl⟩
    · refine ⟨used ++ blanks, ?_, .last hused hblanks⟩
      rw [hclose] at hsplit
      rw [List.append_assoc, ← hsplit]
    · obtain ⟨body, rfl, hbody⟩ :=
        ih (fun k hk => hentry k (Nat.lt_succ_of_lt hk)) hmore
      refine ⟨used ++ (blanks ++ some ',' :: body), ?_, .more hused hblanks hbody⟩
      rw [hcomma] at hsplit
      rw [hsplit]
      simp only [List.append_assoc, List.cons_append]

end Lists

/-! ## Items and fields -/

theorem readsLists_items (depth : Nat) :
    ReadsLists (readValue? · depth) (readItems? · depth) ']' where
  zero := fun _ => rfl
  last := by
    intro fuel units t rest after ht hclose
    rw [readItems?, ht]
    simp [hclose]
  more := by
    intro fuel units t rest tail items after ht hcomma hitems
    rw [readItems?, ht]
    simp [hcomma, hitems]
  cases := by
    intro fuel units items after h
    rw [readItems?] at h
    obtain ⟨⟨t, rest⟩, ht, h⟩ := Option.bind_eq_some_iff.1 h
    refine ⟨t, rest, ht, ?_⟩
    dsimp only at h
    split at h
    · next tail hcomma =>
      obtain ⟨⟨more, stop⟩, hmore, h⟩ := Option.bind_eq_some_iff.1 h
      obtain ⟨rfl, rfl⟩ := Prod.mk.inj (Option.some.inj h)
      exact .inr ⟨tail, more, hcomma, hmore, rfl⟩
    · next tail hclose =>
      obtain ⟨rfl, rfl⟩ := Prod.mk.inj (Option.some.inj h)
      exact .inl ⟨hclose, rfl⟩
    · cases h

def readField? (fuel depth : Nat) (units : Units) : Option ((Option String × Tree) × Units) :=
  match skipSpace units with
  | some '"' :: rest => do
    let (name, rest) ← readPieces? rest
    match skipSpace rest with
    | some ':' :: rest =>
      let (value, rest) ← readValue? fuel depth rest
      return ((pieceString? name, value), rest)
    | _ => none
  | _ => none

theorem readField?_eq_some_iff (fuel depth : Nat) (units rest : Units)
    (f : Option String × Tree) : readField? fuel depth units = some (f, rest) ↔
      ∃ opened pieces colon value t, skipSpace units = some '"' :: opened ∧
        readPieces? opened = some (pieces, colon) ∧ skipSpace colon = some ':' :: value ∧
        readValue? fuel depth value = some (t, rest) ∧ f = (pieceString? pieces, t) := by
  rw [readField?]
  constructor
  · intro h
    split at h
    · next opened hopened =>
      obtain ⟨⟨pieces, colon⟩, hpieces, h⟩ := Option.bind_eq_some_iff.1 h
      dsimp only at h
      split at h
      · next value hcolon =>
        obtain ⟨⟨t, after⟩, ht, h⟩ := Option.bind_eq_some_iff.1 h
        obtain ⟨rfl, rfl⟩ := Prod.mk.inj (Option.some.inj h)
        exact ⟨opened, pieces, colon, value, t, hopened, hpieces, hcolon, ht, rfl⟩
      · cases h
    · cases h
  · rintro ⟨opened, pieces, colon, value, t, hopened, hpieces, hcolon, ht, rfl⟩
    simp [hopened, hpieces, hcolon, ht]

theorem readsLists_fields (depth : Nat) :
    ReadsLists (readField? · depth) (readFields? · depth) '\x7d' where
  zero := fun _ => rfl
  last := by
    intro fuel units f rest after hf hclose
    obtain ⟨opened, pieces, colon, value, t, hopened, hpieces, hcolon, ht, rfl⟩ :=
      (readField?_eq_some_iff ..).1 hf
    rw [readFields?]
    simp [hopened, hpieces, hcolon, ht, hclose]
  more := by
    intro fuel units f rest tail fields after hf hcomma hfields
    obtain ⟨opened, pieces, colon, value, t, hopened, hpieces, hcolon, ht, rfl⟩ :=
      (readField?_eq_some_iff ..).1 hf
    rw [readFields?]
    simp [hopened, hpieces, hcolon, ht, hcomma, hfields]
  cases := by
    intro fuel units fields after h
    rw [readFields?] at h
    split at h
    · next opened hopened =>
      obtain ⟨⟨pieces, colon⟩, hpieces, h⟩ := Option.bind_eq_some_iff.1 h
      dsimp only at h
      split at h
      · next value hcolon =>
        obtain ⟨⟨t, rest⟩, ht, h⟩ := Option.bind_eq_some_iff.1 h
        refine ⟨(pieceString? pieces, t), rest, (readField?_eq_some_iff ..).2
          ⟨opened, pieces, colon, value, t, hopened, hpieces, hcolon, ht, rfl⟩, ?_⟩
        dsimp only at h
        split at h
        · next tail hcomma =>
          obtain ⟨⟨more, stop⟩, hmore, h⟩ := Option.bind_eq_some_iff.1 h
          obtain ⟨rfl, rfl⟩ := Prod.mk.inj (Option.some.inj h)
          exact .inr ⟨tail, more, hcomma, hmore, rfl⟩
        · next tail hclose =>
          obtain ⟨rfl, rfl⟩ := Prod.mk.inj (Option.some.inj h)
          exact .inl ⟨hclose, rfl⟩
        · cases h
      · cases h
    · cases h

end LintBridge.Json
