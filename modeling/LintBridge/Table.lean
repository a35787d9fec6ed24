/-!
Finite maps in the order in which their keys were first written.

A table is a list of entries. `insert` keeps a key in its place and `erase` drops all of its
entries, so `get?` answers as a map does: see `get?_insert` and `get?_erase`.
-/

namespace LintBridge

structure Table (κ α : Type) where
  entries : List (κ × α)
  deriving Repr, DecidableEq

namespace Table

variable {κ α : Type}

instance : Inhabited (Table κ α) := ⟨⟨[]⟩⟩

def empty : Table κ α := ⟨[]⟩

/-- The keys, in the order in which they were first written. -/
def keys (t : Table κ α) : List κ := t.entries.map Prod.fst

def size (t : Table κ α) : Nat := t.entries.length

theorem length_keys (t : Table κ α) : t.keys.length = t.size := List.length_map Prod.fst

variable [DecidableEq κ]

private def lookup (key : κ) : List (κ × α) → Option α
  | [] => none
  | (k, a) :: rest => if k = key then some a else lookup key rest

private def put (key : κ) (value : α) : List (κ × α) → List (κ × α)
  | [] => [(key, value)]
  | (k, a) :: rest => if k = key then (k, value) :: rest else (k, a) :: put key value rest

def get? (t : Table κ α) (key : κ) : Option α := lookup key t.entries

def contains (t : Table κ α) (key : κ) : Bool := (t.get? key).isSome

/-- Gives a key a value, in the place of the key if it had one, else after all others. -/
def insert (t : Table κ α) (key : κ) (value : α) : Table κ α := ⟨put key value t.entries⟩

def erase (t : Table κ α) (key : κ) : Table κ α := ⟨t.entries.filter (·.1 ≠ key)⟩

/-- Takes out the entries that fail a test. -/
def filter (t : Table κ α) (keep : κ → α → Bool) : Table κ α :=
  ⟨t.entries.filter fun (k, a) => keep k a⟩

def insertAll (t : Table κ α) (new : List (κ × α)) : Table κ α :=
  new.foldl (fun t (k, a) => t.insert k a) t

def eraseAll (t : Table κ α) (keys : List κ) : Table κ α :=
  keys.foldl erase t

private theorem lookup_put (key other : κ) (value : α) (l : List (κ × α)) :
    lookup other (put key value l) = if key = other then some value else lookup other l := by
  induction l with
  | nil => simp [put, lookup]
  | cons e rest ih =>
    obtain ⟨k, a⟩ := e
    by_cases hk : k = key
    · subst hk
      by_cases ho : k = other <;> simp [put, lookup, ho]
    · by_cases ho : k = other
      · subst ho
        simp [put, lookup, hk, Ne.symm hk]
      · simp [put, lookup, hk, ho, ih]

private theorem lookup_filter (key other : κ) (l : List (κ × α)) :
    lookup other (l.filter (·.1 ≠ key)) = if key = other then none else lookup other l := by
  induction l with
  | nil => simp [lookup]
  | cons e rest ih =>
    obtain ⟨k, a⟩ := e
    by_cases hk : k = key
    · subst hk
      by_cases ho : k = other
      · simp [ho] at ih ⊢
        exact ih
      · simp [ho, lookup] at ih ⊢
        exact ih
    · by_cases ho : k = other
      · subst ho
        simp [hk, lookup, Ne.symm hk]
      · simp [hk, ho, lookup] at ih ⊢
        exact ih

private theorem lookup_filter_key (keep : κ → Bool) (key : κ) (l : List (κ × α)) :
    lookup key (l.filter fun e => keep e.1) = if keep key then lookup key l else none := by
  induction l with
  | nil => simp [lookup]
  | cons e rest ih =>
    obtain ⟨k, a⟩ := e
    by_cases hk : k = key
    · subst hk
      cases hkeep : keep k <;> simp [lookup, hkeep, ih]
    · cases hkeep : keep k <;> simp [lookup, hk, hkeep, ih]

private theorem mem_keys_iff (key : κ) (l : List (κ × α)) :
    key ∈ l.map Prod.fst ↔ (lookup key l).isSome := by
  induction l with
  | nil => simp [lookup]
  | cons e rest ih =>
    obtain ⟨k, a⟩ := e
    by_cases hk : k = key
    · simp [lookup, hk]
    · simp [lookup, hk, Ne.symm hk, ih]

private theorem lookup_eq_some_iff (key : κ) (a : α) (l : List (κ × α))
    (h : (l.map Prod.fst).Nodup) : lookup key l = some a ↔ (key, a) ∈ l := by
  induction l with
  | nil => simp [lookup]
  | cons e rest ih =>
    obtain ⟨k, b⟩ := e
    obtain ⟨hk, hrest⟩ := List.nodup_cons.1 h
    by_cases hkey : k = key
    · subst hkey
      have hnot : (k, a) ∉ rest := fun hmem => hk (List.mem_map.2 ⟨(k, a), hmem, rfl⟩)
      simp [lookup, hnot, eq_comm]
    · simp [lookup, hkey, Ne.symm hkey, ih hrest]

private theorem map_fst_put (key : κ) (value : α) (l : List (κ × α)) :
    (put key value l).map Prod.fst =
      if (lookup key l).isSome then l.map Prod.fst else l.map Prod.fst ++ [key] := by
  induction l with
  | nil => rfl
  | cons e rest ih =>
    obtain ⟨k, a⟩ := e
    by_cases hk : k = key
    · simp [put, lookup, hk]
    · simp only [put, lookup, hk, if_false, List.map_cons, ih]
      split <;> rfl

@[simp] theorem get?_empty (key : κ) : (empty : Table κ α).get? key = none := rfl

theorem mem_keys (t : Table κ α) (key : κ) : key ∈ t.keys ↔ t.contains key = true :=
  mem_keys_iff key t.entries

theorem keys_insert (t : Table κ α) (key : κ) (value : α) :
    (t.insert key value).keys = if t.contains key then t.keys else t.keys ++ [key] :=
  map_fst_put key value t.entries

theorem nodup_keys_insert (t : Table κ α) (h : t.keys.Nodup) (key : κ) (value : α) :
    (t.insert key value).keys.Nodup := by
  rw [keys_insert]
  split
  · exact h
  · next hnew =>
    have hkey : key ∉ t.keys := fun hmem => hnew ((t.mem_keys key).1 hmem)
    refine List.nodup_append.2 ⟨h, List.pairwise_singleton _ _, ?_⟩
    rintro k hk other hother rfl
    exact hkey (List.mem_singleton.1 hother ▸ hk)

omit [DecidableEq κ] in
theorem keys_filter_sublist (t : Table κ α) (keep : κ → α → Bool) :
    (t.filter keep).keys.Sublist t.keys :=
  List.Sublist.map Prod.fst List.filter_sublist

theorem keys_erase_sublist (t : Table κ α) (key : κ) : (t.erase key).keys.Sublist t.keys :=
  List.Sublist.map Prod.fst List.filter_sublist

theorem keys_eraseAll_sublist (t : Table κ α) (keys : List κ) :
    (t.eraseAll keys).keys.Sublist t.keys := by
  induction keys generalizing t with
  | nil => exact List.Sublist.refl _
  | cons key rest ih => exact (ih (t.erase key)).trans (t.keys_erase_sublist key)

/-- Where no key is repeated, a test leaves a key the value that passes it. -/
theorem get?_filter (t : Table κ α) (h : t.keys.Nodup) (keep : κ → α → Bool) (key : κ) (a : α) :
    (t.filter keep).get? key = some a ↔ t.get? key = some a ∧ keep key a = true := by
  have hfiltered : (t.filter keep).keys.Nodup := h.sublist (t.keys_filter_sublist keep)
  unfold get?
  rw [lookup_eq_some_iff key a _ hfiltered, lookup_eq_some_iff key a _ h]
  exact List.mem_filter

/-- A test of the keys leaves a key the value it had, or none. -/
theorem get?_filter_key (t : Table κ α) (keep : κ → Bool) (key : κ) :
    (t.filter fun k _ => keep k).get? key = if keep key then t.get? key else none :=
  lookup_filter_key keep key t.entries

/-- Writing a key changes what that key gives and nothing else. -/
@[simp] theorem get?_insert (t : Table κ α) (key other : κ) (value : α) :
    (t.insert key value).get? other = if key = other then some value else t.get? other :=
  lookup_put key other value t.entries

/-- Taking a key out changes what that key gives and nothing else. -/
@[simp] theorem get?_erase (t : Table κ α) (key other : κ) :
    (t.erase key).get? other = if key = other then none else t.get? other :=
  lookup_filter key other t.entries

/-- Taking keys out changes what those keys give and nothing else. -/
@[simp] theorem get?_eraseAll (t : Table κ α) (keys : List κ) (other : κ) :
    (t.eraseAll keys).get? other = if other ∈ keys then none else t.get? other := by
  induction keys generalizing t with
  | nil => rfl
  | cons key rest ih =>
    rw [eraseAll, List.foldl_cons, ← eraseAll, ih, get?_erase]
    by_cases hkey : key = other
    · subst hkey
      simp
    · simp [hkey, Ne.symm hkey]

/-- Writing one value for some keys changes what those keys give and nothing else. -/
theorem get?_insertAll_const (t : Table κ α) (keys : List κ) (value : α) (other : κ) :
    (t.insertAll (keys.map (·, value))).get? other =
      if other ∈ keys then some value else t.get? other := by
  induction keys generalizing t with
  | nil => rfl
  | cons key rest ih =>
    rw [List.map_cons, insertAll, List.foldl_cons, ← insertAll, ih, get?_insert]
    by_cases hkey : key = other
    · subst hkey
      simp
    · simp [hkey, Ne.symm hkey]

end Table
end LintBridge
