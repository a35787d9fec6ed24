import LintBridge.Linter.Locks

/-!
Locks on documents exclude each other, however requests for them are interleaved.

A `LockStep` is what one of the parties does: it looks its lock up, is given it, gives up waiting,
or gives it back. `Sound` is what every step keeps: whoever holds or waits for a lock holds or waits
for the one lock that the table has for his path, and no lock has two holders. From it,
`locks_exclude` derives for every run of steps that no two holders have one path, that dropping
locks takes none away that is in use, and how many locks the table holds at most.
-/

namespace LintBridge.LockTable

inductive LockStep where
  /-- It looks the lock of a path up and starts to wait for it. -/
  | request (path : Path)
  /-- It is given the lock it waits for, if the lock is free. -/
  | grant (use : LockUse)
  /-- It gives up waiting. -/
  | cancel (use : LockUse)
  /-- It gives the lock back. -/
  | release (use : LockUse)
  deriving DecidableEq, Repr

def after (t : LockTable) : LockStep → LockTable
  | .request path => (t.request path).2
  | .grant use => t.grant use
  | .cancel use => t.cancel use
  | .release use => t.release use

def afterAll (t : LockTable) (steps : List LockStep) : LockTable := steps.foldl after t

/-- The paths that somebody holds or waits for, by their components, each once. -/
def pathsInUse (t : LockTable) : List (List Path.Component) :=
  ((t.held ++ t.waiting).map (·.path.components)).eraseDups

/-- A table in which locks exclude: it has at most one lock for a path and one path for a lock,
everybody has to do with the lock that it has for his path, and no lock is held twice. -/
structure Sound (t : LockTable) : Prop where
  keys_nodup : t.locks.keys.Nodup
  lock_lt : ∀ key lock, t.locks.get? key = some lock → lock < t.next
  lock_inj : ∀ key other lock, t.locks.get? key = some lock → t.locks.get? other = some lock →
    key = other
  current : ∀ use ∈ t.held ++ t.waiting, t.locks.get? use.path.components = some use.lock
  held_nodup : (t.held.map LockUse.lock).Nodup

theorem sound_empty : Sound empty :=
  ⟨List.nodup_nil, by simp [empty], by simp [empty], by simp [empty], List.nodup_nil⟩

/-! ## Looking a lock up -/

/-- To drop locks leaves the uses and the numbers alone, and what it keeps of the locks is as it
was. -/
theorem prune_uses (t : LockTable) : t.prune.held = t.held ∧ t.prune.waiting = t.waiting ∧
    t.prune.next = t.next ∧ t.prune.locks.keys.Sublist t.locks.keys := by
  unfold prune
  split
  · exact ⟨rfl, rfl, rfl, t.locks.keys_filter_sublist _⟩
  · exact ⟨rfl, rfl, rfl, List.Sublist.refl _⟩

theorem lockOf_uses (t : LockTable) (path : Path) :
    (t.lockOf path).2.held = t.held ∧ (t.lockOf path).2.waiting = t.waiting := by
  unfold lockOf
  cases t.locks.get? path.components <;> exact ⟨rfl, rfl⟩

/-- Looking a lock up adds at most the path that is looked up. -/
theorem keys_lockOf (t : LockTable) (path : Path) :
    (t.lockOf path).2.locks.size ≤ t.locks.size + 1 ∧
    ∀ key ∈ (t.lockOf path).2.locks.keys, key ∈ t.locks.keys ∨ key = path.components := by
  unfold lockOf
  cases hpath : t.locks.get? path.components with
  | some lock => exact ⟨Nat.le_succ _, fun key hkey => .inl hkey⟩
  | none =>
    have hkeys : (t.locks.insert path.components t.next).keys =
        t.locks.keys ++ [path.components] := by
      rw [Table.keys_insert, if_neg (by simp [Table.contains, hpath])]
    refine ⟨?_, fun key hkey => ?_⟩
    · rw [← Table.length_keys, ← Table.length_keys, hkeys, List.length_append]
      exact Nat.le_refl _
    · rw [hkeys] at hkey
      simpa using hkey

theorem request_eq (t : LockTable) (path : Path) :
    (t.request path).1 = ⟨path, (t.prune.lockOf path).1⟩ ∧
    (t.request path).2 = { (t.prune.lockOf path).2 with
      held := t.held
      waiting := t.waiting ++ [⟨path, (t.prune.lockOf path).1⟩] } := by
  obtain ⟨hheld, hwaiting⟩ := lockOf_uses t.prune path
  obtain ⟨hheld', hwaiting', -⟩ := prune_uses t
  refine ⟨rfl, ?_⟩
  rw [request, ← hwaiting', ← hwaiting, ← hheld', ← hheld]

/-! ## What the steps keep -/

namespace Sound

variable {t : LockTable}

/-- To drop uses, or to turn a waiting one into one that holds its lock, keeps a table sound if no
lock is held twice. -/
theorem withUses (h : Sound t) (held waiting : List LockUse)
    (hsub : ∀ use ∈ held ++ waiting, use ∈ t.held ++ t.waiting)
    (hheld : (held.map LockUse.lock).Nodup) :
    Sound { t with held := held, waiting := waiting } :=
  ⟨h.keys_nodup, h.lock_lt, h.lock_inj, fun use huse => h.current use (hsub use huse), hheld⟩

theorem cancel (h : Sound t) (use : LockUse) : Sound (t.cancel use) := by
  refine h.withUses t.held (t.waiting.erase use) ?_ h.held_nodup
  intro other hother
  exact ((List.Sublist.refl t.held).append List.erase_sublist).subset hother

theorem release (h : Sound t) (use : LockUse) : Sound (t.release use) := by
  refine h.withUses (t.held.erase use) t.waiting ?_ ?_
  · intro other hother
    exact (List.erase_sublist.append (List.Sublist.refl t.waiting)).subset hother
  · exact h.held_nodup.sublist (List.erase_sublist.map LockUse.lock)

theorem grant (h : Sound t) (use : LockUse) : Sound (t.grant use) := by
  unfold LockTable.grant
  split
  · next hgrant =>
    obtain ⟨hfree, hwaits⟩ := hgrant
    refine h.withUses (t.held ++ [use]) (t.waiting.erase use) ?_ ?_
    · intro other hother
      simp only [List.mem_append, List.mem_singleton] at hother ⊢
      rcases hother with (hheld | rfl) | hrest
      · exact .inl hheld
      · exact .inr hwaits
      · exact .inr (List.mem_of_mem_erase hrest)
    · have hnew : use.lock ∉ t.held.map LockUse.lock := by
        simpa [isFree] using hfree
      rw [List.map_append]
      refine List.nodup_append.2 ⟨h.held_nodup, List.pairwise_singleton _ _, ?_⟩
      rintro lock hlock other hother rfl
      exact hnew (List.mem_singleton.1 hother ▸ hlock)
  · exact h

/-- Locks that somebody holds or waits for are never dropped. -/
theorem get?_prune_of_mem (h : Sound t) (use : LockUse) (huse : use ∈ t.held ++ t.waiting) :
    t.prune.locks.get? use.path.components = some use.lock := by
  have hlock := h.current use huse
  unfold prune
  split
  · have hused : t.inUse use.lock = true := List.any_eq_true.2 ⟨use, huse, beq_self_eq_true _⟩
    exact (t.locks.get?_filter h.keys_nodup _ _ _).2 ⟨hlock, hused⟩
  · exact hlock

theorem get?_of_prune (h : Sound t) (key : List Path.Component) (lock : Nat)
    (hkey : t.prune.locks.get? key = some lock) : t.locks.get? key = some lock := by
  unfold LockTable.prune at hkey
  split at hkey
  · exact ((t.locks.get?_filter h.keys_nodup _ _ _).1 hkey).1
  · exact hkey

theorem prune (h : Sound t) : Sound t.prune := by
  obtain ⟨hheld, hwaiting, hnext, hkeys⟩ := prune_uses t
  refine ⟨h.keys_nodup.sublist hkeys, ?_, ?_, ?_, ?_⟩
  · intro key lock hkey
    rw [hnext]
    exact h.lock_lt key lock (h.get?_of_prune key lock hkey)
  · intro key other lock hkey hother
    exact h.lock_inj key other lock (h.get?_of_prune key lock hkey)
      (h.get?_of_prune other lock hother)
  · rw [hheld, hwaiting]
    exact h.get?_prune_of_mem
  · rw [hheld]
    exact h.held_nodup

/-- After locks were dropped for their number, the paths of the table are paths in use. -/
theorem mem_pathsInUse_of_prune (h : Sound t) (hfull : limit < t.locks.size)
    (key : List Path.Component) (hkey : key ∈ t.prune.locks.keys) : key ∈ t.pathsInUse := by
  obtain ⟨lock, hlock⟩ := Option.isSome_iff_exists.1 ((t.prune.locks.mem_keys key).1 hkey)
  have hold := h.get?_of_prune key lock hlock
  rw [LockTable.prune, if_pos hfull] at hlock
  obtain ⟨use, huse, hsame⟩ :=
    List.any_eq_true.1 ((t.locks.get?_filter h.keys_nodup _ _ _).1 hlock).2
  have hpath := h.current use huse
  rw [beq_iff_eq.1 hsame] at hpath
  rw [pathsInUse, List.mem_eraseDups]
  exact List.mem_map.2 ⟨use, huse, h.lock_inj _ key lock hpath hold⟩

theorem lockOf (h : Sound t) (path : Path) :
    Sound (t.lockOf path).2 ∧
    (t.lockOf path).2.locks.get? path.components = some (t.lockOf path).1 := by
  unfold LockTable.lockOf
  cases hpath : t.locks.get? path.components with
  | some lock => exact ⟨h, hpath⟩
  | none =>
    refine ⟨⟨t.locks.nodup_keys_insert h.keys_nodup _ _, ?_, ?_, ?_, h.held_nodup⟩, by simp⟩
    · intro key lock hkey
      simp only [Table.get?_insert] at hkey
      split at hkey
      · next hsame =>
        obtain rfl := Option.some.inj hkey
        exact Nat.lt_succ_self _
      · exact Nat.lt_succ_of_lt (h.lock_lt key lock hkey)
    · intro key other lock hkey hother
      simp only [Table.get?_insert] at hkey hother
      split at hkey <;> split at hother
      · next hsame hsame' => exact hsame.symm.trans hsame'
      · obtain rfl := Option.some.inj hkey
        exact absurd (h.lock_lt other _ hother) (Nat.lt_irrefl _)
      · obtain rfl := Option.some.inj hother
        exact absurd (h.lock_lt key _ hkey) (Nat.lt_irrefl _)
      · exact h.lock_inj key other lock hkey hother
    · intro use huse
      have hlock := h.current use huse
      have hother : path.components ≠ use.path.components := by
        intro hsame
        rw [← hsame, hpath] at hlock
        cases hlock
      simp only [Table.get?_insert, if_neg hother]
      exact hlock

theorem request (h : Sound t) (path : Path) : Sound (t.request path).2 := by
  obtain ⟨hsound, hlock⟩ := h.prune.lockOf path
  obtain ⟨hheld, hwaiting⟩ := lockOf_uses t.prune path
  obtain ⟨hheld', hwaiting', -⟩ := prune_uses t
  rw [(request_eq t path).2]
  refine ⟨hsound.keys_nodup, hsound.lock_lt, hsound.lock_inj, ?_, h.held_nodup⟩
  intro use huse
  rw [← List.append_assoc, List.mem_append, List.mem_singleton] at huse
  rcases huse with huse | rfl
  · rw [← hheld', ← hwaiting', ← hheld, ← hwaiting] at huse
    exact hsound.current use huse
  · exact hlock

/-! ## Runs -/

theorem after (h : Sound t) (step : LockStep) : Sound (t.after step) := by
  cases step with
  | request path => exact h.request path
  | grant use => exact h.grant use
  | cancel use => exact h.cancel use
  | release use => exact h.release use

theorem afterAll (h : Sound t) (steps : List LockStep) : Sound (t.afterAll steps) := by
  induction steps generalizing t with
  | nil => exact h
  | cons step rest ih => exact ih (h.after step)

theorem held_pairwise (h : Sound t) :
    t.held.Pairwise fun a b => a.path.same b.path = false := by
  refine List.Pairwise.imp_of_mem ?_ (List.pairwise_map.1 h.held_nodup)
  intro a b ha hb hlocks
  have hlockA := h.current a (List.mem_append_left _ ha)
  have hlockB := h.current b (List.mem_append_left _ hb)
  refine decide_eq_false fun hsame => hlocks ?_
  rw [hsame, hlockB] at hlockA
  exact (Option.some.inj hlockA).symm

/-- Whoever asks for the lock of a path that is in use is given that lock to wait for. -/
theorem request_lock_of_mem (h : Sound t) (use : LockUse) (huse : use ∈ t.held ++ t.waiting)
    (path : Path) (hsame : path.same use.path = true) : (t.request path).1.lock = use.lock := by
  have hlock := h.get?_prune_of_mem use huse
  rw [← of_decide_eq_true hsame] at hlock
  rw [(request_eq t path).1, LockTable.lockOf, hlock]

/-- A table past the limit holds no more locks than there are paths in use. -/
theorem size_request_le (h : Sound t) (path : Path) :
    (t.request path).2.locks.size ≤ max 257 (t.request path).2.pathsInUse.length := by
  have hrequest := (request_eq t path).2
  obtain ⟨hsize, hkeys⟩ := keys_lockOf t.prune path
  have hlocks : (t.request path).2.locks = (t.prune.lockOf path).2.locks := by rw [hrequest]
  by_cases hfull : limit < t.locks.size
  · refine Nat.le_trans ?_ (Nat.le_max_right _ _)
    rw [← Table.length_keys, hlocks]
    have hnodup : (t.prune.lockOf path).2.locks.keys.Nodup := (h.prune.lockOf path).1.keys_nodup
    refine hnodup.length_le_of_subset fun key hkey => ?_
    rw [pathsInUse, List.mem_eraseDups, hrequest, ← List.append_assoc, List.map_append]
    rcases hkeys key hkey with hold | rfl
    · have hused := h.mem_pathsInUse_of_prune hfull key hold
      exact List.mem_append_left _ (List.mem_eraseDups.1 hused)
    · exact List.mem_append_right _ (List.mem_singleton_self _)
  · have hprune : t.prune = t := by rw [LockTable.prune, if_neg hfull]
    refine Nat.le_trans ?_ (Nat.le_max_left _ _)
    rw [hprune] at hsize hlocks
    rw [hlocks]
    simp only [limit] at hfull
    omega

end Sound

/-- After any steps of any number of parties, no two hold locks for one path; a lock that is held or
waited for is the lock of its path for whoever asks for it next, even if locks are dropped on that
occasion; and after each look-up the table holds no more locks than there are paths in use, or 257
if these are fewer. -/
theorem locks_exclude (steps : List LockStep) :
    let t := empty.afterAll steps
    (t.held.Pairwise fun a b => a.path.same b.path = false) ∧
    (∀ use ∈ t.held ++ t.waiting, ∀ path, path.same use.path = true →
      (t.request path).1.lock = use.lock) ∧
    ∀ path, (t.request path).2.locks.size ≤ max 257 (t.request path).2.pathsInUse.length := by
  have h : Sound (empty.afterAll steps) := sound_empty.afterAll steps
  exact ⟨h.held_pairwise, h.request_lock_of_mem, h.size_request_le⟩

/-- One party is given a lock, another one waits for it and is not given it, and a third one comes
and goes. -/
def contended : List LockStep :=
  [.request ⟨"/a.py"⟩, .grant ⟨⟨"/a.py"⟩, 0⟩, .request ⟨"//a.py"⟩, .grant ⟨⟨"//a.py"⟩, 0⟩,
    .request ⟨"/b.py"⟩, .grant ⟨⟨"/b.py"⟩, 1⟩, .release ⟨⟨"/b.py"⟩, 1⟩]

theorem contended_excludes :
    (empty.afterAll contended).held = [⟨⟨"/a.py"⟩, 0⟩] ∧
    (⟨⟨"//a.py"⟩, 0⟩ : LockUse) ∈
      (empty.afterAll contended).held ++ (empty.afterAll contended).waiting ∧
    Path.same ⟨"/./a.py"⟩ ⟨"//a.py"⟩ = true ∧
    ((empty.afterAll contended).request ⟨"/./a.py"⟩).1.lock = 0 := by
  have hheld : (empty.afterAll contended).held = [⟨⟨"/a.py"⟩, 0⟩] := by decide +kernel
  have hwaits : (⟨⟨"//a.py"⟩, 0⟩ : LockUse) ∈
      (empty.afterAll contended).held ++ (empty.afterAll contended).waiting := by decide +kernel
  have hsame : Path.same ⟨"/./a.py"⟩ ⟨"//a.py"⟩ = true := by decide +kernel
  exact ⟨hheld, hwaits, hsame, (locks_exclude contended).2.1 _ hwaits _ hsame⟩

end LintBridge.LockTable
