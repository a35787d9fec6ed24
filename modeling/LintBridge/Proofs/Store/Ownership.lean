import LintBridge.Proofs.Store.Calls

/-!
Each cell belongs to the notebook that lists it.

`Store.Owned` says that a cell belongs to a notebook exactly when the notebook lists it, and that no
notebook lists a cell twice. An operation on a notebook gives it another list and settles the owners
of the cells that come and go (`Relisted`), which keeps a store `Owned` (`Owned.relisted`).

* `exists_onNotebook?`: an operation that the protocol permits succeeds, and does just that;
* `Owned.exists_callAll?`: so a run of permitted operations leads from one `Owned` store to another;
* `cells_follow_lists`: hence a cell leads to its notebook and to its own entry there, and a text is
  open on its own account exactly when no notebook lists it.
-/

namespace LintBridge.Store

/-! ## What the protocol permits -/

/-- What an editor that follows the protocol asks of a notebook. It opens no notebook that is open.
Cells that it puts into a notebook have different names, and no notebook lists them outside the
window that they replace. -/
def Permits (s : Store) (uri : Url) : NotebookCall → Prop
  | .openNotebook _ cells _ =>
    s.isNotebook uri = false ∧ (cells.map CellSlot.uri).Nodup ∧
      ∀ c ∈ cells, ∀ n ∈ s.notebooks.keys, c.uri ∉ s.listed n
  | .changeCells change => ∀ cells ∈ s.notebookCells? uri,
    change.Fits cells.length ∧ (change.cells.map CellSlot.uri).Nodup ∧
      ∀ c ∈ change.cells, c.uri ∉ (change.kept cells).map CellSlot.uri ∧
        ∀ n ∈ s.notebooks.keys, n ≠ uri → c.uri ∉ s.listed n
  | _ => True

/-- What an editor that follows the protocol asks. It may do with texts as it likes, as long as
their changes do not break off. -/
def PermitsCall (s : Store) : StoreCall → Prop
  | .text uri call => (s.onText? uri call).isSome = true
  | .notebook uri call => s.Permits uri call

def PermitsAll : Store → List StoreCall → Prop
  | _, [] => True
  | s, call :: rest => s.PermitsCall call ∧ ∀ t ∈ s.call? call, t.PermitsAll rest

instance (s : Store) (uri : Url) : (call : NotebookCall) → Decidable (s.Permits uri call)
  | .openNotebook _ _ _ => inferInstanceAs (Decidable (_ ∧ _ ∧ _))
  | .changeCells change => inferInstanceAs (Decidable (∀ cells ∈ s.notebookCells? uri,
      change.Fits cells.length ∧ (change.cells.map CellSlot.uri).Nodup ∧
        ∀ c ∈ change.cells, c.uri ∉ (change.kept cells).map CellSlot.uri ∧
          ∀ n ∈ s.notebooks.keys, n ≠ uri → c.uri ∉ s.listed n))
  | .setVersion _ | .changeKinds _ | .closeNotebook => .isTrue trivial

instance (s : Store) : (call : StoreCall) → Decidable (s.PermitsCall call)
  | .text _ _ => inferInstanceAs (Decidable (_ = true))
  | .notebook uri call => inferInstanceAs (Decidable (s.Permits uri call))

instance decidablePermitsAll : (s : Store) → (calls : List StoreCall) →
    Decidable (s.PermitsAll calls)
  | _, [] => .isTrue trivial
  | s, call :: rest =>
    have (t : Store) := decidablePermitsAll t rest
    inferInstanceAs (Decidable (s.PermitsCall call ∧ ∀ t ∈ s.call? call, t.PermitsAll rest))

/-! ## Owners -/

/-- A cell belongs to a notebook exactly when the notebook lists it, and none is listed twice. -/
structure Owned (s : Store) : Prop where
  owner_iff : ∀ c n, s.owners.get? c = some n ↔ c ∈ s.listed n
  distinct : ∀ n, (s.listed n).Nodup

/-- A store comes from another one by giving a notebook a list of cells that no other notebook
lists: these belong to it then, and the cells that it does not list any more to none. -/
structure Relisted (notebook : Url) (s t : Store) : Prop where
  others : ∀ n, n ≠ notebook → t.notebooks.get? n = s.notebooks.get? n
  owners : ∀ c, t.owners.get? c =
    if c ∈ t.listed notebook then some notebook
    else if c ∈ s.listed notebook then none else s.owners.get? c
  distinct : (t.listed notebook).Nodup
  foreign : ∀ c ∈ t.listed notebook, ∀ n, n ≠ notebook → c ∉ s.listed n

theorem owned_empty : empty.Owned :=
  ⟨fun _ _ => by simp [empty, listed, notebookCells?], fun _ => List.nodup_nil⟩

variable {s t : Store} {notebook : Url}

theorem Owned.congr (h : s.Owned) (hnotebooks : t.notebooks = s.notebooks)
    (howners : t.owners = s.owners) : t.Owned := by
  have hlisted (n : Url) : t.listed n = s.listed n := listed_congr (by rw [hnotebooks])
  refine ⟨fun c n => ?_, fun n => ?_⟩
  · rw [howners, hlisted, h.owner_iff]
  · rw [hlisted]
    exact h.distinct n

/-- Two notebooks that list one cell are the same. -/
theorem Owned.unique (h : s.Owned) {c n m : Url} (hn : c ∈ s.listed n) (hm : c ∈ s.listed m) :
    n = m := by
  have howner := (h.owner_iff c n).2 hn
  rw [(h.owner_iff c m).2 hm] at howner
  exact (Option.some.inj howner).symm

theorem Owned.owner_eq_none_iff (h : s.Owned) (c : Url) :
    s.owners.get? c = none ↔ ∀ n, c ∉ s.listed n := by
  simp only [Option.eq_none_iff_forall_ne_some, ne_eq, h.owner_iff]

theorem Relisted.listed_other (h : Relisted notebook s t) {n : Url} (hn : n ≠ notebook) :
    t.listed n = s.listed n :=
  listed_congr (h.others n hn)

/-- Giving a notebook another list keeps owners and lists in step. -/
theorem Owned.relisted (h : s.Owned) (hr : Relisted notebook s t) : t.Owned := by
  refine ⟨fun c n => ?_, fun n => ?_⟩
  · rw [hr.owners]
    by_cases hn : n = notebook
    · subst hn
      by_cases hnew : c ∈ t.listed n <;> by_cases hold : c ∈ s.listed n <;>
        simp [hnew, hold, h.owner_iff]
    · rw [hr.listed_other hn]
      by_cases hnew : c ∈ t.listed notebook
      · simp [hnew, Ne.symm hn, hr.foreign c hnew n hn]
      · by_cases hold : c ∈ s.listed notebook
        · have hforeign : c ∉ s.listed n := fun hc => hn (h.unique hc hold)
          simp [hnew, hold, hforeign]
        · simp [hnew, hold, h.owner_iff]
  · by_cases hn : n = notebook
    · exact hn ▸ hr.distinct
    · rw [hr.listed_other hn]
      exact h.distinct n

theorem Owned.relisted_of_listed_eq (h : s.Owned) (howners : t.owners = s.owners)
    (hothers : ∀ n, n ≠ notebook → t.notebooks.get? n = s.notebooks.get? n)
    (hlisted : t.listed notebook = s.listed notebook) : Relisted notebook s t where
  others := hothers
  owners c := by
    rw [howners, hlisted]
    by_cases hc : c ∈ s.listed notebook
    · rw [if_pos hc, (h.owner_iff c notebook).2 hc]
    · rw [if_neg hc, if_neg hc]
  distinct := hlisted ▸ h.distinct notebook
  foreign c hc n hn hother := hn (h.unique hother (hlisted ▸ hc))

/-! ## Operations on notebooks -/

theorem listed_openNotebook (s : Store) (uri : Url) (version : Int) (cells : List CellSlot)
    (opened : List OpenedCell) :
    (s.openNotebook uri version cells opened).listed uri = cells.map CellSlot.uri :=
  listed_of_get? (e := ⟨version, cells⟩) (by simp [notebooks_openNotebook])

theorem relisted_openNotebook (s : Store) (uri : Url) (version : Int) (cells : List CellSlot)
    (opened : List OpenedCell) (hp : s.Permits uri (.openNotebook version cells opened)) :
    Relisted uri s (s.openNotebook uri version cells opened) := by
  obtain ⟨hclosed, hdistinct, hfree⟩ := hp
  have hnew := listed_openNotebook s uri version cells opened
  have hold : s.listed uri = [] :=
    listed_of_closed
      (Option.isNone_iff_eq_none.1 (by simpa [isNotebook, Table.contains] using hclosed))
  refine ⟨fun n hn => ?_, fun c => ?_, hnew ▸ hdistinct, ?_⟩
  · rw [notebooks_openNotebook, Table.get?_insert, if_neg (Ne.symm hn)]
  · rw [hnew, hold]
    have howner : (s.openNotebook uri version cells opened).owners.get? c =
        (s.own uri cells).owners.get? c := by simp [openNotebook, openCells_owners]
    rw [howner, get?_own]
    simp
  · rw [hnew]
    intro c hc n _
    obtain ⟨slot, hslot, rfl⟩ := List.mem_map.1 hc
    exact fun hlisted => hfree slot hslot n (mem_keys_of_mem_listed hlisted) hlisted

theorem Owned.relisted_setNotebookVersion (h : s.Owned) (uri : Url) (version : Int) :
    Relisted uri s (s.setNotebookVersion uri version).2 := by
  unfold setNotebookVersion
  cases hopen : s.notebooks.get? uri with
  | none => exact h.relisted_of_listed_eq rfl (fun _ _ => rfl) rfl
  | some entry =>
    refine h.relisted_of_listed_eq rfl (fun n hn => ?_) ?_
    · simp [Ne.symm hn]
    · exact listed_insert s uri entry { entry with version := version } hopen rfl uri

theorem Owned.relisted_changeCellKinds (h : s.Owned) (uri : Url) (updates : List CellSlot) :
    Relisted uri s (s.changeCellKinds uri updates) := by
  unfold changeCellKinds
  cases hopen : s.notebooks.get? uri with
  | none => exact h.relisted_of_listed_eq rfl (fun _ _ => rfl) rfl
  | some entry =>
    refine h.relisted_of_listed_eq rfl (fun n hn => ?_) ?_
    · simp [Ne.symm hn]
    · exact listed_insert s uri entry _ hopen (map_uri_foldl_setKind updates entry.cells) uri

theorem Owned.relisted_closeNotebook (h : s.Owned) (uri : Url) :
    Relisted uri s (s.closeNotebook uri).2 := by
  unfold closeNotebook
  cases hopen : s.notebooks.get? uri with
  | none => exact h.relisted_of_listed_eq rfl (fun _ _ => rfl) rfl
  | some entry =>
    have hnew : listed ⟨s.texts.eraseAll (entry.cells.map CellSlot.uri), s.notebooks.erase uri,
        s.owners.eraseAll (entry.cells.map CellSlot.uri)⟩ uri = [] := listed_of_closed (by simp)
    refine ⟨fun n hn => ?_, fun c => ?_, ?_, ?_⟩
    · simp [Ne.symm hn]
    · rw [hnew, listed_of_get? hopen]
      simp
    · rw [hnew]
      exact List.nodup_nil
    · rw [hnew]
      exact fun _ hc => absurd hc List.not_mem_nil

/-- A permitted change of cells: the cells that stay are none of the new ones, and those that made
way are none of those that stay. -/
theorem Owned.relisted_changeCells (h : s.Owned) (uri : Url) (change : CellChange)
    (entry : OpenNotebook) (hopen : s.notebooks.get? uri = some entry)
    (hp : s.Permits uri (.changeCells change))
    (hnotebooks : t.notebooks =
      s.notebooks.insert uri { entry with cells := change.result entry.cells })
    (howners : ∀ c, t.owners.get? c =
      if c ∈ change.cells.map CellSlot.uri then some uri
      else if c ∈ (change.removed entry.cells).map CellSlot.uri then none
      else s.owners.get? c) : Relisted uri s t := by
  obtain ⟨-, hnewDistinct, hfree⟩ := hp entry.cells (by simp [notebookCells?, hopen])
  have hold := listed_of_get? hopen
  have hnew : t.listed uri = (change.result entry.cells).map CellSlot.uri :=
    listed_of_get? (e := { entry with cells := change.result entry.cells })
      (by simp [hnotebooks])
  -- Both lists up to order: what stays, with what made way or with what is new.
  have holdPerm := (change.perm_kept_removed entry.cells).map CellSlot.uri
  have hnewPerm := (change.perm_result entry.cells).map CellSlot.uri
  rw [List.map_append, ← hold] at holdPerm
  rw [List.map_append, ← hnew] at hnewPerm
  have holdDistinct := holdPerm.nodup_iff.1 (h.distinct uri)
  rw [List.nodup_append] at holdDistinct
  obtain ⟨hkeptDistinct, -, hapart⟩ := holdDistinct
  refine ⟨fun n hn => ?_, fun c => ?_, ?_, fun c hc n hn => ?_⟩
  · rw [hnotebooks, Table.get?_insert, if_neg (Ne.symm hn)]
  · simp only [howners, hnewPerm.mem_iff, holdPerm.mem_iff, List.mem_append]
    by_cases hkept : c ∈ (change.kept entry.cells).map CellSlot.uri
    · have hmade : c ∉ (change.removed entry.cells).map CellSlot.uri :=
        fun hc => hapart c hkept c hc rfl
      have howner : s.owners.get? c = some uri :=
        (h.owner_iff c uri).2 (holdPerm.mem_iff.2 (List.mem_append_left _ hkept))
      simp only [hkept, hmade, howner, true_or, if_true, if_false, ite_self]
    · simp only [hkept, false_or]
  · rw [hnewPerm.nodup_iff, List.nodup_append]
    refine ⟨hkeptDistinct, hnewDistinct, ?_⟩
    rintro c hkept _ hc rfl
    obtain ⟨slot, hslot, rfl⟩ := List.mem_map.1 hc
    exact (hfree slot hslot).1 hkept
  · rw [hnewPerm.mem_iff, List.mem_append] at hc
    rcases hc with hkept | hc
    · intro hother
      exact hn (h.unique hother (holdPerm.mem_iff.2 (List.mem_append_left _ hkept)))
    · obtain ⟨slot, hslot, rfl⟩ := List.mem_map.1 hc
      exact fun hlisted => (hfree slot hslot).2 n (mem_keys_of_mem_listed hlisted) hn hlisted

/-- A permitted operation on a notebook succeeds and gives the notebook another list. It writes only
texts that it names and texts of cells that the notebook lists before it. If it writes any, the
notebook lists all cells that enter it. -/
theorem Owned.exists_onNotebook? (h : s.Owned) (uri : Url) (call : NotebookCall)
    (hp : s.Permits uri call) :
    ∃ t, s.onNotebook? uri call = some t ∧ Relisted uri s t ∧
      (∀ u, u ∉ s.listed uri → u ∉ call.texts → t.texts.get? u = s.texts.get? u) ∧
      (t.texts = s.texts ∨ ∀ c ∈ call.entering, c ∈ t.listed uri) := by
  cases call with
  | openNotebook version cells opened =>
    have hlisted := listed_openNotebook s uri version cells opened
    refine ⟨_, rfl, relisted_openNotebook s uri version cells opened hp, fun u _ hu => ?_,
      .inr fun c hc => hlisted ▸ hc⟩
    exact get?_openCells (s.own uri cells) opened u hu
  | setVersion version =>
    have htexts := s.texts_setNotebookVersion uri version
    exact ⟨_, rfl, h.relisted_setNotebookVersion uri version, fun u _ _ => by rw [htexts],
      .inl htexts⟩
  | changeCells change =>
    cases hopen : s.notebooks.get? uri with
    | none =>
      exact ⟨s, by simp [onNotebook?, changeCells?, hopen],
        h.relisted_of_listed_eq rfl (fun _ _ => rfl) rfl, fun _ _ _ => rfl, .inl rfl⟩
    | some entry =>
      obtain ⟨hfits, -⟩ := hp entry.cells (by simp [notebookCells?, hopen])
      obtain ⟨t, ht, hnotebooks, howners, htexts⟩ :=
        changeCells?_of_fits s uri change entry hopen hfits
      have hlisted : t.listed uri = (change.result entry.cells).map CellSlot.uri :=
        listed_of_get? (e := { entry with cells := change.result entry.cells })
          (by simp [hnotebooks])
      refine ⟨t, by simp [onNotebook?, ht],
        h.relisted_changeCells uri change entry hopen hp hnotebooks howners,
        fun u _ hu => htexts u hu, .inr fun c hc => ?_⟩
      rw [hlisted, ((change.perm_result entry.cells).map CellSlot.uri).mem_iff, List.map_append]
      exact List.mem_append_right _ hc
  | changeKinds updates =>
    have htexts := s.texts_changeCellKinds uri updates
    exact ⟨_, rfl, h.relisted_changeCellKinds uri updates, fun u _ _ => by rw [htexts],
      .inl htexts⟩
  | closeNotebook =>
    refine ⟨_, rfl, h.relisted_closeNotebook uri, fun u hu _ => ?_,
      .inr fun c hc => absurd hc List.not_mem_nil⟩
    unfold closeNotebook
    cases hopen : s.notebooks.get? uri with
    | none => rfl
    | some entry =>
      rw [listed_of_get? hopen] at hu
      simp only [Table.get?_eraseAll, if_neg hu]

/-! ## Runs -/

/-- A permitted operation succeeds and keeps owners and lists in step. -/
theorem Owned.exists_call? (h : s.Owned) (call : StoreCall) (hp : s.PermitsCall call) :
    ∃ t, s.call? call = some t ∧ t.Owned := by
  cases call with
  | text uri call =>
    obtain ⟨t, ht⟩ := Option.isSome_iff_exists.1 hp
    obtain ⟨hnotebooks, howners, -⟩ := onText?_frame ht
    exact ⟨t, ht, h.congr hnotebooks howners⟩
  | notebook uri call =>
    obtain ⟨t, ht, hr, -⟩ := h.exists_onNotebook? uri call hp
    exact ⟨t, ht, h.relisted hr⟩

theorem Owned.exists_callAll? (h : s.Owned) (calls : List StoreCall) (hp : s.PermitsAll calls) :
    ∃ t, s.callAll? calls = some t ∧ t.Owned := by
  induction calls generalizing s with
  | nil => exact ⟨s, rfl, h⟩
  | cons call rest ih =>
    obtain ⟨next, hnext, howned⟩ := h.exists_call? call hp.1
    obtain ⟨t, ht, hlast⟩ := ih howned (hp.2 next hnext)
    exact ⟨t, by rw [callAll?, hnext, Option.bind_some, ht], hlast⟩

/-! ## Views -/

theorem notebookDocument?_of_get? {n : Url} {entry : OpenNotebook}
    (hopen : s.notebooks.get? n = some entry) :
    s.notebookDocument? n = n.filePath?.map fun path =>
      .notebook n path (some entry.version) (entry.cells.map s.cell) := by
  rw [notebookDocument?, hopen]
  cases n.filePath? <;> rfl

/-- Among cells with different names, one is found by its name. -/
theorem find?_uri_of_mem (cells : List CellSlot) (slot : CellSlot)
    (hdistinct : (cells.map CellSlot.uri).Nodup) (hslot : slot ∈ cells) :
    cells.find? (·.uri = slot.uri) = some slot := by
  induction cells with
  | nil => cases hslot
  | cons c rest ih =>
    rw [List.map_cons, List.nodup_cons] at hdistinct
    rcases List.mem_cons.1 hslot with rfl | hrest
    · simp
    · have hne : c.uri ≠ slot.uri := fun heq => hdistinct.1 (heq ▸ List.mem_map_of_mem hrest)
      rw [List.find?_cons_of_neg (by simpa using hne), ih hdistinct.2 hrest]

theorem Owned.document?_of_mem (h : s.Owned) {n : Url} {entry : OpenNotebook}
    (hopen : s.notebooks.get? n = some entry) {slot : CellSlot} (hslot : slot ∈ entry.cells) :
    s.document? slot.uri = n.filePath?.map fun path =>
      .notebook n path (some entry.version) (entry.cells.map s.cell) := by
  have howner : s.owners.get? slot.uri = some n :=
    (h.owner_iff slot.uri n).2 (listed_of_get? hopen ▸ List.mem_map_of_mem hslot)
  rw [document?, howner]
  exact notebookDocument?_of_get? hopen

theorem Owned.cellOrText?_of_mem (h : s.Owned) {n : Url} {entry : OpenNotebook}
    (hopen : s.notebooks.get? n = some entry) {slot : CellSlot} (hslot : slot ∈ entry.cells) :
    s.cellOrText? slot.uri = n.filePath?.map fun path => .cell path (s.cell slot) := by
  have hlisted := listed_of_get? hopen
  have howner : s.owners.get? slot.uri = some n :=
    (h.owner_iff slot.uri n).2 (hlisted ▸ List.mem_map_of_mem hslot)
  have hfound := find?_uri_of_mem entry.cells slot (hlisted ▸ h.distinct n) hslot
  simp only [cellOrText?, howner, hopen]
  cases n.filePath? with
  | none => rfl
  | some path => simp [hfound]

/-- The texts that are open on their own account are those that no notebook lists. -/
theorem Owned.mem_ownTexts (h : s.Owned) (u : Url) :
    u ∈ s.texts.keys.filter (fun uri => !s.owners.contains uri) ↔
      (s.text? u).isSome = true ∧ ∀ n, u ∉ s.listed n := by
  rw [List.mem_filter, Table.mem_keys, ← h.owner_eq_none_iff, text?, Option.isSome_map]
  simp [Table.contains]

/-- After every run in which the editor follows the protocol, a cell belongs to a notebook exactly
when the notebook lists it, and no notebook lists a cell twice. So a listed cell leads to the
document of its notebook and, by itself, to its entry there; and an open text counts on its own
account exactly when no notebook lists it. -/
theorem cells_follow_lists (calls : List StoreCall) (hp : empty.PermitsAll calls) :
    ∃ s, empty.callAll? calls = some s ∧
      (∀ c n, s.notebookOf? c = some n ↔ c ∈ s.listed n) ∧
      (∀ n, (s.listed n).Nodup) ∧
      (∀ n entry, s.notebooks.get? n = some entry → ∀ slot ∈ entry.cells,
        s.document? slot.uri = (n.filePath?.map fun path =>
          .notebook n path (some entry.version) (entry.cells.map s.cell)) ∧
        s.cellOrText? slot.uri = n.filePath?.map fun path => .cell path (s.cell slot)) ∧
      ∃ texts notebooks, s.openDocuments = texts ++ notebooks ∧
        (∀ u, u ∈ texts ↔ (s.text? u).isSome = true ∧ ∀ n, u ∉ s.listed n) ∧
        ∀ n, n ∈ notebooks ↔ s.isNotebook n = true := by
  obtain ⟨s, hs, h⟩ := owned_empty.exists_callAll? calls hp
  refine ⟨s, hs, h.owner_iff, h.distinct, fun n entry hopen slot hslot => ?_, ?_⟩
  · exact ⟨h.document?_of_mem hopen hslot, h.cellOrText?_of_mem hopen hslot⟩
  · exact ⟨_, _, rfl, h.mem_ownTexts, s.notebooks.mem_keys⟩

/-- Names of two notebooks, of three cells, and of a text. -/
def runUrl (name : String) : Url := ⟨"file", some "", .segments [name], none, none⟩

/-- A run that opens a notebook with two cells and a text, swaps the cells and puts a third one
between them in one change, opens and closes another notebook, and takes the first cell out. -/
def swappingRun : List StoreCall :=
  let cell (name : String) : CellSlot := ⟨runUrl name, .code⟩
  [.notebook (runUrl "n") (.openNotebook 1 [cell "a", cell "b"]
      [⟨runUrl "a", "x", 1⟩, ⟨runUrl "b", "y", 1⟩]),
    .text (runUrl "t") (.openText "z" 1),
    .notebook (runUrl "n") (.changeCells ⟨0, 5, [cell "b", cell "c", cell "a"],
      [⟨runUrl "c", "z", 1⟩], []⟩),
    .notebook (runUrl "m") (.openNotebook 1 [cell "d"] [⟨runUrl "d", "x", 1⟩]),
    .text (runUrl "a") (.changeText 2 [⟨some ⟨⟨0, 0⟩, ⟨0, 9⟩⟩, "w"⟩]),
    .notebook (runUrl "n") (.changeKinds [⟨runUrl "c", .markup⟩]),
    .notebook (runUrl "m") .closeNotebook,
    .notebook (runUrl "n") (.changeCells ⟨0, 1, [], [], [runUrl "b"]⟩)]

theorem swappingRun_follows :
    empty.PermitsAll swappingRun ∧
    ∃ s, empty.callAll? swappingRun = some s ∧ s.listed (runUrl "n") = [runUrl "c", runUrl "a"] ∧
      s.notebookOf? (runUrl "a") = some (runUrl "n") ∧
      s.notebookOf? (runUrl "b") ≠ some (runUrl "n") := by
  have hp : empty.PermitsAll swappingRun := by decide +kernel
  have hlisted : (empty.callAll? swappingRun).map (·.listed (runUrl "n")) =
      some [runUrl "c", runUrl "a"] := by decide +kernel
  obtain ⟨s, hs, howner, -⟩ := cells_follow_lists swappingRun hp
  rw [hs, Option.map_some, Option.some.injEq] at hlisted
  refine ⟨hp, s, hs, hlisted, ?_, ?_⟩
  · rw [howner, hlisted]
    decide
  · rw [ne_eq, howner, hlisted]
    decide

end LintBridge.Store
