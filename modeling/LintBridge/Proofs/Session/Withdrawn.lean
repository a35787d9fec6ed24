import LintBridge.Proofs.Session.Asides
import LintBridge.Proofs.Store.Held
import LintBridge.Session.Dispatch

/-!
Diagnostics are shown for open documents only.

`Confined store uris` says that what is shown is about names that the store holds, and about some
others. A round of linting publishes for held names only; a step that loses names takes back what
was shown for these (`leads_clear`), so after it there are no others.

* `leads_notebookOpened`, `leads_notebookChanged`: the two steps that rely on the editor, which may
  not open a notebook twice, nor take cells out of one without closing them;
* `leads_handle`: the answer to any message of an editor that heeds this, whatever its name;
* `shown_only_open`: hence any run of messages, with changes of the machine between them.
-/

namespace LintBridge.Session

open Json (Tree)

/-! ## What is shown, and what is open -/

/-- Diagnostics are shown for names that are held and for some others only. Before the editor has
introduced itself, none are. -/
structure Confined (store : Store) (uris : List Url) (s : Session) : Prop where
  documents : s.documents = store
  silent : s.connected = false → ∀ u, s.shown u = []
  within : ∀ u, s.shown u ≠ [] → store.Holds u ∨ u ∈ uris

variable {store : Store} {uris : List Url}

/-- Diagnostics are shown for names that are held now and for some others only. -/
def Bounded (uris : List Url) (s : Session) : Prop := Confined s.documents uris s

theorem Confined.bounded {s : Session} (h : Confined store uris s) : Bounded uris s := by
  obtain ⟨rfl, hsilent, hwithin⟩ := h
  exact ⟨rfl, hsilent, hwithin⟩

theorem leads_of_each {α : Type} {m : SessionStep α} {L : Session → Prop}
    (h : ∀ store, Leads (Confined store uris) m L) : Leads (Bounded uris) m L :=
  fun s hs => h s.documents s hs

theorem keeps_of_each {α : Type} {m : SessionStep α}
    (h : ∀ store, Keeps (Confined store uris) m) : Keeps (Bounded uris) m :=
  leads_of_each fun store => (h store).weaken fun _ => Confined.bounded

theorem shown_send (s : Session) (e : Event) :
    shown { s with sent := s.sent ++ [e] } = e.show s.shown :=
  showAll_append _ s.sent [e]

theorem indifferent_confined (store : Store) (uris : List Url) :
    Indifferent (Confined store uris) := by
  refine ⟨fun s linter hs => ⟨hs.documents, hs.silent, hs.within⟩, fun s e he hs => ?_⟩
  have hshown : shown { s with sent := s.sent ++ [e] } = s.shown := (shown_send s e).trans (he _)
  exact ⟨hs.documents, hshown ▸ hs.silent, hshown ▸ hs.within⟩

/-! ## The life of a session -/

/-- Once the editor has introduced itself it hears everything, but it has heard nothing yet. -/
theorem keeps_introduced (i : Introduction) : Keeps (Confined store uris) (introduced i) := by
  refine .bind (L := Confined store uris) (.modify fun s hs => ?_) fun _ =>
    ((indifferent_confined store uris).applySettings _).bind fun _ => .pure announcement
  exact ⟨hs.documents, fun h => (nomatch h), hs.within⟩

theorem keeps_activated : Keeps (Confined store uris) activated :=
  .bind (.modify fun _ hs => ⟨hs.documents, hs.silent, hs.within⟩) fun _ =>
    (indifferent_confined store uris).send _ fun _ => rfl

theorem keeps_shutDown : Keeps (Confined store uris) shutDown :=
  .modify fun _ hs => ⟨hs.documents, hs.silent, hs.within⟩

/-! ## Rounds of linting -/

/-- What is published for one name is all that is shown for it. Before the editor listens, nothing
is shown for any. -/
theorem leads_publication (uri : Url) (version : Option Int) (findings : List Finding)
    {lost : List Url} (hhere : findings ≠ [] → store.Holds uri ∨ uri ∈ lost)
    (helsewhere : ∀ u ∈ uris, u ≠ uri → store.Holds u ∨ u ∈ lost) :
    Leads (Confined store uris) (sendIfConnected (publication uri version findings))
      (Confined store lost) := by
  intro s hs
  cases hconnected : s.connected with
  | false =>
    rw [sendIfConnected_run_of_not_connected _ s hconnected]
    exact ⟨hs.documents, hs.silent, fun u hu => absurd (hs.silent hconnected u) hu⟩
  | true =>
    rw [sendIfConnected_run _ s hconnected]
    refine ⟨hs.documents, fun h => ?_, fun u hu => ?_⟩
    · exact absurd (hconnected.symm.trans h) nofun
    · rw [shown_send, show_publication] at hu
      split at hu
      · next huri =>
        subst huri
        exact hhere fun hnone => hu (by rw [hnone]; rfl)
      · next huri =>
        rcases hs.within u hu with hheld | hmem
        · exact .inl hheld
        · exact helsewhere u hmem (Ne.symm huri)

/-- A held name may be told any diagnostics. -/
theorem keeps_publication (uri : Url) (version : Option Int) (findings : List Finding)
    (h : store.Holds uri) :
    Keeps (Confined store uris) (sendIfConnected (publication uri version findings)) :=
  leads_publication uri version findings (fun _ => .inl h) fun _ hu _ => .inr hu

/-- Once diagnostics are taken back, none are shown for these names. -/
theorem leads_clear : Leads (Confined store uris) (clear uris) (Confined store []) := by
  induction uris with
  | nil => exact .pure ()
  | cons uri rest ih =>
    refine .bind (L := Confined store rest) ?_ fun _ => ih
    exact leads_publication uri none [] (fun h => absurd rfl h) fun u hu hother =>
      .inr (List.mem_of_ne_of_mem hother hu)

/-- Publishing the findings in a document tells the editor about held names only. -/
theorem keeps_publish {uri : Url} {d : Document} (hd : store.document? uri = some d)
    (findings : List Finding) : Keeps (Confined store uris) (publish d findings) := by
  have hheld := Store.holds_of_document? hd
  refine Leads.forM _ fun e he => ?_
  cases d with
  | notebook notebook path version cells =>
    obtain ⟨⟨c, number⟩, hc, rfl⟩ := List.mem_map.1 he
    obtain ⟨-, hplace, -⟩ := (mem_codeCells cells c number).1 hc
    exact keeps_publication c.uri _ _ (hheld _ (List.mem_map_of_mem (List.mem_of_getElem? hplace)))
  | text name path source version =>
    rw [publications, List.mem_singleton] at he
    · exact he ▸ keeps_publication name _ _ (hheld name (List.mem_singleton_self name))
    · nofun
  | cell path c =>
    rw [publications, List.mem_singleton] at he
    · exact he ▸ keeps_publication c.uri _ _ (hheld c.uri (List.mem_singleton_self c.uri))
    · nofun

theorem keeps_lintAndPublish (uri : Url) : Keeps (Confined store uris) (lintAndPublish uri) := by
  refine keeps_round uri ?_ ?_ ?_
  · intro d
    exact (indifferent_confined store uris).request (Linter.lint d)
  · exact (indifferent_confined store uris).report .lint
  · intro s d findings hs hopen
    rw [hs.documents] at hopen
    exact keeps_publish hopen findings

theorem keeps_lintAfterChange (uri : Url) : Keeps (Confined store uris) (lintAfterChange uri) := by
  refine .get_bind fun s _ => ?_
  split
  · split
    · exact keeps_lintAndPublish uri
    · exact .pure ()
  · exact .pure ()

theorem keeps_settingsChanged (value : Json) :
    Keeps (Confined store uris) (settingsChanged value) := by
  rw [settingsChanged]
  split
  · exact .pure ()
  · refine ((indifferent_confined store uris).applySettings _).bind fun _ => .get_bind fun s _ => ?_
    exact Leads.forM _ fun uri _ => keeps_lintAndPublish uri

/-! ## Opened, changed and closed documents -/

/-- Documents that lose some names, which may have been shown something. -/
theorem Confined.setDocuments {s : Session} (h : Confined store uris s) {other : Store}
    {lost : List Url} (hloses : Store.Loses lost store other) (hmore : uris ⊆ lost) :
    Confined other lost { s with documents := other } := by
  obtain ⟨rfl, hsilent, hwithin⟩ := h
  refine ⟨rfl, hsilent, fun u hu => ?_⟩
  rcases hwithin u hu with hheld | hmem
  · exact hloses u hheld
  · exact .inr (hmore hmem)

theorem leads_tryDocuments_bind {α β : Type} {f? : Store → Option (α × Store)}
    {next : α → SessionStep β} {lost : List Url} {L : Session → Prop}
    (hloses : ∀ a other, f? store = some (a, other) → Store.Loses lost store other)
    (hmore : uris ⊆ lost)
    (hnext : ∀ a other, f? store = some (a, other) → Leads (Confined other lost) (next a) L) :
    Leads (Confined store uris) (tryDocuments f? >>= next) L := by
  intro s hs
  rw [StateT.run_bind, tryDocuments_run, hs.documents]
  cases hf : f? store with
  | none => trivial
  | some found =>
    obtain ⟨a, other⟩ := found
    exact hnext a other hf _ (hs.setDocuments (hloses a other hf) hmore)

theorem leads_onDocuments_bind {α β : Type} {f : Store → α × Store} {next : α → SessionStep β}
    {lost : List Url} {L : Session → Prop} (hloses : Store.Loses lost store (f store).2)
    (hmore : uris ⊆ lost) (hnext : Leads (Confined (f store).2 lost) (next (f store).1) L) :
    Leads (Confined store uris) (onDocuments f >>= next) L := by
  refine leads_tryDocuments_bind (fun a other hf => ?_) hmore fun a other hf => ?_
  · obtain rfl := congrArg Prod.snd (Option.some.inj hf)
    exact hloses
  · obtain ⟨rfl, rfl⟩ := Prod.mk.inj (Option.some.inj hf)
    exact hnext

/-- A change of the documents that never loses a name, whatever the documents. -/
theorem keeps_tryDocuments {α : Type} {f? : Store → Option (α × Store)}
    (hloses : ∀ store a other, f? store = some (a, other) → Store.Loses [] store other) :
    Keeps (Bounded uris) (tryDocuments f?) := by
  intro s hs
  rw [tryDocuments_run]
  cases hf : f? s.documents with
  | none => trivial
  | some found =>
    refine (hs.setDocuments (fun u hu => ?_) (List.Subset.refl uris)).bounded
    exact (hloses s.documents found.1 found.2 hf u hu).imp_right fun hnone => nomatch hnone

theorem keeps_onDocuments {α : Type} {f : Store → α × Store}
    (hloses : ∀ store, Store.Loses [] store (f store).2) :
    Keeps (Bounded uris) (onDocuments f) := by
  refine keeps_tryDocuments fun store a other hf => ?_
  obtain rfl := congrArg Prod.snd (Option.some.inj hf)
  exact hloses store

theorem keeps_changeText (change : TextChange) : Keeps (Bounded uris) (changeText change) :=
  keeps_tryDocuments fun _ _ _ => Store.loses_changeText

theorem keeps_textOpened (item : TextItem) : Keeps (Bounded uris) (textOpened item) :=
  (keeps_onDocuments fun store => store.loses_openText _ _ _).bind fun _ =>
    keeps_of_each fun _ => keeps_lintAndPublish item.uri

theorem keeps_textChanged (change : TextChange) : Keeps (Bounded uris) (textChanged change) := by
  refine (keeps_changeText change).bind fun isOpen => ?_
  cases isOpen with
  | true => exact keeps_of_each fun _ => keeps_lintAfterChange change.name.uri
  | false => exact .pure ()

theorem leads_clear_bounded : Leads (Confined store uris) (clear uris) (Bounded []) :=
  leads_clear.weaken fun _ => Confined.bounded

theorem keeps_textClosed (uri : Url) : Keeps (Bounded []) (textClosed uri) :=
  leads_of_each fun store =>
    leads_onDocuments_bind (store.loses_closeText uri) (List.nil_subset _)
      leads_clear_bounded

theorem keeps_notebookClosed (uri : Url) : Keeps (Bounded []) (notebookClosed uri) :=
  leads_of_each fun store =>
    leads_onDocuments_bind (store.loses_closeNotebook uri) (List.nil_subset _)
      leads_clear_bounded

theorem leads_notebookOpened (n : OpenedNotebook) (h : store.isNotebook n.name.uri = false) :
    Leads (Confined store []) (notebookOpened n) (Bounded []) :=
  leads_onDocuments_bind (store.loses_openNotebook _ _ _ _ h) (List.Subset.refl [])
    ((keeps_lintAndPublish n.name.uri).weaken fun _ => Confined.bounded)

def closedNames (n : NotebookChange) : List Url := (n.structural.map CellChange.closed).getD []

/-- A change of the cells of a notebook leaves what it closes to be taken back. -/
theorem leads_changeCells (n : NotebookChange)
    (h : ∀ change ∈ n.structural, store.ClosesRemoved n.name.uri change) :
    Leads (Confined store []) (n.structural.forM (changeCells n.name.uri))
      (Bounded (closedNames n)) := by
  rw [closedNames]
  cases hchange : n.structural with
  | none => exact Leads.weaken (.pure _) fun _ => Confined.bounded
  | some change =>
    exact leads_tryDocuments_bind (fun _ _ hf => Store.loses_changeCells hf (h change hchange))
      (List.nil_subset _) fun _ _ _ => Leads.weaken (.pure ()) fun _ => Confined.bounded

theorem leads_notebookChanged (n : NotebookChange)
    (h : ∀ change ∈ n.structural, store.ClosesRemoved n.name.uri change) :
    Leads (Confined store []) (notebookChanged n) (Bounded []) := by
  refine leads_onDocuments_bind (store.loses_setNotebookVersion _ _) (List.Subset.refl []) ?_
  split
  · -- the editor has looked at the cells before the notebook got its new version
    have hcloses : ∀ change ∈ n.structural,
        (store.setNotebookVersion n.name.uri n.name.version).2.ClosesRemoved n.name.uri change := by
      intro change hchange
      rw [Store.ClosesRemoved, store.notebookCells?_setNotebookVersion]
      exact h change hchange
    refine (leads_changeCells n hcloses).bind fun _ => ?_
    refine (keeps_onDocuments fun store => store.loses_changeCellKinds _ _).bind fun _ => ?_
    refine (Leads.forM n.texts fun change _ => ?_).bind fun _ => ?_
    · exact (keeps_changeText change).bind fun _ => .pure ()
    · exact (leads_of_each fun _ => leads_clear_bounded).bind fun _ =>
        keeps_of_each fun _ => keeps_lintAfterChange _
  · exact Leads.weaken (.pure ()) fun _ => Confined.bounded

/-! ## Messages, and runs of them -/

/-- What the protocol asks of an editor that sends a message: it opens no notebook that is open, and
it closes the cells that it takes out of a notebook and does not put in again. -/
structure Heeds (store : Store) (method : String) (params : Tree) : Prop where
  opens : method = "notebookDocument/didOpen" →
    ∀ n ∈ Message.notebookOpened? params, store.isNotebook n.name.uri = false
  closes : method = "notebookDocument/didChange" →
    ∀ n ∈ Message.notebookChanged? params, ∀ change ∈ n.structural,
      store.ClosesRemoved n.name.uri change

instance (store : Store) (method : String) (params : Tree) :
    Decidable (Heeds store method params) :=
  decidable_of_iff
    ((method = "notebookDocument/didOpen" →
      ∀ n ∈ Message.notebookOpened? params, store.isNotebook n.name.uri = false) ∧
    (method = "notebookDocument/didChange" →
      ∀ n ∈ Message.notebookChanged? params, ∀ change ∈ n.structural,
        store.ClosesRemoved n.name.uri change))
    ⟨fun h => ⟨h.1, h.2⟩, fun h => ⟨h.1, h.2⟩⟩

theorem leads_answer {α : Type} (read : Tree → Option α) (step : α → SessionStep Answer)
    (params : Tree) (h : ∀ a ∈ read params, Leads (Confined store []) (step a) (Bounded [])) :
    Leads (Confined store []) (answer read step params) (Bounded []) := by
  rw [answer]
  cases hread : read params with
  | none => exact Leads.weaken (.pure _) fun _ => Confined.bounded
  | some a => exact h a hread

theorem leads_noted {α : Type} (read : Tree → Option α) (step : α → SessionStep Unit)
    (params : Tree) (h : ∀ a ∈ read params, Leads (Confined store []) (step a) (Bounded [])) :
    Leads (Confined store []) (noted read step params) (Bounded []) :=
  leads_answer read _ params fun a ha => (h a ha).bind fun _ => .pure _

theorem leads_asked {α β : Type} (read : Tree → Option α) (toJson : β → Json)
    (step : α → SessionStep β) (params : Tree) (h : ∀ a, Keeps (Confined store []) (step a)) :
    Leads (Confined store []) (asked read toJson step params) (Bounded []) :=
  leads_answer read _ params fun a _ =>
    ((h a).bind fun _ => .pure _).weaken fun _ => Confined.bounded

theorem leads_executed (params : Tree) :
    Leads (Confined store []) (executed params) (Bounded []) := by
  refine leads_answer _ _ _ fun r _ => ?_
  refine Leads.weaken (L := Confined store [])
    (((indifferent_confined store []).execute r).bind fun answer => ?_) fun _ => Confined.bounded
  cases answer <;> exact .pure _

/-- After a message of an editor that heeds the protocol, what is shown is about held names. -/
theorem leads_handle (method : String) (params : Tree) (h : Heeds store method params) :
    Leads (Confined store []) (handle method params) (Bounded []) := by
  have hkeep {α : Type} {m : SessionStep α} (hm : Keeps (Confined store []) m) :
      Leads (Confined store []) m (Bounded []) := hm.weaken fun _ => Confined.bounded
  have hbound {α : Type} {m : SessionStep α} (hm : Keeps (Bounded []) m) :
      Leads (Confined store []) m (Bounded []) := fun s hs => hm s hs.bounded
  have hsame := indifferent_confined store []
  unfold handle
  split
  · exact leads_asked _ _ _ _ keeps_introduced
  · exact leads_noted _ _ _ fun _ _ => hkeep keeps_activated
  · exact leads_noted _ _ _ fun _ _ => hkeep keeps_shutDown
  · exact leads_noted _ _ _ fun item _ => hbound (keeps_textOpened item)
  · exact leads_noted _ _ _ fun change _ => hbound (keeps_textChanged change)
  · exact leads_noted _ _ _ fun uri _ => hkeep (keeps_lintAndPublish uri)
  · exact leads_noted _ _ _ fun uri _ => hbound (keeps_textClosed uri)
  · exact leads_noted _ _ _ fun n hn => leads_notebookOpened n (h.opens rfl n hn)
  · exact leads_noted _ _ _ fun n hn => leads_notebookChanged n (h.closes rfl n hn)
  · exact leads_noted _ _ _ fun uri _ => hkeep (keeps_lintAndPublish uri)
  · exact leads_noted _ _ _ fun uri _ => hbound (keeps_notebookClosed uri)
  · exact leads_noted _ _ _ fun value _ => hkeep (keeps_settingsChanged value)
  · exact leads_executed params
  · exact leads_asked _ _ _ _ hsame.codeActions
  · exact leads_asked _ _ _ _ hsame.resolve
  · exact leads_asked _ _ _ _ hsame.format
  · exact leads_asked _ _ _ _ hsame.format
  · exact leads_asked _ _ _ _ hsame.hover
  · exact hkeep (.pure _)

/-- What happens to a session: the editor sends a message, which is answered before the next, or the
machine changes, its programs included. -/
inductive Happening where
  | message (method : String) (params : Tree)
  | machine (change : Host → Host)

/-- A session after something has happened, unless that has ended the program. -/
def after? (s : Session) : Happening → Option Session
  | .message method params => ((handle method params).run s).map Prod.snd
  | .machine change =>
    let toolbox := s.linter.toolbox
    some { s with
      linter := { s.linter with toolbox := { toolbox with host := change toolbox.host } } }

def afterAll? (s : Session) (happenings : List Happening) : Option Session :=
  happenings.foldlM after? s

/-- The editor heeds the protocol in what it sends. -/
def HeedsOne (s : Session) : Happening → Prop
  | .message method params => Heeds s.documents method params
  | .machine _ => True

def HeedsAll : Session → List Happening → Prop
  | _, [] => True
  | s, h :: rest => s.HeedsOne h ∧
    match s.after? h with
    | none => True
    | some t => t.HeedsAll rest

instance (s : Session) : (h : Happening) → Decidable (s.HeedsOne h)
  | .message method params => inferInstanceAs (Decidable (Heeds s.documents method params))
  | .machine _ => .isTrue trivial

instance decidableHeedsAll : (s : Session) → (happenings : List Happening) →
    Decidable (s.HeedsAll happenings)
  | _, [] => .isTrue trivial
  | s, h :: rest =>
    match hafter : s.after? h with
    | none => decidable_of_iff (s.HeedsOne h) (by simp [HeedsAll, hafter])
    | some t =>
      have := decidableHeedsAll t rest
      decidable_of_iff (s.HeedsOne h ∧ t.HeedsAll rest) (by simp [HeedsAll, hafter])

theorem bounded_ofToolbox (toolbox : Toolbox) : Bounded [] (ofToolbox toolbox) :=
  ⟨rfl, fun _ _ => rfl, fun _ hu => absurd rfl hu⟩

theorem Bounded.after {s t : Session} (hs : Bounded [] s) (h : Happening)
    (hheeds : s.HeedsOne h) (ht : s.after? h = some t) : Bounded [] t := by
  cases h with
  | message method params =>
    obtain ⟨⟨answer, t⟩, hrun, rfl⟩ := Option.map_eq_some_iff.1 ht
    exact (leads_handle method params hheeds).of_run hs hrun
  | machine change =>
    obtain rfl := Option.some.inj ht
    exact ⟨rfl, hs.silent, hs.within⟩

theorem Bounded.afterAll {s t : Session} (hs : Bounded [] s) (happenings : List Happening)
    (hheeds : s.HeedsAll happenings) (ht : s.afterAll? happenings = some t) : Bounded [] t := by
  induction happenings generalizing s with
  | nil =>
    obtain rfl := Option.some.inj ht
    exact hs
  | cons h rest ih =>
    rw [afterAll?, List.foldlM_cons] at ht
    obtain ⟨next, hnext, hrest⟩ := Option.bind_eq_some_iff.1 ht
    obtain ⟨hone, hall⟩ := hheeds
    rw [hnext] at hall
    exact ih (hs.after h hone hnext) hall hrest

/-- Whatever tools do and whatever settings are put in force: diagnostics are shown for a name only
while a text is open under it, or an open notebook lists it. -/
theorem shown_only_open (toolbox : Toolbox) (happenings : List Happening)
    (h : (ofToolbox toolbox).HeedsAll happenings) (t : Session)
    (ht : (ofToolbox toolbox).afterAll? happenings = some t) (u : Url) (hshown : t.shown u ≠ []) :
    (t.documents.text? u).isSome = true ∨
      ∃ n, t.documents.isNotebook n = true ∧ u ∈ t.documents.listed n := by
  have hbounded := (bounded_ofToolbox toolbox).afterAll happenings h ht
  rcases hbounded.within u hshown with (htext | ⟨n, hn⟩) | hnone
  · refine .inl ?_
    rw [Store.text?, Option.isSome_map]
    exact htext
  · exact .inr ⟨n, (Table.mem_keys _ n).1 (Store.mem_keys_of_mem_listed hn), hn⟩
  · cases hnone

def findingSession : Session :=
  ofToolbox (ofTool (printing "[[null,\"m\",[1,1],[1,2]]]")).linter.toolbox

/-- A cell of a notebook and its text, as an editor names and opens them. -/
def cellTrees (name : String) : Tree × Tree :=
  (.object [("kind", .number (.int 2)), ("document", .text name)],
    .object [("uri", .text name), ("languageId", .text "python"), ("version", .number (.int 1)),
      ("text", .text "y")])

/-- The editor introduces itself, opens a notebook with two cells, and takes the first one out. -/
def shrinkingRun : List Happening :=
  let name (version : Int) : List (String × Tree) :=
    [("uri", .text "file:///nb.ipynb"), ("version", .number (.int version))]
  let first := cellTrees "cell:a"
  let second := cellTrees "cell:b"
  [.message "initialize" (.object [("capabilities", .object [])]),
    .message "notebookDocument/didOpen" (.object
      [("notebookDocument", .object (name 1 ++ [("cells", .array [first.1, second.1])])),
        ("cellTextDocuments", .array [first.2, second.2])]),
    .message "notebookDocument/didChange" (.object
      [("notebookDocument", .object (name 2)),
        ("change", .object [("cells", .object [("structure", .object
          [("array", .object [("start", .number (.int 0)), ("deleteCount", .number (.int 1))]),
            ("didClose", .array [.object [("uri", .text "cell:a")]])])])])])]

def stayingCell : Url := ⟨"cell", none, .rootless "b", none, none⟩

theorem shrinkingRun_only_open :
    findingSession.HeedsAll shrinkingRun ∧
    ∃ before t, findingSession.afterAll? (shrinkingRun.take 2) = some before ∧
      findingSession.afterAll? shrinkingRun = some t ∧
      before.shown turnedCell ≠ [] ∧ t.shown turnedCell = [] ∧ t.shown stayingCell ≠ [] ∧
      ((t.documents.text? stayingCell).isSome = true ∨
        ∃ n, t.documents.isNotebook n = true ∧ stayingCell ∈ t.documents.listed n) := by
  have hheeds : findingSession.HeedsAll shrinkingRun := by decide +kernel
  have hbefore : (findingSession.afterAll? (shrinkingRun.take 2)).map
      (fun t => (t.shown turnedCell).length) = some 1 := by decide +kernel
  have hafter : (findingSession.afterAll? shrinkingRun).map
      (fun t => ((t.shown turnedCell).length, (t.shown stayingCell).length)) = some (0, 1) := by
    decide +kernel
  obtain ⟨before, hrunBefore, hbefore⟩ := Option.map_eq_some_iff.1 hbefore
  obtain ⟨t, hrun, hafter⟩ := Option.map_eq_some_iff.1 hafter
  obtain ⟨hgone, hstays⟩ := Prod.mk.inj hafter
  have hshown : t.shown stayingCell ≠ [] := List.ne_nil_of_length_eq_add_one hstays
  exact ⟨hheeds, before, t, hrunBefore, hrun, List.ne_nil_of_length_eq_add_one hbefore,
    List.length_eq_zero_iff.1 hgone, hshown,
    shown_only_open _ shrinkingRun hheeds t hrun stayingCell hshown⟩

end LintBridge.Session
