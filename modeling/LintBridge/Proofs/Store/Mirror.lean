import LintBridge.Proofs.Text.Splice
import LintBridge.Store

/-!
The store follows the editor.

A user edits a text, and the editor reports each edit as a change of a range, or of the whole text,
in calls of one or more changes. The positions of a range are those of the text as it was before
that edit, so each change means something only if all changes before it came out right. The columns
of the places that are reported have to be less than the greatest count.

* `applyAll?_reports`: the changes that report a list of edits turn the text as it was before the
  edits into the text as it is after them;
* `Store.changeText?_reports`: so does one call, which also writes the version;
* `Store.mirrors_editor`: after each call the open text is the text in the editor.
-/

namespace LintBridge

/-! ## Edits of a user -/

/-- An edit of a user: of what stands between two places, counted in characters, or of all. -/
inductive UserEdit where
  | between (start stop : Nat) (new : String)
  | whole (new : String)
  deriving DecidableEq, Repr

/-- Whether a place, counted in characters, is one of a text and not inside a terminator, and its
column less than the greatest count. -/
def IsPlace (text : List Char) (place : Nat) : Prop :=
  place ≤ text.length ∧ ¬ Meets (text.take place) (text.drop place) ∧
    (positionAfter (text.take place)).character < maxCount

instance (text : List Char) (place : Nat) : Decidable (IsPlace text place) :=
  inferInstanceAs (Decidable (_ ∧ _))

namespace UserEdit

/-- Whether an edit is one of a text: its places are places of the text, in their order. -/
def Valid (text : List Char) : UserEdit → Prop
  | .between start stop _ => start ≤ stop ∧ IsPlace text start ∧ IsPlace text stop
  | .whole _ => True

instance (text : List Char) (edit : UserEdit) : Decidable (edit.Valid text) :=
  match edit with
  | .between _ _ _ => inferInstanceAs (Decidable (_ ∧ _ ∧ _))
  | .whole _ => .isTrue trivial

def after (text : List Char) : UserEdit → List Char
  | .between start stop new => text.take start ++ new.toList ++ text.drop stop
  | .whole new => new.toList

def report (text : List Char) : UserEdit → ContentChange
  | .between start stop new =>
    ⟨some ⟨positionAfter (text.take start), positionAfter (text.take stop)⟩, new⟩
  | .whole new => ⟨none, new⟩

def afterAll (text : List Char) (edits : List UserEdit) : List Char := edits.foldl after text

/-- Whether each edit is one of the text that the edits before it leave. -/
def AllValid : List Char → List UserEdit → Prop
  | _, [] => True
  | text, edit :: rest => edit.Valid text ∧ AllValid (edit.after text) rest

def reports : List Char → List UserEdit → List ContentChange
  | _, [] => []
  | text, edit :: rest => edit.report text :: reports (edit.after text) rest

instance decidableAllValid : (text : List Char) → (edits : List UserEdit) →
    Decidable (AllValid text edits)
  | _, [] => .isTrue trivial
  | text, edit :: rest =>
    have := decidableAllValid (edit.after text) rest
    inferInstanceAs (Decidable (_ ∧ _))

end UserEdit

/-- The edits that one call reports, and the version of the text after them. -/
structure EditorCall where
  version : Int
  edits : List UserEdit
  deriving DecidableEq, Repr

namespace EditorCall

/-- Whether each call reports edits of the text that the calls before it leave. -/
def AllValid : List Char → List EditorCall → Prop
  | _, [] => True
  | text, call :: rest =>
    UserEdit.AllValid text call.edits ∧ AllValid (UserEdit.afterAll text call.edits) rest

instance decidableAllValid : (text : List Char) → (calls : List EditorCall) →
    Decidable (AllValid text calls)
  | _, [] => .isTrue trivial
  | text, call :: rest =>
    have := decidableAllValid (UserEdit.afterAll text call.edits) rest
    inferInstanceAs (Decidable (_ ∧ _))

def reports : List Char → List EditorCall → List (Int × List ContentChange)
  | _, [] => []
  | text, call :: rest =>
    (call.version, UserEdit.reports text call.edits) ::
      reports (UserEdit.afterAll text call.edits) rest

def texts : List Char → List EditorCall → List OpenText
  | _, [] => []
  | text, call :: rest =>
    let text := UserEdit.afterAll text call.edits
    ⟨String.ofList text, call.version⟩ :: texts text rest

end EditorCall

/-- What is open under a name after each call; none if a call finds no text under it, or gives no
text. -/
def Store.changeEach? (s : Store) (uri : Url) :
    List (Int × List ContentChange) → Option (List OpenText)
  | [] => some []
  | (version, changes) :: rest => do
    let (found, s) ← s.changeText? uri version changes
    if found then
      let entry ← s.texts.get? uri
      let later ← s.changeEach? uri rest
      return entry :: later
    else none

/-! ## One edit -/

theorem textBefore_place (text : List Char) (place : Nat) (h : IsPlace text place) :
    textBefore text (positionAfter (text.take place)) = text.take place := by
  have hbefore := textBefore_positionAfter (text.take place) (text.drop place) h.2.1
  rw [List.take_append_drop] at hbefore
  exact hbefore

theorem applyAll?_report (text : List Char) (edit : UserEdit) (more : List ContentChange)
    (h : edit.Valid text) :
    ContentChange.applyAll? (edit.report text :: more) text =
      ContentChange.applyAll? more (edit.after text) := by
  cases edit with
  | whole new => rfl
  | between start stop new =>
    obtain ⟨hle, hstart, hstop⟩ := h
    -- The text is what stands before, between and after the two places.
    have htake : text.take stop = text.take start ++ (text.take stop).drop start := by
      have hcut := List.take_append_drop start (text.take stop)
      rw [List.take_take, Nat.min_eq_left hle] at hcut
      exact hcut.symm
    have htext : text = text.take start ++ ((text.take stop).drop start ++ text.drop stop) := by
      rw [← List.append_assoc, ← htake, List.take_append_drop]
    have hsplice := splice?_offsets text _ _ _ new.toList
      ⟨positionAfter (text.take start), positionAfter (text.take stop)⟩ htext
      (textBefore_place text start hstart) ((textBefore_place text stop hstop).trans htake)
    have hcounted : Range.Counted text
        ⟨positionAfter (text.take start), positionAfter (text.take stop)⟩ :=
      ⟨counted_of_lt text _ hstart.2.2, counted_of_lt text _ hstop.2.2⟩
    simp only [UserEdit.report, UserEdit.after, ContentChange.applyAll?, Range.offsets?_eq,
      if_pos hcounted, Option.bind_eq_bind, Option.bind_some, hsplice]

/-! ## All edits -/

theorem applyAll?_reports (text : List Char) (edits : List UserEdit)
    (h : UserEdit.AllValid text edits) :
    ContentChange.applyAll? (UserEdit.reports text edits) text =
      some (UserEdit.afterAll text edits) := by
  induction edits generalizing text with
  | nil => rfl
  | cons edit rest ih =>
    rw [UserEdit.reports, applyAll?_report text edit _ h.1, ih _ h.2]
    rfl

theorem Store.changeText?_reports (s : Store) (uri : Url) (text : List Char) (old : Int)
    (call : EditorCall) (hopen : s.texts.get? uri = some ⟨String.ofList text, old⟩)
    (h : UserEdit.AllValid text call.edits) :
    s.changeText? uri call.version (UserEdit.reports text call.edits) =
      some (true, s.openText uri (String.ofList (UserEdit.afterAll text call.edits))
        call.version) := by
  simp [changeText?, hopen, applyAll?_reports text call.edits h]

theorem Store.get?_openText (s : Store) (uri : Url) (text : String) (version : Int) :
    (s.openText uri text version).texts.get? uri = some ⟨text, version⟩ := by
  simp [openText]

/-- Calls on an open text keep it what it is in the editor. -/
theorem Store.changeEach?_reports (s : Store) (uri : Url) (text : List Char) (old : Int)
    (calls : List EditorCall) (hopen : s.texts.get? uri = some ⟨String.ofList text, old⟩)
    (h : EditorCall.AllValid text calls) :
    s.changeEach? uri (EditorCall.reports text calls) = some (EditorCall.texts text calls) := by
  induction calls generalizing s text old with
  | nil => rfl
  | cons call rest ih =>
    have hnow := get?_openText s uri (String.ofList (UserEdit.afterAll text call.edits))
      call.version
    have hlater := ih _ _ _ hnow h.2
    rw [EditorCall.reports, changeEach?, changeText?_reports s uri text old call hopen h.1]
    simp [hnow, hlater, EditorCall.texts]

/-- From when a text is opened, what is open under its name after each call is what the editor
has, whatever the edits and however they are grouped into calls. -/
theorem Store.mirrors_editor (s : Store) (uri : Url) (text : String) (version : Int)
    (calls : List EditorCall) (h : EditorCall.AllValid text.toList calls) :
    (s.openText uri text version).changeEach? uri (EditorCall.reports text.toList calls) =
      some (EditorCall.texts text.toList calls) := by
  have hopen := get?_openText s uri text version
  have htext : text = String.ofList text.toList := String.ofList_toList.symm
  exact changeEach?_reports _ uri text.toList version calls (htext ▸ hopen) h

/-- Calls whose edits complete a terminator, replace a surrogate pair, and start over. -/
def threeCalls : List EditorCall :=
  [⟨2, [.between 2 3 "", .between 2 2 "\n"]⟩, ⟨3, [.between 3 4 "é"]⟩,
    ⟨5, [.whole "", .between 0 0 "y\n"]⟩]

theorem Store.mirrors_threeCalls :
    EditorCall.AllValid "x\rb😀".toList threeCalls ∧
    (Store.empty.openText default "x\rb😀" 1).changeEach? default
        (EditorCall.reports "x\rb😀".toList threeCalls) =
      some [⟨"x\r\n😀", 2⟩, ⟨"x\r\né", 3⟩, ⟨"y\n", 5⟩] := by
  have hvalid : EditorCall.AllValid "x\rb😀".toList threeCalls := by decide +kernel
  have htexts : EditorCall.texts "x\rb😀".toList threeCalls =
      [⟨"x\r\n😀", 2⟩, ⟨"x\r\né", 3⟩, ⟨"y\n", 5⟩] := by decide +kernel
  refine ⟨hvalid, ?_⟩
  rw [mirrors_editor Store.empty default "x\rb😀" 1 threeCalls hvalid, htexts]

end LintBridge
