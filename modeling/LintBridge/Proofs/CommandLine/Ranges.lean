import Mathlib.Data.Nat.PSub
import LintBridge.CommandLine
import LintBridge.Proofs.Partial
import LintBridge.Proofs.Text.Split

/-!
The range that a request for formatted text names.

The tool counts lines and characters from one. `Range.fromOne` says so in plain numbers, and
`readRange?` reads an argument as the tool does, back to numbers that count from zero.

* `readRange?_rangeText`: an argument is read as a range exactly if its numbers are one more than
  those of the range;
* `format_names_range_iff`: the command line names the range of a request, and is there exactly if
  none of its numbers is the greatest count, which has no number after it in 32 bits.
-/

namespace LintBridge

def Position.fromOne (p : Position) : Position := ⟨p.line + 1, p.character + 1⟩

def Range.fromOne (r : Range) : Range := ⟨r.start.fromOne, r.stop.fromOne⟩

def Position.BelowGreatest (p : Position) : Prop := p.line < maxCount ∧ p.character < maxCount

/-- None of the numbers of a range is the greatest count. -/
def Range.BelowGreatest (r : Range) : Prop := r.start.BelowGreatest ∧ r.stop.BelowGreatest

instance (p : Position) : Decidable p.BelowGreatest := inferInstanceAs (Decidable (_ ∧ _))

instance (r : Range) : Decidable r.BelowGreatest := inferInstanceAs (Decidable (_ ∧ _))

namespace CommandLine

/-! ## Writing and reading -/

def placeText (p : Position) : String := toString p.line ++ ":" ++ toString p.character

def rangeText (r : Range) : String := "--range=" ++ placeText r.start ++ "-" ++ placeText r.stop

/-- Reads a number that counts from one as one that counts from zero. -/
def ofCount? (digits : List Char) : Option Nat :=
  if !digits.isEmpty && digits.all Char.isDigit then (Nat.ofDigitChars 10 digits 0).ppred
  else none

def readPlace? (text : List Char) : Option Position :=
  match splitAtChar ':' text with
  | [line, character] => do return ⟨← ofCount? line, ← ofCount? character⟩
  | _ => none

def readPlaces? (text : List Char) : Option Range :=
  match splitAtChar '-' text with
  | [start, stop] => do return ⟨← readPlace? start, ← readPlace? stop⟩
  | _ => none

def readRange? (argument : String) : Option Range :=
  match splitAtChar '=' argument.toList with
  | [flag, places] => if flag = "--range".toList then readPlaces? places else none
  | _ => none

theorem isDigit_of_mem_toString (n : Nat) : ∀ c ∈ (toString n).toList, c.isDigit = true := by
  intro c hc
  rw [Nat.toString_eq_repr, Nat.toList_repr] at hc
  exact Nat.isDigit_of_mem_toDigits (by omega) (by omega) hc

theorem not_mem_toString (n : Nat) (c : Char) (hc : c.isDigit = false) :
    c ∉ (toString n).toList := fun hmem => by
  rw [isDigit_of_mem_toString n c hmem] at hc
  cases hc

theorem ofCount?_toString (n : Nat) : ofCount? (toString n).toList = n.ppred := by
  have hne : (toString n).toList.isEmpty = false := by
    rw [List.isEmpty_eq_false_iff, Nat.toString_eq_repr, Nat.toList_repr]
    exact Nat.toDigits_ne_nil
  have hall : (toString n).toList.all Char.isDigit = true :=
    List.all_eq_true.2 (isDigit_of_mem_toString n)
  rw [ofCount?, hne, hall, Nat.toString_eq_repr, Nat.toList_repr, Nat.ofDigitChars_ten_toDigits]
  rfl

theorem toList_placeText (p : Position) :
    (placeText p).toList = (toString p.line).toList ++ ':' :: (toString p.character).toList := by
  rw [placeText, String.toList_append, String.toList_append, List.append_assoc]
  rfl

theorem not_mem_placeText (p : Position) (c : Char) (hc : c.isDigit = false) (hcolon : c ≠ ':') :
    c ∉ (placeText p).toList := by
  rw [toList_placeText, List.mem_append, List.mem_cons]
  rintro (hline | hsame | hcharacter)
  · exact not_mem_toString _ c hc hline
  · exact hcolon hsame
  · exact not_mem_toString _ c hc hcharacter

theorem readPlace?_placeText (written p : Position) :
    readPlace? (placeText written).toList = some p ↔ written = p.fromOne := by
  have hsplit : splitAtChar ':' (placeText written).toList =
      [(toString written.line).toList, (toString written.character).toList] := by
    rw [toList_placeText, splitAtChar_append ':' _ _ (not_mem_toString _ _ rfl),
      splitAtChar_of_not_mem ':' _ (not_mem_toString _ _ rfl)]
  obtain ⟨line, character⟩ := p
  simp only [readPlace?, hsplit, ofCount?_toString, Option.bind_eq_bind, Option.bind_eq_some_iff,
    Nat.ppred_eq_some, Option.pure_def, Option.some.injEq, Position.mk.injEq]
  constructor
  · rintro ⟨_, hline, _, hcharacter, rfl, rfl⟩
    exact congr (congrArg Position.mk hline.symm) hcharacter.symm
  · rintro rfl
    exact ⟨line, rfl, character, rfl, rfl, rfl⟩

theorem readRange?_rangeText (written r : Range) :
    readRange? (rangeText written) = some r ↔ written = r.fromOne := by
  have hflag : (rangeText written).toList =
      "--range".toList ++ '=' :: ((placeText written.start).toList ++
        '-' :: (placeText written.stop).toList) := by
    simp [rangeText]
  have hequals : '=' ∉ (placeText written.start).toList ++
      '-' :: (placeText written.stop).toList := by
    rw [List.mem_append, List.mem_cons]
    rintro (hstart | hsame | hstop)
    · exact not_mem_placeText _ _ rfl (by decide) hstart
    · exact absurd hsame (by decide)
    · exact not_mem_placeText _ _ rfl (by decide) hstop
  have hplaces : splitAtChar '-' ((placeText written.start).toList ++
        '-' :: (placeText written.stop).toList) =
      [(placeText written.start).toList, (placeText written.stop).toList] := by
    rw [splitAtChar_append '-' _ _ (not_mem_placeText _ _ rfl (by decide)),
      splitAtChar_of_not_mem '-' _ (not_mem_placeText _ _ rfl (by decide))]
  rw [readRange?, hflag, splitAtChar_append '=' _ _ (by decide),
    splitAtChar_of_not_mem '=' _ hequals]
  obtain ⟨start, stop⟩ := r
  simp only [if_pos, readPlaces?, hplaces, Option.bind_eq_bind, Option.bind_eq_some_iff,
    readPlace?_placeText, Option.pure_def, Option.some.injEq, Range.mk.injEq]
  constructor
  · rintro ⟨_, hstart, _, hstop, rfl, rfl⟩
    exact congr (congrArg Range.mk hstart) hstop
  · rintro rfl
    exact ⟨start, rfl, stop, rfl, rfl, rfl⟩

/-! ## The request -/

theorem place?_eq (p : Position) :
    place? p = if p.BelowGreatest then some (placeText p.fromOne) else none := by
  rw [place?]
  exact bind₂_ite _ _ _ _ _

theorem rangeArgument?_eq (r : Range) :
    rangeArgument? r = if r.BelowGreatest then some (rangeText r.fromOne) else none := by
  rw [rangeArgument?, place?_eq, place?_eq]
  exact bind₂_ite _ _ _ _ _

/-- There is a command line for a formatted range exactly if no number of the range is the greatest
count. It starts as all requests for formatted text do, has what is not refused of the user's
arguments in their order, and ends with one argument, which names the range with each number counted
from one and is read back as the range. -/
theorem format_names_range_iff (user : List String) (path : Path) (r : Range) :
    format? user path (some r) =
      (if r.BelowGreatest then
        some (["format", "--force-exclude", "--quiet", "--stdin-filename", path.text] ++
          user.filter (fun arg => arg ∉ refusedByFormat) ++ [rangeText r.fromOne])
      else none) ∧
    readRange? (rangeText r.fromOne) = some r := by
  refine ⟨?_, (readRange?_rangeText r.fromOne r).2 rfl⟩
  rw [format?, Option.mapM_some, rangeArgument?_eq]
  split
  · simp
  · rfl

/-- The line before the greatest count is named. -/
example : format? ["--quiet", "-q"] ⟨"/w/a.py"⟩ (some ⟨⟨0, 0⟩, ⟨4294967294, 7⟩⟩) =
    some ["format", "--force-exclude", "--quiet", "--stdin-filename", "/w/a.py", "-q",
      "--range=1:1-4294967295:8"] := by decide +kernel

end CommandLine
end LintBridge
