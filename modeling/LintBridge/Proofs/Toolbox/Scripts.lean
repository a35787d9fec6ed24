import LintBridge.Proofs.Partial
import LintBridge.Proofs.Toolbox.Learning

/-!
What an interpreter has to print for its directory of programs to count.

`Host.reportedScripts?` says it by the document that was printed: the directory stands first in a
list or under its name in an object, it is a text, and the libraries, if they are given, are a list
of texts. `map_scripts_interpreterInfo` says that this is the directory of what is learned of the
interpreter.
-/

namespace LintBridge

open Json (Tree Slot)

namespace Json.Tree

def isTexts : Tree → Bool
  | .array items => items.all fun t => t.text?.isSome
  | _ => false

/-- The directory of programs in a report: before the libraries, which may be left out, or by name
among other things. -/
def scriptsIn? : Tree → Option String
  | .array [.text dir] => some dir
  | .array [.text dir, libraries] => if libraries.isTexts then some dir else none
  | .object fields =>
    match fields.filter (·.1 == "scripts"), fields.filter (·.1 == "library") with
    | [(_, .text dir)], [] => some dir
    | [(_, .text dir)], [(_, libraries)] => if libraries.isTexts then some dir else none
    | _, _ => none
  | _ => none

theorem isSome_list?_path (t : Tree) :
    (t.list? fun t => t.text?.map Path.mk).isSome = t.isTexts := by
  cases t with
  | array items =>
    rw [list?, isSome_mapM, isTexts]
    simp only [Option.isSome_map]
  | _ => rfl

end Json.Tree

/-- The directory where an interpreter says that it keeps programs, if it can be started, ends well
and prints a report. -/
def Host.reportedScripts? (h : Host) (interpreter : String) : Option Path :=
  match h.startable? h.cwd (Expansion.path h interpreter) with
  | none => none
  | some (_, answer) =>
    let outcome := answer ⟨["-c", interpreterQuestion], ""⟩
    match outcome.code, Json.readOctets? outcome.stdout with
    | some 0, some report => report.scriptsIn?.map Path.mk
    | _, _ => none

/-! ## What is learned of the interpreter -/

namespace InterpreterInfo

/-- The directory of programs by what is given for it and for the libraries. -/
def scriptsOf? : Slot → Slot → Option String
  | .given (.text dir), .given libraries => if libraries.isTexts then some dir else none
  | .given (.text dir), _ => some dir
  | _, _ => none

theorem map_scripts_of_slots (scripts library : Slot) :
    (do
      let path (t : Tree) : Option Path := t.text?.map Path.mk
      return (⟨← scripts.required path, ← library.orElse [] (Tree.list? path)⟩ :
        InterpreterInfo)).map InterpreterInfo.scripts =
      (scriptsOf? scripts library).map Path.mk := by
  cases scripts with
  | given t =>
    cases t with
    | text dir =>
      cases library with
      | given libraries =>
        have hlibraries := Tree.isSome_list?_path libraries
        simp only [Slot.required, Slot.orElse, scriptsOf?, ← hlibraries]
        cases libraries.list? fun t => t.text?.map Path.mk <;> rfl
      | _ => rfl
    | _ => cases library <;> rfl
  | _ => cases library <;> rfl

theorem map_scripts_ofTree? (t : Tree) :
    (ofTree? t).map InterpreterInfo.scripts = t.scriptsIn?.map Path.mk := by
  cases t with
  | array items =>
    rw [ofTree?, Tree.slots?]
    rcases items with _ | ⟨a, _ | ⟨b, _ | ⟨c, rest⟩⟩⟩
    · rfl
    · refine (map_scripts_of_slots (.given a) .missing).trans ?_
      cases a <;> rfl
    · refine (map_scripts_of_slots (.given a) (.given b)).trans ?_
      cases a <;> rfl
    · simp [Tree.scriptsIn?]
  | object fields =>
    have hgiven (n : String) : fields.find? (·.1 == n) = (fields.filter (·.1 == n)).head? :=
      List.head?_filter.symm
    have hslots : (Tree.object fields).slots? ["scripts", "library"] =
      (Tree.object fields).objectSlots? ["scripts", "library"] := rfl
    rw [ofTree?, hslots, Tree.objectSlots?, Tree.scriptsIn?]
    simp only [hgiven, List.all_cons, List.all_nil, Bool.and_true, Bool.and_eq_true,
      decide_eq_true_eq]
    -- A name that stands twice is refused by the slots and matched by no case of the report.
    by_cases hone : (fields.filter (·.1 == "scripts")).length ≤ 1 ∧
        (fields.filter (·.1 == "library")).length ≤ 1
    · rw [if_pos hone]
      refine (map_scripts_of_slots _ _).trans ?_
      dsimp only
      generalize fields.filter (·.1 == "scripts") = scripts at hone ⊢
      generalize fields.filter (·.1 == "library") = library at hone ⊢
      rcases scripts with _ | ⟨⟨_, a⟩, _ | _⟩ <;> rcases library with _ | ⟨⟨_, b⟩, _ | _⟩ <;>
        first
        | rfl
        | cases a <;> rfl
        | simp at hone
    · rw [if_neg hone]
      generalize fields.filter (·.1 == "scripts") = scripts at hone ⊢
      generalize fields.filter (·.1 == "library") = library at hone ⊢
      rcases scripts with _ | ⟨⟨_, a⟩, _ | _⟩ <;> rcases library with _ | ⟨⟨_, b⟩, _ | _⟩ <;>
        simp at hone ⊢
  | _ => rfl

end InterpreterInfo

theorem Host.map_scripts_interpreterInfo (h : Host) (interpreter : String) :
    (h.interpreterInfo interpreter).map InterpreterInfo.scripts =
      h.reportedScripts? interpreter := by
  unfold Host.interpreterInfo Host.reportedScripts? Host.asked
  cases h.startable? h.cwd (Expansion.path h interpreter) with
  | none => rfl
  | some started =>
    obtain ⟨_, answer⟩ := started
    simp only [Option.map_some, Option.bind_some]
    generalize answer ⟨["-c", interpreterQuestion], ""⟩ = outcome
    rw [InterpreterInfo.ofOutcome?]
    split
    next hcode =>
      rw [hcode, Option.map_bind]
      cases Json.readOctets? outcome.stdout with
      | none => rfl
      | some report => exact InterpreterInfo.map_scripts_ofTree? report
    next hcode =>
      split
      next hzero _ => exact absurd hzero hcode
      next => rfl

end LintBridge
