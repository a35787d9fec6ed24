import LintBridge.Proofs.Answers
import LintBridge.Session.Documents

/-!
What the steps of a session do to it.

A request changes what the linter knows and nothing else, and breaks off if a number outgrows its
width in it (`onLinter_run`, `request_run`). Telling an editor that listens adds to what it has been
told and nothing else (`forM_sendIfConnected_run`); an editor that does not listen is told nothing
(`forM_sendIfConnected`).
`ofTool` is the least session in which a tool can be run.
-/

namespace LintBridge.Session

theorem onLinter_run {α : Type} (action : StateM Linter α) (s : Session) :
    (onLinter action).run s =
      some ((action.run s.linter).1, { s with linter := (action.run s.linter).2 }) := rfl

/-- What a session gets to know of how a request ended. -/
def replyOf? {α : Type} : Except Stop α → Option (Except Failure α)
  | .ok a => some (.ok a)
  | .error (.failed failure) => some (.error failure)
  | .error .overflow => none

theorem request_run {α : Type} (r : Request α) (s : Session) :
    (request r).run s =
      (replyOf? (r.run.run s.linter).1).map fun reply =>
        (reply, { s with linter := (r.run.run s.linter).2 }) := by
  rw [request, run_bind_of_eq_some (onLinter_run r.run s)]
  rcases (r.run.run s.linter).1 with (_ | _) | _ <;> rfl

theorem leads_request {α : Type} {K L : Linter → Prop} {r : Request α} (h : Leads K r.run L) :
    Leads (fun s : Session => K s.linter) (request r) fun s => L s.linter := by
  intro s hs
  rw [request_run]
  cases replyOf? (r.run.run s.linter).1 with
  | none => trivial
  | some reply => exact h s.linter hs

theorem tryDocuments_run {α : Type} (action? : Store → Option (α × Store)) (s : Session) :
    (tryDocuments action?).run s =
      (action? s.documents).map fun (a, documents) => (a, { s with documents }) := by
  rw [tryDocuments, run_get_bind]
  cases action? s.documents <;> rfl

theorem sendIfConnected_run (e : Event) (s : Session) (h : s.connected = true) :
    (sendIfConnected e).run s = some ((), { s with sent := s.sent ++ [e] }) := by
  unfold sendIfConnected
  rw [run_get_bind, if_pos h]
  rfl

theorem sendIfConnected_run_of_not_connected (e : Event) (s : Session) (h : s.connected = false) :
    (sendIfConnected e).run s = some ((), s) := by
  unfold sendIfConnected
  rw [run_get_bind, h]
  rfl

/-- An editor that listens is told some things one after the other. -/
theorem forM_sendIfConnected_run (events : List Event) (s : Session) (h : s.connected = true) :
    (events.forM sendIfConnected).run s = some ((), { s with sent := s.sent ++ events }) := by
  induction events generalizing s with
  | nil =>
    rw [List.append_nil]
    rfl
  | cons e rest ih =>
    have hrest := ih { s with sent := s.sent ++ [e] } h
    rw [List.append_assoc] at hrest
    exact (run_bind_of_eq_some (sendIfConnected_run e s h)).trans hrest

/-- An editor is told some things one after the other, if it listens. -/
theorem forM_sendIfConnected (events : List Event) (s : Session) :
    (events.forM sendIfConnected).run s =
      some ((), { s with sent := s.sent ++ if s.connected then events else [] }) := by
  by_cases hconnected : s.connected = true
  · rw [forM_sendIfConnected_run events s hconnected, if_pos hconnected]
  · have hsilent := sendIfConnected_run_of_not_connected
    rw [if_neg hconnected, List.append_nil]
    induction events with
    | nil => rfl
    | cons e rest ih =>
      exact (run_bind_of_eq_some (hsilent e s (Bool.eq_false_iff.2 hconnected))).trans ih

/-! ## A machine with one tool -/

/-- A tool that names its version when it is asked for it, and else prints one text. -/
def printing (text : String) : Program := fun call =>
  if call.args = ["--version"] then ⟨Utf8.encode "0.5.0".toList, [], some 0, false⟩
  else ⟨Utf8.encode text.toList, [], some 0, true⟩

/-- A session with an editor that listens, on a machine that holds a tool and nothing else. -/
def ofTool (tool : Program) : Session :=
  let host : Host := ⟨⟨⟨[(["ruff"], .file ⟨0, true, some tool⟩)]⟩⟩, .empty, []⟩
  { ofToolbox (.ofHost host (some ⟨"/ruff"⟩) none) with connected := true }

end LintBridge.Session
