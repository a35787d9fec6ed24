import LintBridge.Capability
import LintBridge.Path
import LintBridge.Text.Quoted

/-!
Why a request to the tool failed, and what is said about it.
-/

namespace LintBridge

inductive Failure where
  /-- The version found does not support the operation. -/
  | unsupported (operation : Operation) (found : Version) (path : Path)
  | executableMissing (path : Path)
  | notStarted (path : Path)
  /-- The tool did not print a version. -/
  | versionUnknown (path : Path) (output : String)
  | toolFailed (code : Int) (stderr : String)
  | malformedOutput (reason : String)
  | outputNotJson
  | exchangeFailed
  deriving DecidableEq, Repr

namespace Failure

def message : Failure → String
  | .unsupported operation found path =>
    operation.label ++ " requires Ruff " ++ operation.requirement.render ++ ", but found " ++
      found.render ++ " at " ++ path.text
  | .executableMissing path => "Ruff executable not found at " ++ path.text
  | .notStarted path => "Failed to run " ++ path.text
  | .versionUnknown path output =>
    "Unable to determine Ruff version from " ++ path.text ++ ": " ++
      String.ofList (Quoted.quote output.toList)
  | .toolFailed code stderr => "Ruff exited with code " ++ toString code ++ ": " ++ stderr
  | .malformedOutput reason => "Unexpected Ruff output: " ++ reason
  | .outputNotJson => "Failed to parse Ruff output"
  | .exchangeFailed => "I/O error while running Ruff"

/-- Whether the user can do something about a failure and so should see it. -/
def isUserVisible : Failure → Bool
  | .unsupported .. | .toolFailed .. => true
  | _ => false

def isMissingExecutable : Failure → Bool
  | .executableMissing _ | .notStarted _ | .versionUnknown .. => true
  | _ => false

/-- Whether a failure means that the tool printed what cannot be read. -/
def isMalformedOutput : Failure → Bool
  | .malformedOutput _ | .outputNotJson => true
  | _ => false

end Failure

/-- Why a request ends before its answer: it failed, or a number outgrew its width in it. -/
inductive Stop where
  | failed (failure : Failure)
  | overflow
  deriving DecidableEq, Repr

/-- A failure stops a request. -/
instance : MonadLift (Except Failure) (Except Stop) := ⟨Except.mapError .failed⟩

/-- What has no result because a number outgrew its width stops a request. -/
def orOverflow {α : Type} : Option α → Except Stop α
  | some a => .ok a
  | none => .error .overflow

/-- Refuses an operation that a version of the tool at a path does not support. -/
def Capabilities.require (c : Capabilities) (operation : Operation) (path : Path) :
    Except Failure Unit :=
  if c.supports operation then .ok () else .error (.unsupported operation c.version path)

end LintBridge
