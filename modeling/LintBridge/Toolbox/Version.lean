import LintBridge.Toolbox.Basic
import LintBridge.Version.Reading

/-!
The version of an executable. It is asked for once, and again when the file has been modified; an
answer that names no version is not kept.
-/

namespace LintBridge.Toolbox

/-- When what stands at a place was last modified. -/
def modifiedTime : Node → Option Int
  | .directory => none
  | .file f => some f.modified

/-- The version known for a path, if the file has not been modified since. -/
def knownVersion? (box : Toolbox) (p : Path) (modified : Option Int) : Option Version :=
  match box.versions.get? p.components with
  | some stamp => if stamp.modified = modified then some stamp.version else none
  | none => none

def versionIn (p : Path) (r : RunResult) : Except Failure Version :=
  match Version.find? r.stdoutText with
  | some v => .ok v
  | none => .error (.versionUnknown p (String.ofList (trim r.stdoutText)))

def rememberVersion (box : Toolbox) (p : Path) (stamp : VersionStamp) : Toolbox :=
  { box with versions := box.versions.insert p.components stamp }

/-- Asks an executable for its version, and keeps the answer with the time of modification. -/
def askVersion (p : Path) (modified : Option Int) : StateM Toolbox (Except Failure Version) := do
  match ← run p ["--version"] none "" with
  | .error failure => return .error failure
  | .ok result =>
    match versionIn p result with
    | .error failure => return .error failure
    | .ok v =>
      modify fun box => box.rememberVersion p ⟨v, modified⟩
      return .ok v

def version (p : Path) : StateM Toolbox (Except Failure Version) := do
  let box ← get
  match box.host.node? p with
  | none => return .error (.executableMissing p)
  | some node =>
    let modified := modifiedTime node
    match box.knownVersion? p modified with
    | some v => return .ok v
    | none => askVersion p modified

end LintBridge.Toolbox
