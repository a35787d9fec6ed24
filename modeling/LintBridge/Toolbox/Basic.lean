import LintBridge.Host.Basic
import LintBridge.Failure
import LintBridge.Text.Blank
import LintBridge.Text.Utf8

/-!
Running programs on a machine.

A `Toolbox` is a machine with the runs made on it so far, and with what has been learned about
programs: the versions of executables and what interpreters say about themselves.
-/

namespace LintBridge

/-- A run of a program, as the program itself saw it. A run without a current directory is a
question to an interpreter. -/
structure Run where
  program : Path
  args : List String
  cwd : Option Path
  /-- The input, if the program read it. -/
  input : Option String
  deriving DecidableEq, Repr, Inhabited

/-- What came of a run. A program that a signal ended has the code -1. -/
structure RunResult where
  stdout : List UInt8
  stderr : List UInt8
  code : Int
  deriving DecidableEq, Repr, Inhabited

namespace RunResult

def stdoutText (r : RunResult) : List Char := Utf8.decodeLossy r.stdout

/-- The error output as text, without white space at its ends. -/
def stderrText (r : RunResult) : List Char := trim (Utf8.decodeLossy r.stderr)

end RunResult

structure InterpreterInfo where
  /-- Where it keeps programs. -/
  scripts : Path
  /-- Where it keeps libraries. -/
  library : List Path
  deriving DecidableEq, Repr, Inhabited

/-- The version of an executable, and when the executable was last modified at the time. A directory
has no such time that counts. -/
structure VersionStamp where
  version : Version
  modified : Option Int
  deriving DecidableEq, Repr, Inhabited

/-- A machine, the runs made on it, and what is known about its programs. -/
structure Toolbox where
  host : Host
  /-- The runs made so far, in their order. -/
  runs : List Run
  /-- An executable that came with the editor's extension. -/
  bundle : Option Path
  /-- The directory that the server itself lies in. -/
  installDir : Option Path
  /-- What the interpreters asked so far said, if they said anything of use. -/
  interpreters : Table String (Option InterpreterInfo)
  /-- The versions found so far, by the components of the paths. -/
  versions : Table (List Path.Component) VersionStamp

namespace Toolbox

def ofHost (host : Host) (bundle installDir : Option Path) : Toolbox :=
  ⟨host, [], bundle, installDir, .empty, .empty⟩

def run (program : Path) (args : List String) (cwd : Option Path) (input : String) :
    StateM Toolbox (Except Failure RunResult) := do
  let box ← get
  match box.host.startDirectory? cwd with
  | none => return .error (.notStarted program)
  | some dir =>
    match box.host.startable? dir program with
    | none => return .error (.notStarted program)
    | some (path, answer) =>
      let outcome := answer ⟨args, input⟩
      let record : Run :=
        ⟨path, args, some (FileSystem.pathOf dir), if outcome.readsInput then some input else none⟩
      set { box with runs := box.runs ++ [record] }
      return .ok ⟨outcome.stdout, outcome.stderr, outcome.code.getD (-1)⟩

/-- Asks a program a question in the current directory, without an input. -/
def ask (program : Path) (args : List String) : StateM Toolbox (Option Outcome) := do
  let box ← get
  match box.host.startable? box.host.cwd program with
  | none => return none
  | some (path, answer) =>
    let record : Run := ⟨path, args, none, none⟩
    set { box with runs := box.runs ++ [record] }
    return some (answer ⟨args, ""⟩)

end Toolbox
end LintBridge
