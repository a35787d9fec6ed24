import LintBridge.Toolbox.Basic
import LintBridge.Host.Expansion
import LintBridge.Json.Decode
import LintBridge.Json.Reader
import LintBridge.Settings.Resolved

/-!
What interpreters say about where they keep programs and libraries. Each is asked once; that it gave
no answer is remembered as well.
-/

namespace LintBridge

open Json (Tree)

/-- The question to an interpreter, in the interpreter's own language. -/
def interpreterQuestion : String :=
  "import json, site, sysconfig; p = sysconfig.get_paths(); print(json.dumps(\x7b'scripts': " ++
    "p['scripts'], 'library': [v for k, v in p.items() if k not in ('data', 'platdata', " ++
    "'scripts')] + list(getattr(site, 'getsitepackages', list)())\x7d))"

def InterpreterInfo.ofTree? (t : Tree) : Option InterpreterInfo := do
  let slot ← t.slots? ["scripts", "library"]
  let path (t : Tree) : Option Path := t.text?.map Path.mk
  return ⟨← (slot "scripts").required path, ← (slot "library").orElse [] (Tree.list? path)⟩

/-- The answer in what an interpreter did, if it ended well. -/
def InterpreterInfo.ofOutcome? (o : Outcome) : Option InterpreterInfo :=
  if o.code = some 0 then (Json.readOctets? o.stdout).bind ofTree? else none

namespace Toolbox

def interpreterInfo (interpreter : String) : StateM Toolbox (Option InterpreterInfo) := do
  let box ← get
  match box.interpreters.get? interpreter with
  | some known => return known
  | none =>
    let outcome ← ask (Expansion.path box.host interpreter) ["-c", interpreterQuestion]
    let info := outcome.bind InterpreterInfo.ofOutcome?
    modify fun box => { box with interpreters := box.interpreters.insert interpreter info }
    return info

/-- The interpreter that counts: the first one in the settings, else the one in the search path. -/
def interpreter? (box : Toolbox) (settings : WorkspaceSettings) : Option String :=
  match settings.interpreter with
  | first :: _ => some first
  | [] => ((box.host.which? "python3") <|> (box.host.which? "python")).map Path.text

def libraryPaths (settings : WorkspaceSettings) : StateM Toolbox (List Path) := do
  let box ← get
  match box.interpreter? settings with
  | none => return []
  | some interpreter =>
    let info ← interpreterInfo interpreter
    return (info.map InterpreterInfo.library).getD []

end Toolbox
end LintBridge
