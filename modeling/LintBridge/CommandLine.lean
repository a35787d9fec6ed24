import LintBridge.Capability
import LintBridge.Path
import LintBridge.Text.Position

/-!
The arguments the tool is started with.

The user may add arguments of his own. Those that repeat or contradict what a request relies on are
left out, and a request for a single rule leaves out the user's choice of rules as well.
-/

namespace LintBridge.CommandLine

/-- User arguments that a request for findings leaves out. -/
def refusedByCheck : List String :=
  ["--force-exclude", "--no-cache", "--no-fix", "--quiet", "--diff", "--exit-non-zero-on-fix", "-e",
    "--exit-zero", "--fix", "--fix-only", "-h", "--help", "--no-force-exclude", "--show-files",
    "--show-fixes", "--show-settings", "--show-source", "--silent", "--statistics", "--verbose",
    "-w", "--watch"]

/-- User arguments that a request for formatted text leaves out. -/
def refusedByFormat : List String :=
  ["--force-exclude", "--quiet", "-h", "--help", "--no-force-exclude", "--silent", "--verbose"]

/-- The flags that choose rules; each takes the argument after it as its value. -/
def selectionFlags : List String :=
  ["--select", "--extend-select", "--ignore", "--extend-ignore"]

/-- Whether an argument is a flag that chooses rules together with its value. -/
def isJoinedSelection (arg : String) : Bool :=
  selectionFlags.any fun flag => (flag.toList ++ ['=']).isPrefixOf arg.toList

/-- The user arguments that stay when all rules are asked for. -/
def keepForAllRules (args : List String) : List String :=
  args.filter fun arg => !refusedByCheck.contains arg

/-- The user arguments that stay when one rule is asked for: no choice of rules, with the value
of a flag that takes one. -/
def keepForOneRule : List String → List String
  | [] => []
  | arg :: rest =>
    if refusedByCheck.contains arg then keepForOneRule rest
    else if selectionFlags.contains arg then
      match rest with
      | [] => []
      | _ :: after => keepForOneRule after
    else if isJoinedSelection arg then keepForOneRule rest
    else arg :: keepForOneRule rest

/-- The arguments that every request for findings starts with. The `-` stands for standard
input. -/
def checkStart (c : Capabilities) : List String :=
  (if c.checkCommand then ["check"] else []) ++
    ["--force-exclude", "--no-cache", "--no-fix", "--quiet", c.formatFlag.text, "json", "-"]

/-- The arguments of a request for findings or fixes: what it starts with, its own additions, what
stays of the user's, the one rule if there is one, and the name of the file. -/
def check (c : Capabilities) (user extra : List String) (only : Option String) (path : Path) :
    List String :=
  checkStart c ++ extra ++
    (match only with
      | none => keepForAllRules user
      | some rule => keepForOneRule user ++ ["--select", rule]) ++
    ["--stdin-filename", path.text]

/-- A place as the tool names it, which counts from one. -/
def place? (p : Position) : Option String := do
  let line ← counted? maxCount (p.line + 1)
  let character ← counted? maxCount (p.character + 1)
  return toString line ++ ":" ++ toString character

def rangeArgument? (r : Range) : Option String := do
  return "--range=" ++ (← place? r.start) ++ "-" ++ (← place? r.stop)

def format? (user : List String) (path : Path) (range : Option Range) : Option (List String) := do
  let named ← range.mapM rangeArgument?
  return ["format", "--force-exclude", "--quiet", "--stdin-filename", path.text] ++
    user.filter (fun arg => !refusedByFormat.contains arg) ++ named.toList

def explain (code : String) : List String := ["--explain", code]

end LintBridge.CommandLine
