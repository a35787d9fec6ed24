import LintBridge.Host.Files

/-!
The machine that the tool runs on: its files, the environment, and the current directory.
-/

namespace LintBridge

/-- A machine as one of its processes sees it. -/
structure Host where
  files : FileSystem
  env : Table String String
  cwd : List String

namespace Host

/-- The value of a variable of the environment. -/
def valueOf? (h : Host) (name : String) : Option String := h.env.get? name

def node? (h : Host) (p : Path) : Option Node := (h.files.find? h.cwd p).map Prod.snd

def pathExists (h : Host) (p : Path) : Bool := (h.node? p).isSome

def canonical? (h : Host) (p : Path) : Option Path :=
  (h.files.find? h.cwd p).map fun (place, _) => FileSystem.pathOf place

/-- The home directory, unless its variable is empty. -/
def home? (h : Host) : Option Path :=
  ((h.valueOf? "HOME").filter (· != "")).map Path.mk

/-- A directory of the search path with a `~` at its start replaced by the home directory. -/
def withHome (h : Host) (p : Path) : Path :=
  match p.components with
  | .name "~" :: rest =>
    rest.foldl (fun p c =>
      match c with
      | .name s => p.join s
      | .up => p.join ".."
      | _ => p) (h.home?.getD ⟨""⟩)
  | _ => p

def searchPath (h : Host) : List Path :=
  match h.valueOf? "PATH" with
  | none => []
  | some text => (splitAtChar ':' text.toList).map fun dir => ⟨String.ofList dir⟩

def isExecutable (h : Host) (p : Path) : Bool :=
  match h.node? p with
  | some (.file f) => f.executable
  | _ => false

/-- The first file of a name in the search path that may be executed. -/
def which? (h : Host) (name : String) : Option Path :=
  (h.searchPath.map fun dir => (h.withHome dir).join name).find? h.isExecutable

def programAt? (h : Host) (dir : List String) (p : Path) : Option Program :=
  match h.files.find? dir p with
  | some (_, .file f) => if f.executable then f.program else none
  | _ => none

/-- The directory that a program is started in: the given one, which has to be there, or the current
one. -/
def startDirectory? (h : Host) : Option Path → Option (List String)
  | none => some h.cwd
  | some p =>
    match h.files.find? h.cwd p with
    | some (place, .directory) => some place
    | _ => none

/-- The program that a name or path starts in a directory, and the path it is started by. A name
without a slash is searched for; a path is followed from the directory. -/
def startable? (h : Host) (dir : List String) (p : Path) : Option (Path × Program) :=
  if p.text = "" then none
  else if p.text.toList.contains '/' then (h.programAt? dir p).map ((p, ·))
  else
    (h.searchPath.map fun d => d.join p.text).findSome? fun candidate =>
      (h.programAt? dir candidate).map ((candidate, ·))

end Host
end LintBridge
