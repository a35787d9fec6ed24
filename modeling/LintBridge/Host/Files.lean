import LintBridge.Path
import LintBridge.Table

/-!
The files of a machine.

A file system is a tree of directories without links. A path is followed step by step from the root,
or from the current directory if it is relative; each step but the last must end in a directory, and
a path that ends in a slash must as well.
-/

namespace LintBridge

structure Invocation where
  args : List String
  input : String
  deriving DecidableEq, Repr, Inhabited

/-- What a program does: what it prints, the code it ends with (none if a signal ends it), and
whether it reads its input. -/
structure Outcome where
  stdout : List UInt8
  stderr : List UInt8
  code : Option Int
  readsInput : Bool
  deriving DecidableEq, Repr, Inhabited

/-- A program answers each invocation. -/
abbrev Program := Invocation → Outcome

/-- A file: when it was last modified, whether it may be executed, and the program it holds, if it
holds one. -/
structure File where
  modified : Int
  executable : Bool
  program : Option Program

inductive Node where
  | directory
  | file (f : File)

/-- The nodes below the root, by the names on the way to them. -/
structure FileSystem where
  nodes : Table (List String) Node

namespace FileSystem

def empty : FileSystem := ⟨.empty⟩

def node? (fs : FileSystem) (place : List String) : Option Node :=
  if place = [] then some .directory else fs.nodes.get? place

def isDirectory (fs : FileSystem) (place : List String) : Bool :=
  match fs.node? place with
  | some .directory => true
  | _ => false

def walk? (fs : FileSystem) : List String → List (List Char) → Option (List String)
  | place, [] => some place
  | place, piece :: rest =>
    if fs.isDirectory place then
      if piece = [] ∨ piece = ['.'] then walk? fs place rest
      else if piece = ['.', '.'] then walk? fs place.dropLast rest
      else walk? fs (place ++ [String.ofList piece]) rest
    else none

def find? (fs : FileSystem) (start : List String) (p : Path) : Option (List String × Node) := do
  if p.text = "" then none
  else
    let place ← fs.walk? (if p.isAbsolute then [] else start) p.pieces
    let node ← fs.node? place
    return (place, node)

def pathOf (place : List String) : Path :=
  ⟨if place = [] then "/" else String.join (place.map ("/" ++ ·))⟩

/-- The names on the way to a path from the root, which are taken as they are. -/
def placeOf (p : Path) : List String :=
  p.components.filterMap fun
    | .name s => some s
    | _ => none

def makeDirectories (fs : FileSystem) (place : List String) : FileSystem :=
  (List.range place.length).foldl (fun fs n =>
    let here := place.take (n + 1)
    match fs.nodes.get? here with
    | none => ⟨fs.nodes.insert here .directory⟩
    | some _ => fs) fs

def put (fs : FileSystem) (place : List String) (node : Node) : FileSystem :=
  ⟨(fs.makeDirectories place.dropLast).nodes.insert place node⟩

def remove (fs : FileSystem) (place : List String) : FileSystem :=
  ⟨fs.nodes.filter fun p _ => !place.isPrefixOf p⟩

end FileSystem
end LintBridge
