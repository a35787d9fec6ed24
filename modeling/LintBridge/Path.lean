import LintBridge.Text.Split

/-!
Paths of files.

A path is kept as it was written, but two paths are the same when their components are
(`Path.same`): repeated and final slashes and a `.` that is not the first component do not count,
while `..` does.
-/

namespace LintBridge

structure Path where
  text : String
  deriving DecidableEq, Repr, Inhabited

namespace Path

inductive Component where
  /-- The leading slash. -/
  | root
  /-- A `.` at the start of a relative path. -/
  | here
  /-- A `..`. -/
  | up
  | name (s : String)
  deriving DecidableEq, Repr, Inhabited

def pieces (p : Path) : List (List Char) :=
  splitAtChar '/' p.text.toList

def isAbsolute (p : Path) : Bool :=
  p.text.toList.head? == some '/'

/-- The component that a piece stands for, if it counts; `first` holds for the piece at the start
of the path. -/
def component? (first : Bool) (piece : List Char) : Option Component :=
  if piece = [] then none
  else if piece = ['.'] then (if first then some .here else none)
  else if piece = ['.', '.'] then some .up
  else some (.name (String.ofList piece))

def components (p : Path) : List Component :=
  match p.pieces with
  | [] => []
  | piece :: rest =>
    (if p.isAbsolute then [Component.root] else (component? true piece).toList) ++
      rest.filterMap (component? false)

/-- Whether two paths name the same place by their components. -/
def same (p q : Path) : Bool := decide (p.components = q.components)

/-- Whether a path lies under another one, or is the same. -/
def startsWith (p base : Path) : Bool :=
  base.components.isPrefixOf p.components

/-- Whether a piece counts as a component, given whether it is the first one. -/
def counts : Bool × List Char → Bool
  | (first, piece) => (component? first piece).isSome

/-- The pieces of a path, each with whether it is the first. -/
def markedPieces (p : Path) : List (Bool × List Char) :=
  match p.pieces with
  | [] => []
  | piece :: rest => (true, piece) :: rest.map ((false, ·))

/-- The path without its last component, cut off as it was written; the root and the empty path
have no parent. -/
def parent? (p : Path) : Option Path :=
  match p.markedPieces.reverse.dropWhile (!counts ·) with
  | [] => none
  | _ :: before =>
    match before.dropWhile (!counts ·) with
    | [] => some ⟨if p.isAbsolute then "/" else ""⟩
    | kept => some ⟨String.ofList (joinWith ['/'] (kept.reverse.map Prod.snd))⟩

/-- The path, its parent, the parent of that, and so on. A parent is a shorter text, so the length
of the text bounds their number. -/
def ancestorsUpTo : Nat → Path → List Path
  | 0, p => [p]
  | n + 1, p =>
    p :: match p.parent? with
      | none => []
      | some q => ancestorsUpTo n q

/-- The path and all paths above it, from the nearest on. -/
def ancestors (p : Path) : List Path :=
  ancestorsUpTo p.text.length p

/-- The path reached from `p` by `relative`: that path itself if it is absolute, else the two with
a slash between them unless `p` is empty or ends in one. -/
def join (p : Path) (relative : String) : Path :=
  if relative.toList.head? = some '/' then ⟨relative⟩
  else
    match p.text.toList.getLast? with
    | none => ⟨relative⟩
    | some '/' => ⟨p.text ++ relative⟩
    | some _ => ⟨p.text ++ "/" ++ relative⟩

end Path
end LintBridge
