/-!
The kinds of code actions.

A kind is a name of parts with dots between them; a kind contains those that continue its name. A
source action is about a whole document and goes by four kinds: a general one, one for this tool,
and the same two for whole notebooks.
-/

namespace LintBridge

structure ActionKind where
  text : String
  deriving DecidableEq, Repr, Inhabited

namespace ActionKind

def quickFix : ActionKind := ⟨"quickfix"⟩

/-- Whether a kind is another one or contains it. -/
def includes (filter kind : ActionKind) : Bool :=
  decide (kind = filter) || (filter.text.toList ++ ['.']).isPrefixOf kind.text.toList

/-- Whether an editor that asks for some kinds only asks for this one. -/
def isRequested (only : Option (List ActionKind)) (kind : ActionKind) : Bool :=
  match only with
  | none => true
  | some filters => filters.any (·.includes kind)

/-- Whether an action of a kind is about a whole notebook, and not about one of its cells. -/
def isForNotebook (kind : ActionKind) : Bool := "notebook.".toList.isPrefixOf kind.text.toList

end ActionKind

inductive SourceAction where
  | organizeImports
  | fixAll
  deriving DecidableEq, Repr, Inhabited

namespace SourceAction

def all : List SourceAction := [.organizeImports, .fixAll]

def title : SourceAction → String
  | .organizeImports => "Ruff: Organize Imports"
  | .fixAll => "Ruff: Fix All"

/-- The kind under which an action is offered when no kind was asked for. -/
def kind : SourceAction → ActionKind
  | .organizeImports => ⟨"source.organizeImports"⟩
  | .fixAll => ⟨"source.fixAll"⟩

def kinds : SourceAction → List ActionKind
  | .organizeImports =>
    [⟨"source.organizeImports"⟩, ⟨"source.organizeImports.ruff"⟩,
      ⟨"notebook.source.organizeImports"⟩, ⟨"notebook.source.organizeImports.ruff"⟩]
  | .fixAll =>
    [⟨"source.fixAll"⟩, ⟨"source.fixAll.ruff"⟩, ⟨"notebook.source.fixAll"⟩,
      ⟨"notebook.source.fixAll.ruff"⟩]

def ofKind? (kind : ActionKind) : Option SourceAction := all.find? (·.kinds.contains kind)

/-- The one action that is asked for, if the editor asks for exactly one kind and that names an
action. -/
def exclusive? : Option (List ActionKind) → Option (SourceAction × ActionKind)
  | some [kind] => (ofKind? kind).map (·, kind)
  | _ => none

end SourceAction

def ActionKind.supported : List ActionKind :=
  .quickFix :: (SourceAction.fixAll.kinds ++ SourceAction.organizeImports.kinds)

end LintBridge
