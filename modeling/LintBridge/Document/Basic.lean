import LintBridge.Url.Basic
import LintBridge.Text.Blank

/-!
The documents that the tool is run on: a text, a notebook, or one cell of a notebook.
-/

namespace LintBridge

inductive CellKind where
  | code
  | markup
  deriving DecidableEq, Repr, Inhabited

/-- A place in a notebook: which text stands there, and of what kind. -/
structure CellSlot where
  uri : Url
  kind : CellKind
  deriving DecidableEq, Repr, Inhabited

structure Cell where
  uri : Url
  kind : CellKind
  source : String
  version : Option Int
  deriving DecidableEq, Repr, Inhabited

def Cell.isCode (c : Cell) : Bool := c.kind == .code

/-- A document that the tool is run on. The path of a single cell is that of its notebook. -/
inductive Document where
  | text (uri : Url) (path : Path) (source : String) (version : Option Int)
  | notebook (uri : Url) (path : Path) (version : Option Int) (cells : List Cell)
  | cell (path : Path) (cell : Cell)
  deriving DecidableEq, Repr, Inhabited

namespace Document

def uri : Document → Url
  | .text uri .. => uri
  | .notebook uri .. => uri
  | .cell _ c => c.uri

def path : Document → Path
  | .text _ path .. => path
  | .notebook _ path .. => path
  | .cell path _ => path

def version : Document → Option Int
  | .text _ _ _ version => version
  | .notebook _ _ version _ => version
  | .cell _ c => c.version

/-- Whether the document is a text, and not a notebook or a part of one. -/
def isText : Document → Bool
  | .text .. => true
  | _ => false

def isBlankText (s : String) : Bool := s.toList.all LintBridge.isBlank

/-- Whether the document holds nothing but white space; of a notebook, its code counts. -/
def isBlank : Document → Bool
  | .text _ _ source _ => isBlankText source
  | .notebook _ _ _ cells => (cells.filter Cell.isCode).all fun c => isBlankText c.source
  | .cell _ c => isBlankText c.source

end Document
end LintBridge
