import LintBridge.Version.Range
import LintBridge.Table

/-!
What each version of the tool can do.

An operation has a range of versions that support it. Some details of the command line and of the
output changed between versions as well; `Capabilities.ofVersion` collects them.
-/

namespace LintBridge

inductive Operation where
  | lint
  | fix
  | organizeImports
  | format
  | rangeFormat
  | explain
  deriving DecidableEq, Repr, Inhabited

namespace Operation

def requirement : Operation → VersionRange
  | .lint | .fix | .organizeImports | .explain => .since (.release 0 0 189)
  | .format => .since (.release 0 0 291)
  | .rangeFormat => .since (.release 0 2 1)

def label : Operation → String
  | .lint => "Linting"
  | .fix => "Fixing"
  | .organizeImports => "Organizing imports"
  | .format => "Formatting"
  | .rangeFormat => "Range formatting"
  | .explain => "Explaining rules"

end Operation

inductive FormatFlag where
  | format
  | outputFormat
  deriving DecidableEq, Repr, Inhabited

def FormatFlag.text : FormatFlag → String
  | .format => "--format"
  | .outputFormat => "--output-format"

/-- How a finding states its fix: as one edit, as a list of edits whose columns count from zero, or
as a list of edits whose columns count from one. -/
inductive FixSchema where
  | singleEdit
  | edits
  | editsOneBased
  deriving DecidableEq, Repr, Inhabited

/-- What a version of the tool can do, and how it is spoken to. -/
structure Capabilities where
  version : Version
  /-- Whether findings are asked for by a command of their own. -/
  checkCommand : Bool
  formatFlag : FormatFlag
  fixSchema : FixSchema
  /-- Whether the tool reads notebooks and says which cell a finding is in. -/
  cellAttribution : Bool
  /-- Whether a syntax error is a finding without a code, and never one with a code. -/
  uncodedSyntaxErrors : Bool
  deriving DecidableEq, Repr, Inhabited

namespace Capabilities

/-- The capabilities of a version. -/
def ofVersion (v : Version) : Capabilities where
  version := v
  checkCommand := v.atLeast (.release 0 0 238)
  formatFlag := if v.atLeast (.release 0 0 291) then .outputFormat else .format
  fixSchema :=
    if v.atLeast (.release 0 0 266) then .editsOneBased
    else if v.atLeast (.release 0 0 260) then .edits
    else .singleEdit
  cellAttribution := v.atLeast (.release 0 1 0)
  uncodedSyntaxErrors := v.atLeast (.release 0 5 0)

def supports (c : Capabilities) (operation : Operation) : Bool :=
  operation.requirement.contains c.version

def syntaxErrorCode : String := "E999"

def isSyntaxError (c : Capabilities) : Option String → Bool
  | none => true
  | some code => !c.uncodedSyntaxErrors && code == syntaxErrorCode

end Capabilities

structure CapabilityCache where
  known : Table Version Capabilities
  deriving Inhabited

namespace CapabilityCache

def empty : CapabilityCache := ⟨.empty⟩

/-- The capabilities of a version, which are kept for the next time. -/
def get (cache : CapabilityCache) (v : Version) : Capabilities × CapabilityCache :=
  match cache.known.get? v with
  | some c => (c, cache)
  | none =>
    let c := Capabilities.ofVersion v
    (c, ⟨cache.known.insert v c⟩)

end CapabilityCache
end LintBridge
