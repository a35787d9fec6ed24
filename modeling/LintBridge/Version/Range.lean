import LintBridge.Version.Order

/-!
Ranges of versions: from a least one on, below a greatest one, both, or neither.
-/

namespace LintBridge

/-- The versions from `min` on and below `max`, as far as these are given. -/
structure VersionRange where
  min : Option Version
  max : Option Version
  deriving DecidableEq, Repr, Inhabited

namespace VersionRange

def since (v : Version) : VersionRange := ⟨some v, none⟩

def contains (r : VersionRange) (v : Version) : Bool :=
  r.min.all (v.atLeast ·) && r.max.all (v.isBelow ·)

def render (r : VersionRange) : String :=
  match r.min, r.max with
  | some a, some b => ">=" ++ a.render ++ ",<" ++ b.render
  | some a, none => ">=" ++ a.render
  | none, some b => "<" ++ b.render
  | none, none => "*"

end VersionRange
end LintBridge
