/-!
The life of a session: it is set up once, becomes active, and is shut down for good.
-/

namespace LintBridge

inductive Lifecycle where
  | fresh
  | ready
  | active
  | shuttingDown
  deriving DecidableEq, Repr, Inhabited

namespace Lifecycle

/-- Sets a session up, and says whether this was the time to do so. -/
def setUp : Lifecycle → Bool × Lifecycle
  | .fresh => (true, .ready)
  | s => (false, s)

def activate : Lifecycle → Lifecycle
  | .ready => .active
  | s => s

def shutDown (_ : Lifecycle) : Lifecycle := .shuttingDown

def isShuttingDown (s : Lifecycle) : Bool := s == .shuttingDown

end Lifecycle
end LintBridge
