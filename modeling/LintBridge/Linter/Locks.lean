import LintBridge.Path
import LintBridge.Table

/-!
Locks on documents, so that no two runs on one document overlap.

A table holds one lock for each path, by its components. A request looks the lock of its path up,
and makes one if there is none; it is granted when nobody holds the lock. When the table has grown
past a limit, a request first drops the locks that nobody holds or waits for.
-/

namespace LintBridge

/-- A lock that somebody holds or waits for, and the path it was asked for by. -/
structure LockUse where
  path : Path
  /-- Which lock it is. A path may get another lock after its own has been dropped. -/
  lock : Nat
  deriving DecidableEq, Repr, Inhabited

/-- The locks there are, and who holds and waits for them. -/
structure LockTable where
  locks : Table (List Path.Component) Nat
  /-- The number of the next lock to be made. -/
  next : Nat
  held : List LockUse
  waiting : List LockUse
  deriving DecidableEq, Repr, Inhabited

namespace LockTable

def empty : LockTable := ⟨.empty, 0, [], []⟩

/-- The number of locks past which those not in use are dropped. -/
def limit : Nat := 256

def inUse (t : LockTable) (lock : Nat) : Bool :=
  (t.held ++ t.waiting).any (·.lock == lock)

/-- Drops the locks not in use, if there are too many. -/
def prune (t : LockTable) : LockTable :=
  if limit < t.locks.size then { t with locks := t.locks.filter fun _ lock => t.inUse lock } else t

/-- The lock of a path, made if there is none. -/
def lockOf (t : LockTable) (path : Path) : Nat × LockTable :=
  match t.locks.get? path.components with
  | some lock => (lock, t)
  | none =>
    (t.next, { t with locks := t.locks.insert path.components t.next, next := t.next + 1 })

def request (t : LockTable) (path : Path) : LockUse × LockTable :=
  let (lock, t) := t.prune.lockOf path
  (⟨path, lock⟩, { t with waiting := t.waiting ++ [⟨path, lock⟩] })

def isFree (t : LockTable) (lock : Nat) : Bool := !t.held.any (·.lock == lock)

def cancel (t : LockTable) (use : LockUse) : LockTable :=
  { t with waiting := t.waiting.erase use }

def grant (t : LockTable) (use : LockUse) : LockTable :=
  if t.isFree use.lock ∧ use ∈ t.waiting then
    { t.cancel use with held := t.held ++ [use] }
  else t

def release (t : LockTable) (use : LockUse) : LockTable :=
  { t with held := t.held.erase use }

/-- Takes the lock of a path if nobody holds it, and says whether it did. It never waits. -/
def tryAcquire (t : LockTable) (path : Path) : Bool × LockTable :=
  let (use, t) := t.request path
  if t.isFree use.lock then (true, t.grant use) else (false, t.cancel use)

/-- Gives back the lock that was taken by exactly this path, and says whether there was one. -/
def releasePath (t : LockTable) (path : Path) : Bool × LockTable :=
  match t.held.find? (·.path = path) with
  | some use => (true, t.release use)
  | none => (false, t)

/-- Gives all locks back, and says how many there were. -/
def releaseAll (t : LockTable) : Nat × LockTable :=
  (t.held.length, { t with held := [] })

end LockTable
end LintBridge
