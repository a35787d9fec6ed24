import LintBridge.Version.Basic

/-!
The total order of versions: by the three numbers, then by pre-release, of which a release is the
highest, then by build, of which none is the lowest.
-/

namespace LintBridge.Version

/-- Compares two lists from the front; a list that ends first is the lower one. -/
def compareLists {α : Type} (cmp : α → α → Ordering) : List α → List α → Ordering
  | [], [] => .eq
  | [], _ :: _ => .lt
  | _ :: _, [] => .gt
  | a :: as, b :: bs => (cmp a b).then (compareLists cmp as bs)

/-- Numbers go by value and before words, which go by code points. -/
def PreId.compare : PreId → PreId → Ordering
  | .number m, .number n => Ord.compare m n
  | .number _, .word _ => .lt
  | .word _, .number _ => .gt
  | .word s, .word t => compareLists Ord.compare (s.toList.map Char.toNat) (t.toList.map Char.toNat)

/-- Numbers go by value, then by width, and before words, which go by code points. -/
def BuildId.compare : BuildId → BuildId → Ordering
  | .number m w, .number n x => (Ord.compare m n).then (Ord.compare w x)
  | .number _ _, .word _ => .lt
  | .word _, .number _ _ => .gt
  | .word s, .word t => compareLists Ord.compare (s.toList.map Char.toNat) (t.toList.map Char.toNat)

/-- Compares what makes a pre-release; a release is above all of them. -/
def comparePre : List PreId → List PreId → Ordering
  | [], [] => .eq
  | [], _ :: _ => .gt
  | _ :: _, [] => .lt
  | as, bs => compareLists PreId.compare as bs

def compare (v w : Version) : Ordering :=
  (Ord.compare v.major w.major).then <|
  (Ord.compare v.minor w.minor).then <|
  (Ord.compare v.patch w.patch).then <|
  (comparePre v.pre w.pre).then <|
  compareLists BuildId.compare v.build w.build

instance : Ord Version := ⟨compare⟩

def atLeast (v w : Version) : Bool := compare v w != .lt

def isBelow (v w : Version) : Bool := compare v w == .lt

end LintBridge.Version
