import LintBridge.Text.Split

/-!
Semantic versions: three numbers, the identifiers of a pre-release, and those of a build.
-/

namespace LintBridge

namespace Version

inductive PreId where
  | number (n : Nat)
  | word (s : String)
  deriving DecidableEq, Repr, Inhabited

/-- An identifier of a build; a number is written with zeros up to its width. -/
inductive BuildId where
  | number (n width : Nat)
  | word (s : String)
  deriving DecidableEq, Repr, Inhabited

end Version

structure Version where
  major : Nat
  minor : Nat
  patch : Nat
  pre : List Version.PreId
  build : List Version.BuildId
  deriving DecidableEq, Repr, Inhabited

namespace Version

def release (major minor patch : Nat) : Version := ⟨major, minor, patch, [], []⟩

def digits (n : Nat) : List Char := Nat.toDigits 10 n

def PreId.chars : PreId → List Char
  | .number n => digits n
  | .word s => s.toList

def BuildId.chars : BuildId → List Char
  | .number n width =>
    let ds := digits n
    List.replicate (width - ds.length) '0' ++ ds
  | .word s => s.toList

/-- The parts after the numbers: each list, if it is not empty, after its mark. -/
def markedChars (mark : Char) (ids : List (List Char)) : List Char :=
  if ids = [] then [] else mark :: joinWith ['.'] ids

def chars (v : Version) : List Char :=
  digits v.major ++ '.' :: digits v.minor ++ '.' :: digits v.patch ++
    markedChars '-' (v.pre.map PreId.chars) ++ markedChars '+' (v.build.map BuildId.chars)

def render (v : Version) : String := String.ofList v.chars

instance : ToString Version := ⟨render⟩

end Version
end LintBridge
