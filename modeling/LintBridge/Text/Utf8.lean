/-!
UTF-8: writing characters as octets, and reading octets that may be ill-formed.

`readUnits` reads any octets. A well-formed sequence gives its character; each maximal
ill-formed part (as the encoding standard defines it) gives `none`. A reader that cares can
refuse a `none`; one that does not replaces it by U+FFFD (`decodeLossy`).
-/

namespace LintBridge.Utf8

def encode (text : List Char) : List UInt8 :=
  text.flatMap String.utf8EncodeChar

/-- A sequence that has begun: the bits read so far, how many octets are still due, and the
bounds on the next one. -/
structure Pending where
  bits : Nat
  due : Nat
  low : UInt8
  high : UInt8
  deriving DecidableEq, Repr

/-- What an octet does where a sequence may begin. -/
inductive Lead where
  | char (c : Char)
  | opens (p : Pending)
  | illFormed
  deriving DecidableEq, Repr

/-- Classifies a first octet. The bounds on the second one keep out overlong forms, surrogates
and values past U+10FFFF. -/
def lead (b : UInt8) : Lead :=
  let n := b.toNat
  if n < 0x80 then .char (Char.ofNat n)
  else if n < 0xC2 then .illFormed
  else if n < 0xE0 then .opens ⟨n - 0xC0, 1, 0x80, 0xBF⟩
  else if n = 0xE0 then .opens ⟨0, 2, 0xA0, 0xBF⟩
  else if n = 0xED then .opens ⟨0xD, 2, 0x80, 0x9F⟩
  else if n < 0xF0 then .opens ⟨n - 0xE0, 2, 0x80, 0xBF⟩
  else if n = 0xF0 then .opens ⟨0, 3, 0x90, 0xBF⟩
  else if n < 0xF4 then .opens ⟨n - 0xF0, 3, 0x80, 0xBF⟩
  else if n = 0xF4 then .opens ⟨4, 3, 0x80, 0x8F⟩
  else .illFormed

/-- Reads octets, with the sequence begun before them if there is one. An octet that does not
continue a sequence closes it as ill-formed and is read again as a first octet. -/
def readFrom : Option Pending → List UInt8 → List (Option Char)
  | none, [] => []
  | some _, [] => [none]
  | none, b :: rest =>
    match lead b with
    | .char c => some c :: readFrom none rest
    | .opens p => readFrom (some p) rest
    | .illFormed => none :: readFrom none rest
  | some p, b :: rest =>
    if p.low ≤ b ∧ b ≤ p.high then
      let bits := p.bits * 64 + (b.toNat - 0x80)
      if p.due ≤ 1 then some (Char.ofNat bits) :: readFrom none rest
      else readFrom (some ⟨bits, p.due - 1, 0x80, 0xBF⟩) rest
    else
      none :: match lead b with
        | .char c => some c :: readFrom none rest
        | .opens q => readFrom (some q) rest
        | .illFormed => none :: readFrom none rest

/-- The characters of some octets, with `none` for each maximal ill-formed part. -/
def readUnits (octets : List UInt8) : List (Option Char) :=
  readFrom none octets

/-- The character that stands for an ill-formed part. -/
def replacement : Char := '\uFFFD'

/-- The text of some octets, with each ill-formed part replaced. -/
def decodeLossy (octets : List UInt8) : List Char :=
  (readUnits octets).map (·.getD replacement)

def decode? (octets : List UInt8) : Option (List Char) :=
  (readUnits octets).mapM id

def size (text : List Char) : Nat :=
  text.foldr (fun c n => c.utf8Size + n) 0

end LintBridge.Utf8
