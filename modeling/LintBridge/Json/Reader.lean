import LintBridge.Json.Basic
import LintBridge.Text.Utf8

/-!
Reading JSON documents from characters, of which some may be ill-formed (`none`).

The whole text has to follow the grammar. What follows it and yet denotes nothing becomes
`Tree.unusable`: an ill-formed character or an unpaired surrogate in a text, a number past the
doubles, and a part nested more than `depthLimit` deep.
-/

namespace LintBridge.Json

/-- Characters read from octets, with `none` for an ill-formed part. -/
abbrev Units := List (Option Char)

/-- How deep the usable parts of a document nest. -/
def depthLimit : Nat := 127

def isSpace (c : Char) : Bool := c == ' ' || c == '\n' || c == '\t' || c == '\r'

def skipSpace : Units → Units
  | some c :: rest => if isSpace c then skipSpace rest else some c :: rest
  | units => units

def expect? : List Char → Units → Option Units
  | [], units => some units
  | c :: word, some d :: rest => if c = d then expect? word rest else none
  | _ :: _, _ => none

/-! ## Texts -/

/-- A part of a text: a character, an ill-formed part, or a code unit given by its number. -/
inductive Piece where
  | char (c : Char)
  | illFormed
  | unit (n : Nat)
  deriving DecidableEq, Repr

def hexValue? : Option Char → Option Nat
  | some c =>
    if '0' ≤ c ∧ c ≤ '9' then some (c.toNat - 48)
    else if 'a' ≤ c ∧ c ≤ 'f' then some (c.toNat - 87)
    else if 'A' ≤ c ∧ c ≤ 'F' then some (c.toNat - 55)
    else none
  | none => none

def hexUnit? (a b c d : Option Char) : Option Nat := do
  return (((← hexValue? a) * 16 + (← hexValue? b)) * 16 + (← hexValue? c)) * 16 + (← hexValue? d)

def escaped? : Char → Option Char
  | '"' => some '"'
  | '\\' => some '\\'
  | '/' => some '/'
  | 'b' => some '\x08'
  | 'f' => some '\x0c'
  | 'n' => some '\n'
  | 'r' => some '\r'
  | 't' => some '\t'
  | _ => none

def readPieces? : Units → Option (List Piece × Units)
  | [] => none
  | some '"' :: rest => some ([], rest)
  | some '\\' :: some 'u' :: a :: b :: c :: d :: rest => do
    let n ← hexUnit? a b c d
    let (pieces, after) ← readPieces? rest
    return (.unit n :: pieces, after)
  | some '\\' :: some e :: rest => do
    let c ← escaped? e
    let (pieces, after) ← readPieces? rest
    return (.char c :: pieces, after)
  | some '\\' :: _ => none
  | some c :: rest => do
    if c.toNat < 0x20 then none
    else
      let (pieces, after) ← readPieces? rest
      return (.char c :: pieces, after)
  | none :: rest => do
    let (pieces, after) ← readPieces? rest
    return (.illFormed :: pieces, after)

/-- The characters of a text: none if a part is ill-formed or a surrogate has no partner. -/
def joinPieces? : List Piece → Option (List Char)
  | [] => some []
  | .char c :: rest => (joinPieces? rest).map (c :: ·)
  | .illFormed :: _ => none
  | .unit high :: .unit low :: rest =>
    if 0xD800 ≤ high ∧ high < 0xDC00 then
      if 0xDC00 ≤ low ∧ low < 0xE000 then
        (joinPieces? rest).map
          (Char.ofNat (0x10000 + (high - 0xD800) * 0x400 + (low - 0xDC00)) :: ·)
      else none
    else if 0xDC00 ≤ high ∧ high < 0xE000 then none
    else (joinPieces? (.unit low :: rest)).map (Char.ofNat high :: ·)
  | .unit n :: rest =>
    if 0xD800 ≤ n ∧ n < 0xE000 then none
    else (joinPieces? rest).map (Char.ofNat n :: ·)

def pieceString? (pieces : List Piece) : Option String :=
  (joinPieces? pieces).map String.ofList

/-! ## Numbers -/

def digit? : Option Char → Option Nat
  | some c => if '0' ≤ c ∧ c ≤ '9' then some (c.toNat - 48) else none
  | none => none

def readDigits : Units → List Nat × Units
  | [] => ([], [])
  | u :: rest =>
    match digit? u with
    | some d => let (ds, after) := readDigits rest; (d :: ds, after)
    | none => ([], u :: rest)

/-- The digits before the point; no zero comes before another one. -/
def readWhole? (units : Units) : Option (List Nat × Units) :=
  match readDigits units with
  | ([], _) => none
  | (0 :: _ :: _, _) => none
  | result => some result

/-- The point and the digits after it, if there is a point. -/
def readFraction? : Units → Option (Option (List Nat) × Units)
  | some '.' :: rest =>
    match readDigits rest with
    | ([], _) => none
    | (ds, after) => some (some ds, after)
  | units => some (none, units)

def ofDigits (ds : List Nat) : Nat := ds.foldl (fun n d => n * 10 + d) 0

def readSign : Units → Bool × Units
  | some '+' :: rest => (false, rest)
  | some '-' :: rest => (true, rest)
  | units => (false, units)

def readExponent? : Units → Option (Option Int × Units)
  | some 'e' :: rest | some 'E' :: rest =>
    let (negative, rest) := readSign rest
    match readDigits rest with
    | ([], _) => none
    | (ds, after) => some (some (if negative then -ofDigits ds else ofDigits ds), after)
  | units => some (none, units)

def readNumber? (negative : Bool) (units : Units) : Option (Tree × Units) := do
  let (whole, rest) ← readWhole? units
  let (fraction, rest) ← readFraction? rest
  let (exponent, rest) ← readExponent? rest
  return ((Number.ofParts? ⟨negative, whole, fraction, exponent⟩).elim .unusable .number, rest)

/-! ## Values -/

/-- A part at a depth, which is usable only down to the limit. -/
def atDepth (depth : Nat) (t : Tree) : Tree :=
  if depth ≤ depthLimit then t else .unusable

/-- An object whose field names may be unusable. -/
def objectOf (fields : List (Option String × Tree)) : Tree :=
  match fields.mapM fun (name, t) => name.map ((·, t)) with
  | some fields => .object fields
  | none => .unusable

mutual

/-- Reads a value that lies within `depth` others. -/
def readValue? : Nat → Nat → Units → Option (Tree × Units)
  | 0, _, _ => none
  | fuel + 1, depth, units =>
    match skipSpace units with
    | some 'n' :: rest => (expect? ['u', 'l', 'l'] rest).map ((.null, ·))
    | some 't' :: rest => (expect? ['r', 'u', 'e'] rest).map ((.bool true, ·))
    | some 'f' :: rest => (expect? ['a', 'l', 's', 'e'] rest).map ((.bool false, ·))
    | some '"' :: rest => do
      let (pieces, after) ← readPieces? rest
      return ((pieceString? pieces).elim .unusable .text, after)
    | some '[' :: rest =>
      match skipSpace rest with
      | some ']' :: after => some (atDepth (depth + 1) (.array []), after)
      | rest => do
        let (items, after) ← readItems? fuel (depth + 1) rest
        return (atDepth (depth + 1) (.array items), after)
    | some '\x7b' :: rest =>
      match skipSpace rest with
      | some '\x7d' :: after => some (atDepth (depth + 1) (.object []), after)
      | rest => do
        let (fields, after) ← readFields? fuel (depth + 1) rest
        return (atDepth (depth + 1) (objectOf fields), after)
    | some '-' :: rest => readNumber? true rest
    | rest => readNumber? false rest

def readItems? : Nat → Nat → Units → Option (List Tree × Units)
  | 0, _, _ => none
  | fuel + 1, depth, units => do
    let (item, rest) ← readValue? fuel depth units
    match skipSpace rest with
    | some ',' :: rest =>
      let (items, after) ← readItems? fuel depth rest
      return (item :: items, after)
    | some ']' :: after => return ([item], after)
    | _ => none

def readFields? : Nat → Nat → Units → Option (List (Option String × Tree) × Units)
  | 0, _, _ => none
  | fuel + 1, depth, units =>
    match skipSpace units with
    | some '"' :: rest => do
      let (name, rest) ← readPieces? rest
      match skipSpace rest with
      | some ':' :: rest =>
        let (value, rest) ← readValue? fuel depth rest
        match skipSpace rest with
        | some ',' :: rest =>
          let (fields, after) ← readFields? fuel depth rest
          return ((pieceString? name, value) :: fields, after)
        | some '\x7d' :: after => return ([(pieceString? name, value)], after)
        | _ => none
      | _ => none
    | _ => none

end

/-- Reads a whole document. Every call of the readers drops a character or is the only one that
does not before the next, so twice the length is fuel enough. -/
def readUnits? (units : Units) : Option Tree := do
  let (tree, rest) ← readValue? (2 * units.length + 2) 0 units
  match skipSpace rest with
  | [] => some tree
  | _ => none

def readTree? (s : String) : Option Tree := readUnits? (s.toList.map some)

def readOctets? (octets : List UInt8) : Option Tree := readUnits? (Utf8.readUnits octets)

def read? (s : String) : Option Json := (readTree? s).bind Tree.value?

end LintBridge.Json
