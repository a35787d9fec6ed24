import LintBridge.Json.Basic

/-!
Decoding records and choices from JSON documents.

A record is an object with named fields, or an array that gives the fields in their order. A field
may be given, absent from an object, or missing because an array ended before it; what the last two
mean is up to the field.
-/

namespace LintBridge.Json

/-- What a document gives for a field of a record. -/
inductive Slot where
  | given (t : Tree)
  | absent
  /-- The array that gives the fields has ended before this one. -/
  | missing
  deriving Inhabited

namespace Slot

variable {α : Type}

def required (decode : Tree → Option α) : Slot → Option α
  | .given t => decode t
  | .absent | .missing => none

def orElse (default : α) (decode : Tree → Option α) : Slot → Option α
  | .given t => decode t
  | .absent | .missing => some default

/-- A field that may be null or absent, but not missing. -/
def optional (decode : Tree → Option α) : Slot → Option (Option α)
  | .given .null => some none
  | .given t => (decode t).map some
  | .absent => some none
  | .missing => none

/-- A field that may be null, absent or missing. -/
def optionalOr (decode : Tree → Option α) : Slot → Option (Option α)
  | .given .null => some none
  | .given t => (decode t).map some
  | .absent | .missing => some none

end Slot

namespace Tree

/-- The slots of a record's fields, from an object in which none of them is repeated; other fields
do not matter. -/
def objectSlots? (names : List String) : Tree → Option (String → Slot)
  | .object fields =>
    if names.all fun n => decide ((fields.filter (·.1 == n)).length ≤ 1) then
      some fun n => ((fields.find? (·.1 == n)).map Prod.snd).elim .absent .given
    else none
  | _ => none

/-- The slots of a record's fields, from an object or from an array that is not too long. -/
def slots? (names : List String) : Tree → Option (String → Slot)
  | .array items =>
    if items.length ≤ names.length then
      some fun n => (items[names.idxOf n]?).elim .missing .given
    else none
  | t => t.objectSlots? names

def text? : Tree → Option String
  | .text s => some s
  | _ => none

def bool? : Tree → Option Bool
  | .bool b => some b
  | _ => none

def intWithin? (low high : Int) : Tree → Option Int
  | .number (.int n) => if low ≤ n ∧ n ≤ high then some n else none
  | _ => none

def count32? (t : Tree) : Option Nat := (t.intWithin? 0 4294967295).map Int.toNat

def count64? (t : Tree) : Option Nat := (t.intWithin? 0 18446744073709551615).map Int.toNat

def int32? (t : Tree) : Option Int := t.intWithin? (-2147483648) 2147483647

def int64? (t : Tree) : Option Int := t.intWithin? (-9223372036854775808) 9223372036854775807

def list? {α : Type} (decode : Tree → Option α) : Tree → Option (List α)
  | .array items => items.mapM decode
  | _ => none

def texts? (t : Tree) : Option (List String) := t.list? text?

/-- The name of a choice without contents, alone or as the one field of an object with the value
null. -/
def choice? : Tree → Option String
  | .text s => some s
  | .object [(s, .null)] => some s
  | _ => none

/-- The first of some readings that succeeds, for a document without unusable parts. -/
def firstOf? {α : Type} (decoders : List (Tree → Option α)) (t : Tree) : Option α :=
  if t.isUsable then decoders.findSome? (· t) else none

end Tree
end LintBridge.Json
