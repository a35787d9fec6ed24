import LintBridge.Text.Utf8

/-!
Percent escapes in URLs.

`encode` writes the octets of the characters that a part of a URL may not hold as they are, and
`decode` reads escapes back; a `%` that two hexadecimal digits do not follow stands for itself.
-/

namespace LintBridge.Url.Percent

/-- The control characters, DEL, and all characters past ASCII, which no part holds as they are. -/
def isControl (c : Char) : Bool :=
  decide (c.toNat < 0x20 ∨ 0x7F ≤ c.toNat)

def inFragment (c : Char) : Bool :=
  isControl c || [' ', '"', '<', '>', '\x60'].contains c

def inPath (c : Char) : Bool :=
  inFragment c || ['#', '?', '\x7b', '\x7d'].contains c

/-- What is escaped in a name or password before the host. -/
def inUserInfo (c : Char) : Bool :=
  inPath c || ['/', ':', ';', '=', '@', '[', '\\', ']', '^', '|'].contains c

def inQuery (c : Char) : Bool :=
  isControl c || [' ', '"', '#', '<', '>'].contains c

/-- What is escaped in the query of a scheme that has a host of its own kind. -/
def inSpecialQuery (c : Char) : Bool :=
  inQuery c || c == '\''

def hexDigit (n : Nat) : Char :=
  Char.ofNat (if n < 10 then 48 + n else 55 + n)

def escape (b : UInt8) : List Char :=
  ['%', hexDigit (b.toNat / 16), hexDigit (b.toNat % 16)]

def encode (isEscaped : Char → Bool) (text : List Char) : List Char :=
  text.flatMap fun c => if isEscaped c then (Utf8.encode [c]).flatMap escape else [c]

def hexValue? (c : Char) : Option Nat :=
  if '0' ≤ c ∧ c ≤ '9' then some (c.toNat - 48)
  else if 'a' ≤ c ∧ c ≤ 'f' then some (c.toNat - 87)
  else if 'A' ≤ c ∧ c ≤ 'F' then some (c.toNat - 55)
  else none

def decode : List Char → List UInt8
  | '%' :: a :: b :: rest =>
    match hexValue? a, hexValue? b with
    | some x, some y => UInt8.ofNat (16 * x + y) :: decode rest
    | _, _ => 0x25 :: decode (a :: b :: rest)
  | c :: rest => Utf8.encode [c] ++ decode rest
  | [] => []

end LintBridge.Url.Percent
