import LintBridge.Text.Ranges

/-!
Blank characters, those with the Unicode property White_Space, and what is cut off or cut apart
at them.
-/

namespace LintBridge

/-- The code points with the property White_Space. -/
def blankRanges : List (Nat × Nat) :=
  [(0x9, 0xD), (0x20, 0x20), (0x85, 0x85), (0xA0, 0xA0), (0x1680, 0x1680), (0x2000, 0x200A),
   (0x2028, 0x2029), (0x202F, 0x202F), (0x205F, 0x205F), (0x3000, 0x3000)]

def isBlank (c : Char) : Bool :=
  inRanges blankRanges c

def trimStart (text : List Char) : List Char :=
  text.dropWhile isBlank

/-- A text without the blank characters at either end. -/
def trim (text : List Char) : List Char :=
  (trimStart (trimStart text).reverse).reverse

/-- The first word of a text, a longest run of characters that are not blank, and what follows it;
nothing if every character is blank. -/
def firstWord? (text : List Char) : Option (List Char × List Char) :=
  match trimStart text with
  | [] => none
  | rest => some (rest.takeWhile (!isBlank ·), rest.dropWhile (!isBlank ·))

end LintBridge
