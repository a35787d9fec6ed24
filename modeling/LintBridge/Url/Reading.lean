import LintBridge.Url.Basic
import LintBridge.Url.Host

/-!
Reading URLs, as the living standard for URLs lays it down, without a base.

The scheme decides the rest. `file` URLs have a path from the root and mostly no host; the other
special schemes have a host; all others may have one after `//`, or a path without structure.
-/

namespace LintBridge.Url

/-- What the scheme of a URL asks of the rest. -/
inductive Kind where
  | file
  /-- With a host, and the number after it that need not be written. -/
  | special (usual : Nat)
  | other
  deriving DecidableEq, Repr

def Kind.ofScheme (scheme : List Char) : Kind :=
  match String.ofList scheme with
  | "file" => .file
  | "http" | "ws" => .special 80
  | "https" | "wss" => .special 443
  | "ftp" => .special 21
  | _ => .other

/-- Whether a backslash counts as a slash. -/
def Kind.isSpecial : Kind → Bool
  | .other => false
  | _ => true

/-- Whether a character separates segments. -/
def Kind.isSlash (k : Kind) (c : Char) : Bool :=
  c == '/' || (c == '\\' && k.isSpecial)

/-- The text that counts: without controls and spaces at its ends, and without tabs and line ends
anywhere. -/
def significant (text : List Char) : List Char :=
  let isOuter (c : Char) : Bool := decide (c.toNat ≤ 0x20)
  let inner := ((text.dropWhile isOuter).reverse.dropWhile isOuter).reverse
  inner.filter fun c => !(c == '\t' || c == '\n' || c == '\r')

/-- Whether a character may stand in a scheme after its first letter. -/
def isSchemeChar (c : Char) : Bool :=
  c.isAlphanum || c == '+' || c == '-' || c == '.'

def readScheme? (text : List Char) : Option (List Char × List Char) :=
  match text.takeWhile isSchemeChar, text.dropWhile isSchemeChar with
  | first :: rest, ':' :: after =>
    if first.isAlpha then some ((first :: rest).map Char.toLower, after) else none
  | _, _ => none

/-! ## Paths -/

/-- Whether a segment stays where it is: a dot, perhaps escaped. -/
def isDot (s : List Char) : Bool :=
  s == ['.'] || Host.lower s == ['%', '2', 'e']

/-- Whether a segment goes up: two dots, either perhaps escaped. -/
def isDoubleDot (s : List Char) : Bool :=
  ["..", ".%2e", "%2e.", "%2e%2e"].any (·.toList == Host.lower s)

/-- Whether a segment is a letter and a colon or bar, the name of a drive. -/
def isDrive (s : List Char) : Bool :=
  match s with
  | [letter, mark] => letter.isAlpha && (mark == ':' || mark == '|')
  | _ => false

/-- Takes the last segment off; a drive that is all of a file path stays. Segments are held from
the last on. -/
def dropSegment (k : Kind) : List (List Char) → List (List Char)
  | [] => []
  | [only] => if k = .file ∧ isDrive only then [only] else []
  | _ :: rest => rest

/-- Adds the segments of a path one after the other to those read so far, held from the last on. A
segment that is not added leaves an empty one behind at the end of the path. -/
def addSegments (k : Kind) : List (List Char) → List (List Char) → List (List Char)
  | done, [] => done
  | done, s :: rest =>
    let gap : List (List Char) := if rest.isEmpty then [[]] else []
    if isDoubleDot s then addSegments k (gap ++ dropSegment k done) rest
    else if isDot s then addSegments k (gap ++ done) rest
    else if k = .file ∧ done = [] ∧ isDrive s then addSegments k ((s.take 1 ++ [':']) :: done) rest
    else addSegments k (Percent.encode Percent.inPath s :: done) rest

def cutSegments (k : Kind) (text : List Char) : List (List Char) :=
  splitAtChar '/' (text.map fun c => if k.isSlash c then '/' else c)

/-- The segments of the path after its first slash. A file path drops empty segments at its start,
though not its only one. -/
def readSegments (k : Kind) (text : List Char) : List (List Char) :=
  let segments := (addSegments k [] (cutSegments k text)).reverse
  if k = .file then
    match segments.dropWhile List.isEmpty with
    | [] => [[]]
    | kept => kept
  else segments

/-- The path of a URL with an authority or of a special scheme: a slash at its start is not part
of the first segment, and only another scheme may go without a path. -/
def readPath (k : Kind) (text : List Char) : List (List Char) :=
  match text with
  | [] => if k.isSpecial then readSegments k [] else []
  | c :: rest => if k.isSlash c then readSegments k rest else readSegments k text

/-! ## Authorities -/

def cutLastAt (text : List Char) : Option (List Char × List Char) :=
  match text.reverse.dropWhile (· ≠ '@') with
  | [] => none
  | _ :: before => some (before.reverse, text.drop (before.length + 1))

/-- The name and password before a host, in normal form with the `@`, or nothing if both are
empty. -/
def userInfo (text : List Char) : List Char :=
  let enc := Percent.encode Percent.inUserInfo
  let name := enc (text.takeWhile (· ≠ ':'))
  let shown :=
    match text.dropWhile (· ≠ ':') with
    | _ :: c :: rest => name ++ [':'] ++ enc (c :: rest)
    | _ => name
  if shown = [] then [] else shown ++ ['@']

/-- Cuts a host from the number after it; a colon between brackets belongs to the host. -/
def cutNumber : Bool → List Char → List Char × Option (List Char)
  | _, [] => ([], none)
  | inside, c :: rest =>
    if c = ':' ∧ inside = false then ([], some rest)
    else
      let inside := if c = '[' then true else if c = ']' then false else inside
      let (host, number) := cutNumber inside rest
      (c :: host, number)

/-- The number after a host in normal form with its colon, or nothing if it is absent or the usual
one. -/
def readNumber? (k : Kind) : Option (List Char) → Option (List Char)
  | none | some [] => some []
  | some digits => do
    let n ← if digits.all Char.isDigit then Host.number? 10 digits else none
    if 65535 < n then none
    else if k = .special n then some [] else some (':' :: Host.decimal n)

def readAuthority? (k : Kind) (text : List Char) : Option (List Char) := do
  let (user, place) ←
    match cutLastAt text with
    | none => some ([], text)
    | some ([], []) => none
    | some (user, place) => some (userInfo user, place)
  let (hostText, numberText) := cutNumber false place
  let host ← if k.isSpecial then Host.domain? hostText else Host.plain? hostText
  if host = [] ∧ (numberText.isSome ∨ user ≠ []) then none
  else do
    let number ← readNumber? k numberText
    return user ++ host ++ number

/-- The host of a file URL: none if it is empty or `localhost`, and none if it is a drive, which
belongs to the path. Gives the host and the path after it. -/
def readFileHost? (text : List Char) : Option (List Char × List Char) :=
  let isEnd (c : Char) : Bool := c == '/' || c == '\\'
  let host := text.takeWhile (!isEnd ·)
  let rest := text.dropWhile (!isEnd ·)
  if isDrive host then some ([], '/' :: text)
  else if host = [] then some ([], rest)
  else do
    let name ← Host.domain? host
    let name := if name = "localhost".toList then [] else name
    return (name, rest)

/-! ## The whole -/

structure Place where
  authority : Option (List Char)
  path : UrlPath

private def toPath (segments : List (List Char)) : UrlPath :=
  .segments (segments.map String.ofList)

def readPlace? (k : Kind) (text : List Char) : Option Place :=
  match k with
  | .file =>
    match text with
    | a :: b :: rest =>
      if k.isSlash a && k.isSlash b then do
        let (host, path) ← readFileHost? rest
        let segments := readPath k path
        let host := if (segments.head?.map isDrive).getD false then [] else host
        return ⟨some host, toPath segments⟩
      else some ⟨some [], toPath (readPath k text)⟩
    | _ => some ⟨some [], toPath (readPath k text)⟩
  | .special _ => do
    let rest := text.dropWhile k.isSlash
    let authority ← readAuthority? k (rest.takeWhile (!k.isSlash ·))
    return ⟨some authority, toPath (readPath k (rest.dropWhile (!k.isSlash ·)))⟩
  | .other =>
    match text with
    | '/' :: '/' :: rest => do
      let authority ← readAuthority? k (rest.takeWhile (· ≠ '/'))
      return ⟨some authority, toPath (readPath k (rest.dropWhile (· ≠ '/')))⟩
    | '/' :: rest => some ⟨none, toPath (readSegments k rest)⟩
    | _ => some ⟨none, .rootless (String.ofList (Percent.encode Percent.isControl text))⟩

/-- Reads a URL and brings it into normal form. -/
def ofText? (text : List Char) : Option Url := do
  let (scheme, rest) ← readScheme? (significant text)
  let kind := Kind.ofScheme scheme
  let isMark (c : Char) : Bool := c == '?' || c == '#'
  let place ← readPlace? kind (rest.takeWhile (!isMark ·))
  let tail := rest.dropWhile (!isMark ·)
  let queryText := tail.takeWhile (· ≠ '#')
  let inQuery := if kind.isSpecial then Percent.inSpecialQuery else Percent.inQuery
  return {
    scheme := String.ofList scheme
    authority := place.authority.map String.ofList
    path := place.path
    query :=
      match queryText with
      | [] => none
      | _ :: q => some (String.ofList (Percent.encode inQuery q))
    fragment :=
      match tail.dropWhile (· ≠ '#') with
      | [] => none
      | _ :: f => some (String.ofList (Percent.encode Percent.inFragment f)) }

def ofString? (text : String) : Option Url := ofText? text.toList

end LintBridge.Url
