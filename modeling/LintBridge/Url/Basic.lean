import LintBridge.Text.Split
import LintBridge.Text.Utf8
import LintBridge.Path
import LintBridge.Url.Percent

/-!
URLs in the normal form that documents are known by, and the file that a URL names.
-/

namespace LintBridge

namespace Url

/-- The path of a URL: segments that a slash precedes each, or a text without structure. -/
inductive UrlPath where
  | segments (parts : List String)
  | rootless (text : String)
  deriving DecidableEq, Repr, Inhabited

end Url

structure Url where
  scheme : String
  /-- What stands between `//` and the path, if there is a `//`. -/
  authority : Option String
  path : Url.UrlPath
  query : Option String
  fragment : Option String
  deriving DecidableEq, Repr, Inhabited

namespace Url

def UrlPath.render : UrlPath → String
  | .segments parts => String.join (parts.map ("/" ++ ·))
  | .rootless text => text

/-- A URL as it is written. Without an authority, a path that starts with two slashes is written
after `/.`, since they would be read as the start of an authority. -/
def render (u : Url) : String :=
  let path := u.path.render
  let place :=
    match u.authority with
    | some a => "//" ++ a ++ path
    | none => if path.startsWith "//" then "/." ++ path else path
  u.scheme ++ ":" ++ place ++ (u.query.elim "" ("?" ++ ·)) ++ (u.fragment.elim "" ("#" ++ ·))

instance : ToString Url := ⟨render⟩

/-- Whether octets end in a letter and a colon or bar, like the name of a drive. -/
def endsInDrive (octets : List UInt8) : Bool :=
  match octets.reverse with
  | last :: letter :: _ :: _ =>
    (last == 0x3A || last == 0x7C) &&
      decide ((0x41 ≤ letter ∧ letter ≤ 0x5A) ∨ (0x61 ≤ letter ∧ letter ≤ 0x7A))
  | _ => false

/-- The host in an authority: what stands after the name of a user and before a colon. -/
def hostIn (authority : List Char) : List Char :=
  let place := (authority.reverse.takeWhile (· != '@')).reverse
  if place.head? = some '[' then place else place.takeWhile (· != ':')

/-- Whether a URL is about this machine: it names no host, or the local one. -/
def isLocal (u : Url) : Bool :=
  let host := hostIn (u.authority.getD "").toList
  host == [] || host == "localhost".toList

/-- The file that a URL names, whatever its scheme: any URL on this machine whose path has segments
names one. Escapes in the segments are read, and the name of a drive at the end gets a slash. A path
is a text, so octets that are no text are replaced and not kept: URLs that differ in nothing but
such octets name one file. -/
def filePath? (u : Url) : Option Path :=
  match u.path with
  | .rootless _ => none
  | .segments parts =>
    if u.isLocal then
      let octets := parts.flatMap fun s => 0x2F :: Percent.decode s.toList
      let octets := if endsInDrive octets then octets ++ [0x2F] else octets
      some ⟨String.ofList (Utf8.decodeLossy octets)⟩
    else none

end Url
end LintBridge
