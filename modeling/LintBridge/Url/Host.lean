import LintBridge.Text.Split
import LintBridge.Url.Percent

/-!
Hosts of URLs in normal form: domain names, and addresses of version 4 and 6.

Domain names are read as ASCII: letters become small, and a label with other characters is
written in its ASCII form.
-/

namespace LintBridge.Url.Host

def lower (text : List Char) : List Char := text.map Char.toLower

/-! ## Labels with characters past ASCII -/

/-- The bias for the next number of an ASCII form, after a step over `delta` among `points`
places. The loop divides by 35 and so ends within `fuel` steps. -/
def bias (delta points : Nat) (first : Bool) : Nat :=
  let rec scale : Nat → Nat → Nat → Nat
    | 0, d, k => k + 36 * d / (d + 38)
    | fuel + 1, d, k => if d > 455 then scale fuel (d / 35) (k + 36) else k + 36 * d / (d + 38)
  let start := if first then delta / 700 else delta / 2
  scale start (start + start / points) 0

def variableDigits (b : Nat) : Nat → Nat → Nat → List Char
  | 0, _, _ => []
  | fuel + 1, k, q =>
    let t := if k ≤ b then 1 else if b + 26 ≤ k then 26 else k - b
    let digit (n : Nat) : Char := Char.ofNat (if n < 26 then 97 + n else 22 + n)
    if q < t then [digit q]
    else digit (t + (q - t) % (36 - t)) :: variableDigits b fuel (k + 36) ((q - t) / (36 - t))

/-- The state of writing an ASCII form. -/
structure Writing where
  delta : Nat
  bias : Nat
  done : Nat
  out : List Char

def Writing.point (label : List Char) (basic point : Nat) (w : Writing) : Writing :=
  label.foldl (fun w c =>
    if c.toNat < point then { w with delta := w.delta + 1 }
    else if c.toNat = point then
      ⟨0, Host.bias w.delta (w.done + 1) (w.done = basic), w.done + 1,
        w.out ++ variableDigits w.bias 64 36 w.delta⟩
    else w) w

def Writing.points (label : List Char) (basic : Nat) : Nat → List Nat → Writing → Writing
  | _, [], w => w
  | n, p :: rest, w =>
    let w := Writing.point label basic p { w with delta := w.delta + (p - n) * (w.done + 1) }
    points label basic (p + 1) rest { w with delta := w.delta + 1 }

/-- A label in ASCII: itself, or its coded form after `xn--`. -/
def asciiLabel (label : List Char) : List Char :=
  if label.all (·.toNat < 0x80) then label
  else
    let basic := label.filter (·.toNat < 0x80)
    let points := ((label.map Char.toNat).filter (0x80 ≤ ·)).mergeSort.eraseDups
    let start := if basic = [] then [] else basic ++ ['-']
    ['x', 'n', '-', '-'] ++
      (Writing.points label basic.length 0x80 points ⟨0, 72, basic.length, start⟩).out

/-! ## Addresses of version 4 -/

def number? (base : Nat) (digits : List Char) : Option Nat :=
  digits.foldlM (fun n c => do
    let d ← Percent.hexValue? c
    if d < base then some (n * base + d) else none) 0

/-- A part of an address: hexadecimal after `0x`, octal after another `0`, else decimal. -/
def part? : List Char → Option Nat
  | [] => none
  | '0' :: 'x' :: rest => number? 16 rest
  | '0' :: 'X' :: rest => number? 16 rest
  | '0' :: d :: rest => number? 8 (d :: rest)
  | digits => number? 10 digits

/-- The parts of a domain, without the empty one after a final dot. -/
def parts (domain : List Char) : List (List Char) :=
  let ps := splitAtChar '.' domain
  if 1 < ps.length ∧ ps.getLast? = some [] then ps.dropLast else ps

/-- Whether a domain must be an address: its last part is a number. -/
def endsInNumber (domain : List Char) : Bool :=
  match (parts domain).getLast? with
  | none | some [] => false
  | some last => last.all (fun c => decide ('0' ≤ c ∧ c ≤ '9')) ||
      (match last with
        | '0' :: 'x' :: _ | '0' :: 'X' :: _ => (part? last).isSome
        | _ => false)

def decimal (n : Nat) : List Char := Nat.toDigits 10 n

def version4 (n : Nat) : List Char :=
  joinWith ['.'] ([n / 16777216, n / 65536 % 256, n / 256 % 256, n % 256].map decimal)

/-- Reads up to four parts, of which the last fills the octets that the others leave. -/
def version4? (domain : List Char) : Option (List Char) := do
  let ns ← (parts domain).mapM part?
  let last ← ns.getLast?
  let front := ns.dropLast
  if ns.length ≤ 4 ∧ front.all (· < 256) ∧ last < Nat.pow 256 (5 - ns.length) then
    let high := front.zipIdx.foldl (fun high (n, i) => high + n * Nat.pow 256 (3 - i)) 0
    some (version4 (high + last))
  else none

/-! ## Addresses of version 6 -/

def embedded? (text : List Char) : Option (List Nat) := do
  let ns ← (splitAtChar '.' text).mapM fun p =>
    if p = [] ∨ (1 < p.length ∧ p.head? = some '0') then none else number? 10 p
  match ns with
  | [a, b, c, d] => if ns.all (· < 256) then some [a * 256 + b, c * 256 + d] else none
  | _ => none

def groups? (text : List Char) : Option (List Nat) :=
  if text = [] then some []
  else do
    let pieces := splitAtChar ':' text
    let groups ← pieces.zipIdx.mapM fun (p, i) =>
      if p.contains '.' then (if i + 1 = pieces.length then embedded? p else none)
      else if p = [] ∨ 4 < p.length then none
      else (number? 16 p).map ([·])
    return groups.flatten

def cutDouble : List Char → Option (List Char × List Char)
  | ':' :: ':' :: rest => some ([], rest)
  | c :: rest => (cutDouble rest).map fun (a, b) => (c :: a, b)
  | [] => none

def version6Groups? (text : List Char) : Option (List Nat) :=
  match cutDouble text with
  | none => do
    let gs ← groups? text
    if gs.length = 8 then some gs else none
  | some (a, b) => do
    let x ← groups? a
    let y ← groups? b
    if x.length + y.length < 8 then
      some (x ++ List.replicate (8 - x.length - y.length) 0 ++ y)
    else none

/-- The first longest run of at least two zero groups: where it starts and how long it is. -/
def zeroRun (groups : List Nat) : Option (Nat × Nat) :=
  let runs := (List.range 8).map fun i => (i, ((groups.drop i).takeWhile (· = 0)).length)
  runs.foldl (fun best (i, n) =>
    match best with
    | some (_, m) => if m < n then some (i, n) else best
    | none => if 1 < n then some (i, n) else none) none

/-- An address of eight groups, with the longest run of zeros left out. -/
def version6 (groups : List Nat) : List Char :=
  let hex (n : Nat) : List Char := Nat.toDigits 16 n
  match zeroRun groups with
  | none => joinWith [':'] (groups.map hex)
  | some (i, n) =>
    joinWith [':'] ((groups.take i).map hex) ++ [':', ':'] ++
      joinWith [':'] ((groups.drop (i + n)).map hex)

/-! ## Hosts -/

def bracketed? (text : List Char) : Option (List Char) :=
  if text.getLast? = some ']' then (version6Groups? text.dropLast).map fun gs =>
    ['['] ++ version6 gs ++ [']']
  else none

/-- The characters that no domain name holds. -/
def isForbidden (c : Char) : Bool :=
  decide (c.toNat ≤ 0x20 ∨ c.toNat = 0x7F) ||
    ['%', '#', '/', ':', '<', '>', '?', '@', '[', '\\', ']', '^', '|'].contains c

/-- The normal form of a host of a scheme that has hosts of its own kind. -/
def domain? (text : List Char) : Option (List Char) :=
  match text with
  | '[' :: rest => bracketed? rest
  | _ => do
    let decoded ← Utf8.decode? (Percent.decode text)
    let ascii := joinWith ['.'] ((splitAtChar '.' (lower decoded)).map asciiLabel)
    if ascii = [] ∨ ascii.any isForbidden then none
    else if endsInNumber ascii then version4? ascii
    else some ascii

/-- The normal form of a host of any other scheme. -/
def plain? (text : List Char) : Option (List Char) :=
  match text with
  | '[' :: rest => bracketed? rest
  | _ =>
    if text.any (['\x00', '\t', '\n', '\r', ' ', '#', '/', ':', '<', '>', '?', '@', '[', '\\',
        ']', '^', '|'].contains ·) then none
    else some (Percent.encode Percent.isControl text)

end LintBridge.Url.Host
