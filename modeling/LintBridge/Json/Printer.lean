import LintBridge.Json.Basic

/-!
JSON values as text, without blanks. Quotes, backslashes and control characters are escaped, all
other characters stand for themselves.
-/

namespace LintBridge.Json

def hexDigit (n : Nat) : Char :=
  Char.ofNat (if n < 10 then 48 + n else 87 + n)

def escapeChar (c : Char) : List Char :=
  if c = '"' then ['\\', '"']
  else if c = '\\' then ['\\', '\\']
  else if 0x20 ≤ c.toNat then [c]
  else if c = '\n' then ['\\', 'n']
  else if c = '\r' then ['\\', 'r']
  else if c = '\t' then ['\\', 't']
  else if c = '\x08' then ['\\', 'b']
  else if c = '\x0c' then ['\\', 'f']
  else ['\\', 'u', '0', '0', hexDigit (c.toNat / 16), hexDigit (c.toNat % 16)]

def quoted (s : String) : List Char :=
  '"' :: s.toList.flatMap escapeChar ++ ['"']

mutual

def chars : Json → List Char
  | .null => "null".toList
  | .bool true => "true".toList
  | .bool false => "false".toList
  | .number n => n.render.toList
  | .text s => quoted s
  | .array items => '[' :: itemChars items ++ [']']
  | .object fields => '\x7b' :: fieldChars fields ++ ['\x7d']

def itemChars : List Json → List Char
  | [] => []
  | [v] => v.chars
  | v :: rest => v.chars ++ ',' :: itemChars rest

def fieldChars : List (String × Json) → List Char
  | [] => []
  | [(name, v)] => quoted name ++ ':' :: v.chars
  | (name, v) :: rest => quoted name ++ ':' :: (v.chars ++ ',' :: fieldChars rest)

end

def render (v : Json) : String := String.ofList v.chars

end LintBridge.Json
