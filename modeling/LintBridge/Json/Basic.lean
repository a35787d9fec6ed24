import LintBridge.Json.Number

/-!
JSON values, and JSON documents as they are written.

A `Json` is a value; the fields of its objects stand in the order in which they are printed, which
`ofFields` makes the order of their names. A `Tree` is what a document says: fields as they come,
repeated ones included, and `unusable` for a part that follows the grammar but denotes no value. A
decoder looks at a tree, so it can refuse repeated fields, and can pass over a part it has no use
for, whatever that part denotes.
-/

namespace LintBridge

inductive Json where
  | null
  | bool (b : Bool)
  | number (n : Json.Number)
  | text (s : String)
  | array (items : List Json)
  | object (fields : List (String × Json))
  deriving Repr, Inhabited

namespace Json

/-- A JSON document as it is written. -/
inductive Tree where
  | null
  | bool (b : Bool)
  | number (n : Number)
  | text (s : String)
  | array (items : List Tree)
  | object (fields : List (String × Tree))
  /-- A number too great for a double, a text with an ill-formed character, an object with such a
  field name, or a part nested too deeply. -/
  | unusable
  deriving Repr, Inhabited

def int (n : Int) : Json := .number (.int n)

def nat (n : Nat) : Json := .number (.int n)

/-- Gives a field a value among sorted ones, in place of the value it had. -/
def setField (name : String) (value : Json) : List (String × Json) → List (String × Json)
  | [] => [(name, value)]
  | (n, v) :: rest =>
    if n = name then (name, value) :: rest
    else if name < n then (name, value) :: (n, v) :: rest
    else (n, v) :: setField name value rest

/-- The object with some fields; of a repeated field the last value counts. -/
def ofFields (fields : List (String × Json)) : Json :=
  .object (fields.foldl (fun done (n, v) => setField n v done) [])

/-- The object with those fields that have a value. -/
def ofGiven (fields : List (String × Option Json)) : Json :=
  ofFields (fields.filterMap fun (name, v) => v.map (name, ·))

def list {α : Type} (toJson : α → Json) (items : List α) : Json := .array (items.map toJson)

def field? (name : String) : Json → Option Json
  | .object fields => (fields.find? (·.1 == name)).map Prod.snd
  | _ => none

mutual

def toTree : Json → Tree
  | .null => .null
  | .bool b => .bool b
  | .number n => .number n
  | .text s => .text s
  | .array items => .array (itemTrees items)
  | .object fields => .object (fieldTrees fields)

def itemTrees : List Json → List Tree
  | [] => []
  | v :: rest => v.toTree :: itemTrees rest

def fieldTrees : List (String × Json) → List (String × Tree)
  | [] => []
  | (name, v) :: rest => (name, v.toTree) :: fieldTrees rest

end

mutual

/-- The value that a document denotes, if no part of it is unusable. -/
def Tree.value? : Tree → Option Json
  | .null => some .null
  | .bool b => some (.bool b)
  | .number n => some (.number n)
  | .text s => some (.text s)
  | .array items => (Tree.itemValues? items).map .array
  | .object fields => (Tree.fieldValues? fields).map ofFields
  | .unusable => none

def Tree.itemValues? : List Tree → Option (List Json)
  | [] => some []
  | t :: rest => do
    let v ← t.value?
    let vs ← Tree.itemValues? rest
    return v :: vs

def Tree.fieldValues? : List (String × Tree) → Option (List (String × Json))
  | [] => some []
  | (name, t) :: rest => do
    let v ← t.value?
    let vs ← Tree.fieldValues? rest
    return (name, v) :: vs

end

def Tree.isUsable (t : Tree) : Bool := t.value?.isSome

end Json
end LintBridge
