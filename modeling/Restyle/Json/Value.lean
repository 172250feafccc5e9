import Restyle.Number.Double

namespace Restyle

/-- The values of settings, themes and style objects. Whole numbers and binary fractions are kept apart,
and the fields of an object keep their order. -/
inductive Json where
  | null
  | bool (b : Bool)
  | whole (n : Int)
  | double (x : Double)
  | text (s : String)
  | list (items : List Json)
  | object (fields : List (String × Json))
  deriving BEq, Repr, Inhabited

/-- Fields in the order in which their names were first written. -/
abbrev Fields (α : Type) := List (String × α)

namespace Fields

variable {α : Type}

/-- The value of a name. -/
def get? (fields : Fields α) (name : String) : Option α := fields.lookup name

/-- Gives a name a value. A name that is there keeps its place. -/
def put (fields : Fields α) (name : String) (value : α) : Fields α :=
  if fields.any (·.1 == name) then
    fields.map fun field => if field.1 == name then (name, value) else field
  else fields ++ [(name, value)]

/-- Writes the pairs one after the other. -/
def ofPairs (pairs : List (String × α)) : Fields α :=
  pairs.foldl (fun fields (name, value) => fields.put name value) []

def names (fields : Fields α) : List String := fields.map (·.1)

def values (fields : Fields α) : List α := fields.map (·.2)

end Fields

namespace Json

/-- Whether a value counts as given: nothing, zero and what is empty do not. -/
def given : Json → Bool
  | .null => false
  | .bool b => b
  | .whole n => n != 0
  | .double (.finite _ mantissa _) => mantissa != 0
  | .double _ => true
  | .text s => s != ""
  | .list items => !items.isEmpty
  | .object fields => !fields.isEmpty

/-- The name of a value's type in messages. -/
def typeName : Json → String
  | .null => "NoneType"
  | .bool _ => "bool"
  | .whole _ => "int"
  | .double _ => "float"
  | .text _ => "str"
  | .list _ => "list"
  | .object _ => "dict"

def isObject : Json → Bool
  | .object _ => true
  | _ => false

def isText : Json → Bool
  | .text _ => true
  | _ => false

/-- The text that a value is, if it is one. -/
def text? : Json → Option String
  | .text s => some s
  | _ => none

def texts (items : List String) : Json := .list (items.map .text)

/-- A record with only the fields that have a value. -/
def record (fields : List (String × Option Json)) : Json :=
  .object (fields.filterMap fun (name, value) => value.map (name, ·))

end Json

end Restyle
