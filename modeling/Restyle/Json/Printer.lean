import Restyle.Json.Display

namespace Restyle.Json

/-- A character inside a written text. -/
def escapeChar (c : Char) : List Char :=
  if c == '\x22' || c == '\\' then ['\\', c]
  else if c == '\n' then ['\\', 'n']
  else if c == '\r' then ['\\', 'r']
  else if c == '\t' then ['\\', 't']
  else if c == '\x0c' then ['\\', 'f']
  else if c == '\x08' then ['\\', 'b']
  else if c.toNat < 32 then '\\' :: 'u' :: Text.hexPadded 4 c.toNat
  else [c]

/-- A text in double quotes. -/
def renderText (s : String) : String :=
  String.ofList ('\x22' :: s.toList.flatMap escapeChar ++ ['\x22'])

def renderDouble : Double → String
  | .undefined => "NaN"
  | .infinite negative => if negative then "-Infinity" else "Infinity"
  | x => String.ofList x.text

/-- The line break before an item at a level. -/
def lineBreak (level : Nat) : String :=
  String.ofList ('\n' :: List.replicate (2 * level) ' ')

mutual

/-- The written form of a value that starts at a level. -/
def renderAt (level : Nat) : Json → String
  | .null => "null"
  | .bool true => "true"
  | .bool false => "false"
  | .whole n => toString n
  | .double x => renderDouble x
  | .text s => renderText s
  | .list [] => "[]"
  | .list (item :: items) =>
    "[" ++ lineBreak (level + 1) ++ renderAt (level + 1) item ++ renderItems (level + 1) items ++
      lineBreak level ++ "]"
  | .object [] => "\x7b\x7d"
  | .object ((name, value) :: fields) =>
    "\x7b" ++ lineBreak (level + 1) ++ renderText name ++ ": " ++ renderAt (level + 1) value ++
      renderFields (level + 1) fields ++ lineBreak level ++ "\x7d"

/-- The items after the first one. -/
def renderItems (level : Nat) : List Json → String
  | [] => ""
  | item :: items => "," ++ lineBreak level ++ renderAt level item ++ renderItems level items

/-- The fields after the first one. -/
def renderFields (level : Nat) : List (String × Json) → String
  | [] => ""
  | (name, value) :: fields =>
    "," ++ lineBreak level ++ renderText name ++ ": " ++ renderAt level value ++
      renderFields level fields

end

/-- The layout of a value. -/
def render (value : Json) : String := renderAt 0 value

/-- The written form of a value, if all of it can be shown. -/
def write (value : Json) : Except Fault String :=
  if value.isShowable then .ok value.render else .error .tooLongToShow

end Restyle.Json
