import Restyle.Fault
import Restyle.Json.Value
import Restyle.Number.Shortest
import Restyle.Text.Quoted

namespace Restyle.Json

mutual

/-- The form that tells values of different types apart. -/
def quoted : Json → String
  | .null => "None"
  | .bool true => "True"
  | .bool false => "False"
  | .whole n => toString n
  | .double x => String.ofList x.text
  | .text s => String.ofList (Text.quoted s.toList)
  | .list items => "[" ++ ", ".intercalate (quotedItems items) ++ "]"
  | .object fields => "\x7b" ++ ", ".intercalate (quotedFields fields) ++ "\x7d"

def quotedItems : List Json → List String
  | [] => []
  | item :: items => quoted item :: quotedItems items

def quotedFields : List (String × Json) → List String
  | [] => []
  | (name, value) :: fields =>
    (String.ofList (Text.quoted name.toList) ++ ": " ++ quoted value) :: quotedFields fields

end

/-- The plain form of a value. -/
def display : Json → String
  | .text s => s
  | value => quoted value

mutual

/-- Whether no whole number in a value has more digits than are shown. -/
def isShowable : Json → Bool
  | .whole n => (Nat.toDigits 10 n.natAbs).length ≤ 4300
  | .list items => areShowable items
  | .object fields => haveShowable fields
  | _ => true

def areShowable : List Json → Bool
  | [] => true
  | item :: items => isShowable item && areShowable items

def haveShowable : List (String × Json) → Bool
  | [] => true
  | (_, value) :: fields => isShowable value && haveShowable fields

end

/-- The plain form of a value, if all of it can be shown. -/
def shown (value : Json) : Except Fault String :=
  if value.isShowable then .ok value.display else .error .tooLongToShow

end Restyle.Json
