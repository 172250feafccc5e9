import Restyle.Json.Display
import Restyle.Number.Numeral
import Restyle.Text.Blank

namespace Restyle.Scale

/-- The names of spacings. -/
def spacings : List (Int × String) := [
  (0, "0"), (1, "px"), (2, "0.5"), (4, "1"), (6, "1.5"), (8, "2"), (10, "2.5"), (12, "3"),
  (14, "3.5"), (16, "4"), (20, "5"), (24, "6"), (28, "7"), (32, "8"), (36, "9"), (40, "10"),
  (44, "11"), (48, "12"), (56, "14"), (64, "16"), (80, "20"), (96, "24")]

/-- The names of corner radii; the empty name stands for the bare class. -/
def radii : List (Int × String) := [
  (0, "none"), (2, "sm"), (4, ""), (6, "md"), (8, "lg"), (12, "xl"), (16, "2xl"), (24, "3xl")]

/-- A length with its unit. -/
def pixels (px : Number) : String := px.text ++ "px"

/-- The name of a length on a scale. -/
def named? (scale : List (Int × String)) (px : Number) : Option String :=
  px.toInt?.bind fun n => scale.lookup n

/-- The suffix of a spacing class. -/
def spacingSuffix (px : Number) : String :=
  (named? spacings px).getD ("[" ++ pixels px ++ "]")

/-- The radius from which on a corner counts as fully round. -/
def fullRadius : Int := 9999

/-- The suffix of a radius class. -/
def radiusSuffix (px : Number) : String :=
  if !px.isBelow fullRadius then "full" else (named? radii px).getD ("[" ++ pixels px ++ "]")

/-- The numeral of a text that is a number, perhaps of pixels. -/
def numeral? (cs : List Char) : Option Numeral :=
  let cs := Text.trim cs
  Numeral.read? (if ['x', 'p'].isPrefixOf cs.reverse then cs.dropLast.dropLast else cs)

/-- The number of a text that is a number, perhaps of pixels. -/
def measure? (cs : List Char) : Except Fault (Option Number) :=
  match numeral? cs with
  | none => .ok none
  | some numeral => numeral.value.map some

/-- The number of a token: a dollar sign, perhaps one of the words, and a numeral. -/
def token? (words : List String) (cs : List Char) : Option Numeral :=
  match cs with
  | '$' :: cs =>
    Numeral.readUnsigned? false ((words.findSome? fun word => word.toList.isPrefixOf? cs).getD cs)
  | _ => none

/-- The number of a spacing token. -/
def spacingToken? (cs : List Char) : Option Numeral := token? ["space", "size"] cs

/-- The number of a radius token. -/
def radiusToken? (cs : List Char) : Option Numeral := token? ["radius"] cs

/-- The token of a fully round corner. -/
def fullRadiusToken : String := "$full"

end Restyle.Scale
