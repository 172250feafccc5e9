import Restyle.Palette.Color
import Restyle.Scan.Find
import Restyle.Text.Word

namespace Restyle.Legacy

/-- The colours of the former theme. -/
def colors : List (String × String) := [
  ("mono100", "#ffffff"), ("mono150", "#f3f3f3"), ("mono200", "#f0f0f0"), ("mono300", "#e0e0e0"),
  ("mono400", "#b0b0b0"), ("mono500", "#a0a0a0"), ("mono600", "#848484"), ("mono700", "#676767"),
  ("mono800", "#444444"), ("mono900", "#000000"), ("main300", "#ffd2c7"), ("main500", "#ffae9a"),
  ("main700", "#f98f75"), ("red200", "#ff7250"), ("red400", "#ff0000"), ("button500", "#c5b698"),
  ("buttonSpecial", "#c9b589"), ("rustyRed", "#c11a1a")]

/-- The colours of the design system that take their places. -/
def migrations : List (String × String) := [
  ("mono100", "white"), ("mono900", "black"), ("mono800", "gray-900"), ("mono700", "gray-700"),
  ("mono600", "gray-600"), ("mono500", "gray-500"), ("mono400", "gray-400"),
  ("mono300", "gray-100"), ("mono200", "gray-050"), ("main700", "coral-500"),
  ("main500", "coral-300"), ("main300", "coral-100"), ("red400", "red-500")]

/-- The word after one of the paths, if a whole text is a path, a point and a word. A line feed at
the end does not count. -/
def member? (paths : List String) (token : List Char) : Option String :=
  paths.findSome? fun path => do
    let rest ← (path ++ ".").toList.isPrefixOf? (Text.chomp token)
    if !rest.isEmpty && rest.all Text.isWord then some (String.ofList rest) else none

/-- The name of the colour that a reference to the former theme ends in. -/
def colorRef? (token : List Char) : Option String := member? ["theme.main.colors", "colors"] token

/-- The name of the text style that a reference to the former theme ends in. -/
def fontRef? (token : List Char) : Option String := member? ["theme.fonts"] token

/-- The former colour that a token names, by reference or by its bare name. -/
def colorKey? (token : String) : Option String :=
  let key := (colorRef? token.toList).getD token
  if (colors.lookup key).isSome then some key else none

/-- The class of a former colour. -/
def className (key : String) : String := "legacy-" ++ key

/-- Whether a word can start after a character. -/
def wordStarts : Option Char → Bool
  | none => true
  | some c => !Text.isWord c

/-- A path, a point and a word at a place where a word starts. -/
def reference? (paths : List String) : Scan.Recognizer String := fun before cs =>
  if wordStarts before then
    paths.findSome? fun path => do
      let rest ← (path ++ ".").toList.isPrefixOf? cs
      let word := rest.takeWhile Text.isWord
      if word.isEmpty then none else some (String.ofList word, rest.dropWhile Text.isWord)
  else none

/-- The references of a source text to the former theme: first the full ones, then the short ones
to former colours. A short one inside of a full one does not count again. -/
def references (source : List Char) : List String :=
  let full := (Scan.findAll (reference? ["theme.main.colors", "theme.fonts"]) source).map
    fun hit => String.ofList hit.text
  let short := (Scan.findAll (reference? ["colors"]) source).filter fun hit =>
    (source.take hit.offset).drop (hit.offset - 5) != "main.".toList &&
      (colors.lookup hit.value).isSome
  (full ++ short.map fun hit => String.ofList hit.text).eraseDups

end Restyle.Legacy
