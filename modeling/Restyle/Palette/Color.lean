import Restyle.Json.Access
import Restyle.Text.Blank

namespace Restyle

namespace Color

def shades (pairs : List (String × String)) : Json :=
  .object (pairs.map fun (shade, color) => (shade, .text color))

/-- The colours of the design system. -/
def design : Fields Json := [
  ("white", .text "#ffffff"),
  ("black", .text "#000000"),
  ("coral", shades [
    ("050", "#fff4f1"), ("100", "#ffe4dc"), ("200", "#ffc9b9"), ("300", "#ffae9a"),
    ("400", "#fb9d86"), ("500", "#f98f75"), ("600", "#e0735a"), ("700", "#c25a43"),
    ("800", "#9a4433"), ("900", "#6e2f23")]),
  ("gray", shades [
    ("050", "#f7f7f7"), ("100", "#f0f0f0"), ("200", "#e0e0e0"), ("300", "#c7c7c7"),
    ("400", "#b0b0b0"), ("500", "#a0a0a0"), ("600", "#848484"), ("700", "#676767"),
    ("800", "#4a4a4a"), ("900", "#222222")]),
  ("red", shades [
    ("100", "#ffe5e0"), ("300", "#ff9c86"), ("500", "#ff4d2e"), ("700", "#c11a1a"),
    ("900", "#7a0f0f")]),
  ("green", shades [
    ("100", "#e3f6e8"), ("300", "#9edcb0"), ("500", "#34a853"), ("700", "#23783a"),
    ("900", "#134222")]),
  ("blue", shades [
    ("100", "#e3efff"), ("300", "#93bcff"), ("500", "#3a7bfd"), ("700", "#2456b8"),
    ("900", "#12306b")]),
  ("yellow", shades [
    ("100", "#fff7d6"), ("300", "#ffe27a"), ("500", "#ffc700"), ("700", "#c29600"),
    ("900", "#6b5300")]),
  ("beige", shades [
    ("100", "#f6f2ea"), ("300", "#e3d9c5"), ("500", "#c5b698"), ("700", "#9b8b6a"),
    ("900", "#5d5440")])]

/-- The colours that need no configuration. -/
def builtin : List (String × String) := [
  ("white", "#ffffff"), ("black", "#000000"), ("transparent", "transparent")]

/-- The family and the shade that a token names. -/
def shadeToken? (token : List Char) : Option (String × String) :=
  match Text.chomp token with
  | '$' :: cs =>
    let family := cs.takeWhile Char.isLower
    let shade := cs.dropWhile Char.isLower
    if !family.isEmpty && !shade.isEmpty && shade.all Text.isDigit then
      some (String.ofList family, String.ofList shade)
    else none
  | _ => none

/-- The class and the colour of a token. A single colour of the token's name comes before a shade
of a family. -/
def find? (colors : Json) (token : String) : Except Fault (Option (String × Json)) := do
  let fields ← colors.fields
  let name := String.ofList (token.toList.dropWhile (· == '$'))
  match Fields.get? fields name with
  | some (.text color) => return some (name, .text color)
  | _ =>
    match shadeToken? token.toList with
    | none => return none
    | some (family, shade) =>
      match Fields.get? fields family with
      | some (.object shades) =>
        return (Fields.get? shades shade).map fun color => (family ++ "-" ++ shade, color)
      | _ => return none

/-- The classes that one name of a palette gives. -/
def classesOf (name : String) : Json → List (String × Json)
  | .object shades => shades.map fun (shade, color) => (name ++ "-" ++ shade, color)
  | color => [(name, color)]

/-- All classes of a palette with their colours. -/
def classes (colors : Json) : Except Fault (List (String × Json)) :=
  colors.fields.map fun fields => fields.flatMap fun (name, value) => classesOf name value

end Color

end Restyle
