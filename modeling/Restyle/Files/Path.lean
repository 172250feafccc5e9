import Restyle.Text.Blank

namespace Restyle.Path

/-- The names between the slashes; there is always at least one. -/
def names (path : String) : List String :=
  (Text.fields (· == '/') path.toList).map String.ofList

/-- Whether a name stays in its folder. -/
def staysPut (name : String) : Bool := name == "" || name == "."

/-- The slashes that a whole path starts with: none, one or, if there are just two, both. -/
def rootOf (path : String) : String :=
  match (path.toList.takeWhile (· == '/')).length with
  | 0 => ""
  | 2 => "//"
  | _ => "/"

/-- The form of a path without needless slashes and points. Two points stay, since the folder
before them may be missing. -/
def normal (path : String) : String :=
  let text := rootOf path ++ "/".intercalate ((names path).filter (!staysPut ·))
  if text == "" then "." else text

/-- The path of something inside a folder. -/
def child (folder name : String) : String :=
  if folder.toList.getLast? == some '/' then folder ++ name else folder ++ "/" ++ name

/-- The normal path of something inside a folder. -/
def normalChild (folder name : String) : String :=
  if normal folder == "." then name else child (normal folder) name

end Restyle.Path
