import Restyle.Files.Path
import Restyle.Files.Tree
import Restyle.Json.Access
import Restyle.Json.Display

namespace Restyle

/-- All endings of source files. -/
def sourceEndings : List String := [".tsx", ".ts", ".jsx", ".js"]

/-- The file patterns and the endings that they stand for. -/
def filePatterns : List (String × List String) := [
  ("**/*.tsx", [".tsx"]), ("**/*.ts", [".ts"]), ("**/*.jsx", [".jsx"]), ("**/*.js", [".js"]),
  ("**/*", sourceEndings)]

def defaultFilePattern : String := "**/*.tsx"
def defaultFileLimit : Int := 100

/-- The names of the file patterns. -/
def filePatternNames : String := ", ".intercalate (filePatterns.map (·.1))

/-- The folders that are passed over unless others are named. -/
def defaultSkippedFolders : List String :=
  ["node_modules", "dist", "build", ".git", ".expo", "coverage"]

def hasEnding (endings : List String) (name : String) : Bool :=
  endings.any fun ending => ending.toList.isSuffixOf name.toList

/-- Whether a file is a source file. Files of type declarations are none. -/
def isSource (endings : List String) (name : String) : Bool :=
  hasEnding endings name && !hasEnding [".d.ts"] name

namespace Tree

variable {α : Type}

/-- What one entry of a folder holds: its name, whether it is a folder, and the source files in
it. -/
structure EntrySources where
  name : String
  isFolder : Bool
  sources : List String

/-- The source files of a folder from those of its entries. -/
def gatherSources (skipped : List String) (entries : List EntrySources) : List String :=
  let sorted := entries.mergeSort fun a b => a.name ≤ b.name
  (sorted.filter (!·.isFolder)).flatMap (·.sources) ++
    (sorted.filter fun e => e.isFolder && !skipped.contains e.name).flatMap (·.sources)

mutual

/-- The source files at and below a place. -/
def sources (endings skipped : List String) (path name : String) : Tree α → List String
  | .file _ => if isSource endings name then [path] else []
  | .folder entries => gatherSources skipped (entrySources endings skipped path entries)

def entrySources (endings skipped : List String) (path : String) :
    List (String × Tree α) → List EntrySources
  | [] => []
  | (name, item) :: entries =>
    ⟨name, item.isFolder, sources endings skipped (Path.child path name) name item⟩ ::
      entrySources endings skipped path entries

end

end Tree

/-- Whether a value is neither a list nor an object. -/
def isAtom : Json → Bool
  | .list _ | .object _ => false
  | _ => true

/-- The endings that a file pattern stands for. -/
def endingsOf (pattern : Json) : Except Fault (List String) :=
  if isAtom pattern then
    match pattern.text?.bind fun name => filePatterns.lookup name with
    | some endings => .ok endings
    | none => pattern.shown.bind fun name => .error (.unknownFilePattern name filePatternNames)
  else .error .wrongType

/-- The names of the folders to pass over. A text names its characters, and an object its fields. -/
def skippedFolders (setting : Json) : Except Fault (List String) :=
  match setting with
  | .null => .ok defaultSkippedFolders
  | .text s => .ok (s.toList.map fun c => String.ofList [c])
  | .object fields => .ok (Fields.names fields)
  | .list items =>
    if items.all isAtom then .ok (items.filterMap Json.text?) else .error .wrongType
  | _ => .error .wrongType

/-- Whether so many files are as many as a limit allows. -/
def reaches (limit : Json) (count : Nat) : Except Fault Bool :=
  match limit with
  | .whole n => .ok (n ≤ count)
  | .bool b => .ok (b.toNat ≤ count)
  | .double x => .ok (x.less (.ofInt count) || x.toInt? == some (count : Int))
  | _ => .error .wrongType

/-- Adds files to those found until a limit is reached. The limit is looked at before each file, so
one that is no number is only noticed if there is a file. -/
def takeFiles (limit : Json) (found : List String) : List String → Except Fault (List String)
  | [] => .ok found
  | file :: files => do
    if ← reaches limit found.length then .ok found
    else takeFiles limit (found ++ [file]) files

/-- The source files below a folder, from the settings of a run. -/
def findSources {α : Type} (directory : String) (pattern limit skipped : Json)
    (folder : Except Fault (Option (Tree α))) : Except Fault (List String) := do
  let endings ← endingsOf pattern
  match ← folder with
  | none => throw (.noFolder directory)
  | some tree =>
    let skipped ← skippedFolders skipped
    takeFiles limit [] (tree.sources endings skipped (Path.normal directory) "")

end Restyle
