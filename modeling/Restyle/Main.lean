import Restyle.Program.Run

namespace Restyle.Main

/-- Why a file cannot be used. -/
def problemOf : IO.Error → PathProblem
  | .inappropriateType _ code _ => if code == 21 then .isFolder else .notFolder
  | .alreadyExists .. => .alreadyThere
  | .invalidArgument _ code _ => if code == 36 then .nameTooLong else .notFound
  | _ => .notFound

/-- The result of an action on a path, or what went wrong. -/
def guard {α : Type} (path : String) (action : IO α) : IO (Except Fault α) := do
  try return .ok (← action)
  catch error => return .error (.badPath (problemOf error) path)

/-- The lines of standard input up to its end. -/
partial def readLines (input : IO.FS.Stream) (lines : Array String) : IO (Array String) := do
  let line ← input.getLine
  if line.isEmpty then return lines
  readLines input (lines.push (String.ofList (Text.chomp line.toList)))

/-- The files that the paths lead to. -/
def treeOf (paths : List String) : Tree Unit :=
  paths.foldl (fun root path =>
    Tree.put (.file ()) ((Path.names path).filter (!Path.staysPut ·)) root) (.folder [])

/-- Gives the paths on standard input to a reaction. -/
partial def follow {σ : Type} (input : IO.FS.Stream) (react : σ → Change → IO (Except Fault σ))
    (state : σ) : IO (Except Fault Unit) := do
  let line ← input.getLine
  if line.isEmpty then return .ok ()
  match ← react state { path := String.ofList (Text.chomp line.toList) } with
  | .ok state => follow input react state
  | .error fault => return .error fault

instance : Host IO where
  print text := IO.print text
  note text := IO.eprint text
  isThere path := do
    match ← guard path (IO.FS.Handle.mk path .read) with
    | .error (.badPath .nameTooLong path) => return .error (.badPath .nameTooLong path)
    | result => return .ok result.toOption.isSome
  folder? path := do
    let tree := treeOf (← readLines (← IO.getStdin) #[]).toList
    return .ok ((tree.at? ((Path.names path).filter (!Path.staysPut ·))).filter (·.isFolder))
  read path := guard path (return (← IO.FS.readBinFile path).toList)
  write path text := guard path (IO.FS.writeFile path text)
  makeFolders path := guard path (IO.FS.createDirAll path)
  fetch url := return .error (.unreachable url)
  now := return Double.ofRatio false (← IO.monoMsNow) 1000
  observe _ state react := do follow (← IO.getStdin) react state

end Restyle.Main

def main (arguments : List String) : IO UInt32 := do
  match ← Restyle.Program.run (m := IO) arguments with
  | .ok code => return code.toUInt32
  | .error fault =>
    IO.eprintln fault.message
    return 1
