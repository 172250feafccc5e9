import Restyle.Fault
import Restyle.Files.Path
import Restyle.Files.Tree
import Restyle.Text.Blank
import Restyle.Watch.Debounce

namespace Restyle

/-- What an address holds, or why it does not. -/
structure Response where
  status : Int
  reason : String := ""
  body : String := ""
  deriving DecidableEq, Repr

/-- What a program asks of the place where it runs. -/
class Host (m : Type → Type) where
  /-- Prints a text. -/
  print : String → m Unit
  /-- Prints a text for those who look at the progress. -/
  note : String → m Unit
  /-- Whether there is something at a path. -/
  isThere : String → m (Except Fault Bool)
  /-- The names below a folder; none if there is no folder at the path. -/
  folder? : String → m (Except Fault (Option (Tree Unit)))
  /-- The bytes of a file. -/
  read : String → m (Except Fault (List UInt8))
  /-- Replaces or makes a file. -/
  write : String → String → m (Except Fault Unit)
  /-- Makes a folder and those above it, as far as they are missing. -/
  makeFolders : String → m (Except Fault Unit)
  /-- What an address holds. -/
  fetch : String → m (Except Fault Response)
  /-- The reading of the clock. -/
  now : m Double
  /-- Follows the changes below a folder until it is told to stop. Every change is given to the
  reaction, with what the reaction to the last one left behind. -/
  observe {σ : Type} : String → σ → (σ → Change → m (Except Fault σ)) → m (Except Fault Unit)

/-- A program that may end with a fault. -/
abbrev Job (m : Type → Type) := ExceptT Fault m

namespace Job

variable {m : Type → Type} [Monad m] [Host m]

def ofHost {α : Type} (action : m (Except Fault α)) : Job m α := ExceptT.mk action

def lift {α : Type} (result : Except Fault α) : Job m α := ExceptT.mk (pure result)

/-- Prints a line. -/
def printLine (text : String) : Job m Unit := ExceptT.lift (Host.print (text ++ "\n"))

/-- Prints a line for those who look at the progress. -/
def noteLine (text : String) : Job m Unit := ExceptT.lift (Host.note (text ++ "\n"))

/-- The text of a file, with every line end a line feed. -/
def readText (path : String) : Job m (List Char) := do
  let bytes ← ofHost (Host.read (Path.normal path))
  match Text.decodeUtf8 bytes with
  | .ok cs => return Text.unifyNewlines cs
  | .error fault => throw (.undecodable fault)

/-- The value that a file holds. -/
def readJson (path : String) : Job m Json := do
  let source ← readText path
  match Json.read source with
  | .ok value => return value
  | .error fault => throw (.unreadableJson source fault)

end Job

end Restyle
