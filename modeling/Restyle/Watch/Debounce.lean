import Restyle.Files.Sources
import Restyle.Number.Double

namespace Restyle

inductive ChangeKind where
  | modified
  | created
  | deleted
  deriving DecidableEq, Repr

/-- A change of a file or folder. -/
structure Change where
  path : String
  kind : ChangeKind := .modified
  isFolder : Bool := false
  deriving DecidableEq, Repr

/-- The endings of the files that are watched. -/
def watchedEndings : List String := [".tsx", ".ts", ".jsx", ".js"]

/-- Whether a change is one of a source file that is still there. -/
def Change.isWatched (c : Change) : Bool :=
  c.kind != .deleted && !c.isFolder && hasEnding watchedEndings c.path

/-- The span of time in which no second change counts, and the time of the last one that did. -/
structure Debouncer where
  window : Double := .ofInt 1
  last : Double := .zero
  deriving DecidableEq, Repr

namespace Debouncer

/-- Whether a change counts, and the debouncer after it. The clock is read for a change of a source
file only, and after a change that counts its reading is the last time. -/
def note {m : Type → Type} [Monad m] (clock : m Double) (d : Debouncer) (c : Change) :
    m (Bool × Debouncer) := do
  if !c.isWatched then return (false, d)
  let now ← clock
  if (now.sub d.last).less d.window then return (false, d)
  return (true, { d with last := now })

end Debouncer

/-- What is said about a change that counts. -/
def Change.announcement (c : Change) : String := "\n🔄 File changed: " ++ c.path

end Restyle
