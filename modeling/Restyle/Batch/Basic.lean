import Restyle.Analysis.Basic

namespace Restyle

/-- Whether a fault lies in the file, so that other files can still be read. -/
def Fault.isUnreadable : Fault → Bool
  | .badPath _ _ | .undecodable _ => true
  | _ => false

/-- In how many files a kind of pattern occurs, and how often. -/
structure PatternStats where
  files : Nat
  occurrences : Nat
  deriving DecidableEq, Repr

/-- The number of files by the way in which their patterns can be moved over. -/
structure BatchSummary where
  full : Nat
  partly : Nat
  manual : Nat
  deriving DecidableEq, Repr

/-- A file with patterns that have to be moved over by hand, and why. -/
structure ComplexCase where
  file : String
  reason : String
  deriving DecidableEq, Repr

/-- The sums over the files that can be read, and the paths of the others. -/
structure Batch where
  totalFiles : Nat
  analyzed : Nat
  summary : BatchSummary
  byPattern : List (String × PatternStats)
  tokenUsage : List (String × Nat)
  complexCases : List ComplexCase
  skippedFiles : List String
  deriving DecidableEq, Repr

namespace Batch

/-- The statistics of patterns that are so many in each file. -/
def statsOf (counts : List Nat) : PatternStats :=
  ⟨counts.countP (0 < ·), counts.foldl (· + ·) 0⟩

def isFull (s : Summary) : Bool := 0 < s.total && s.auto == s.total

def isPartly (s : Summary) : Bool := 0 < s.auto && s.auto != s.total

def isManual (s : Summary) : Bool := 0 < s.total && s.auto == 0

/-- Why the patterns of a file have to be moved over by hand. -/
def reasons (a : Analysis) : List String :=
  ((a.patterns.all.filter fun p => !p.isAutoConvertible && !p.isAssisted).flatMap fun p =>
    p.obstacles.map (·.reason)).eraseDups

def complexCase? (a : Analysis) : Option ComplexCase :=
  if 0 < a.summary.manual then some ⟨a.file, "; ".intercalate (reasons a)⟩ else none

/-- In how many files each token is used. -/
def tokenCounts (analyses : List Analysis) : List (String × Nat) :=
  let used := analyses.flatMap (·.tokens)
  used.eraseDups.map fun token => (token, used.count token)

/-- Sums up those of the files found that could be read and lists the others. -/
def ofAnalyses (files : List String) (analyses : List Analysis) (skipped : List String) : Batch where
  totalFiles := files.length
  analyzed := analyses.length
  summary := {
    full := analyses.countP (isFull ·.summary)
    partly := analyses.countP (isPartly ·.summary)
    manual := analyses.countP (isManual ·.summary) }
  byPattern := [
    ("styledComponents", statsOf (analyses.map (·.patterns.template.length))),
    ("tamaguiStyled", statsOf (analyses.map (·.patterns.declarative.length))),
    ("uiCoreProps", statsOf (analyses.map (·.patterns.inline.length)))]
  tokenUsage := tokenCounts analyses
  complexCases := analyses.filterMap complexCase?
  skippedFiles := skipped

/-- Sums up what reading each file gave. A fault that does not lie in a file ends it all. -/
def ofReadings (readings : List (String × Except Fault Analysis)) : Except Fault Batch := do
  let sorted ← readings.mapM fun (path, reading) =>
    match reading with
    | .ok analysis => .ok (.inl analysis)
    | .error fault => if fault.isUnreadable then .ok (.inr path) else .error fault
  return ofAnalyses (readings.map (·.1)) (sorted.filterMap Sum.getLeft?)
    (sorted.filterMap Sum.getRight?)

def toJson (b : Batch) : Json :=
  .object [
    ("totalFiles", .whole b.totalFiles),
    ("analyzed", .whole b.analyzed),
    ("summary", .object [
      ("fullyAutoConvertible", .whole b.summary.full),
      ("partiallyAutoConvertible", .whole b.summary.partly),
      ("manualRequired", .whole b.summary.manual)]),
    ("byPattern", .object (b.byPattern.map fun (name, stats) =>
      (name, .object [("files", .whole stats.files), ("occurrences", .whole stats.occurrences)]))),
    ("tokenUsage", .object (b.tokenUsage.map fun (token, count) => (token, .whole count))),
    ("complexCases", .list (b.complexCases.map fun c =>
      .object [("filePath", .text c.file), ("reason", .text c.reason)])),
    ("skippedFiles", .texts b.skippedFiles)]

end Batch

end Restyle
