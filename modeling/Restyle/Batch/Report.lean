import Restyle.Batch.Basic
import Restyle.Text.Banner

namespace Restyle.Batch

/-- Frequent tokens come first, equally frequent ones in alphabetical order. -/
def ranked (usage : List (String × Nat)) : List (String × Nat) :=
  usage.mergeSort fun a b => b.2 < a.2 || (a.2 == b.2 && a.1 ≤ b.1)

/-- A number in four columns. -/
def column (n : Nat) : String :=
  let digits := toString n
  String.ofList (List.replicate (4 - digits.length) ' ') ++ digits

def report (b : Batch) : String :=
  Text.framed "Batch Analysis"
    (["  files visited: " ++ toString b.totalFiles ++ "  analyzed: " ++ toString b.analyzed,
        "  fully auto:    " ++ toString b.summary.full,
        "  partially:     " ++ toString b.summary.partly,
        "  manual:        " ++ toString b.summary.manual,
        ""] ++
      b.byPattern.map (fun (name, stats) =>
        "  " ++ name ++ ": " ++ toString stats.files ++ " files, " ++
          toString stats.occurrences ++ " occurrences") ++
      (if b.tokenUsage.isEmpty then []
        else "" :: ((ranked b.tokenUsage).take 10).map fun (token, count) =>
          "  " ++ column count ++ "  " ++ token) ++
      (if b.complexCases.isEmpty then []
        else "" :: b.complexCases.flatMap fun c => ["  ⚠️  " ++ c.file, "     " ++ c.reason]) ++
      b.skippedFiles.map ("  ❌ unreadable: " ++ ·) ++ [""])
    ("Complex cases: " ++ toString b.complexCases.length)

end Restyle.Batch
