import Restyle.Json.Value
import Restyle.Text.Banner

namespace Restyle

/-- How much of a pattern the replacement keeps. -/
inductive Confidence where
  | high
  | medium
  | low
  deriving DecidableEq, Repr

def Confidence.name : Confidence → String
  | .high => "high"
  | .medium => "medium"
  | .low => "low"

/-- The code that replaces a pattern. -/
structure Conversion where
  source : String
  converted : String
  confidence : Confidence
  line : Int
  kind : String
  deriving DecidableEq, Repr

/-- A pattern that is not replaced, and why. -/
structure Skipped where
  source : String
  reason : String
  line : Int
  approach : String
  deriving DecidableEq, Repr

/-- For each pattern the code that replaces it, or the reason why there is none. -/
structure ConversionOutput where
  conversions : List Conversion := []
  skipped : List Skipped := []
  deriving DecidableEq, Repr

namespace ConversionOutput

def append (a b : ConversionOutput) : ConversionOutput :=
  ⟨a.conversions ++ b.conversions, a.skipped ++ b.skipped⟩

instance : Append ConversionOutput := ⟨append⟩

/-- Orders the records by line. Records of one line keep their order. -/
def sort (a : ConversionOutput) : ConversionOutput :=
  ⟨a.conversions.mergeSort (·.line ≤ ·.line), a.skipped.mergeSort (·.line ≤ ·.line)⟩

/-- The records of several outputs one after the other. -/
def concat (outputs : List ConversionOutput) : ConversionOutput :=
  ⟨outputs.flatMap (·.conversions), outputs.flatMap (·.skipped)⟩

end ConversionOutput

def Conversion.toJson (c : Conversion) : Json :=
  .object [
    ("original", .text c.source),
    ("converted", .text c.converted),
    ("confidence", .text c.confidence.name),
    ("lineNumber", .whole c.line),
    ("kind", .text c.kind)]

def Skipped.toJson (s : Skipped) : Json :=
  .object [
    ("code", .text s.source),
    ("reason", .text s.reason),
    ("lineNumber", .whole s.line),
    ("suggestedApproach", .text s.approach)]

def ConversionOutput.toJson (a : ConversionOutput) : Json :=
  .object [
    ("conversions", .list (a.conversions.map Conversion.toJson)),
    ("skipped", .list (a.skipped.map Skipped.toJson))]

def Conversion.lines (c : Conversion) : List String :=
  ["  ✅ line " ++ toString c.line ++ " [" ++ c.kind ++ ", " ++ c.confidence.name ++ "]"] ++
    Text.indented "     " c.converted ++ [""]

def Skipped.lines (s : Skipped) : List String :=
  ["  ⏭️  line " ++ toString s.line ++ ": " ++ s.reason, "     → " ++ s.approach, ""]

/-- What a reader wants to know about an output. -/
def ConversionOutput.report (a : ConversionOutput) : String :=
  Text.framed "NativeWind Conversion"
    (a.conversions.flatMap Conversion.lines ++ a.skipped.flatMap Skipped.lines)
    ("Converted: " ++ toString a.conversions.length ++ " | Skipped: " ++
      toString a.skipped.length)

end Restyle
