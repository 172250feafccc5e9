import Restyle.Analysis.Basic
import Restyle.Json.Display
import Restyle.Text.Banner

namespace Restyle

def Pattern.label : Pattern → String
  | .template p => p.component
  | .declarative p => p.component
  | .inline p => "<" ++ p.tag ++ ">"

/-- The lines about what a pattern depends on. -/
def Pattern.details : Pattern → List String
  | .template p =>
    p.bindings.map ("     dynamic: " ++ ·) ++ p.themeRefs.map ("     theme:   " ++ ·)
  | .declarative p =>
    p.bindings.map ("     dynamic: " ++ ·) ++
      p.variants.map fun v =>
        "     variant " ++ v.name ++ ": " ++
          if v.isDynamic then "dynamic" else ", ".intercalate (v.values.map (·.name))
  | .inline p =>
    p.dynamicStyles.map fun a =>
      "     dynamic: " ++ a.name ++ "=\x7b" ++ a.value.display ++ "\x7d"

namespace Analysis

def patternLines (p : Pattern) : List String :=
  ["  " ++ (if p.isAutoConvertible then "✅" else "⚠️ ") ++ " " ++ p.label ++ " (" ++ p.kind ++
      ", line " ++ toString p.location.line ++ ")"] ++
    (if p.failed then ["     unterminated style block"] else []) ++ p.details

def report (a : Analysis) : String :=
  Text.framed ("Style Analysis: " ++ a.file)
    (a.patterns.all.flatMap patternLines ++
      (if a.tokens.isEmpty then [] else ["", "  tokens: " ++ ", ".intercalate a.tokens]) ++ [""])
    ("Total " ++ toString a.summary.total ++ " | auto " ++ toString a.summary.auto ++
      " | ai-assisted " ++ toString a.summary.assisted ++ " | manual " ++
      toString a.summary.manual)

end Analysis

end Restyle
