import Restyle.Text.Blank

namespace Restyle.Text

def ruleLine : String := "═══════════════════════════════════════════════════════"

def head (title : String) : List String := [ruleLine, "  " ++ title, ruleLine, ""]

def foot (summary : String) : List String := [ruleLine, "  " ++ summary, ruleLine]

/-- The lines of a text, each after an indent. -/
def indented (indent text : String) : List String :=
  (lines text.toList).map fun line => indent ++ String.ofList line

/-- A report of a title, lines and a summary. -/
def framed (title : String) (body : List String) (summary : String) : String :=
  "\n".intercalate (head title ++ body ++ foot summary)

end Restyle.Text
