import Restyle.Pattern.Declarative
import Restyle.Pattern.Inline
import Restyle.Pattern.Template

namespace Restyle

/-- All patterns of a source text by kind. -/
structure SourcePatterns where
  template : List TemplatePattern
  declarative : List DeclarativePattern
  inline : List InlinePattern
  deriving Repr

namespace SourcePatterns

/-- Finds the patterns of a source text. The setting names the tags whose attributes are styles. -/
def parse (tags : Json) (source : List Char) : Except Fault SourcePatterns := do
  let template ← TemplatePattern.parse source
  let declarative ← DeclarativePattern.parse source
  let inline ← InlinePattern.parse (← InlinePattern.tagsOf tags) source
  return ⟨template, declarative, inline⟩

/-- The patterns in the order of their kinds. -/
def all (patterns : SourcePatterns) : List Pattern :=
  patterns.template.map .template ++ patterns.declarative.map .declarative ++
    patterns.inline.map .inline

end SourcePatterns

end Restyle
