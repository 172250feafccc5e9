import Restyle.Palette.Typeface
import Restyle.Palette.Color

namespace Restyle

structure Palette where
  colors : Json
  typography : Json
  deriving Repr

namespace Palette

/-- The design system. -/
def design : Palette := ⟨.object Color.design, .object Typeface.design⟩

/-- A value that is given, or the default in its place. -/
def orElse (default : Json) : Option Json → Json
  | some value => if value.given then value else default
  | none => default

/-- The colours that are given, or those of the design system. -/
def colorsOr (colors : Option Json) : Json := orElse design.colors colors

/-- The palette of a theme. What a theme does not give is taken from the design system. -/
def ofJson (theme : Json) : Except Fault Palette := do
  if !theme.given then return design
  let colors ← theme.field? "colors"
  let typography ← theme.field? "typography"
  return ⟨colorsOr colors, orElse design.typography typography⟩

end Palette

end Restyle
