import Restyle.Pattern.Basic

namespace Restyle

/-- What keeps a pattern from being replaced by classes alone. -/
inductive Cause where
  | dynamicBindings
  | dynamicValues
  | themeRefs
  | staticVariants
  | dynamicVariants
  | unterminated
  deriving DecidableEq, Repr

namespace Cause

def name : Cause → String
  | .dynamicBindings => "dynamic-bindings"
  | .dynamicValues => "dynamic-values"
  | .themeRefs => "theme-refs"
  | .staticVariants => "static-variants"
  | .dynamicVariants => "dynamic-variants"
  | .unterminated => "unterminated"

/-- The ways around obstacles, under the names of their causes. -/
def approaches : List (String × String) := [
  ("dynamic-bindings", "Use clsx for conditional classes or style prop for computed values"),
  ("dynamic-values", "Use clsx for conditional classes or style prop for computed values"),
  ("theme-refs", "Theme references need CSS variables or context-based styling"),
  ("static-variants", "Use cva (class-variance-authority) for variant-based styling"),
  ("dynamic-variants",
    "Function-based variants need manual conversion to computed classes or style props"),
  ("unterminated", "Style block could not be parsed; migrate this definition manually")]

/-- The way around an obstacle; empty if the table has none for its cause. -/
def approach (cause : Cause) : String := (approaches.lookup cause.name).getD ""

end Cause

/-- A cause with its wording for one pattern. -/
structure Obstacle where
  cause : Cause
  reason : String
  deriving DecidableEq, Repr

namespace Obstacle

/-- An obstacle that lists names, or none if there are no names. -/
def listing (cause : Cause) (intro : String) (names : List String) : List Obstacle :=
  if names.isEmpty then [] else [⟨cause, intro ++ ", ".intercalate names⟩]

def unterminated : Obstacle := ⟨.unterminated, "Unterminated style block; could not parse"⟩

end Obstacle

open Obstacle

/-- Values that are not static count only if no names are known that they depend on. -/
def TemplatePattern.obstacles (p : TemplatePattern) : List Obstacle :=
  if p.failed then [unterminated]
  else
    (if p.bindings.isEmpty then
        listing .dynamicValues "Has dynamic values: "
          ((p.properties.filter (!·.isStatic)).map (·.name))
      else listing .dynamicBindings "Has dynamic props: " p.bindings) ++
      listing .themeRefs "Uses theme references: " p.themeRefs

def DeclarativePattern.obstacles (p : DeclarativePattern) : List Obstacle :=
  if p.failed then [unterminated]
  else
    listing .dynamicBindings "Has dynamic props: " p.bindings ++
      listing .dynamicVariants "Has dynamic variants: "
        ((p.variants.filter (·.isDynamic)).map (·.name)) ++
      listing .staticVariants "Has variants: "
        ((p.variants.filter (!·.isDynamic)).map (·.name))

/-- The names that a style depends on; a style without any depends on itself. -/
def StyleProperty.dependsOn (p : StyleProperty) : List String :=
  match p.dependencies with
  | some (name :: names) => name :: names
  | _ => [p.name]

def InlinePattern.obstacles (p : InlinePattern) : List Obstacle :=
  if p.failed then [unterminated]
  else
    listing .dynamicBindings "Has dynamic props: "
      (p.dynamicStyles.flatMap (·.dependsOn)).eraseDups

def Pattern.obstacles : Pattern → List Obstacle
  | .template p => p.obstacles
  | .declarative p => p.obstacles
  | .inline p => p.obstacles

end Restyle
