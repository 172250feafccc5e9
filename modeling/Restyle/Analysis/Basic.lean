import Restyle.Conversion.Obstacle
import Restyle.Pattern.Record
import Restyle.Pattern.Source

namespace Restyle

/-- Only variants with known values stand in the way. -/
def Pattern.isAssisted : Pattern → Bool
  | .declarative p =>
    !p.failed && !p.variants.isEmpty && !p.hasDynamicVariants && p.bindings.isEmpty
  | _ => false

/-- The number of patterns by the way in which they can be moved over. -/
structure Summary where
  total : Nat
  auto : Nat
  assisted : Nat
  manual : Int
  deriving DecidableEq, Repr

/-- What is neither automatic nor assisted is manual. -/
def Summary.ofPatterns (patterns : List Pattern) : Summary :=
  let auto := patterns.countP (·.isAutoConvertible)
  let assisted := patterns.countP (·.isAssisted)
  ⟨patterns.length, auto, assisted, patterns.length - auto - assisted⟩

/-- The tokens among the values of styles. -/
def tokenValues (styles : Fields Json) : List String :=
  styles.filterMap fun (_, value) =>
    match value with
    | .text s => if s.toList.head? == some '$' then some s else none
    | _ => none

/-- The tokens that are noted at styles. -/
def notedTokens (styles : List StyleProperty) : List String :=
  styles.filterMap fun p => p.token.filter (· != "")

/-- The tokens and theme references of all patterns, each once. -/
def SourcePatterns.tokens (patterns : SourcePatterns) : List String :=
  (patterns.template.flatMap (fun p => p.themeRefs ++ notedTokens p.properties) ++
    patterns.declarative.flatMap (fun p =>
      tokenValues p.styles ++
        p.variants.flatMap fun v => v.values.flatMap fun value => tokenValues value.styles) ++
    patterns.inline.flatMap (fun p => notedTokens p.styles)).eraseDups

structure Analysis where
  file : String
  patterns : SourcePatterns
  summary : Summary
  tokens : List String
  deriving Repr

namespace Analysis

/-- Takes stock of a source text. -/
def ofSource (file : String) (tags : Json) (source : List Char) : Except Fault Analysis := do
  let patterns ← SourcePatterns.parse tags source
  return {
    file
    patterns
    summary := .ofPatterns patterns.all
    tokens := patterns.tokens }

end Analysis

def Summary.toJson (s : Summary) : Json :=
  .object [
    ("total", .whole s.total),
    ("auto", .whole s.auto),
    ("aiAssisted", .whole s.assisted),
    ("manual", .whole s.manual)]

def Analysis.toJson (a : Analysis) : Json :=
  .object [
    ("file", .text a.file),
    ("template", .list (a.patterns.template.map TemplatePattern.toJson)),
    ("declarative", .list (a.patterns.declarative.map DeclarativePattern.toJson)),
    ("inline", .list (a.patterns.inline.map InlinePattern.toJson)),
    ("summary", a.summary.toJson),
    ("tokens", .texts a.tokens)]

end Restyle
