import Restyle.Migration.Variants
import Restyle.Palette.Legacy

namespace Restyle.Migration

def conditionalImport : String := "import clsx from \"clsx\""

/-- The classes of the static ones among the styles, each once. -/
def classesOfStatic (c : StyleConverter) (styles : List StyleProperty) :
    Except Fault (List String) :=
  (c.staticClasses styles).map fun found => (found.flatMap (·.2)).eraseDups

/-- A style object of the entries. -/
def styleObject (entries : String) : String := "style=\x7b\x7b " ++ entries ++ " \x7d\x7d"

/-- The use of a component that chooses among classes by its properties. -/
def renderConditional (p : TemplatePattern) (classes : List String) : String :=
  let conditions := p.bindings.map fun name => name ++ " && \"conditional-class\""
  "\n".intercalate [
    "function " ++ p.component ++ "(\x7b " ++ ", ".intercalate p.bindings ++ ", ...props \x7d) \x7b",
    "  return (",
    "    <" ++ StyleConverter.elementFor p.base,
    "      className=\x7bclsx(",
    "        \"" ++ " ".intercalate classes ++ "\",",
    "        // Add conditional classes based on props",
    "        " ++ ",\n        ".intercalate conditions,
    "      )\x7d",
    "      \x7b...props\x7d",
    "    />",
    "  )",
    "\x7d"]

/-- The proposal for a template with values that are known at run time only. -/
def ofTemplate (c : StyleConverter) (p : TemplatePattern) : Except Fault Migration := do
  let classes ← classesOfStatic c p.properties
  let dynamic := p.properties.filter (!·.isStatic)
  let themeWarnings :=
    if p.themeRefs.isEmpty then []
    else ["Theme references found: " ++ ", ".intercalate p.themeRefs ++
      ". Consider using CSS variables or NativeWind theme tokens."]
  if p.bindings.isEmpty then
    return {
      patternType :=
        if p.themeRefs.isEmpty then "styled-component-with-dynamic-values"
        else "styled-component-with-theme-refs"
      approach := .classes
      classes
      sample := StyleConverter.openTag (StyleConverter.elementFor p.base) classes
      warnings :=
        if p.themeRefs.isEmpty then
          ["Interpolated values without props: " ++ ", ".intercalate (dynamic.map (·.name)) ++
            ". Keep them in a style prop."]
        else themeWarnings }
  return {
    patternType := "styled-component-with-dynamic-props"
    dependencies := p.bindings
    conditions := dynamic.map StyleConverter.styleEntry
    approach := .conditional
    imports := [conditionalImport]
    classes
    dynamicClasses := p.bindings
    sample := renderConditional p classes
    warnings := themeWarnings }

/-- What to do with one style of a tag. -/
def inlineHint (p : StyleProperty) : String :=
  let value := p.value.display
  if value.toList.contains '?' && value.toList.contains ':' then
    "// " ++ p.name ++ ": " ++ value ++ " -> use clsx with ternary"
  else "// " ++ p.name ++ ": dynamic value - keep as style prop"

/-- The proposal for a tag with styles that are known at run time only. -/
def ofInline (c : StyleConverter) (p : InlinePattern) : Except Fault Migration := do
  let classes ← classesOfStatic c p.styles
  let dynamic := p.dynamicStyles
  let entries := ", ".intercalate (dynamic.map StyleConverter.styleEntry)
  return {
    patternType := "ui-core-with-dynamic-props"
    dependencies := (dynamic.flatMap fun a => a.dependencies.getD []).eraseDups
    conditions := dynamic.map StyleConverter.styleEntry
    approach := .hybrid
    imports := [conditionalImport]
    classes
    dynamicClasses := dynamic.map (·.name)
    sample := "\n".intercalate
      (["<" ++ StyleConverter.elementFor p.tag,
          "  className=\x7bclsx(",
          "    \"" ++ " ".intercalate classes ++ "\","] ++
        dynamic.map (fun a => "    " ++ inlineHint a) ++
        ["  )\x7d",
          "  // Keep truly dynamic values as style prop:",
          "  " ++ styleObject entries,
          "/>"])
    warnings := ["Dynamic props detected. Use clsx for conditional classes and style prop for " ++
      "computed values."]
    styleOverrides := some (styleObject entries) }

/-- The proposal for an object without variants but with values that are known at run time
only. -/
def ofDeclarative (c : StyleConverter) (p : DeclarativePattern) : Except Fault Migration := do
  let (classes, unmapped) ← c.classesForStyles p.styles
  let entries := p.dynamicStyles.map fun (name, value) => name ++ ": " ++ value
  let overrides := ", ".intercalate entries
  return {
    patternType := "tamagui-styled-with-dynamic-values"
    dependencies := p.bindings
    conditions := entries
    approach := .hybrid
    classes
    dynamicClasses := Fields.names p.dynamicStyles
    sample := "\n".intercalate
      (["<" ++ StyleConverter.elementFor p.base,
          "  className=\"" ++ " ".intercalate classes ++ "\""] ++
        (if overrides == "" then [] else ["  " ++ styleObject overrides]) ++ ["/>"])
    warnings :=
      ["Dynamic base values depend on: " ++ ", ".intercalate p.bindings ++
        ". Keep them in a style prop."] ++
      warnOf "Unmapped base styles: " unmapped
    styleOverrides := if overrides == "" then none else some (styleObject overrides) }

/-- The classes that stand in converted code. -/
def classesIn (code : List Char) : List String :=
  match Text.cut? "className=\"".toList code with
  | some (_, rest) =>
    if rest.contains '\x22' then
      (Text.words (rest.takeWhile (· != '\x22'))).map String.ofList
    else []
  | none => []

/-- The proposal for a pattern that is replaced by classes alone. -/
def ofStatic (c : StyleConverter) (p : Pattern) : Except Fault Migration := do
  let output ← c.convert p
  let sample := (output.conversions.head?.map (·.converted)).getD ""
  return {
    patternType := p.kind ++ "-static"
    approach := .classes
    classes := classesIn sample.toList
    sample }

/-- The proposal for code without any pattern. -/
def unknown : Migration where
  patternType := "unknown"
  approach := .classes
  sample := "// Could not determine pattern. Please provide more context."
  warnings := ["Could not parse the provided code snippet"]

/-- The proposal for the pattern that decides. -/
def ofPatterns (c : StyleConverter) (patterns : SourcePatterns) : Except Fault Migration :=
  match patterns.declarative.find? (!·.variants.isEmpty) with
  | some p => ofVariants c p
  | none =>
    match patterns.template.find? fun p => !p.isAutoConvertible && !p.failed with
    | some p => ofTemplate c p
    | none =>
      match patterns.declarative.find? fun p => !p.isAutoConvertible && !p.failed with
      | some p => ofDeclarative c p
      | none =>
        match patterns.inline.find? (!·.dynamicStyles.isEmpty) with
        | some p => ofInline c p
        | none =>
          match patterns.all.find? (·.isAutoConvertible) with
          | some p => ofStatic c p
          | none => .ok unknown

/-- What to do about a token of the former theme. -/
def legacyWarning (c : StyleConverter) (token : String) : Except Fault String :=
  (c.palette.resolve none token c.locale).map fun mapping =>
    match mapping.suggestion, mapping.className with
    | some name, _ => "Legacy token " ++ token ++ " → migrate to " ++ name
    | none, some name =>
      "Legacy token " ++ token ++ " maps to " ++ name ++ " (custom config required)"
    | none, none => "Legacy token " ++ token ++ " has no registered mapping"

/-- The proposal for a piece of code, with what is to be done about tokens of the former theme. A
context that is not empty stands before the sample. -/
def suggest (c : StyleConverter) (context : String) (tags : Json) (code : List Char) :
    Except Fault Migration := do
  let m ← ofPatterns c (← SourcePatterns.parse tags code)
  let tokens := Legacy.references code
  let warnings ← tokens.mapM (legacyWarning c)
  return { m with
    legacyTokens := if tokens.isEmpty then none else some tokens
    warnings := m.warnings ++ warnings
    sample := if context == "" then m.sample else "// Context: " ++ context ++ "\n" ++ m.sample }

end Restyle.Migration
