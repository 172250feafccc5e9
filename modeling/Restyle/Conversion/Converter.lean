import Restyle.Conversion.Basic
import Restyle.Conversion.Obstacle
import Restyle.Pattern.Source
import Restyle.Token.Resolver
import Restyle.Utility.Rule

namespace Restyle

/-- What classes are chosen with: the palette for tokens, the colours for rules, and the locale for
fonts. -/
structure StyleConverter where
  palette : Palette := .design
  ruleColors : Json := .object Color.design
  locale : Locale := .named Typeface.defaultLocale
  deriving Repr

namespace StyleConverter

/-- The element that takes the place of a component. -/
def elements : List (String × String) := [
  ("XStack", "View"), ("YStack", "View"), ("Stack", "View"), ("Typography", "Text"),
  ("Button", "TouchableOpacity"), ("View", "View"), ("Text", "Text"), ("Image", "Image"),
  ("TouchableOpacity", "TouchableOpacity"), ("Pressable", "Pressable"),
  ("ScrollView", "ScrollView"), ("TextInput", "TextInput")]

def elementFor (name : String) : String := (elements.lookup name).getD "View"

/-- The table in which the tokens of a property are looked up, and the stem of its classes. -/
def tokenTable? (property : String) : Option (Category × String) :=
  match (Utility.spacingStems ++ Utility.sizingStems).lookup property with
  | some stem => some (.spacing, stem)
  | none =>
    match Utility.colorStems.lookup property with
    | some stem => some (.color, stem)
    | none =>
      match Utility.radiusStems.lookup property with
      | some stem => some (.radius, stem)
      | none => if property == "fontFamily" then some (.typography, "font") else none

/-- The classes of a token that the palette knows. A text style has several. -/
def tokenClasses? (c : StyleConverter) (property : String) (value : Json) :
    Except Fault (Option (List String)) :=
  match value, tokenTable? property with
  | .text token, some (category, stem) =>
    if token.toList.head? == some '$' then
      (c.palette.resolve (some category) token c.locale).map fun mapping =>
        mapping.className.map fun name =>
          mapping.classes.getD [Utility.join stem name]
    else .ok none
  | _, _ => .ok none

/-- The classes of one style. -/
def classesFor (c : StyleConverter) (property : String) (value : Json) :
    Except Fault (List String) := do
  match ← c.tokenClasses? property value with
  | some classes => return classes
  | none => return (← Rule.convert c.ruleColors property value).toList

/-- The classes of several styles, each once, and the names of the styles without a class. -/
def classesForStyles (c : StyleConverter) (styles : Fields Json) :
    Except Fault (List String × List String) := do
  let found ← styles.mapM fun (name, value) => (c.classesFor name value).map (name, ·)
  return ((found.flatMap (·.2)).eraseDups, (found.filter (·.2.isEmpty)).map (·.1))

/-- An opening tag with classes. -/
def openTag (element : String) (classes : List String) : String :=
  "<" ++ element ++ " className=\"" ++ " ".intercalate classes ++ "\">"

/-- The record of a pattern that is not replaced. -/
def skip (p : Pattern) : ConversionOutput :=
  { skipped := [{
      source := p.source
      reason := "; ".intercalate (p.obstacles.map (·.reason))
      line := p.location.line
      approach := "; ".intercalate (p.obstacles.map (·.cause.approach)).eraseDups }] }

/-- A component that only has styles becomes an element with classes. -/
def replace (c : StyleConverter) (p : Pattern) (component base : String) (styles : Fields Json) :
    Except Fault ConversionOutput := do
  let (classes, unmapped) ← c.classesForStyles styles
  let lines :=
    ["// Replace " ++ component ++ " with:"] ++
      (if unmapped.isEmpty then [] else ["// Unmapped: " ++ ", ".intercalate unmapped]) ++
      [openTag (elementFor base) classes]
  return { conversions := [{
    source := p.source
    converted := "\n".intercalate lines
    confidence :=
      if classes.isEmpty then .low else if unmapped.isEmpty then .high else .medium
    line := p.location.line
    kind := p.kind }] }

def convertTemplate (c : StyleConverter) (p : TemplatePattern) : Except Fault ConversionOutput :=
  if p.isAutoConvertible then
    c.replace (.template p) p.component p.base
      (Fields.ofPairs (p.properties.map fun property => (property.name, property.value)))
  else .ok (skip (.template p))

def convertDeclarative (c : StyleConverter) (p : DeclarativePattern) :
    Except Fault ConversionOutput :=
  if p.isAutoConvertible then c.replace (.declarative p) p.component p.base p.styles
  else .ok (skip (.declarative p))

/-- The value that decides about the class of a style: its token, if it has one. -/
def styleValue (p : StyleProperty) : Json :=
  match p.token with
  | some token => if token == "" then p.value else .text token
  | none => p.value

/-- A style without a class stays an attribute. -/
def keptAttribute (p : StyleProperty) : String :=
  match p.value with
  | .text s => p.name ++ "=\"" ++ s ++ "\""
  | value => p.name ++ "=\x7b" ++ value.display ++ "\x7d"

def passthroughText (a : PassthroughAttribute) : String :=
  if a.name == "..." then "\x7b..." ++ a.value ++ "\x7d"
  else if a.value == "true" then a.name
  else a.name ++ "=" ++ a.value

/-- An entry of a style object. -/
def styleEntry (p : StyleProperty) : String := p.name ++ ": " ++ p.value.display

/-- The style attribute of a converted tag. Styles that are known at run time only come before the
ones that are already there. -/
def styleAttribute (entries : List String) (existing : Option PassthroughAttribute) : String :=
  let object := "\x7b " ++ ", ".intercalate entries ++ " \x7d"
  match entries.isEmpty, existing with
  | false, some a =>
    let inner := Text.trim ((Text.trim a.value.toList).drop 1).dropLast
    "style=\x7b[" ++ object ++ ", " ++ String.ofList inner ++ "]\x7d"
  | false, none => "style=\x7b" ++ object ++ "\x7d"
  | true, some a => "style=" ++ a.value
  | true, none => ""

def classAttribute (classes : List String) : String :=
  if classes.isEmpty then ""
  else "className=\"" ++ " ".intercalate classes.eraseDups ++ "\""

/-- The static styles of a tag with their classes. -/
def staticClasses (c : StyleConverter) (styles : List StyleProperty) :
    Except Fault (List (StyleProperty × List String)) :=
  (styles.filter (·.isStatic)).mapM fun p =>
    (c.classesFor p.name (styleValue p)).map (p, ·)

/-- Static styles become classes, and the others move into the style attribute. -/
def convertInline (c : StyleConverter) (p : InlinePattern) : Except Fault ConversionOutput := do
  if p.failed then return skip (.inline p)
  let found ← c.staticClasses p.styles
  let kept := (found.filter (·.2.isEmpty)).map fun (property, _) => keptAttribute property
  let entries := p.dynamicStyles.map styleEntry
  let attributes :=
    [classAttribute (found.flatMap (·.2)),
      styleAttribute entries (p.passthrough.find? (·.name == "style"))] ++
    kept ++ (p.passthrough.filter (·.name != "style")).map passthroughText
  let rendered := " ".intercalate (attributes.filter (· != ""))
  return { conversions := [{
    source := p.source
    converted :=
      "<" ++ elementFor p.tag ++ (if rendered == "" then "" else " " ++ rendered) ++ ">"
    confidence := if entries.isEmpty && kept.isEmpty then .high else .medium
    line := p.location.line
    kind := (Pattern.inline p).kind }] }

def convert (c : StyleConverter) : Pattern → Except Fault ConversionOutput
  | .template p => c.convertTemplate p
  | .declarative p => c.convertDeclarative p
  | .inline p => c.convertInline p

/-- Converts all patterns of a source text, by line. -/
def convertSource (c : StyleConverter) (tags : Json) (source : List Char) :
    Except Fault ConversionOutput := do
  let patterns ← SourcePatterns.parse tags source
  let outputs ← patterns.all.mapM c.convert
  return (ConversionOutput.concat outputs).sort

end StyleConverter

end Restyle
