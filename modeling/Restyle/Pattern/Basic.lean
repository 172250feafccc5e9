import Restyle.Json.Value
import Restyle.Scan.Offset

namespace Restyle

/-- A style by name and value. A value that is not static depends on names, and a value may be a
design token. -/
structure StyleProperty where
  name : String
  value : Json
  isStatic : Bool
  dependencies : Option (List String) := none
  token : Option String := none
  deriving Repr

/-- An attribute of a tag that is no style and is kept as it is written. -/
structure PassthroughAttribute where
  name : String
  value : String
  deriving DecidableEq, Repr

/-- A component with a template literal of declarations. -/
structure TemplatePattern where
  component : String
  base : String
  properties : List StyleProperty := []
  bindings : List String := []
  themeRefs : List String := []
  location : Location
  source : String
  failed : Bool := false
  deriving Repr

/-- One value of a variant and the styles that it adds. -/
structure VariantValue where
  name : String
  styles : Fields Json
  deriving Repr

/-- A property of a component that chooses among styles. The values of a dynamic variant are
computed at run time. -/
structure Variant where
  name : String
  values : List VariantValue
  isDynamic : Bool
  deriving Repr

/-- A component with an object of styles and variants. -/
structure DeclarativePattern where
  component : String
  base : String
  styles : Fields Json := []
  variants : List Variant := []
  location : Location
  source : String
  bindings : List String := []
  dynamicStyles : Fields String := []
  failed : Bool := false
  deriving Repr

/-- A tag whose attributes are styles. -/
structure InlinePattern where
  tag : String
  styles : List StyleProperty := []
  passthrough : List PassthroughAttribute := []
  location : Location
  source : String
  failed : Bool := false
  deriving Repr

def TemplatePattern.isAutoConvertible (p : TemplatePattern) : Bool :=
  !p.failed && p.bindings.isEmpty && p.themeRefs.isEmpty && p.properties.all (·.isStatic)

def DeclarativePattern.hasDynamicVariants (p : DeclarativePattern) : Bool :=
  p.variants.any (·.isDynamic)

def DeclarativePattern.isAutoConvertible (p : DeclarativePattern) : Bool :=
  !p.failed && p.bindings.isEmpty && p.variants.isEmpty

/-- The styles of a tag that are known at run time only. -/
def InlinePattern.dynamicStyles (p : InlinePattern) : List StyleProperty :=
  p.styles.filter (!·.isStatic)

def InlinePattern.isAutoConvertible (p : InlinePattern) : Bool :=
  !p.failed && p.dynamicStyles.isEmpty

/-- The three ways in which source code gives styles to an element: a template literal of declarations,
an object of styles, and the attributes of a tag. -/
inductive Pattern where
  | template (p : TemplatePattern)
  | declarative (p : DeclarativePattern)
  | inline (p : InlinePattern)
  deriving Repr

namespace Pattern

def kind : Pattern → String
  | .template _ => "styled-component"
  | .declarative _ => "tamagui"
  | .inline _ => "ui-core"

def location : Pattern → Location
  | .template p => p.location
  | .declarative p => p.location
  | .inline p => p.location

def source : Pattern → String
  | .template p => p.source
  | .declarative p => p.source
  | .inline p => p.source

def failed : Pattern → Bool
  | .template p => p.failed
  | .declarative p => p.failed
  | .inline p => p.failed

def isAutoConvertible : Pattern → Bool
  | .template p => p.isAutoConvertible
  | .declarative p => p.isAutoConvertible
  | .inline p => p.isAutoConvertible

end Pattern

end Restyle
