import Restyle.Pattern.Basic

namespace Restyle

def Location.toJson (l : Location) : Json :=
  .object [("line", .whole l.line), ("column", .whole l.column)]

def StyleProperty.toJson (p : StyleProperty) : Json :=
  .record [
    ("name", some (.text p.name)),
    ("rawValue", if p.value matches .null then none else some p.value),
    ("isStatic", some (.bool p.isStatic)),
    ("dependencies", p.dependencies.map .texts),
    ("token", p.token.map .text)]

def PassthroughAttribute.toJson (a : PassthroughAttribute) : Json :=
  .object [("name", .text a.name), ("rawValue", .text a.value)]

def VariantValue.toJson (v : VariantValue) : Json :=
  .object [("name", .text v.name), ("styles", .object v.styles)]

def Variant.toJson (v : Variant) : Json :=
  .object [
    ("name", .text v.name),
    ("values", .list (v.values.map VariantValue.toJson)),
    ("isDynamic", .bool v.isDynamic)]

def TemplatePattern.toJson (p : TemplatePattern) : Json :=
  .object [
    ("componentName", .text p.component),
    ("baseElementName", .text p.base),
    ("properties", .list (p.properties.map StyleProperty.toJson)),
    ("dynamicBindings", .texts p.bindings),
    ("externalThemeRefs", .texts p.themeRefs),
    ("location", p.location.toJson),
    ("rawText", .text p.source),
    ("parseFailed", .bool p.failed),
    ("isAutoConvertible", .bool p.isAutoConvertible),
    ("kind", .text (Pattern.template p).kind)]

def DeclarativePattern.toJson (p : DeclarativePattern) : Json :=
  .object [
    ("componentName", .text p.component),
    ("baseComponentName", .text p.base),
    ("staticStyles", .object p.styles),
    ("variants", .list (p.variants.map Variant.toJson)),
    ("location", p.location.toJson),
    ("rawText", .text p.source),
    ("dynamicBindings", .texts p.bindings),
    ("dynamicStyles", .object (p.dynamicStyles.map fun (name, value) => (name, .text value))),
    ("parseFailed", .bool p.failed),
    ("isAutoConvertible", .bool p.isAutoConvertible),
    ("kind", .text (Pattern.declarative p).kind)]

def InlinePattern.toJson (p : InlinePattern) : Json :=
  .object [
    ("tagName", .text p.tag),
    ("styleAttributes", .list (p.styles.map StyleProperty.toJson)),
    ("passthroughAttributes", .list (p.passthrough.map PassthroughAttribute.toJson)),
    ("location", p.location.toJson),
    ("rawText", .text p.source),
    ("parseFailed", .bool p.failed),
    ("isAutoConvertible", .bool p.isAutoConvertible),
    ("kind", .text (Pattern.inline p).kind)]

def Pattern.toJson : Pattern → Json
  | .template p => p.toJson
  | .declarative p => p.toJson
  | .inline p => p.toJson

end Restyle
