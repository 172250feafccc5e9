import Restyle.Conversion.Converter
import Restyle.Migration.Basic
import Restyle.Text.Case

namespace Restyle.Migration

def variantsImport : String :=
  "import \x7b cva, type VariantProps \x7d from \"class-variance-authority\""

/-- The name of the function for a component. -/
def chooserName (component : String) : String :=
  String.ofList (Text.uncapitalize component.toList) ++ "Variants"

/-- A name that can stand in an object without quotes. -/
def isBareKey (name : List Char) : Bool :=
  match Text.chomp name with
  | c :: cs => (c.isAlpha || c == '_') && cs.all Text.isWord
  | [] => false

def objectKey (name : String) : String :=
  if isBareKey name.toList then name else "\"" ++ name ++ "\""

/-- The classes of each value of each variant. -/
abbrev VariantClasses := Fields (Fields String)

def variantLines (name : String) (values : Fields String) : List String :=
  ["      " ++ objectKey name ++ ": \x7b"] ++
    values.map (fun (value, classes) =>
      "        " ++ objectKey value ++ ": \"" ++ classes ++ "\",") ++
    ["      \x7d,"]

/-- The definition of the function that chooses the classes. -/
def renderVariants (chooser : String) (base : List String) (variants : VariantClasses) : String :=
  "\n".intercalate
    (["const " ++ chooser ++ " = cva(", "  \"" ++ " ".intercalate base ++ "\",", "  \x7b",
        "    variants: \x7b"] ++
      variants.flatMap (fun (name, values) => variantLines name values) ++
      ["    \x7d,", "  \x7d", ")"])

/-- A component that uses the function. -/
def renderUse (p : DeclarativePattern) (chooser : String) (names : List String) : String :=
  let element := StyleConverter.elementFor p.base
  let listed := ", ".intercalate names
  let parameters := if listed == "" then "children, ...props" else listed ++ ", children, ...props"
  "\n".intercalate
    ((if names.isEmpty then []
      else ["type " ++ p.component ++ "Props = VariantProps<typeof " ++ chooser ++
        "> & \x7b children?: React.ReactNode \x7d", ""]) ++
      ["function " ++ p.component ++ "(\x7b " ++ parameters ++ " \x7d: " ++ p.component ++
          "Props) \x7b",
        "  return (",
        "    <" ++ element,
        "      className=\x7b" ++ chooser ++ "(\x7b " ++ listed ++ " \x7d)\x7d",
        "      \x7b...props\x7d",
        "    >",
        "      \x7bchildren\x7d",
        "    </" ++ element ++ ">",
        "  )",
        "\x7d"])

/-- A warning that lists names, or none if there are no names. -/
def warnOf (intro : String) (names : List String) : List String :=
  if names.isEmpty then [] else [intro ++ ", ".intercalate names]

/-- What the variants of a component come to. -/
structure VariantTotals where
  classes : VariantClasses := []
  conditions : List String := []
  dynamic : List String := []
  warnings : List String := []
  deriving DecidableEq, Repr

/-- One value of a variant with its classes and the names without a class. -/
def valueClasses (c : StyleConverter) (value : VariantValue) :
    Except Fault (String × List String × List String) :=
  (c.classesForStyles value.styles).map (value.name, ·)

/-- Adds a variant. Of two variants with one name the last one counts. -/
def VariantTotals.add (c : StyleConverter) (totals : VariantTotals) (variant : Variant) :
    Except Fault VariantTotals := do
  if variant.isDynamic then
    return { totals with
      dynamic := totals.dynamic ++ [variant.name]
      warnings := totals.warnings ++ ["Variant \"" ++ variant.name ++
        "\" is dynamic (function-based). Manual conversion required."] }
  let values ← variant.values.mapM (valueClasses c)
  return { totals with
    classes := totals.classes.put variant.name
      (Fields.ofPairs (values.map fun (name, classes, _) => (name, " ".intercalate classes)))
    conditions := totals.conditions ++ values.map fun (name, _) => variant.name ++ "=" ++ name
    warnings := totals.warnings ++ values.flatMap fun (name, _, missing) =>
      warnOf ("Unmapped styles in " ++ variant.name ++ "=" ++ name ++ ": ") missing }

/-- The proposal for a component with variants. -/
def ofVariants (c : StyleConverter) (p : DeclarativePattern) : Except Fault Migration := do
  let (base, unmapped) ← c.classesForStyles p.styles
  let totals ← p.variants.foldlM (VariantTotals.add c) {}
  let chooser := chooserName p.component
  return {
    patternType := "tamagui-styled-with-variants"
    dependencies := p.bindings ++ totals.dynamic
    conditions := totals.conditions
    approach := .variants
    imports := [variantsImport]
    classes := base
    dynamicClasses := Fields.names totals.classes
    sample := renderUse p chooser (Fields.names totals.classes)
    warnings :=
      warnOf "Unmapped base styles: " unmapped ++
      (if p.bindings.isEmpty then []
        else ["Base styles reference runtime values: " ++ ", ".intercalate p.bindings ++
          ". Keep them in a style prop."]) ++
      totals.warnings
    config := some (renderVariants chooser base totals.classes) }

end Restyle.Migration
