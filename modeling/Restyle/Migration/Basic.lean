import Restyle.Json.Value
import Restyle.Text.Banner

namespace Restyle

/-- How a piece of code is best moved over. -/
inductive Approach where
  | variants
  | conditional
  | hybrid
  | classes
  deriving DecidableEq, Repr

def Approach.name : Approach → String
  | .variants => "cva"
  | .conditional => "clsx"
  | .hybrid => "style-prop-hybrid"
  | .classes => "className-only"

/-- A proposal for moving a piece of code over to classes. -/
structure Migration where
  patternType : String
  dependencies : List String := []
  conditions : List String := []
  legacyTokens : Option (List String) := none
  approach : Approach
  imports : List String := []
  classes : List String := []
  dynamicClasses : List String := []
  sample : String
  warnings : List String := []
  styleOverrides : Option String := none
  config : Option String := none
  deriving DecidableEq, Repr

def Migration.toJson (m : Migration) : Json :=
  .record [
    ("analysis", some (.record [
      ("patternType", some (.text m.patternType)),
      ("dynamicDependencies", some (.texts m.dependencies)),
      ("conditionalLogic", some (.texts m.conditions)),
      ("legacyTokens", m.legacyTokens.map .texts)])),
    ("approach", some (.text m.approach.name)),
    ("imports", some (.texts m.imports)),
    ("classNames", some (.texts m.classes)),
    ("dynamicClasses", some (.texts m.dynamicClasses)),
    ("example", some (.text m.sample)),
    ("warnings", some (.texts m.warnings)),
    ("styleOverrides", m.styleOverrides.map .text),
    ("generatedConfig", m.config.map .text)]

/-- What a reader wants to know about a proposal. -/
def Migration.report (m : Migration) : String :=
  Text.framed ("Migration: " ++ m.approach.name ++ " (" ++ m.patternType ++ ")")
    ((if m.imports.isEmpty then [] else m.imports.map ("  " ++ ·) ++ [""]) ++
      (if m.classes.isEmpty then [] else ["  classes: " ++ " ".intercalate m.classes]) ++
      (if m.dependencies.isEmpty then []
        else ["  depends on: " ++ ", ".intercalate m.dependencies]) ++
      (match m.config with
        | some config => if config == "" then [] else "" :: Text.indented "  " config
        | none => []) ++
      [""] ++ Text.indented "  " m.sample ++ [""] ++ m.warnings.map ("  ⚠️  " ++ ·))
    ("Warnings: " ++ toString m.warnings.length)

end Restyle
