import Restyle.Palette.Basic
import Restyle.Pattern.Record

namespace Restyle

/-- The tables in which a token can be looked up. -/
inductive Category where
  | color
  | spacing
  | typography
  | radius
  | legacy
  deriving DecidableEq, Repr

namespace Category

def all : List Category := [.color, .spacing, .typography, .radius, .legacy]

def name : Category → String
  | .color => "color"
  | .spacing => "spacing"
  | .typography => "typography"
  | .radius => "radius"
  | .legacy => "legacy"

def named? (s : String) : Option Category := all.find? (·.name == s)

theorem named?_name (c : Category) : named? c.name = some c := by cases c <;> rfl

end Category

/-- The class of a token and where it comes from. A token that is not found has no class. -/
structure TokenMapping where
  token : String
  className : Option String := none
  value : Json
  category : Option Category
  isLegacy : Bool := false
  needsConfig : Bool := false
  note : Option String := none
  suggestion : Option String := none
  classes : Option (List String) := none
  deriving Repr

namespace TokenMapping

def found (m : TokenMapping) : Bool := m.className.isSome

/-- A token that is not found. -/
def unknown (token : String) (category : Option Category) (note : String) : TokenMapping :=
  { token, value := .text token, category, note := some note }

def categoryName (m : TokenMapping) : String := (m.category.map Category.name).getD "unknown"

def toJson (m : TokenMapping) : Json :=
  .record [
    ("token", some (.text m.token)),
    ("utilityClass", m.className.map .text),
    ("rawValue", if m.value matches .null then none else some m.value),
    ("category", some (.text m.categoryName)),
    ("isLegacy", some (.bool m.isLegacy)),
    ("requiresCustomConfig", some (.bool m.needsConfig)),
    ("notes", m.note.map .text),
    ("suggestedMigration", m.suggestion.map .text),
    ("utilities", m.classes.map .texts)]

/-- What a reader wants to know about a token. -/
def report (m : TokenMapping) : Except Fault String :=
  match m.className with
  | none => .ok ("❌ " ++ m.token ++ ": " ++ m.note.getD "no mapping")
  | some name =>
    m.value.shown.map fun value =>
      "\n".intercalate
        (["✅ " ++ m.token ++ " → " ++ name ++ "  (" ++ m.categoryName ++ ", " ++ value ++ ")"] ++
          (if m.isLegacy then ["   legacy token"] else []) ++
          (if m.needsConfig then ["   requires tailwind.config extension"] else []) ++
          (m.suggestion.toList.map fun name => "   suggested: " ++ name) ++
          (m.note.toList.map fun note => "   note: " ++ note))

end TokenMapping

end Restyle
