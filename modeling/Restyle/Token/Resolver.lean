import Restyle.Palette.Legacy
import Restyle.Token.Mapping
import Restyle.Utility.Scale

namespace Restyle

namespace Palette

def resolveColor (palette : Palette) (token : String) : Except Fault TokenMapping := do
  match ← Color.find? palette.colors token with
  | none => return .unknown token (some .color) ("Unknown color token: " ++ token)
  | some (name, value) =>
    return {
      token
      className := some name
      value
      category := some .color
      needsConfig := (Color.builtin.lookup name).isNone }

def resolveSpacing (token : String) : Except Fault TokenMapping := do
  match Scale.spacingToken? token.toList with
  | none => return .unknown token (some .spacing) ("Unknown spacing token: " ++ token)
  | some numeral =>
    let px ← numeral.value
    let onScale := (Scale.named? Scale.spacings px).isSome
    return {
      token
      className := some (Scale.spacingSuffix px)
      value := .text (Scale.pixels px)
      category := some .spacing
      needsConfig := !onScale
      note := if onScale then none else some "Non-standard spacing; uses an arbitrary value class" }

/-- A token of letters and digits is a shade before it is a spacing. -/
def resolveColorOrSpacing (palette : Palette) (token : String) : Except Fault TokenMapping := do
  let color ← palette.resolveColor token
  if color.found then return color
  let spacing ← resolveSpacing token
  if spacing.found then return spacing
  return .unknown token (some .color) ("Unknown color or spacing token: " ++ token)

def resolveRadius (token : String) : Except Fault TokenMapping := do
  if token == Scale.fullRadiusToken then
    return {
      token
      className := some "full"
      value := .text (Scale.pixels (.whole Scale.fullRadius))
      category := some .radius }
  match Scale.radiusToken? token.toList with
  | none => return .unknown token (some .radius) ("Unknown radius token: " ++ token)
  | some numeral =>
    let px ← numeral.value
    let onScale := (Scale.named? Scale.radii px).isSome
    return {
      token
      className := some (Scale.radiusSuffix px)
      value := .text (Scale.pixels px)
      category := some .radius
      needsConfig := !onScale
      note := if onScale then none else some "Non-standard radius; uses an arbitrary value class" }

/-- A text style of the palette. -/
def styleMapping (token : String) (entry : Json) (locale : Locale) :
    Except Fault TokenMapping := do
  let weight := (← entry.field? "weight").getD (.text "regular")
  let font ← Typeface.fontForWeight weight locale
  let size ← entry.field "fontSize"
  let height ← entry.field "lineHeight"
  let spacing := (← entry.field? "letterSpacing").getD .null
  let classes ← Typeface.utilities font size height weight spacing
  return {
    token
    className := some (" ".intercalate classes)
    value := .text (size.display ++ "px/" ++ height.display ++ "px")
    category := some .typography
    needsConfig := true
    classes := some classes }

/-- A text style of the former theme. -/
def formerStyleMapping (token : String) (style : Typeface.FormerStyle) (locale : Locale) :
    Except Fault TokenMapping := do
  let font ← Typeface.localFont style.font locale
  let spacing := (style.spacing.map Json.double).getD .null
  let classes ←
    Typeface.utilities font (.whole style.size) (.whole style.height) (.text "regular") spacing
  return {
    token
    className := some (" ".intercalate classes)
    value := .text (toString style.size ++ "px/" ++ toString style.height ++ "px")
    category := some .typography
    isLegacy := true
    needsConfig := true
    note := some "Legacy typography token; prefer a design-system typography token"
    classes := some classes }

def resolveTypography (palette : Palette) (token : String) (locale : Locale) :
    Except Fault TokenMapping := do
  match (← palette.typography.field? token).getD .null with
  | .null =>
    match Typeface.former.lookup ((Legacy.fontRef? token.toList).getD token) with
    | some style => formerStyleMapping token style locale
    | none => return .unknown token (some .typography) ("Unknown typography token: " ++ token)
  | entry => styleMapping token entry locale

/-- A colour of the former theme, with the one that takes its place. -/
def resolveFormerColor (token : String) : TokenMapping :=
  match Legacy.colorKey? token with
  | none => .unknown token (some .color) ("Unknown legacy color: " ++ token)
  | some key =>
    let suggestion := Legacy.migrations.lookup key
    { token
      className := some (Legacy.className key)
      value := .text ((Legacy.colors.lookup key).getD "")
      category := some .color
      isLegacy := true
      needsConfig := true
      note := some (match suggestion with
        | some name => "Legacy color; migrate to " ++ name
        | none => "Legacy color without a registered design-system equivalent")
      suggestion }

def resolveFormer (palette : Palette) (token : String) (locale : Locale) :
    Except Fault TokenMapping :=
  if (Legacy.colorKey? token).isSome then .ok (resolveFormerColor token)
  else if (Legacy.fontRef? token.toList).isSome || (Typeface.former.lookup token).isSome then
    palette.resolveTypography token locale
  else .ok (.unknown token none ("Unknown legacy token: " ++ token))

/-- What the form of a token points to. -/
inductive Form where
  | formerColor
  | typography
  | colorOrSpacing
  | spacing
  | radius
  | color
  | former
  deriving DecidableEq, Repr

namespace Form

/-- A dollar sign, letters and digits. -/
def isShade (token : List Char) : Bool := (Color.shadeToken? token).isSome

/-- A dollar sign and digits. -/
def isPlainNumber (token : List Char) : Bool :=
  match Text.chomp token with
  | '$' :: digits => !digits.isEmpty && digits.all Text.isDigit
  | _ => false

/-- A dollar sign, the name of a family of text styles and a digit. -/
def isTextStyle : List Char → Bool
  | '$' :: cs =>
    Typeface.styleNames.any fun name =>
      match name.toList.isPrefixOf? cs with
      | some (c :: _) => Text.isDigit c
      | _ => false
  | _ => false

/-- The forms in the order in which they are tried. -/
def detect? (token : String) : Option Form :=
  let cs := token.toList
  if (Legacy.colorRef? cs).isSome then some .formerColor
  else if (Legacy.fontRef? cs).isSome then some .typography
  else if isShade cs then some .colorOrSpacing
  else if isPlainNumber cs then some .spacing
  else if isTextStyle cs then some .typography
  else if token == Scale.fullRadiusToken then some .radius
  else if token == "$white" || token == "$black" then some .color
  else if (Legacy.colors.lookup token).isSome || (Typeface.former.lookup token).isSome then
    some .former
  else none

end Form

/-- The mapping of a token of a known form. -/
def resolveForm (palette : Palette) (form : Form) (token : String) (locale : Locale) :
    Except Fault TokenMapping :=
  match form with
  | .formerColor => .ok (resolveFormerColor token)
  | .typography => palette.resolveTypography token locale
  | .colorOrSpacing => palette.resolveColorOrSpacing token
  | .spacing => resolveSpacing token
  | .radius => resolveRadius token
  | .color => palette.resolveColor token
  | .former => palette.resolveFormer token locale

/-- The mapping of a trimmed token in one table. -/
def resolveAs (palette : Palette) (category : Category) (token : String) (locale : Locale) :
    Except Fault TokenMapping :=
  match category with
  | .color => palette.resolveColor token
  | .spacing => resolveSpacing token
  | .typography => palette.resolveTypography token locale
  | .radius => resolveRadius token
  | .legacy => palette.resolveFormer token locale

/-- The mapping of a token in the table of a category or, without one, in the table that its form
points to. Blanks around the token do not count. -/
def resolve (palette : Palette) (category : Option Category) (token : String) (locale : Locale) :
    Except Fault TokenMapping :=
  let token := String.ofList (Text.trim token.toList)
  match category with
  | some category => palette.resolveAs category token locale
  | none =>
    match Form.detect? token with
    | some form => palette.resolveForm form token locale
    | none => .ok (.unknown token none ("Could not auto-detect token type for: " ++ token))

/-- The mapping of a token in the table of a category that is given by name; the empty name stands
for none. -/
def resolveNamed (palette : Palette) (category token : String) (locale : Locale) :
    Except Fault TokenMapping :=
  if category == "" then palette.resolve none token locale
  else
    match Category.named? category with
    | some category => palette.resolve (some category) token locale
    | none =>
      .ok (.unknown (String.ofList (Text.trim token.toList)) none
        ("Unknown token category: " ++ category))

end Palette

end Restyle
