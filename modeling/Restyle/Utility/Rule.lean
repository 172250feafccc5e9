import Restyle.Number.Decimal
import Restyle.Palette.Color
import Restyle.Palette.Typeface
import Restyle.Text.Search
import Restyle.Utility.Scale
import Restyle.Utility.Vocabulary

namespace Restyle

namespace Utility

/-- A stem with a suffix; an empty suffix leaves the bare stem. -/
def join (stem suffix : String) : String :=
  if suffix == "" then stem else stem ++ "-" ++ suffix

/-- A stem with a value of its own in brackets. -/
def arbitrary (stem value : String) : String := stem ++ "-[" ++ value ++ "]"

end Utility

/-- How the class of a property is found. -/
inductive Rule where
  | keyword (table : List (String × String))
  | flex
  | growth (stem : String)
  | layer
  | opacity
  | aspectRatio
  | fontFamily
  | length (stem : String)
  | letterSpacing
  | rotation
  | zoom
  | spacing (stem : String) (sizing : Bool)
  | color (stem : String)
  | borderWidth (stem : String)
  | radius (stem : String)
  deriving DecidableEq, Repr

namespace Rule

open Utility

/-- The class of a text that is a number, perhaps of pixels. -/
def ofMeasure (cs : List Char) (write : Number → Option String) : Except Fault (Option String) :=
  (Scale.measure? cs).map (·.bind write)

def flexClass (x : Number) : String :=
  if x.toInt? == some 1 then "flex-1" else arbitrary "flex" x.text

def growthClass (stem : String) (x : Number) : String :=
  if x.toInt? == some 1 then stem
  else if x.toInt? == some 0 then stem ++ "-0"
  else arbitrary stem x.text

/-- The layers that have a name. -/
def layers : List Int := [0, 10, 20, 30, 40, 50]

def layerClass (x : Number) : String :=
  match x.toInt? with
  | some n => if layers.contains n then "z-" ++ x.text else arbitrary "z" x.text
  | none => arbitrary "z" x.text

/-- The decimal of a text, without its percent signs and units. -/
def decimal? (cs : List Char) : Option Decimal :=
  Decimal.read? (Text.removeAll ['p', 'x'] (Text.dropTrailing (· == '%') cs))

/-- An opacity has a name if it is a multiple of five percent from nothing to full. -/
def opacityClass (cs : List Char) : Except Fault (Option String) :=
  match decimal? cs with
  | none => .ok none
  | some d =>
    match if cs.getLast? == some '%' then some d else d.hundredfold? with
    | none => .error .decimalOverflow
    | some percent =>
      match percent.toInt? 2 with
      | some n =>
        if 0 ≤ n && n ≤ 100 && n % 5 == 0 then .ok (some ("opacity-" ++ toString n))
        else .ok (some (arbitrary "opacity" (String.ofList cs)))
      | none => .ok (some (arbitrary "opacity" (String.ofList cs)))

def aspectRatioClass (cs : List Char) : Except Fault (Option String) :=
  let cs := cs.filter (· != ' ')
  if cs.contains '/' then .ok (some (arbitrary "aspect" (String.ofList cs)))
  else ofMeasure cs fun x =>
    some (if x.toInt? == some 1 then "aspect-square" else arbitrary "aspect" x.text)

def letterSpacingClass (px : Number) : String :=
  if px.toInt? == some 0 then "tracking-normal" else arbitrary "tracking" (Scale.pixels px)

/-- The enlargements in percent that have a name. -/
def zooms : List Int := [0, 50, 75, 90, 95, 100, 105, 110, 125, 150]

/-- An enlargement to the same size is left out. -/
def zoomClass (cs : List Char) : Except Fault (Option String) :=
  match decimal? cs with
  | none => .ok none
  | some d =>
    if d.toInt? 0 == some 1 then .ok none
    else
      match d.hundredfold? with
      | none => .error .decimalOverflow
      | some percent =>
        match (percent.toInt? 2).filter zooms.contains with
        | some n => .ok (some ("scale-" ++ toString n))
        | none =>
          match d.normalText? with
          | some text => .ok (some (arbitrary "scale" (String.ofList text)))
          | none => .error .decimalOverflow

/-- A negative spacing is the class of the positive one after a minus sign. -/
def spacingOf (stem : String) (px : Number) : String :=
  if px.isBelow 0 then "-" ++ join stem (Scale.spacingSuffix px.neg)
  else join stem (Scale.spacingSuffix px)

def spacingClass (stem : String) (sizing : Bool) (cs : List Char) :
    Except Fault (Option String) :=
  if cs == "auto".toList then .ok (some (stem ++ "-auto"))
  else if cs.getLast? == some '%' then
    if sizing && cs == "100%".toList then .ok (some (stem ++ "-full"))
    else .ok (some (arbitrary stem (String.ofList cs)))
  else
    match Scale.spacingToken? cs with
    | some numeral => numeral.value.map fun px => some (join stem (Scale.spacingSuffix px))
    | none => ofMeasure cs fun px => some (spacingOf stem px)

/-- The openings of a colour that is written as a function. -/
def colorFunctions : List String := ["rgb(", "rgba(", "hsl("]

def colorClass (colors : Json) (stem : String) (cs : List Char) :
    Except Fault (Option String) :=
  if cs.head? == some '$' then
    (Color.find? colors (String.ofList cs)).map fun found =>
      found.map fun (name, _) => join stem name
  else if cs.head? == some '#' then .ok (some (arbitrary stem (String.ofList cs)))
  else if colorFunctions.any fun f => f.toList.isPrefixOf cs then
    .ok (some (arbitrary stem (String.ofList (cs.filter (· != ' ')))))
  else if (Color.builtin.lookup (String.ofList cs)).isSome then
    .ok (some (join stem (String.ofList cs)))
  else .ok none

/-- The border widths that have a name. -/
def borderWidths : List Int := [2, 4, 8]

def borderWidthClass (stem : String) (px : Number) : String :=
  match px.toInt? with
  | some n =>
    if n == 0 then stem ++ "-0"
    else if n == 1 then stem
    else if borderWidths.contains n then join stem (toString n)
    else arbitrary stem (Scale.pixels px)
  | none => arbitrary stem (Scale.pixels px)

def radiusOf? (stem : String) (px : Number) : Option String :=
  if px.isBelow 0 then none else some (join stem (Scale.radiusSuffix px))

def radiusClass (stem : String) (cs : List Char) : Except Fault (Option String) :=
  if cs == Scale.fullRadiusToken.toList then .ok (some (join stem "full"))
  else
    match Scale.radiusToken? cs with
    | some numeral => numeral.value.map (radiusOf? stem)
    | none => ofMeasure cs (radiusOf? stem)

/-- The class that a rule gives for the trimmed text of a value. -/
def classOf (colors : Json) (rule : Rule) (cs : List Char) : Except Fault (Option String) :=
  match rule with
  | .keyword table => .ok (table.lookup (String.ofList cs))
  | .flex => ofMeasure cs fun x => some (flexClass x)
  | .growth stem => ofMeasure cs fun x => some (growthClass stem x)
  | .layer => ofMeasure cs fun x => some (layerClass x)
  | .opacity => opacityClass cs
  | .aspectRatio => aspectRatioClass cs
  | .fontFamily =>
    .ok (Typeface.fontClasses.lookup
      (String.ofList (Text.trimBy (fun c => c == '\x27' || c == '\x22') cs)))
  | .length stem => ofMeasure cs fun px => some (arbitrary stem (Scale.pixels px))
  | .letterSpacing => ofMeasure cs fun px => some (letterSpacingClass px)
  | .rotation =>
    ofMeasure (Text.removeAll "deg".toList cs) fun x => some (arbitrary "rotate" (x.text ++ "deg"))
  | .zoom => zoomClass cs
  | .spacing stem sizing => spacingClass stem sizing cs
  | .color stem => colorClass colors stem cs
  | .borderWidth stem => ofMeasure cs fun px => some (borderWidthClass stem px)
  | .radius stem => radiusClass stem cs

/-- The rules of all properties. -/
def all : List (String × Rule) := [
  ("flexDirection", .keyword flexDirections),
  ("alignItems", .keyword itemAlignments),
  ("alignContent", .keyword contentAlignments),
  ("justifyContent", .keyword justifications),
  ("alignSelf", .keyword selfAlignments),
  ("flexWrap", .keyword wraps),
  ("flex", .flex),
  ("flexGrow", .growth "grow"),
  ("flexShrink", .growth "shrink"),
  ("position", .keyword positions),
  ("display", .keyword displays),
  ("zIndex", .layer),
  ("overflow", .keyword overflows),
  ("opacity", .opacity),
  ("aspectRatio", .aspectRatio),
  ("borderStyle", .keyword borderStyles),
  ("textAlign", .keyword textAlignments),
  ("textTransform", .keyword textTransforms),
  ("textDecorationLine", .keyword decorations),
  ("fontWeight", .keyword fontWeights),
  ("fontFamily", .fontFamily),
  ("fontSize", .length "text"),
  ("lineHeight", .length "leading"),
  ("letterSpacing", .letterSpacing),
  ("rotate", .rotation),
  ("rotateZ", .rotation),
  ("scale", .zoom)] ++
  spacingStems.map (fun (name, stem) => (name, .spacing stem false)) ++
  sizingStems.map (fun (name, stem) => (name, .spacing stem true)) ++
  colorStems.map (fun (name, stem) => (name, .color stem)) ++
  borderStems.map (fun (name, stem) => (name, .borderWidth stem)) ++
  radiusStems.map (fun (name, stem) => (name, .radius stem))

/-- The rule of a property. -/
def find? (property : String) : Option Rule := all.lookup property

/-- The properties that have a rule, in alphabetical order. -/
def properties : List String := (all.map (·.1)).mergeSort (· ≤ ·)

/-- The class of one style. A property without a rule has none. -/
def convert (colors : Json) (property : String) (value : Json) : Except Fault (Option String) :=
  match find? property with
  | some rule =>
    if value.isShowable then rule.classOf colors (Text.trim value.display.toList)
    else .error .tooLongToShow
  | none => .ok none

end Rule

end Restyle
