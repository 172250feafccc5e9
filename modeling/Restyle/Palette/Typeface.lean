import Restyle.Json.Display
import Restyle.Number.Numeral

namespace Restyle

/-- The locale for which fonts are chosen. A list or an object is none. -/
inductive Locale where
  | named (name : String)
  | unusable
  deriving DecidableEq, Repr

def Locale.ofJson : Json → Locale
  | .text s => .named s
  | .list _ | .object _ => .unusable
  | _ => .named ""

namespace Typeface

/-- The locales that have fonts of their own. -/
def locales : List String := ["ko", "en", "ja", "tw", "zh", "de", "es", "fr", "vi", "th"]

def defaultLocale : String := "ko"

/-- A font for texts of normal weight and one for bold texts. -/
structure FontPair where
  regular : String
  bold : String
  deriving DecidableEq, Repr

def boldFont : String := "GyeonggiBatangBOTF"
def regularFont : String := "GyeonggiBatangROTF"
def handFont : String := "NanumJungHagSaeng"
def markerFont : String := "MarkMyWords"
def labelFont : String := "KOTRAHOPE"

def latin : FontPair := ⟨"Maitree", "Maitree-SemiBold"⟩

def korean : FontPair := ⟨regularFont, boldFont⟩

def chinese : FontPair := ⟨"FakePearl-Regular", "FakePearl-SemiBold"⟩

/-- The fonts of each locale. -/
def localeFonts : List (String × FontPair) := [
  ("ko", korean), ("ja", ⟨"Mamelon-4-Hi-Regular", "Mamelon-5-Hi-Regular"⟩), ("tw", chinese),
  ("zh", chinese), ("en", latin), ("de", latin), ("es", latin), ("fr", latin), ("vi", latin),
  ("th", latin)]

/-- The class of each font. -/
def fontClasses : List (String × String) := [
  ("GyeonggiBatangBOTF", "font-body-ko-bold"), ("GyeonggiBatangROTF", "font-body-ko"),
  ("Mamelon-4-Hi-Regular", "font-body-ja"), ("Mamelon-5-Hi-Regular", "font-body-ja-bold"),
  ("FakePearl-Regular", "font-body-tw"), ("FakePearl-SemiBold", "font-body-tw-bold"),
  ("Maitree", "font-body-en"), ("Maitree-SemiBold", "font-body-en-bold"),
  ("MarkMyWords", "font-marker"), ("KOTRAHOPE", "font-kotra"), ("NanumJungHagSaeng", "font-nanum")]

/-- The fonts of a locale; those of the default locale if it is not known. -/
def fonts : Locale → Except Fault FontPair
  | .named name => .ok ((localeFonts.lookup name).getD korean)
  | .unusable => .error .wrongType

/-- The font for a weight. -/
def fontForWeight (weight : Json) (locale : Locale) : Except Fault String :=
  (fonts locale).map fun fonts =>
    match weight with
    | .text "bold" => fonts.bold
    | _ => fonts.regular

/-- The font of the locale for a font of the former theme. Fonts for display are the same in every
locale. -/
def localFont (font : String) (locale : Locale) : Except Fault String :=
  if font == regularFont then fontForWeight (.text "regular") locale
  else if font == boldFont then fontForWeight (.text "bold") locale
  else .ok font

/-- The text styles of the design system start with one of these names and a digit. -/
def styleNames : List String :=
  ["display", "body", "headline", "heading", "caption", "label", "title", "badge"]

def style (size height : Int) (weight : String) : Json :=
  .object [("fontSize", .whole size), ("lineHeight", .whole height), ("weight", .text weight)]

/-- The text styles of the design system. -/
def design : Fields Json := [
  ("$display1B", style 32 40 "bold"), ("$headline1B", style 28 36 "bold"),
  ("$headline2B", style 24 32 "bold"), ("$headline3B", style 22 28 "bold"),
  ("$heading1B", style 20 28 "bold"), ("$heading2B", style 18 26 "bold"),
  ("$heading3B", style 16 24 "bold"), ("$body1R", style 16 24 "regular"),
  ("$body1M", style 16 24 "medium"), ("$body2R", style 15 24 "regular"),
  ("$body2M", style 15 24 "medium"), ("$body3R", style 14 22 "regular"),
  ("$body3M", style 14 22 "medium"), ("$caption1R", style 13 20 "regular"),
  ("$caption2R", style 12 18 "regular"), ("$label1M", style 14 20 "medium"),
  ("$label2M", style 12 16 "medium"), ("$badge1M", style 12 16 "medium"),
  ("$badge2M", style 11 14 "medium"), ("$badge3M", style 10 14 "medium"),
  ("$title1Bold", style 18 26 "bold"), ("$title2Bold", style 16 24 "bold")]

/-- A text style of the former theme. -/
structure FormerStyle where
  font : String
  size : Int
  height : Int
  spacing : Option Double
  deriving DecidableEq, Repr

/-- The text styles of the former theme. -/
def former : List (String × FormerStyle) := [
  ("heading1", ⟨boldFont, 30, 30, some (.ofDecimal false 102 (-2))⟩),
  ("heading2", ⟨boldFont, 24, 30, some (.ofDecimal false 82 (-2))⟩),
  ("title1Bold", ⟨boldFont, 20, 30, some (.ofDecimal false 68 (-2))⟩),
  ("title1Regular", ⟨regularFont, 20, 30, some (.ofDecimal false 68 (-2))⟩),
  ("title2", ⟨regularFont, 18, 25, some (.ofDecimal false 68 (-2))⟩),
  ("title3Bold", ⟨boldFont, 17, 27, some (.ofDecimal false 58 (-2))⟩),
  ("title3Regular", ⟨regularFont, 17, 27, some (.ofDecimal false 58 (-2))⟩),
  ("title4", ⟨boldFont, 15, 27, some (.ofDecimal false 68 (-2))⟩),
  ("body1Bold", ⟨boldFont, 15, 23, some (.ofDecimal false 68 (-2))⟩),
  ("body1Regular", ⟨regularFont, 15, 23, some (.ofDecimal false 68 (-2))⟩),
  ("body2Bold", ⟨boldFont, 13, 23, some (.ofDecimal false 20 (-2))⟩),
  ("body2Regular", ⟨regularFont, 13, 23, some (.ofDecimal false 20 (-2))⟩),
  ("body3Bold", ⟨boldFont, 12, 18, some (.ofDecimal false 18 (-2))⟩),
  ("body3Regular", ⟨regularFont, 12, 18, some (.ofDecimal false 18 (-2))⟩),
  ("body4", ⟨boldFont, 11, 18, none⟩), ("username1", ⟨boldFont, 14, 26, none⟩),
  ("username2", ⟨boldFont, 12, 18, none⟩), ("petDiary1", ⟨handFont, 24, 22, none⟩),
  ("petDiary2", ⟨handFont, 20, 22, none⟩), ("petDiary3", ⟨handFont, 17, 18, none⟩),
  ("petDiary4", ⟨handFont, 17, 18, none⟩), ("description", ⟨regularFont, 12, 18, none⟩),
  ("number1", ⟨markerFont, 30, 36, none⟩), ("number2", ⟨markerFont, 24, 20, none⟩),
  ("number3", ⟨markerFont, 20, 20, none⟩), ("number4", ⟨markerFont, 15, 22, none⟩),
  ("number5", ⟨markerFont, 12, 15, none⟩), ("number6", ⟨markerFont, 10, 20, none⟩),
  ("itemBody", ⟨boldFont, 11, 15, none⟩), ("banner", ⟨handFont, 17, 17, none⟩),
  ("emotion", ⟨handFont, 20, 22, none⟩), ("error", ⟨regularFont, 12, 15, none⟩),
  ("warning", ⟨regularFont, 12, 15, none⟩),
  ("date1", ⟨regularFont, 11, 16, some (.ofDecimal false 18 (-2))⟩),
  ("caption", ⟨labelFont, 13, 15, none⟩)]

/-- The text of a measure: a whole number has no fraction. -/
def measureText : Json → Except Fault String
  | .double x => .ok (Number.double x).text
  | value => value.shown

def trackingClasses : Json → Except Fault (List String)
  | .null => .ok []
  | spacing => (measureText spacing).map fun text => ["tracking-[" ++ text ++ "px]"]

/-- The classes of a text style for its size and line height, and where they apply for the medium
weight and the letter spacing. -/
def measureClasses (size height weight spacing : Json) : Except Fault (List String) := do
  let size ← measureText size
  let height ← measureText height
  let tracking ← trackingClasses spacing
  return ["text-[" ++ size ++ "px]", "leading-[" ++ height ++ "px]"] ++
    (match weight with
      | .text "medium" => ["font-medium"]
      | _ => []) ++ tracking

def fontClass (font : String) : String :=
  (fontClasses.lookup font).getD ("font-['" ++ font ++ "']")

/-- The classes of a text style, that of its font first. -/
def utilities (font : String) (size height weight spacing : Json) : Except Fault (List String) :=
  (measureClasses size height weight spacing).map (fontClass font :: ·)

end Typeface

end Restyle
