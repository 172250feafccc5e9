import Restyle.Json.Printer
import Restyle.Palette.Legacy
import Restyle.Palette.Basic

namespace Restyle.Tailwind

/-- The files in which classes are looked for. -/
def contentGlobs : List String := [
  "./App.\x7bjs,jsx,ts,tsx\x7d",
  "./index.\x7bjs,jsx,ts,tsx\x7d",
  "./src/**/*.\x7bjs,jsx,ts,tsx\x7d"]

/-- Each font under the name of its class, and the fonts of the locale under common names. -/
def fontFamilies (locale : Locale) : Except Fault (Fields Json) :=
  (Typeface.fonts locale).map fun fonts =>
    Fields.ofPairs
      (Typeface.fontClasses.map (fun (font, name) =>
          (String.ofList (name.toList.drop 5), Json.texts [font])) ++
        [("body", Json.texts [fonts.regular]), ("body-bold", Json.texts [fonts.bold])])

/-- The colours of a palette by class, and those of the former theme if they are wanted. -/
def colors (palette : Palette) (withLegacy : Bool) : Except Fault (Fields Json) :=
  (Color.classes palette.colors).map fun classes =>
    Fields.ofPairs
      (classes ++
        if withLegacy then
          Legacy.colors.map fun (key, value) => (Legacy.className key, Json.text value)
        else [])

structure Config where
  colors : Fields Json
  fontFamilies : Fields Json
  deriving Repr

def Config.toJson (config : Config) : Json :=
  .object [("theme", .object [("extend", .object [
    ("colors", .object config.colors), ("fontFamily", .object config.fontFamilies)])])]

/-- The configuration of a palette. -/
def configure (palette : Palette) (withLegacy : Bool) (locale : Locale) : Except Fault Config := do
  let colors ← colors palette withLegacy
  let families ← fontFamilies locale
  return ⟨colors, families⟩

/-- The text of a value whose lines after the first are indented. -/
def block (value : Json) : String :=
  String.ofList (value.render.toList.flatMap fun c =>
    if c == '\n' then "\n      ".toList else [c])

/-- The layout of the configuration file. -/
def Config.render (config : Config) : String :=
  "\n".intercalate [
    "/** @type \x7bimport('tailwindcss').Config\x7d */",
    "module.exports = \x7b",
    "  content: [",
    ",\n".intercalate (contentGlobs.map fun glob => "    '" ++ glob ++ "'") ++ ",",
    "  ],",
    "  presets: [require('nativewind/preset')],",
    "  theme: \x7b",
    "    extend: \x7b",
    "      colors: " ++ block (.object config.colors) ++ ",",
    "      fontFamily: " ++ block (.object config.fontFamilies) ++ ",",
    "    \x7d,",
    "  \x7d,",
    "  plugins: [],",
    "\x7d"]

/-- The text of the configuration file, if all of it can be shown. -/
def Config.text (config : Config) : Except Fault String :=
  if config.toJson.isShowable then .ok config.render else .error .tooLongToShow

end Restyle.Tailwind
