import Restyle.Files.Sources
import Restyle.Host.Basic
import Restyle.Palette.Typeface

namespace Restyle.Settings

def defaultPath : String := "nativewind-migrate.config.json"

/-- The sections and the fields that each can have. -/
def sections : List (String × List String) := [
  ("tokens", ["locale", "theme"]),
  ("batch", ["limit", "pattern", "skipDirs"]),
  ("inline", ["components"]),
  ("output", ["json", "reportDir"])]

/-- The names of the sections in alphabetical order. -/
def sectionNames : List String := ["batch", "inline", "output", "tokens"]

def warning (text : String) : String := "   ⚠️  [config] " ++ text

/-- The part of a check that gives a warning if something is wrong. -/
def warnIf (wrong : Bool) (text : String) : List String := if wrong then [warning text] else []

/-- The same for a warning that shows a value, which fails if the value cannot be shown. -/
def warnShowing (wrong : Bool) (value : Json) (text : String) : Except Fault (List String) :=
  if wrong && !value.isShowable then .error .tooLongToShow else .ok (warnIf wrong text)

/-- Fields that are not known. -/
def unknownFields (known : List String) (describe : String → String) (names : List String) :
    List String :=
  (names.filter (!known.contains ·)).map fun name => warning (describe name)

def describeTop (name : String) : String :=
  "未知頂層欄位 '" ++ name ++ "'（已知欄位：" ++ ", ".intercalate sectionNames ++ "）"

/-- A name of a section, or what stands in its place. -/
def checkTopItem (item : Json) : Except Fault (List String) :=
  if isAtom item then
    warnShowing (!(item.isText && sectionNames.contains item.display)) item
      (describeTop item.display)
  else .error .wrongType

/-- Goes through the names of the sections, or through what settings hold that are no object. -/
def topChecks : Json → List (Except Fault (List String))
  | .object fields => [.ok (unknownFields sectionNames describeTop (Fields.names fields))]
  | .text s => s.toList.map fun c => checkTopItem (.text (String.ofList [c]))
  | .list items => items.map checkTopItem
  | _ => [.error .wrongType]

def describeField (part : String × List String) (name : String) : String :=
  "[" ++ part.1 ++ "] 未知欄位 '" ++ name ++ "'（已知欄位：" ++ ", ".intercalate part.2 ++ "）"

def describeSection (name : String) (value : Json) : String :=
  "'" ++ name ++ "' 應為物件，目前是 " ++ value.typeName

/-- Whether a section is an object with known fields. -/
def checkSection (config : Fields Json) (part : String × List String) : List String :=
  match config.get? part.1 with
  | some (.object fields) => unknownFields part.2 (describeField part) (Fields.names fields)
  | some value => [warning (describeSection part.1 value)]
  | none => []

/-- A field of a section; a section that is no object has none. -/
def fieldOf (config : Fields Json) (name field : String) : Json :=
  match config.get? name with
  | some (.object fields) => (Fields.get? fields field).getD .null
  | _ => .null

def describeLocale (locale : Json) : String :=
  "tokens.locale '" ++ locale.display ++ "' 不在已知值中（" ++
    ", ".intercalate Typeface.locales ++ "），將使用 ko"

def checkLocale (locale : Json) : Except Fault (List String) :=
  let known := match locale with
    | .text s => Typeface.locales.contains s
    | _ => false
  warnShowing (locale.given && !known) locale (describeLocale locale)

/-- Whether a text is the address of something on a server. -/
def isAddress (text : String) : Bool :=
  "http://".toList.isPrefixOf text.toList || "https://".toList.isPrefixOf text.toList

/-- The path of the theme, if it is a file that should be there. -/
def themePath? (config : Fields Json) : Option String :=
  match fieldOf config "tokens" "theme" with
  | .text s => if s == "" || isAddress s then none else some s
  | _ => none

def describeTheme (path : String) : String :=
  "tokens.theme '" ++ path ++ "' 檔案不存在（將使用內建色票）"

/-- A theme that is a file should be there, which is known from elsewhere. -/
def checkTheme (theme : Json) (isThere : Except Fault Bool) : Except Fault (List String) :=
  match theme with
  | .text s =>
    if s == "" || isAddress s then .ok []
    else isThere.map fun there => warnIf (!there) (describeTheme s)
  | _ =>
    if !theme.given then .ok []
    else .error (if theme.isShowable then .wrongType else .tooLongToShow)

def describePattern (pattern : Json) : String :=
  "batch.pattern '" ++ pattern.display ++ "' 不在已知值中（" ++ filePatternNames ++ "）"

def checkPattern (pattern : Json) : Except Fault (List String) :=
  if !pattern.given then .ok []
  else if isAtom pattern then
    warnShowing ((pattern.text?.bind fun name => filePatterns.lookup name).isNone) pattern
      (describePattern pattern)
  else .error .wrongType

def describeLimit (limit : Json) : String := "batch.limit 應為正整數，目前是 " ++ limit.quoted

def checkLimit (limit : Json) : Except Fault (List String) :=
  let fine := match limit with
    | .null => true
    | .whole n => 0 < n
    | _ => false
  warnShowing (!fine) limit (describeLimit limit)

def describeSkipped (skipped : Json) : String :=
  "batch.skipDirs 應為字串陣列，目前是 " ++ skipped.typeName

def checkSkipped (skipped : Json) : List String :=
  let fine := match skipped with
    | .null | .list _ => true
    | _ => false
  warnIf (!fine) (describeSkipped skipped)

def describeComponents : String := "inline.components 應為字串陣列"

def checkComponents (components : Json) : List String :=
  let fine := match components with
    | .null => true
    | .list items => items.all Json.isText
    | _ => false
  warnIf (!fine) describeComponents

/-- Warnings in their order, and the fault that cut them short, if there is one. -/
structure Validation where
  warnings : List String := []
  fault : Option Fault := none
  deriving Repr

/-- The warnings of the checks up to the first that fails. -/
def Validation.ofChecks : List (Except Fault (List String)) → Validation
  | [] => {}
  | .ok warnings :: checks =>
    let rest := ofChecks checks
    { rest with warnings := warnings ++ rest.warnings }
  | .error fault :: _ => { fault := some fault }

/-- The checks of settings. -/
def checks (config : Fields Json) (themeIsThere : Except Fault Bool) :
    List (Except Fault (List String)) :=
  sections.map (fun s => .ok (checkSection config s)) ++ [
    checkLocale (fieldOf config "tokens" "locale"),
    checkTheme (fieldOf config "tokens" "theme") themeIsThere,
    checkPattern (fieldOf config "batch" "pattern"),
    checkLimit (fieldOf config "batch" "limit"),
    .ok (checkSkipped (fieldOf config "batch" "skipDirs")),
    .ok (checkComponents (fieldOf config "inline" "components"))]

/-- Looks through settings. -/
def validate (config : Json) (themeIsThere : Except Fault Bool) : Validation :=
  if !config.given then {}
  else
    match config with
    | .object fields => .ofChecks (topChecks config ++ checks fields themeIsThere)
    | _ => .ofChecks (topChecks config ++ [.error .noFields])

variable {m : Type → Type} [Monad m] [Host m]

/-- Whether the theme of settings is there, if it is a file. -/
def findTheme (config : Json) : Job m (Except Fault Bool) :=
  let path := match config with
    | .object fields => themePath? fields
    | _ => none
  match path with
  | some path => ExceptT.lift (Host.isThere (Path.normal path))
  | none => pure (.ok true)

/-- Prints the warnings, and fails if something cut them short. -/
def Validation.report (validation : Validation) : Job m Unit := do
  for text in validation.warnings do
    Job.printLine text
  match validation.fault with
  | some fault => throw fault
  | none => return

/-- Prints the warnings about settings. -/
def review (config : Json) : Job m Unit := do
  (validate config (← findTheme config)).report

def describeFormat (path : String) : String :=
  "'" ++ path ++ "' 格式錯誤，應為 JSON 物件，回傳空設定。"

/-- The settings at a path. There are none if there is no file or if it holds no object. -/
def load (path : String) : Job m (Fields Json) := do
  if !(← Job.ofHost (Host.isThere (Path.normal path))) then return []
  match ← Job.readJson path with
  | .object fields =>
    review (.object fields)
    return fields
  | _ =>
    Job.printLine (warning (describeFormat path))
    return []

/-- A field of a section that must be an object if it is there. -/
def get (config : Fields Json) (part field : String) : Except Fault Json := do
  match config.get? part with
  | some value => return (← value.field? field).getD .null
  | none => return .null

end Restyle.Settings
