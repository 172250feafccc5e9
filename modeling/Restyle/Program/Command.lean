import Restyle.Arguments.Parse
import Restyle.Palette.Typeface
import Restyle.Settings
import Restyle.Token.Mapping

namespace Restyle

/-- The options that stand before every command. -/
structure CommonOptions where
  config : String
  theme : Option String
  json : Bool
  deriving DecidableEq, Repr

inductive Command where
  | analyze (file : String)
  | convert (file : String) (locale : Option String)
  | token (token : String) (category locale : Option String)
  | suggest (file code context locale : Option String)
  | batch (directory : String) (pattern : Option String) (limit : Option Int)
  | tailwind (noLegacy : Bool) (locale output : Option String)
  | watch (directory : String) (debounce : Double)
  deriving DecidableEq, Repr

namespace Command

def name : Command → String
  | .analyze .. => "analyze"
  | .convert .. => "convert"
  | .token .. => "token"
  | .suggest .. => "suggest"
  | .batch .. => "batch"
  | .tailwind .. => "tailwind-config"
  | .watch .. => "watch"

def programName : String := "nativewind-migrate"
def version : String := "0.1.0"

def helpOption : OptionSpec := ⟨["-h", "--help"], .help⟩

def localeOption : OptionSpec := ⟨["--locale"], .value (.choice Typeface.locales)⟩

def textOption (name : String) : OptionSpec := ⟨[name], .value .text⟩

/-- The names of the commands. -/
def names : List String :=
  ["analyze", "convert", "token", "suggest", "batch", "tailwind-config", "watch"]

/-- What stands before a command. -/
def commonSpec : ArgumentSpec where
  program := programName
  options := [
    helpOption,
    ⟨["--config", "-c"], .value .text⟩,
    textOption "--theme",
    ⟨["--json"], .flag⟩,
    ⟨["--version", "-v"], .version⟩]
  positional := some { name := "command", isRequired := false, isCommand := true }

/-- What a command takes. -/
def spec (command : String) : ArgumentSpec :=
  let (options, positional) := match command with
    | "analyze" => ([], some { name := "file" })
    | "convert" => ([localeOption], some { name := "file" })
    | "token" =>
      ([⟨["--category"], .value (.choice (Category.all.map Category.name))⟩, localeOption],
        some { name := "token" })
    | "suggest" =>
      ([textOption "--code", textOption "--context", localeOption],
        some { name := "file", isRequired := false })
    | "batch" =>
      ([textOption "--pattern", ⟨["--limit"], .value .whole⟩], some { name := "directory" })
    | "tailwind-config" =>
      ([⟨["--no-legacy"], .flag⟩, localeOption, ⟨["--output", "-o"], .value .text⟩], none)
    | _ => ([⟨["--debounce"], .value .double⟩], some { name := "directory" })
  { program := programName ++ " " ++ command, options := helpOption :: options, positional }

def textOf (values : Fields ArgumentValue) (key : String) : Option String :=
  match values.get? key with
  | some (.text s) => some s
  | _ => none

def hasFlag (values : Fields ArgumentValue) (key : String) : Bool := (values.get? key).isSome

/-- The command of a name with the values that it was given. -/
def ofValues (command : String) (values : Fields ArgumentValue) : Command :=
  let text := textOf values
  let locale := text "--locale"
  match command with
  | "analyze" => .analyze ((text "file").getD "")
  | "convert" => .convert ((text "file").getD "") locale
  | "token" => .token ((text "token").getD "") (text "--category") locale
  | "suggest" => .suggest (text "file") (text "--code") (text "--context") locale
  | "batch" =>
    .batch ((text "directory").getD "") (text "--pattern")
      (match values.get? "--limit" with
        | some (.whole n) => some n
        | _ => none)
  | "tailwind-config" => .tailwind (hasFlag values "--no-legacy") locale (text "--output")
  | _ =>
    .watch ((text "directory").getD "")
      (match values.get? "--debounce" with
        | some (.double x) => x
        | _ => .ofInt 1)

/-- Refuses a command line with arguments that nobody takes. -/
def refuseLeftOver (leftOver : List String) : Except Halt Unit :=
  if leftOver.isEmpty then .ok ()
  else .error (.refused programName ("unrecognized arguments: " ++ " ".intercalate leftOver))

/-- Reads the arguments of a command that is among the known ones. -/
def readCommand (command : String) (arguments : List String) :
    Except Halt (Command × List String) :=
  if names.contains command then
    (Arguments.read (spec command) arguments).map fun reading =>
      (ofValues command reading.values, reading.leftOver)
  else
    .error (.refused programName ("argument command: " ++ Arguments.badChoice command names))

/-- Reads a command line. -/
def parse (arguments : List String) : Except Halt (CommonOptions × Option Command) := do
  let reading ← Arguments.read commonSpec arguments
  let common : CommonOptions := {
    config := (textOf reading.values "--config").getD Settings.defaultPath
    theme := textOf reading.values "--theme"
    json := hasFlag reading.values "--json" }
  match reading.command with
  | [] =>
    refuseLeftOver reading.leftOver
    return (common, none)
  | command :: arguments =>
    let (command, leftOver) ← readCommand command arguments
    refuseLeftOver (reading.leftOver ++ leftOver)
    return (common, some command)

/-- What is printed if help is asked for, or nothing at all. -/
def help : String := "\n".intercalate [
  "usage: nativewind-migrate [-h] [--config CONFIG] [--theme THEME] [--json]",
  "                          [--version]",
  "                          \x7banalyze,convert,token,suggest,batch,tailwind-config,watch\x7d",
  "                          ...",
  "",
  "nativewind-migrate: styled-components / Tamagui / ui-core → NativeWind",
  "",
  "positional arguments:",
  "  \x7banalyze,convert,token,suggest,batch,tailwind-config,watch\x7d",
  "    analyze             Inventory style patterns in one file",
  "    convert             Convert static styles to className",
  "    token               Resolve a design token",
  "    suggest             Suggest a migration approach",
  "    batch               Analyze a directory tree",
  "    tailwind-config     Generate tailwind.config.js",
  "    watch               Re-analyze files when they change",
  "",
  "options:",
  "  -h, --help            show this help message and exit",
  "  --config CONFIG, -c CONFIG",
  "                        Config path",
  "  --theme THEME         Theme JSON (path or http(s) URL) replacing the built-",
  "                        in palette",
  "  --json                Print JSON instead of a report",
  "  --version, -v         show program's version number and exit",
  "",
  "nativewind-migrate CLI — styled-components / Tamagui / ui-core → NativeWind",
  "",
  "  nativewind-migrate analyze src/Button.tsx          # 盤點樣式 pattern",
  "  nativewind-migrate convert src/Button.tsx          # 自動轉換靜態樣式",
  "  nativewind-migrate token '$coral100'               # 查詢 token 對應",
  "  nativewind-migrate suggest src/Badge.tsx           # 產生遷移建議",
  "  nativewind-migrate batch src --pattern '**/*'      # 整個目錄統計",
  "  nativewind-migrate tailwind-config --output tailwind.config.js",
  "  nativewind-migrate watch src                       # 檔案變更時重新分析",
  ""]

end Command

end Restyle
