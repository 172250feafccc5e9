import Restyle.Analysis.Report
import Restyle.Batch.Report
import Restyle.Conversion.Converter
import Restyle.Json.Printer
import Restyle.Migration.Suggestion
import Restyle.Program.Command
import Restyle.Tailwind
import Restyle.Theme

namespace Restyle.Program

variable {m : Type → Type} [Monad m] [Host m]

/-- Prints a record as it is written, or a report on it. -/
def emit (json : Bool) (record : Json) (report : Except Fault String) : Job m Unit := do
  Job.printLine (← Job.lift (if json then record.write else report))

/-- A text that is not empty. -/
def filled (text : Option String) : Option String := text.filter (· != "")

def setting (config : Fields Json) (part field : String) : Job m Json :=
  Job.lift (Settings.get config part field)

/-- The tags whose attributes are styles. -/
def tags (config : Fields Json) : Job m Json := setting config "inline" "components"

/-- The locale of the command line, else the one of the settings, else the default one. -/
def localeOf (locale : Option String) (config : Fields Json) : Job m Locale := do
  match locale with
  | some name => return .named name
  | none =>
    let value ← setting config "tokens" "locale"
    return if value.given then .ofJson value else .named Typeface.defaultLocale

/-- The palette of the theme that the command line or the settings name. -/
def paletteOf (theme : Option String) (config : Fields Json) : Job m Palette := do
  match filled theme with
  | some source => Job.lift (Palette.ofJson (← Theme.load source))
  | none =>
    let value ← setting config "tokens" "theme"
    if !value.given then return .design
    match value with
    | .text source => Job.lift (Palette.ofJson (← Theme.load source))
    | _ => throw .noFields

def converterFor (common : CommonOptions) (locale : Option String) (config : Fields Json) :
    Job m StyleConverter := do
  let palette ← paletteOf common.theme config
  let locale ← localeOf locale config
  return { palette, locale }

/-- Takes stock of a file. -/
def analyzeFile (tags : Json) (path : String) : Job m Analysis := do
  let source ← Job.readText path
  Job.lift (Analysis.ofSource path tags source)

/-- Converts the patterns of a file. -/
def convertFile (converter : StyleConverter) (tags : Json) (path : String) :
    Job m ConversionOutput := do
  let source ← Job.readText path
  Job.lift (converter.convertSource tags source)

/-- The source files below a folder. -/
def sourceFiles (directory : String) (pattern limit skipped : Json) : Job m (List String) := do
  let folder ← ExceptT.lift (Host.folder? (Path.normal directory))
  Job.lift (findSources directory pattern limit skipped folder)

/-- Takes stock of the source files below a folder. -/
def batchOf (directory : String) (pattern limit skipped tags : Json) : Job m Batch := do
  let files ← sourceFiles directory pattern limit skipped
  let readings ← files.mapM fun path => do
    let reading ← ExceptT.lift (analyzeFile tags path).run
    return (path, reading)
  Job.lift (Batch.ofReadings readings)

/-- The name of the file with the report on a batch. -/
def batchReportName : String := "batch-report.json"

/-- Saves the report on a batch in a folder. -/
def saveReport (folder : Json) (batch : Batch) : Job m Unit := do
  if !folder.given then return
  match folder with
  | .text folder =>
    let path := Path.normalChild folder batchReportName
    Job.ofHost (Host.makeFolders (Path.normal folder))
    Job.ofHost (Host.write path (← Job.lift batch.toJson.write))
    Job.noteLine ("✅ Saved batch report to " ++ path)
  | _ => throw .wrongType

def runBatch (json : Bool) (config : Fields Json) (directory : String) (pattern : Option String)
    (limit : Option Int) : Job m Nat := do
  let pattern ← match filled pattern with
    | some pattern => pure (Json.text pattern)
    | none =>
      let value ← setting config "batch" "pattern"
      pure (if value.given then value else .text defaultFilePattern)
  let limit ← match limit with
    | some n => pure (Json.whole n)
    | none =>
      let value ← setting config "batch" "limit"
      pure (if value.given then value else .whole defaultFileLimit)
  Job.noteLine ("🔍 Scanning '" ++ directory ++ "' (" ++ (← Job.lift pattern.shown) ++ ", limit " ++
    (← Job.lift limit.shown) ++ ")...")
  let skipped ← setting config "batch" "skipDirs"
  let batch ← batchOf directory pattern limit skipped (← tags config)
  emit json batch.toJson (.ok batch.report)
  saveReport (← setting config "output" "reportDir") batch
  return 0

def runSuggest (json : Bool) (common : CommonOptions) (config : Fields Json)
    (file code context locale : Option String) : Job m Nat := do
  let source ← match filled code, filled file with
    | some code, _ => pure (some code.toList)
    | none, some file => some <$> Job.readText file
    | none, none => pure none
  match source with
  | none =>
    Job.printLine "❌ 請指定檔案，或以 --code 提供程式碼片段。"
    return 1
  | some source =>
    let converter ← converterFor common locale config
    let migration ← Job.lift (Migration.suggest converter (context.getD "") (← tags config) source)
    emit json migration.toJson (.ok migration.report)
    return 0

def runToken (json : Bool) (common : CommonOptions) (config : Fields Json) (token : String)
    (category locale : Option String) : Job m Nat := do
  let converter ← converterFor common locale config
  let mapping ←
    Job.lift (converter.palette.resolveNamed (category.getD "") token converter.locale)
  emit json mapping.toJson mapping.report
  return if mapping.found then 0 else 1

def runTailwind (json : Bool) (common : CommonOptions) (config : Fields Json) (noLegacy : Bool)
    (locale output : Option String) : Job m Nat := do
  let converter ← converterFor common locale config
  let generated ← Job.lift (Tailwind.configure converter.palette (!noLegacy) converter.locale)
  let text ← Job.lift generated.text
  match filled output with
  | some path =>
    Job.ofHost (Host.write path (text ++ "\n"))
    Job.printLine ("✅ Saved tailwind config to " ++ path)
  | none => emit json generated.toJson (.ok text)
  return 0

/-- Takes stock of a file that has changed. A file that cannot be read is only reported. -/
def reanalyze (json : Bool) (tags : Json) (path : String) : Job m Unit := do
  match ← ExceptT.lift (analyzeFile tags path).run with
  | .ok analysis => emit json analysis.toJson (.ok analysis.report)
  | .error fault =>
    if fault.isUnreadable then
      Job.printLine ("   ⚠️  Cannot read " ++ path ++ ": " ++ fault.message)
    else throw fault

/-- What is done about a change. -/
def react (json : Bool) (tags : Json) (debouncer : Debouncer) (change : Change) :
    Job m Debouncer := do
  let (counts, debouncer) ← ExceptT.lift (debouncer.note Host.now change)
  if counts then
    Job.printLine change.announcement
    reanalyze json tags change.path
  return debouncer

def runWatch (json : Bool) (config : Fields Json) (directory : String) (window : Double) :
    Job m Nat := do
  let tags ← tags config
  Job.printLine ("👀 Watching for changes in '" ++ directory ++ "'...")
  Job.printLine "   Press Ctrl+C to stop."
  Job.ofHost (Host.observe directory ({ window } : Debouncer) fun debouncer change =>
    (react json tags debouncer change).run)
  Job.printLine "\n👋 Stopping watch..."
  return 0

/-- Carries out a command and gives the exit code. -/
def perform (common : CommonOptions) (command : Command) : Job m Nat := do
  let config ← Settings.load common.config
  let json := common.json || (← setting config "output" "json").given
  match command with
  | .analyze file =>
    let analysis ← analyzeFile (← tags config) file
    emit json analysis.toJson (.ok analysis.report)
    return 0
  | .convert file locale =>
    let converter ← converterFor common locale config
    let source ← Job.readText file
    let output ← Job.lift (converter.convertSource (← tags config) source)
    emit json output.toJson (.ok output.report)
    return 0
  | .token token category locale => runToken json common config token category locale
  | .suggest file code context locale => runSuggest json common config file code context locale
  | .batch directory pattern limit => runBatch json config directory pattern limit
  | .tailwind noLegacy locale output => runTailwind json common config noLegacy locale output
  | .watch directory window => runWatch json config directory window

/-- Runs the program on its arguments and gives the exit code, or the fault that ended it. -/
def run (arguments : List String) : m (Except Fault Nat) := do
  match Command.parse arguments with
  | .error (.refused program problem) =>
    Host.note (program ++ ": error: " ++ problem ++ "\n")
    return .ok 2
  | .error .version =>
    Host.print (Command.programName ++ " " ++ Command.version ++ "\n")
    return .ok 0
  | .error .help | .ok (_, none) =>
    Host.print Command.help
    return .ok 0
  | .ok (common, some command) =>
    match ← (perform common command).run with
    | .ok code => return .ok code
    | .error fault =>
      if fault.isReported then
        Host.print ("❌ " ++ command.name ++ " failed: " ++ fault.message ++ "\n")
        return .ok 1
      else return .error fault

end Restyle.Program
