import Restyle.Number.Double
import Restyle.Text.Blank
import Restyle.Text.Digit
import Restyle.Text.Quoted

namespace Restyle

/-- What the value of an option has to be. -/
inductive ValueForm where
  | text
  | choice (words : List String)
  | whole
  | double
  deriving DecidableEq, Repr

/-- What an option does. -/
inductive OptionRole where
  | help
  | version
  | flag
  | value (form : ValueForm)
  deriving DecidableEq, Repr

/-- An option under all its names. -/
structure OptionSpec where
  names : List String
  role : OptionRole
  deriving DecidableEq, Repr

/-- The name of an option in messages. -/
def OptionSpec.title (o : OptionSpec) : String := "/".intercalate o.names

/-- The name under which the value of an option is kept. -/
def OptionSpec.key (o : OptionSpec) : String := o.names.headD ""

def OptionSpec.takesValue (o : OptionSpec) : Bool :=
  match o.role with
  | .value _ => true
  | _ => false

/-- A positional argument. A command takes everything that follows it. -/
structure PositionalSpec where
  name : String
  isRequired : Bool := true
  isCommand : Bool := false
  deriving DecidableEq, Repr

/-- The arguments of a program or a command. The name is the one in messages. -/
structure ArgumentSpec where
  program : String
  options : List OptionSpec
  positional : Option PositionalSpec := none
  deriving DecidableEq, Repr

/-- The value of an argument. -/
inductive ArgumentValue where
  | text (s : String)
  | whole (n : Int)
  | double (x : Double)
  | flag
  deriving DecidableEq, Repr

/-- Why a command line is not followed any further. -/
inductive Halt where
  | refused (program problem : String)
  | help
  | version
  deriving DecidableEq, Repr

namespace ArgumentSpec

/-- The option of a name. -/
def option? (spec : ArgumentSpec) (name : String) : Option OptionSpec :=
  spec.options.find? (·.names.contains name)

def optionNames (spec : ArgumentSpec) : List String := spec.options.flatMap (·.names)

end ArgumentSpec

/-- An argument as it stands on the command line: a plain one, the mark after which all are plain,
an option with the name and value that it is written with, or an option that nobody knows. -/
inductive ArgumentWord where
  | plain (text : String)
  | mark
  | option (spec : OptionSpec) (name : String) (value : Option String) (text : String)
  | stranger (text : String)
  deriving DecidableEq, Repr

namespace ArgumentWord

def text : ArgumentWord → String
  | .plain text => text
  | .mark => "--"
  | .option _ _ _ text => text
  | .stranger text => text

def isOption : ArgumentWord → Bool
  | .option .. | .stranger _ => true
  | _ => false

def isMark : ArgumentWord → Bool
  | .mark => true
  | _ => false

end ArgumentWord

namespace Arguments

/-- Digits, perhaps with a fraction, after a minus sign. -/
def isNegativeNumber (cs : List Char) : Bool :=
  match Text.chomp cs with
  | '-' :: cs =>
    match cs.dropWhile Text.isDigit with
    | [] => !cs.isEmpty
    | '.' :: fraction => !fraction.isEmpty && fraction.all Text.isDigit
    | _ => false
  | _ => false

/-- The name before an equals sign and the value after it. -/
def splitValue (cs : List Char) : String × Option String :=
  match cs.dropWhile (· != '=') with
  | _ :: value => (String.ofList (cs.takeWhile (· != '=')), some (String.ofList value))
  | [] => (String.ofList cs, none)

/-- The options that an argument can stand for: those whose long name it starts, or the one whose
short name it starts with. -/
def candidates (spec : ArgumentSpec) (text : String) : List (OptionSpec × String × Option String) :=
  match text.toList with
  | '-' :: '-' :: _ =>
    let (start, value) := splitValue text.toList
    spec.optionNames.filterMap fun name =>
      if start.toList.isPrefixOf name.toList then
        (spec.option? name).map (·, name, value)
      else none
  | '-' :: c :: value =>
    spec.optionNames.filterMap fun name =>
      if name == String.ofList ['-', c] then
        (spec.option? name).map (·, name, some (String.ofList value))
      else if text.toList.isPrefixOf name.toList then
        (spec.option? name).map (·, name, none)
      else none
  | _ => []

/-- What an argument is. -/
def classify (spec : ArgumentSpec) (text : String) : Except Halt ArgumentWord :=
  if text.toList.head? != some '-' then .ok (.plain text)
  else
    match spec.option? text with
    | some option => .ok (.option option text none text)
    | none =>
      if text == "-" then .ok (.plain text)
      else
        let (name, value) := splitValue text.toList
        match (if value.isSome then spec.option? name else none) with
        | some option => .ok (.option option name value text)
        | none =>
          match candidates spec text with
          | [(option, name, value)] => .ok (.option option name value text)
          | [] =>
            if isNegativeNumber text.toList || text.toList.contains ' ' then .ok (.plain text)
            else .ok (.stranger text)
          | several =>
            .error (.refused spec.program
              ("ambiguous option: " ++ text ++ " could match " ++
                ", ".intercalate (several.map (·.2.1))))

/-- What the arguments are. All arguments after the mark are plain. -/
def classifyAll (spec : ArgumentSpec) : List String → Except Halt (List ArgumentWord)
  | [] => .ok []
  | text :: texts =>
    if text == "--" then .ok (.mark :: texts.map .plain)
    else do
      let word ← classify spec text
      return word :: (← classifyAll spec texts)

end Arguments

end Restyle
