import Restyle.Arguments.Value
import Restyle.Json.Value

namespace Restyle.Arguments

/-- An option that is to be followed, with its value if it takes one. -/
structure Given where
  option : OptionSpec
  value : Option String
  deriving DecidableEq, Repr

def refuseOption (spec : ArgumentSpec) (option : OptionSpec) (problem : String) : Halt :=
  .refused spec.program ("argument " ++ option.title ++ ": " ++ problem)

def refuseValue (spec : ArgumentSpec) (option : OptionSpec) (value : List Char) : Halt :=
  refuseOption spec option ("ignored explicit argument " ++ String.ofList (Text.quoted value))

/-- The options of an argument with a value of its own. Short options that take no value can be
written together, and what follows them belongs to the last one. An option that still needs its
value is given back apart. -/
def unfoldOptions (spec : ArgumentSpec) :
    OptionSpec → String → List Char → Except Halt (List Given × Option OptionSpec)
  | option, _, [] =>
    if option.takesValue then .ok ([⟨option, some ""⟩], none)
    else .error (refuseValue spec option [])
  | option, name, c :: rest =>
    if option.takesValue then .ok ([⟨option, some (String.ofList (c :: rest))⟩], none)
    else if ['-', '-'].isPrefixOf name.toList then .error (refuseValue spec option (c :: rest))
    else
      match spec.option? (String.ofList ['-', c]) with
      | none => .error (refuseValue spec option (c :: rest))
      | some next =>
        if rest.isEmpty then
          if next.takesValue then .ok ([⟨option, none⟩], some next)
          else .ok ([⟨option, none⟩, ⟨next, none⟩], none)
        else
          match unfoldOptions spec next (String.ofList ['-', c]) rest with
          | .ok (given, pending) => .ok (⟨option, none⟩ :: given, pending)
          | .error halt => .error halt

/-- The options of one argument. -/
def optionsOf (spec : ArgumentSpec) (option : OptionSpec) (name : String)
    (value : Option String) : Except Halt (List Given × Option OptionSpec) :=
  match value with
  | some value => unfoldOptions spec option name value.toList
  | none => if option.takesValue then .ok ([], some option) else .ok ([⟨option, none⟩], none)

/-- Gives the option that needs a value the next word, which has to be a plain one. -/
def supply (spec : ArgumentSpec) :
    List Given × Option OptionSpec → List ArgumentWord →
      Except Halt (List Given × List ArgumentWord)
  | (given, none), words => .ok (given, words)
  | (given, some last), .plain text :: words => .ok (given ++ [⟨last, some text⟩], words)
  | (_, some last), _ => .error (refuseOption spec last "expected one argument")

theorem supply_length_le {spec : ArgumentSpec} {options : List Given × Option OptionSpec}
    {words rest : List ArgumentWord} {given : List Given}
    (h : supply spec options words = .ok (given, rest)) : rest.length ≤ words.length := by
  unfold supply at h
  split at h
  · cases h; exact Nat.le_refl _
  · cases h; exact Nat.le_succ _
  · cases h

/-- Follows one option. -/
def follow (spec : ArgumentSpec) (values : Fields ArgumentValue) (given : Given) :
    Except Halt (Fields ArgumentValue) :=
  match given.option.role, given.value with
  | .help, _ => .error .help
  | .version, _ => .error .version
  | .flag, _ => .ok (values.put given.option.key .flag)
  | .value form, some text =>
    match readValue form text with
    | .ok value => .ok (values.put given.option.key value)
    | .error problem => .error (refuseOption spec given.option problem)
  | .value _, none => .ok values

/-- What has been read: the values by name, the arguments that are left over, the positional
argument that is still to come, and the command with all that follows it. -/
structure Reading where
  values : Fields ArgumentValue := []
  leftOver : List String := []
  pending : Option PositionalSpec
  command : List String := []
  deriving Repr

/-- Lets the positional argument take words from the front. A command takes all words, any other
argument one plain word and the marks around it. -/
def takePositional? (reading : Reading) (words : List ArgumentWord) :
    Option (Reading × List ArgumentWord) :=
  match reading.pending, words.dropWhile (·.isMark) with
  | some positional, .plain text :: rest =>
    if positional.isCommand then
      some ({ reading with pending := none, command := words.map (·.text) }, [])
    else
      some ({ reading with
        pending := none
        values := reading.values.put positional.name (.text text) }, rest.dropWhile (·.isMark))
  | _, _ => none

theorem takePositional?_length_lt {reading reading' : Reading} {words rest : List ArgumentWord}
    (h : takePositional? reading words = some (reading', rest)) : rest.length < words.length := by
  simp only [takePositional?] at h
  have hd := (List.dropWhile_sublist (·.isMark) (l := words)).length_le
  split at h
  next text tail _ he =>
    rw [he] at hd
    simp only [List.length_cons] at hd
    split at h
    · cases h
      simp only [List.length_nil]
      omega
    · cases h
      have := (List.dropWhile_sublist (·.isMark) (l := tail)).length_le
      omega
  next => simp at h

/-- After the last option, the positional argument takes what it can, and the rest is left
over. An argument that can be missing takes marks even without a word, but a command does not. -/
def finish (reading : Reading) (words : List ArgumentWord) : Reading :=
  match takePositional? reading words with
  | some (reading, rest) => { reading with leftOver := reading.leftOver ++ rest.map (·.text) }
  | none =>
    let rest := match reading.pending with
      | some positional =>
        if positional.isRequired || positional.isCommand then words
        else words.dropWhile (·.isMark)
      | none => words
    { reading with leftOver := reading.leftOver ++ rest.map (·.text) }

/-- Reads words one after the other. -/
def readWords (spec : ArgumentSpec) (reading : Reading) (words : List ArgumentWord) :
    Except Halt Reading :=
  if !words.any (·.isOption) then .ok (finish reading words)
  else
    match words with
    | [] => .ok reading
    | .stranger text :: rest =>
      readWords spec { reading with leftOver := reading.leftOver ++ [text] } rest
    | .option option name value _ :: rest =>
      match optionsOf spec option name value with
      | .error halt => .error halt
      | .ok options =>
        match h : supply spec options rest with
        | .error halt => .error halt
        | .ok (given, rest') =>
          have := supply_length_le h
          match given.foldlM (follow spec) reading.values with
          | .error halt => .error halt
          | .ok values => readWords spec { reading with values } rest'
    | word :: rest =>
      match h : takePositional? reading (word :: rest) with
      | some (reading, rest') =>
        have : rest'.length ≤ rest.length := Nat.le_of_lt_succ (takePositional?_length_lt h)
        readWords spec reading rest'
      | none =>
        have := (List.dropWhile_sublist (!·.isOption) (l := rest)).length_le
        readWords spec { reading with
          leftOver := reading.leftOver ++ word.text ::
            (rest.takeWhile (!·.isOption)).map (·.text) }
          (rest.dropWhile (!·.isOption))
termination_by words.length

/-- Reads the arguments of a program or a command. -/
def read (spec : ArgumentSpec) (arguments : List String) : Except Halt Reading := do
  let words ← classifyAll spec arguments
  let reading ← readWords spec { pending := spec.positional } words
  match reading.pending with
  | some positional =>
    if positional.isRequired then
      throw (.refused spec.program
        ("the following arguments are required: " ++ positional.name))
    else return reading
  | none => return reading

end Restyle.Arguments
