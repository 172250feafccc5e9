import Restyle.Expression.Classification
import Restyle.Pattern.Basic
import Restyle.Pattern.Header

namespace Restyle.DeclarativePattern

/-- An entry of an object as key and value; a shorthand or a spread has no value. -/
def splitEntry (entry : List Char) : List Char × Option (List Char) :=
  match Scan.cutColon? entry with
  | none => (entry, none)
  | some (key, value) =>
    let key := Text.trim key
    ((Expression.unquote? Expression.isPlainQuote key).getD key, some (Text.trim value))

/-- The entries of an object's text. -/
def entries (object : List Char) : Except Fault (List (List Char × Option (List Char))) :=
  (Scan.splitCommas (Expression.inside (Text.trim object))).map (·.map splitEntry)

def isObjectText (cs : List Char) : Bool := cs.head? == some '{'

/-- The value of an entry that is no object: a literal, or else its text. -/
def styleValue (raw : List Char) : Except Fault Json :=
  (Expression.literal? raw).map (·.getD (.text (String.ofList raw)))

/-- The styles of a variant's value; nested objects are left out. -/
def parseStyles (object : List Char) : Except Fault (Fields Json) := do
  (← entries object).foldlM (fun styles (key, raw) =>
    match raw with
    | none => return styles
    | some raw =>
      if isObjectText raw then return styles
      else return styles.put (String.ofList key) (← styleValue raw)) ([] : Fields Json)

/-- One value of a variant; a value that is no object has no styles. -/
def parseValue (name : List Char) (group : List Char) : Except Fault VariantValue := do
  if isObjectText group then
    return ⟨String.ofList name, ← parseStyles group⟩
  else return ⟨String.ofList name, []⟩

/-- A variant. One that is a function, or holds one, is dynamic. -/
def parseVariant (name : List Char) (raw : List Char) : Except Fault Variant := do
  if !isObjectText raw || Text.hasPart ['=', '>'] raw then
    return ⟨String.ofList name, [], true⟩
  else
    let values ← (← entries raw).filterMapM fun (value, group) =>
      match group with
      | none => return none
      | some group => some <$> parseValue value group
    return ⟨String.ofList name, values, false⟩

/-- The variants of an object's text. -/
def parseVariants (object : List Char) : Except Fault (List Variant) := do
  (← entries object).filterMapM fun (name, raw) =>
    match raw with
    | none => return none
    | some raw => some <$> parseVariant name raw

/-- What is read from the object of a definition. -/
structure Config where
  styles : Fields Json := []
  variants : List Variant := []
  bindings : List String := []
  dynamicStyles : Fields String := []
  deriving Repr

/-- The keys that hold no styles. -/
def settingKeys : List String := ["name", "variants", "defaultVariants"]

/-- A shorthand or a spread refers to a name outside of the object. -/
def bindingName (key : List Char) : String :=
  String.ofList (Text.trim ((['.', '.', '.'].isPrefixOf? key).getD key))

/-- Adds one entry of the object. -/
def Config.add (config : Config) (key : List Char) (raw : Option (List Char)) :
    Except Fault Config := do
  match raw with
  | none => return { config with bindings := config.bindings ++ [bindingName key] }
  | some raw =>
    let name := String.ofList key
    if name == "variants" then
      if isObjectText raw then return { config with variants := ← parseVariants raw }
      else return config
    else if settingKeys.contains name || isObjectText raw then return config
    else
      match ← Expression.literal? raw with
      | some value => return { config with styles := config.styles.put name value }
      | none =>
        let text := String.ofList raw
        let found := Expression.classify raw
        if found.isStatic then
          return { config with styles := config.styles.put name (.text text) }
        else
          return { config with
            dynamicStyles := config.dynamicStyles.put name text
            bindings := config.bindings ++ found.dependencies }

/-- Reads the object of a definition. -/
def parseConfig (object : List Char) : Except Fault Config := do
  let config ← (← entries object).foldlM (fun config (key, raw) => config.add key raw)
    ({} : Config)
  return { config with bindings := config.bindings.eraseDups }

def isCallGap (c : Char) : Bool := c == ' ' || c == '\t' || c == '\n' || c == ','

/-- The end of the call after its object, if only blanks and commas stand before it. -/
def callEnd (rest : List Char) : List Char :=
  let gap := rest.takeWhile (· != ')')
  if gap.length < rest.length && gap.all isCallGap then gap ++ [')'] else []

/-- The object of a definition and what follows it, unless a string in it does not end. -/
def readObject? (cs : List Char) : Except Fault (Option (List Char × Config × List Char)) :=
  match Scan.takeBraces? cs with
  | none => .ok none
  | some (object, rest) =>
    match parseConfig object with
    | .ok config => .ok (some (object, config, rest))
    | .error (.unterminatedString _) => .ok none
    | .error fault => .error fault

/-- The component at a header. -/
def ofHit (source : List Char) (hit : Scan.Hit (List Char × List Char)) :
    Except Fault DeclarativePattern := do
  let component := String.ofList hit.value.1
  let base := String.ofList hit.value.2
  let location := Location.ofOffset source hit.offset
  match ← readObject? ('{' :: hit.rest) with
  | none => return { component, base, location, source := String.ofList hit.text, failed := true }
  | some (object, config, rest) =>
    return {
      component, base, location
      styles := config.styles
      variants := config.variants
      source := String.ofList (hit.text.dropLast ++ object ++ callEnd rest)
      bindings := config.bindings
      dynamicStyles := config.dynamicStyles }

/-- The components of a source text that are defined by objects. -/
def parse (source : List Char) : Except Fault (List DeclarativePattern) :=
  (Scan.findAll Header.declarative? source).mapM (ofHit source)

end Restyle.DeclarativePattern
