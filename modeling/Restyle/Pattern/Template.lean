import Restyle.Expression.Classification
import Restyle.Pattern.Basic
import Restyle.Pattern.Header
import Restyle.Text.Case

namespace Restyle.TemplatePattern

/-- A name with hyphens as one word with inner capitals. -/
def camelCase (name : List Char) : List Char :=
  match Text.fields (· == '-') (Text.trim name) with
  | [] => []
  | first :: rest => first ++ rest.flatMap Text.capitalize

/-- The block comment at the front. -/
def comment? : Scan.Recognizer Unit := fun _ cs =>
  match cs with
  | '/' :: '*' :: cs => (Text.cut? ['*', '/'] cs).map fun (_, rest) => ((), rest)
  | _ => none

/-- A text without its block comments. A comment that does not end is none. -/
def dropComments (cs : List Char) : List Char :=
  match Scan.substitute (ε := Empty) comment? (fun _ => .ok []) none cs with
  | .ok text => text

/-- The text that stands for an interpolation. -/
def placeholder (index : Nat) : List Char := '\x00' :: Nat.toDigits 10 index ++ ['\x00']

/-- A placeholder at a place, and the digits in it. -/
def placeholder? : Scan.Recognizer (List Char) := fun _ cs =>
  match cs with
  | '\x00' :: cs =>
    let digits := cs.takeWhile Text.isDigit
    match cs.dropWhile Text.isDigit with
    | '\x00' :: rest => if digits.isEmpty then none else some (digits, rest)
    | _ => none
  | _ => none

/-- Puts placeholders in the places of the interpolations, one after the other. -/
def maskFrom (index : Nat) : List (List Char) → List Char → List Char
  | [], masked => masked
  | region :: regions, masked =>
    maskFrom (index + 1) regions (Text.replaceFirst region (placeholder index) masked)

/-- A template's text with placeholders, and the interpolations for which they stand. -/
def mask (body : List Char) : List Char × List (List Char) :=
  let regions := Scan.interpolations body
  (maskFrom 0 regions body, regions)

/-- The interpolation that the digits of a placeholder name. -/
def regionOf (regions : List (List Char)) (digits : List Char) : Except Fault (List Char) :=
  if 4300 < digits.length then .error (.tooManyDigits digits.length)
  else
    match regions[Text.digitsValue digits]? with
    | some region => .ok region
    | none => .error .outOfRange

/-- A text with the interpolations back in their places. -/
def unmask (regions : List (List Char)) (cs : List Char) : Except Fault (List Char) :=
  Scan.substitute placeholder? (regionOf regions) none cs

/-- The names that the interpolations in a masked text depend on. -/
def maskedDependencies (regions : List (List Char)) (cs : List Char) :
    Except Fault (List String) := do
  let found ← (Scan.findAll placeholder? cs).mapM fun hit => regionOf regions hit.value
  return (found.flatMap fun region => (Expression.classify region).dependencies).eraseDups

/-- A text without the blocks in braces; a semicolon stands for the end of each. -/
def outermost (depth : Nat) : List Char → List Char
  | [] => []
  | '{' :: cs => outermost (depth + 1) cs
  | '}' :: cs => ';' :: outermost (depth - 1) cs
  | c :: cs => if depth == 0 then c :: outermost depth cs else outermost depth cs

def isNameChar (c : Char) : Bool := c.isAlpha || c == '-'

/-- The name and the value of a declaration. -/
def declaration? (segment : List Char) : Option (List Char × List Char) :=
  let name := segment.takeWhile isNameChar
  match Text.skipBlanks (segment.dropWhile isNameChar) with
  | ':' :: rest =>
    let value := Text.skipBlanks rest
    if name.isEmpty || value.isEmpty then none else some (name, value)
  | _ => none

/-- Whether a value is a design token. -/
def isToken : List Char → Bool
  | '$' :: cs => !cs.isEmpty && cs.all fun c => Text.isWord c || c == '.'
  | _ => false

/-- The style that a declaration gives, if its interpolations depend on some names. -/
def styleOf (regions : List (List Char)) (dependencies : List String)
    (name value : List Char) : Except Fault StyleProperty := do
  let name := String.ofList (camelCase name)
  let value ← unmask regions (Text.trim value)
  let text := String.ofList value
  return if Text.hasPart ['$', '{'] value then
    { name, value := .text text, isStatic := false, dependencies := some dependencies }
  else
    { name, value := .text text, isStatic := true,
      token := if isToken value then some text else none }

/-- The style of one segment of a masked text, if it has one, and the names it depends on. -/
def readSegment (regions : List (List Char)) (segment : List Char) :
    Except Fault (Option StyleProperty × List String) := do
  let segment := Text.trim segment
  if segment.isEmpty || ['/', '/'].isPrefixOf segment then
    return (none, [])
  let dependencies ← maskedDependencies regions segment
  match declaration? segment with
  | none => return (none, dependencies)
  | some (name, value) =>
    let style ← styleOf regions dependencies name value
    return (some style, dependencies)

/-- The styles of a template's text, and the names that its interpolations depend on. -/
def parseBody (body : List Char) : Except Fault (List StyleProperty × List String) := do
  let (masked, regions) := mask (dropComments body)
  let segments := Text.fields (fun c => c == ';' || c == '\n') (outermost 0 masked)
  let found ← segments.mapM (readSegment regions)
  return (found.filterMap (·.1), (found.flatMap (·.2)).eraseDups)

/-- A reference to the theme at a place. -/
def themeRef? : Scan.Recognizer (List Char) := fun _ cs => do
  let rest ← "theme.".toList.isPrefixOf? cs
  let isPathChar := fun (c : Char) => c.isAlpha || c == '_' || c == '.'
  let path := rest.takeWhile isPathChar
  if path.isEmpty then none else some ("theme.".toList ++ path, rest.dropWhile isPathChar)

/-- The references of a text to the theme, each once. -/
def themeRefsOf (body : List Char) : List String :=
  ((Scan.findAll themeRef? body).map fun hit =>
    String.ofList (Text.dropTrailing (· == '.') hit.value)).eraseDups

/-- The component at a header. -/
def ofHit (source : List Char) (hit : Scan.Hit (List Char × List Char)) :
    Except Fault TemplatePattern := do
  let component := String.ofList hit.value.1
  let base := String.ofList hit.value.2
  let location := Location.ofOffset source hit.offset
  match Scan.takeTemplate? hit.rest with
  | none => return { component, base, location, source := String.ofList hit.text, failed := true }
  | some (literal, _) =>
    let body := Expression.inside literal
    let (properties, bindings) ← parseBody body
    return {
      component, base, properties, bindings, location
      themeRefs := themeRefsOf body
      source := String.ofList (hit.text ++ literal) }

/-- The components of a source text that are defined by templates. -/
def parse (source : List Char) : Except Fault (List TemplatePattern) :=
  (Scan.findAll Header.template? source).mapM (ofHit source)

end Restyle.TemplatePattern
