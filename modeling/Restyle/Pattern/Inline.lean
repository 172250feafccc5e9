import Restyle.Expression.Classification
import Restyle.Pattern.Basic
import Restyle.Pattern.Header
import Restyle.Text.Case

namespace Restyle.InlinePattern

/-- The tags that are looked for if no others are named. -/
def defaultTags : List String := ["XStack", "YStack", "Stack", "Typography", "Image", "Button"]

/-- Tags may be named by a list of texts, and nothing stands for the default ones. A text names
its characters, and an object its fields. -/
def tagsOf (setting : Json) : Except Fault (List String) :=
  if !setting.given then .ok defaultTags
  else
    match setting with
    | .text s => .ok (s.toList.map fun c => String.ofList [c])
    | .object fields => .ok (Fields.names fields)
    | .list items => items.mapM fun item =>
        match item with
        | .text s => .ok s
        | _ => .error .wrongType
    | _ => .error .wrongType

/-- The attributes that are never styles. -/
def plainAttributes : List String := [
  "children", "key", "ref", "testID", "disabled", "source", "variant", "asChild", "style",
  "className", "nativeID", "numberOfLines", "resizeMode"]

/-- Whether an attribute is kept as it is: one of the plain attributes, a spread, an attribute for
accessibility or data, or an event handler. -/
def isPassthrough (name : String) : Bool :=
  plainAttributes.contains name || name == "..." ||
    "accessibility".toList.isPrefixOf name.toList || "aria-".toList.isPrefixOf name.toList ||
    "data-".toList.isPrefixOf name.toList ||
    match name.toList with
    | 'o' :: 'n' :: c :: _ => Text.isCapital c
    | _ => false

/-- The text of a tag up to its end, and what follows the end. A tag that another one interrupts
has no end. -/
def takeTag? (cs : List Char) : Option (List Char × List Char) :=
  match cs with
  | [] => none
  | c :: tail =>
    if Expression.isPlainQuote c then
      match h : Scan.takeString? (c :: tail) with
      | none => none
      | some (literal, rest) =>
        have : rest.length ≤ tail.length := Nat.le_of_lt_succ (Scan.takeString?_length_lt h)
        (takeTag? rest).map fun (body, after) => (literal ++ body, after)
    else if c == '{' then
      match h : Scan.takeBraces? (c :: tail) with
      | none => none
      | some (region, rest) =>
        have : rest.length ≤ tail.length := Nat.le_of_lt_succ (Scan.takeRegion?_length_lt h)
        (takeTag? rest).map fun (body, after) => (region ++ body, after)
    else if c == '>' then some ([], tail)
    else if c == '<' then none
    else (takeTag? tail).map fun (body, after) => (c :: body, after)
termination_by cs.length

/-- How an attribute is written. -/
inductive AttributeKind where
  | quoted
  | braced
  | bare
  | spread
  deriving DecidableEq, Repr

/-- An attribute as it is written. -/
structure Attribute where
  name : List Char
  raw : List Char
  kind : AttributeKind
  deriving DecidableEq, Repr

def continuesAttribute (c : Char) : Bool :=
  Text.isWord c || c == '$' || c == ':' || c == '.' || c == '-'

/-- What follows an equals sign and the blanks around it. -/
def afterEquals? (cs : List Char) : Option (List Char) :=
  match Text.skipBlanks cs with
  | '=' :: rest => some (Text.skipBlanks rest)
  | _ => none

/-- The value after an attribute's name: nothing, a string, a region in braces, or an empty text.
A string or a region without an end takes all that follows. -/
def readAttributeValue (cs : List Char) : List Char × AttributeKind × List Char :=
  match afterEquals? cs with
  | none => ("true".toList, .bare, cs)
  | some rest =>
    match rest with
    | [] => ([], .bare, [])
    | c :: _ =>
      if Expression.isPlainQuote c then
        let (literal, rest) := (Scan.takeString? rest).getD (rest, [])
        (literal, .quoted, rest)
      else if c == '{' then
        let (region, rest) := (Scan.takeBraces? rest).getD (rest, [])
        (region, .braced, rest)
      else ([], .bare, rest)

/-- The text of a spread without its braces and dots. -/
def spreadName (region : List Char) : List Char :=
  Text.trim ((Text.trim (Expression.inside region)).dropWhile (· == '.'))

theorem skipBlanks_length_le (cs : List Char) : (Text.skipBlanks cs).length ≤ cs.length :=
  (List.dropWhile_sublist _).length_le

theorem afterEquals?_length_lt {cs rest : List Char} (h : afterEquals? cs = some rest) :
    rest.length < cs.length := by
  unfold afterEquals? at h
  split at h
  next tail he =>
    cases h
    have h₁ := skipBlanks_length_le cs
    have h₂ := skipBlanks_length_le tail
    rw [he, List.length_cons] at h₁
    omega
  next => simp at h

theorem readAttributeValue_length_le (cs : List Char) :
    (readAttributeValue cs).2.2.length ≤ cs.length := by
  unfold readAttributeValue
  split
  next => exact Nat.le_refl _
  next rest h =>
    have hl := afterEquals?_length_lt h
    split
    next => exact Nat.zero_le _
    next c tail =>
      split
      next =>
        cases hs : Scan.takeString? (c :: tail) with
        | none => simp
        | some found =>
          obtain ⟨literal, after⟩ := found
          have := Scan.takeString?_length_lt hs
          simp only [Option.getD_some]
          omega
      next =>
        split
        next =>
          cases hs : Scan.takeBraces? (c :: tail) with
          | none => simp
          | some found =>
            obtain ⟨region, after⟩ := found
            have := Scan.takeRegion?_length_lt hs
            simp only [Option.getD_some]
            omega
        next => exact Nat.le_of_lt hl

/-- The attributes in the text of a tag. -/
def readAttributes (cs : List Char) : List Attribute :=
  match cs with
  | [] => []
  | c :: tail =>
    if Text.isBlank c || c == '/' then readAttributes tail
    else if c == '{' then
      match h : Scan.takeBraces? (c :: tail) with
      | none => [⟨"...".toList, spreadName (c :: tail), .spread⟩]
      | some (region, rest) =>
        have : rest.length ≤ tail.length := Nat.le_of_lt_succ (Scan.takeRegion?_length_lt h)
        ⟨"...".toList, spreadName region, .spread⟩ :: readAttributes rest
    else if Expression.startsName c then
      have : (readAttributeValue (tail.dropWhile continuesAttribute)).2.2.length ≤ tail.length :=
        Nat.le_trans (readAttributeValue_length_le _) (List.dropWhile_sublist _).length_le
      ⟨c :: tail.takeWhile continuesAttribute,
        (readAttributeValue (tail.dropWhile continuesAttribute)).1,
        (readAttributeValue (tail.dropWhile continuesAttribute)).2.1⟩ ::
        readAttributes (readAttributeValue (tail.dropWhile continuesAttribute)).2.2
    else readAttributes tail
termination_by cs.length

/-- A static text value, which is a token if it starts with a dollar sign. -/
def textProperty (name : String) (value : List Char) : StyleProperty :=
  let text := String.ofList value
  { name, value := .text text, isStatic := true,
    token := if value.head? == some '$' then some text else none }

/-- The style that a value in braces gives. -/
def bracedProperty (name : String) (expression : List Char) : Except Fault StyleProperty :=
  match Numeral.read? expression with
  | some numeral =>
    numeral.value.map fun number => { name, value := number.toJson, isStatic := true }
  | none =>
    match Expression.unquote? Scan.isQuote expression, Text.hasPart ['$', '{'] expression with
    | some inside, false => .ok (textProperty name inside)
    | _, _ =>
      let found := Expression.classify expression
      let value := Json.text (String.ofList expression)
      .ok <|
        if found.isStatic then { name, value, isStatic := true }
        else { name, value, isStatic := false, dependencies := some found.dependencies }

/-- The style that an attribute gives. -/
def Attribute.toProperty (a : Attribute) : Except Fault StyleProperty :=
  let name := String.ofList a.name
  match a.kind with
  | .quoted => .ok (textProperty name (Expression.inside a.raw))
  | .bare => .ok { name, value := .text (String.ofList a.raw), isStatic := true }
  | _ => bracedProperty name (Text.trim (Expression.inside a.raw))

def Attribute.isPassthrough (a : Attribute) : Bool :=
  InlinePattern.isPassthrough (String.ofList a.name)

/-- The tag at a place. A tag without an end is reported up to the end of its line. -/
def ofHit (source : List Char) (hit : Scan.Hit String) : Except Fault InlinePattern := do
  let tag := hit.value
  let location := Location.ofOffset source hit.offset
  match takeTag? hit.rest with
  | none =>
    let line := (hit.text ++ hit.rest).takeWhile (· != '\n')
    return { tag, location, source := String.ofList line, failed := true }
  | some (body, _) =>
    let attributes := readAttributes body
    let styles ← (attributes.filter (!·.isPassthrough)).mapM Attribute.toProperty
    let passthrough := (attributes.filter (·.isPassthrough)).map fun a =>
      PassthroughAttribute.mk (String.ofList a.name) (String.ofList a.raw)
    return {
      tag, styles, passthrough, location
      source := String.ofList (hit.text ++ body ++ ['>']) }

/-- The tags of a source text with one of the names. -/
def parse (names : List String) (source : List Char) : Except Fault (List InlinePattern) :=
  (Scan.findAll (Header.tag? names) source).mapM (ofHit source)

end Restyle.InlinePattern
