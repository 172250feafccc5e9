import Restyle.Scan.Find
import Restyle.Text.Blank
import Restyle.Text.Word

namespace Restyle.Header

/-- What follows one or more blanks. -/
def someBlanks? : List Char → Option (List Char)
  | [] => none
  | c :: cs => if Text.isBlank c then some (Text.skipBlanks cs) else none

/-- The word at the front. -/
def word? (cs : List Char) : Option (List Char × List Char) :=
  let word := cs.takeWhile Text.isWord
  if word.isEmpty then none else some (word, cs.dropWhile Text.isWord)

/-- The beginning of every definition, up to the call that makes the component, and the
component's name. -/
def definition? (cs : List Char) : Option (List Char × List Char) := do
  let cs ← "const".toList.isPrefixOf? cs
  let cs ← someBlanks? cs
  let (name, cs) ← word? cs
  let cs ← ['='].isPrefixOf? (Text.skipBlanks cs)
  let cs ← "styled".toList.isPrefixOf? (Text.skipBlanks cs)
  some (name, cs)

/-- What follows type arguments, if there are any; they end at the first closing bracket. -/
def skipTypeArguments (cs : List Char) : List Char :=
  match cs with
  | '<' :: rest =>
    match rest.dropWhile (· != '>') with
    | '>' :: rest => rest
    | _ => cs
  | _ => cs

/-- The element or component that a template is applied to. -/
def templateBase? (cs : List Char) : Option (List Char × List Char) :=
  match cs with
  | '.' :: cs => (word? cs).map fun (base, cs) => (base, skipTypeArguments cs)
  | cs => do
    let cs ← ['('].isPrefixOf? (skipTypeArguments cs)
    let (base, cs) ← word? cs
    let cs ← [')'].isPrefixOf? cs
    some (base, cs)

/-- The definition of a component by a template, up to its backtick. -/
def template? : Scan.Recognizer (List Char × List Char) := fun _ cs => do
  let (name, cs) ← definition? cs
  let (base, cs) ← templateBase? cs
  let cs := Text.skipBlanks cs
  if cs.head? == some '\x60' then some ((name, base), cs) else none

/-- The definition of a component by an object, up to and with its brace. -/
def declarative? : Scan.Recognizer (List Char × List Char) := fun _ cs => do
  let (name, cs) ← definition? cs
  let cs ← ['('].isPrefixOf? (Text.skipBlanks cs)
  let (base, cs) ← word? (Text.skipBlanks cs)
  let cs ← [','].isPrefixOf? (Text.skipBlanks cs)
  let cs ← ['{'].isPrefixOf? (Text.skipBlanks cs)
  some ((name, base), cs)

/-- The start of a tag with one of the names, tried in order; a blank, a slash or the end of the
tag must follow. -/
def tag? (names : List String) : Scan.Recognizer String := fun _ cs =>
  match cs with
  | '<' :: cs =>
    names.findSome? fun name => do
      let rest ← name.toList.isPrefixOf? cs
      let c ← rest.head?
      if Text.isBlank c || c == '/' || c == '>' then some (name, rest) else none
  | _ => none

end Restyle.Header
