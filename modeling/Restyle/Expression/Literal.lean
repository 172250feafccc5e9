import Restyle.Number.Numeral
import Restyle.Scan.Frame
import Restyle.Text.Blank

namespace Restyle.Expression

/-- Whether every quote inside a string follows a backslash; `escape` says whether the character
before the text is one. -/
def quotesEscaped (quote : Char) (escape : Bool) : List Char → Bool
  | [] => true
  | c :: cs => (c != quote || escape) && quotesEscaped quote (c == '\\') cs

/-- What stands between the quotes of a text that is one string. -/
def unquote? (isMark : Char → Bool) : List Char → Option (List Char)
  | [] => none
  | quote :: cs =>
    if isMark quote && cs.getLast? == some quote && quotesEscaped quote false cs.dropLast then
      some cs.dropLast
    else none

/-- The two quotes of strings that have no interpolations. -/
def isPlainQuote (c : Char) : Bool := c == '\x27' || c == '\x22'

/-- The words for truth values, which stand for themselves. -/
def truthWords : List (List Char) := ["true".toList, "false".toList]

/-- The value of a literal: a string without its quotes, a number, or a truth value as a text. -/
def literal? (raw : List Char) : Except Fault (Option Json) :=
  let raw := Text.trim raw
  match unquote? isPlainQuote raw with
  | some inside => .ok (some (.text (String.ofList inside)))
  | none =>
    match Numeral.read? raw with
    | some numeral => numeral.value.map fun number => some number.toJson
    | none => .ok (if truthWords.contains raw then some (.text (String.ofList raw)) else none)

end Restyle.Expression
