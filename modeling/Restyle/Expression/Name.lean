import Restyle.Scan.Find
import Restyle.Scan.Frame
import Restyle.Text.Blank
import Restyle.Text.Word

namespace Restyle.Expression

def startsName (c : Char) : Bool := c.isAlpha || c == '_' || c == '$'

def continuesName (c : Char) : Bool := Text.isWord c || c == '$'

/-- Whether a name can start after a character: not inside another name, nor as a member. -/
def admitsName : Option Char → Bool
  | none => true
  | some c => !(continuesName c || c == '.')

/-- A name at a place. -/
def name? : Scan.Recognizer (List Char) := fun before cs =>
  match cs with
  | [] => none
  | c :: tail =>
    if admitsName before && startsName c then
      some (c :: tail.takeWhile continuesName, tail.dropWhile continuesName)
    else none

/-- The words that are values and not names. -/
def valueWords : List String := ["true", "false", "null", "undefined"]

/-- The names in a text, each once. -/
def names (cs : List Char) : List String :=
  (((Scan.findAll name? cs).map fun hit => String.ofList hit.value).filter
    (!valueWords.contains ·)).eraseDups

/-- Whether a whole text is one name. -/
def isName : List Char → Bool
  | [] => false
  | c :: cs => startsName c && cs.all continuesName

/-- What follows the string of which the opening quote has been read. A line feed cannot be
escaped. -/
def afterString? (quote : Char) : List Char → Option (List Char)
  | [] => none
  | '\\' :: [] => none
  | '\\' :: c :: cs => if c == '\n' then none else afterString? quote cs
  | c :: cs => if c == quote then some cs else afterString? quote cs

theorem afterString?_length_lt {quote : Char} {cs rest : List Char}
    (h : afterString? quote cs = some rest) : rest.length < cs.length := by
  fun_induction afterString? quote cs with
  | case1 => simp at h
  | case2 => simp at h
  | case3 => simp at h
  | case4 c cs _ ih =>
    have := ih h
    simp only [List.length_cons]
    omega
  | case5 => cases h; simp
  | case6 c cs _ _ _ ih =>
    have := ih h
    simp only [List.length_cons]
    omega

/-- A text with the contents of its strings taken out. -/
def emptyStrings (cs : List Char) : List Char :=
  match cs with
  | [] => []
  | c :: tail =>
    if Scan.isQuote c then
      match h : afterString? c tail with
      | some rest =>
        have : rest.length < tail.length := afterString?_length_lt h
        '\x27' :: '\x27' :: emptyStrings rest
      | none => c :: emptyStrings tail
    else c :: emptyStrings tail
termination_by cs.length

end Restyle.Expression
