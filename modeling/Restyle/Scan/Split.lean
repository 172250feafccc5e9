import Restyle.Fault
import Restyle.Scan.Region
import Restyle.Text.Blank
import Restyle.Text.Search

namespace Restyle.Scan

/-- What follows the comment at the front of a text. A line comment ends before its line feed,
and a block comment without an end takes all. -/
def afterComment? (cs : List Char) : Option (List Char) :=
  match cs with
  | '/' :: '/' :: _ => some (cs.dropWhile (· != '\n'))
  | '/' :: '*' :: rest => some (((Text.cut? ['*', '/'] rest).map (·.2)).getD [])
  | _ => none

theorem afterComment?_length_lt {cs rest : List Char} (h : afterComment? cs = some rest) :
    rest.length < cs.length := by
  unfold afterComment? at h
  split at h
  next tail =>
    cases h
    have := (List.dropWhile_sublist (· != '\n') (l := tail)).length_le
    simp
    omega
  next tail =>
    cases h
    cases hc : Text.cut? ['*', '/'] tail with
    | none => simp
    | some found =>
      obtain ⟨before, after⟩ := found
      have := Text.cut?_length_le hc
      simp
      omega
  next => simp at h

def isOpening (c : Char) : Bool := c == '(' || c == '{' || c == '['

def isClosing (c : Char) : Bool := c == ')' || c == '}' || c == ']'

/-- The bracket depth after a character. -/
def deepen (depth : Int) (c : Char) : Int :=
  if isOpening c then depth + 1 else if isClosing c then depth - 1 else depth

/-- Puts a text in front of the first part. -/
def extendFirst (front : List Char) : List (List Char) → List (List Char)
  | [] => [front]
  | part :: parts => (front ++ part) :: parts

/-- The parts of a text between the characters at depth zero for which `isSeparator` holds.
Strings stay whole and comments are left out; `offset` is the place of the text in the whole. -/
def parts (isSeparator : Char → Bool) (depth : Int) (offset : Nat) (cs : List Char) :
    Except Fault (List (List Char)) :=
  match cs with
  | [] => .ok [[]]
  | c :: tail =>
    if isQuote c then
      match h : takeString? (c :: tail) with
      | none => .error (.unterminatedString offset)
      | some (literal, rest) =>
        have : rest.length ≤ tail.length := Nat.le_of_lt_succ (takeString?_length_lt h)
        (parts isSeparator depth (offset + literal.length) rest).map (extendFirst literal)
    else
      match h : afterComment? (c :: tail) with
      | some rest =>
        have : rest.length ≤ tail.length := Nat.le_of_lt_succ (afterComment?_length_lt h)
        parts isSeparator depth (offset + ((c :: tail).length - rest.length)) rest
      | none =>
        if !isOpening c && !isClosing c && isSeparator c && depth == 0 then
          (parts isSeparator depth (offset + 1) tail).map ([] :: ·)
        else
          (parts isSeparator (deepen depth c) (offset + 1) tail).map (extendFirst [c])
termination_by cs.length

/-- The parts of a text that are not blank, without the blanks around them. -/
def splitBy (isSeparator : Char → Bool) (cs : List Char) : Except Fault (List (List Char)) :=
  (parts isSeparator 0 0 cs).map fun found => (found.map Text.trim).filter (!·.isEmpty)

/-- The parts of a text between commas. -/
def splitCommas (cs : List Char) : Except Fault (List (List Char)) := splitBy (· == ',') cs

/-- The texts before and after the first character at depth zero, outside of strings, for which
`isMark` holds. A string without an end is the end of the search. -/
def cutAt? (isMark : Char → Bool) (depth : Int) (cs : List Char) :
    Option (List Char × List Char) :=
  match cs with
  | [] => none
  | c :: tail =>
    if isQuote c then
      match h : takeString? (c :: tail) with
      | none => none
      | some (literal, rest) =>
        have : rest.length ≤ tail.length := Nat.le_of_lt_succ (takeString?_length_lt h)
        (cutAt? isMark depth rest).map fun (before, after) => (literal ++ before, after)
    else if !isOpening c && !isClosing c && isMark c && depth == 0 then some ([], tail)
    else (cutAt? isMark (deepen depth c) tail).map fun (before, after) => (c :: before, after)
termination_by cs.length

/-- The texts before and after the first colon at depth zero. -/
def cutColon? (cs : List Char) : Option (List Char × List Char) := cutAt? (· == ':') 0 cs

end Restyle.Scan
