import Restyle.Fault
import Restyle.Number.Shortest

namespace Restyle

inductive Number where
  | whole (n : Int)
  | double (x : Double)
  deriving DecidableEq, Repr

namespace Number

/-- The whole number that a number is, if it is one. -/
def toInt? : Number → Option Int
  | .whole n => some n
  | .double x => x.toInt?

/-- The shortest text of a number: a whole number has no fraction. -/
def text (x : Number) : String :=
  match x with
  | .whole n => toString n
  | .double d =>
    match d.toInt? with
    | some n => toString n
    | none => String.ofList d.text

def neg : Number → Number
  | .whole n => .whole (-n)
  | .double x => .double x.neg

/-- Whether a number lies below a whole number. -/
def isBelow (x : Number) (bound : Int) : Bool :=
  match x with
  | .whole n => n < bound
  | .double d => d.less (.ofInt bound)

def toJson : Number → Json
  | .whole n => .whole n
  | .double x => .double x

end Number

/-- A numeral by its parts. -/
structure Numeral where
  negative : Bool
  digits : List Char
  fraction : Option (List Char)
  deriving DecidableEq, Repr

namespace Numeral

/-- A numeral without a sign that is a whole text. -/
def readUnsigned? (negative : Bool) (cs : List Char) : Option Numeral :=
  let digits := cs.takeWhile Text.isDigit
  if digits.isEmpty then none
  else
    match cs.dropWhile Text.isDigit with
    | [] => some ⟨negative, digits, none⟩
    | '.' :: fraction =>
      if !fraction.isEmpty && fraction.all Text.isDigit then
        some ⟨negative, digits, some fraction⟩
      else none
    | _ => none

/-- A numeral that is a whole text. -/
def read? : List Char → Option Numeral
  | '-' :: cs => readUnsigned? true cs
  | cs => readUnsigned? false cs

/-- The number that a numeral denotes. -/
def value (numeral : Numeral) : Except Fault Number :=
  match numeral.fraction with
  | some fraction =>
    let coefficient := Text.digitsValue (numeral.digits ++ fraction)
    .ok (.double (Double.ofDecimal numeral.negative coefficient (-fraction.length)))
  | none =>
    if 4300 < numeral.digits.length then .error (.tooManyDigits numeral.digits.length)
    else
      let n : Int := Text.digitsValue numeral.digits
      .ok (.whole (if numeral.negative then -n else n))

end Numeral

end Restyle
