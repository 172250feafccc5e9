import Restyle.Number.Rounding
import Restyle.Text.Blank
import Restyle.Text.Digit

namespace Restyle

/-- The number `coefficient * 10 ^ exponent`. Texts are read exactly; products and normal forms are
rounded to 28 digits, a half to the even neighbour. -/
structure Decimal where
  negative : Bool
  coefficient : Nat
  exponent : Int
  deriving DecidableEq, Repr

namespace Decimal

def precision : Nat := 28
def greatestPlace : Int := 999999
def leastExponent : Int := -999999 - 27

/-- The exponents that a text may have at all. -/
def readableExponents (coefficient : Nat) (exponent : Int) : Bool :=
  let place := exponent + (Nat.toDigits 10 coefficient).length - 1
  place ≤ 999999999999999999 && -1999999999999999997 ≤ exponent

/-- The exponent at the end of a text: nothing, or a mark, a sign and digits. -/
def readExponent? : List Char → Option Int
  | [] => some 0
  | c :: cs =>
    if c == 'e' || c == 'E' then
      let (negative, digits) := Text.readSign cs
      if !digits.isEmpty && digits.all Text.isDigit then
        let n : Int := Text.digitsValue digits
        some (if negative then -n else n)
      else none
    else none

/-- Reads a number from a text. Blanks at the ends and all underscores are passed over; a text
that denotes no finite number gives none. -/
def read? (cs : List Char) : Option Decimal := do
  let cs := (Text.trim cs).filter (· != '_')
  let (negative, cs) := Text.readSign cs
  let whole := cs.takeWhile Text.isDigit
  let (fraction, cs) :=
    match cs.dropWhile Text.isDigit with
    | '.' :: cs => (cs.takeWhile Text.isDigit, cs.dropWhile Text.isDigit)
    | cs => ([], cs)
  if whole.isEmpty && fraction.isEmpty then none
  let power ← readExponent? cs
  let coefficient := Text.digitsValue (whole ++ fraction)
  let exponent := power - fraction.length
  if readableExponents coefficient exponent then some ⟨negative, coefficient, exponent⟩ else none

/-- The coefficient divided by `10 ^ places` and rounded, a half to the even neighbour. -/
def dropPlaces (coefficient places : Nat) : Nat :=
  if (Nat.toDigits 10 coefficient).length < places then 0
  else roundQuotient coefficient (tenTo places)

/-- The number rounded to the precision and the range, or none if it overflows. -/
def round? (d : Decimal) : Option Decimal :=
  if d.coefficient == 0 then
    some { d with exponent := max leastExponent (min d.exponent greatestPlace) }
  else
    let digits := (Nat.toDigits 10 d.coefficient).length
    let places := max (digits - precision) (leastExponent - d.exponent).toNat
    let coefficient := dropPlaces d.coefficient places
    let exponent := d.exponent + places
    let (coefficient, exponent) :=
      if coefficient == tenTo precision then (tenTo (precision - 1), exponent + 1)
      else (coefficient, exponent)
    if coefficient != 0 && greatestPlace < exponent + (Nat.toDigits 10 coefficient).length - 1 then
      none
    else some ⟨d.negative, coefficient, exponent⟩

/-- The product with one hundred, or none if it overflows. -/
def hundredfold? (d : Decimal) : Option Decimal :=
  round? { d with coefficient := 100 * d.coefficient }

/-- The same number with a coefficient that does not end in a zero. -/
def reduced (d : Decimal) : Decimal :=
  if d.coefficient == 0 then { d with exponent := 0 }
  else
    let zeros := ((Nat.toDigits 10 d.coefficient).reverse.takeWhile (· == '0')).length
    ⟨d.negative, d.coefficient / tenTo zeros, d.exponent + zeros⟩

/-- The whole number that a decimal is, if it is one and ends in at most `zeros` zeros. -/
def toInt? (zeros : Nat) (d : Decimal) : Option Int :=
  let r := d.reduced
  if 0 ≤ r.exponent && r.exponent ≤ zeros then
    let n : Int := (r.coefficient * tenTo r.exponent.toNat : Nat)
    some (if r.negative then -n else n)
  else none

/-- The text of a number without an exponent. -/
def plainText (d : Decimal) : List Char :=
  let digits := Nat.toDigits 10 d.coefficient
  (if d.negative then ['-'] else []) ++
    if 0 ≤ d.exponent then
      digits ++ List.replicate d.exponent.toNat '0'
    else
      let places := (-d.exponent).toNat
      let padded := List.replicate (places + 1 - digits.length) '0' ++ digits
      let whole := padded.length - places
      padded.take whole ++ '.' :: padded.drop whole

/-- The shortest text of a number without an exponent, or none if rounding it overflows. -/
def normalText? (d : Decimal) : Option (List Char) := do
  let r ← round? d
  some (plainText r.reduced)

end Decimal

end Restyle
