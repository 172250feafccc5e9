import Restyle.Number.Rounding

namespace Restyle

/-- A number of the binary format with 53 bits of precision. Finite numbers have a mantissa below
`2 ^ 53` and an exponent of at least `-1074`; the mantissa is at least `2 ^ 52` unless the exponent
is `-1074`. -/
inductive Double where
  | finite (negative : Bool) (mantissa : Nat) (exponent : Int)
  | infinite (negative : Bool)
  | undefined
  deriving DecidableEq, Repr, Inhabited

namespace Double

def zero : Double := .finite false 0 (-1074)

/-- The quotient over `2 ^ exponent`, rounded. -/
def scaledQuotient (num den : Nat) (exponent : Int) : Nat :=
  roundQuotient (num * twoTo (-exponent).toNat) (den * twoTo exponent.toNat)

/-- The exponent for which the quotient has a mantissa of 53 bits, or the least one. -/
def exponentFor (num den : Nat) : Int :=
  let guess : Int := (num.log2 : Int) - den.log2 - 52
  let whole := num * twoTo (-guess).toNat / (den * twoTo guess.toNat)
  let exponent := if whole < twoTo 52 then guess - 1 else guess
  max exponent (-1074)

/-- The number nearest to a quotient with a positive divisor. -/
def ofRatio (negative : Bool) (num den : Nat) : Double :=
  if num == 0 then .finite negative 0 (-1074)
  else
    let exponent := exponentFor num den
    let mantissa := scaledQuotient num den exponent
    let (mantissa, exponent) :=
      if mantissa == twoTo 53 then (twoTo 52, exponent + 1) else (mantissa, exponent)
    if 971 < exponent then .infinite negative else .finite negative mantissa exponent

/-- The number nearest to `coefficient * 10 ^ exponent`. Powers far outside the range are settled
by the count of digits. -/
def ofDecimal (negative : Bool) (coefficient : Nat) (exponent : Int) : Double :=
  let digits : Int := (Nat.toDigits 10 coefficient).length
  if coefficient == 0 || digits + exponent < -400 then .finite negative 0 (-1074)
  else if 400 < digits + exponent then .infinite negative
  else ofRatio negative (coefficient * tenTo exponent.toNat) (tenTo (-exponent).toNat)

def ofInt (n : Int) : Double := ofRatio (n < 0) n.natAbs 1

def neg : Double → Double
  | .finite s m e => .finite (!s) m e
  | .infinite s => .infinite (!s)
  | .undefined => .undefined

/-- The whole number that a finite number is, if it is one. -/
def toInt? : Double → Option Int
  | .finite s m e =>
    let den := twoTo (-e).toNat
    if m % den == 0 then
      let n : Int := (m / den * twoTo e.toNat : Nat)
      some (if s then -n else n)
    else none
  | _ => none

/-- A finite number as a multiple of `2 ^ (-1074)`. -/
def units (negative : Bool) (mantissa : Nat) (exponent : Int) : Int :=
  let n : Int := (mantissa * twoTo (exponent + 1074).toNat : Nat)
  if negative then -n else n

/-- The order of numbers; an undefined number stands in no order. -/
def less : Double → Double → Bool
  | .undefined, _ => false
  | _, .undefined => false
  | .infinite s, .infinite t => s && !t
  | .infinite s, .finite .. => s
  | .finite .., .infinite t => !t
  | .finite s m e, .finite t n f => units s m e < units t n f

/-- The difference, rounded. A difference of zero is positive unless a negative zero is taken from
below. -/
def sub : Double → Double → Double
  | .undefined, _ => .undefined
  | _, .undefined => .undefined
  | .infinite s, .infinite t => if s == t then .undefined else .infinite s
  | .infinite s, .finite .. => .infinite s
  | .finite .., .infinite t => .infinite (!t)
  | .finite s m e, .finite t n f =>
    let d := units s m e - units t n f
    if d == 0 then .finite (s && !t && m == 0) 0 (-1074)
    else ofRatio (d < 0) d.natAbs (twoTo 1074)

end Double

end Restyle
