import Restyle.Number.Double

namespace Restyle.Double

/-- Compares `a * 2 ^ p` with `b * 10 ^ q`. -/
def comparePowers (a : Nat) (p : Int) (b : Nat) (q : Int) : Ordering :=
  compare (a * twoTo p.toNat * tenTo (-q).toNat) (b * tenTo q.toNat * twoTo (-p).toNat)

/-- Whether the decimal `d * 10 ^ q` rounds to `mantissa * 2 ^ exponent`. The interval is measured
in quarters of the last place; it is closed if the mantissa is even, and narrower below a power of
two. -/
def readsBack (mantissa : Nat) (exponent : Int) (d : Nat) (q : Int) : Bool :=
  let gap := if mantissa == twoTo 52 && -1074 < exponent then 1 else 2
  let below := comparePowers (4 * mantissa - gap) (exponent - 2) d q
  let above := comparePowers (4 * mantissa + 2) (exponent - 2) d q
  if mantissa % 2 == 0 then below != .gt && above != .lt else below == .lt && above == .gt

/-- The decimal exponent of the first digit of a positive number. -/
def leadingPlace (mantissa : Nat) (exponent : Int) : Int :=
  let scaled := mantissa * tenTo 400 * twoTo exponent.toNat / twoTo (-exponent).toNat
  ((Nat.toDigits 10 scaled).length : Int) - 401

/-- The neighbour of the number on the grid of multiples of `10 ^ q` that reads back, the nearer
one if both do. -/
def onGrid? (mantissa : Nat) (exponent : Int) (q : Int) : Option Nat :=
  let lower := mantissa * twoTo exponent.toNat * tenTo (-q).toNat /
    (twoTo (-exponent).toNat * tenTo q.toNat)
  let fitsLower := readsBack mantissa exponent lower q
  let fitsUpper := readsBack mantissa exponent (lower + 1) q
  match fitsLower, fitsUpper with
  | false, false => none
  | true, false => some lower
  | false, true => some (lower + 1)
  | true, true =>
    match comparePowers (2 * mantissa) exponent (2 * lower + 1) q with
    | .lt => some lower
    | .gt => some (lower + 1)
    | .eq => some (if lower % 2 == 0 then lower else lower + 1)

/-- The first of the grids with 1, 2, ... digits that has a neighbour reading back. -/
def searchGrid (mantissa : Nat) (exponent place : Int) : Nat → Nat → Nat × Int
  | 0, digits => (mantissa, place - digits)
  | tries + 1, digits =>
    let q := place - digits
    match onGrid? mantissa exponent q with
    | some d => (d, q)
    | none => searchGrid mantissa exponent place tries (digits + 1)

/-- The digits of the shortest decimal and the place of the first of them. -/
def shortest (mantissa : Nat) (exponent : Int) : List Char × Int :=
  let (d, q) := searchGrid mantissa exponent (leadingPlace mantissa exponent) 17 0
  let digits := Nat.toDigits 10 d
  let place := q + digits.length - 1
  let kept := (digits.reverse.dropWhile (· == '0')).reverse
  (if kept.isEmpty then ['0'] else kept, place)

/-- A decimal exponent with its sign and at least two digits. -/
def exponentText (e : Int) : List Char :=
  let digits := Nat.toDigits 10 e.natAbs
  (if e < 0 then '-' else '+') :: List.replicate (2 - digits.length) '0' ++ digits

/-- Digits whose first one stands at `place`. Places from `-4` to `15` are written without an
exponent, and a whole number then ends in `.0`. -/
def layOut (digits : List Char) (place : Int) : List Char :=
  if -4 ≤ place && place < 16 then
    if place < 0 then
      '0' :: '.' :: List.replicate ((-place).toNat - 1) '0' ++ digits
    else
      let whole := place.toNat + 1
      let front := digits.take whole
      let back := digits.drop whole
      front ++ List.replicate (whole - digits.length) '0' ++ '.' ::
        (if back.isEmpty then ['0'] else back)
  else
    let tail := digits.drop 1
    digits.take 1 ++ (if tail.isEmpty then [] else '.' :: tail) ++ 'e' :: exponentText place

/-- The text of a number. -/
def text : Double → List Char
  | .undefined => ['n', 'a', 'n']
  | .infinite negative => (if negative then ['-'] else []) ++ ['i', 'n', 'f']
  | .finite negative mantissa exponent =>
    (if negative then ['-'] else []) ++
      if mantissa == 0 then ['0', '.', '0']
      else
        let (digits, place) := shortest mantissa exponent
        layOut digits place

end Restyle.Double
