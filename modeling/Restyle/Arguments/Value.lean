import Restyle.Arguments.Basic

namespace Restyle.Arguments

/-- The blanks that may stand around a number: all but the separators of records. -/
def isMargin (c : Char) : Bool := Text.isBlank c && !(28 ≤ c.toNat && c.toNat ≤ 31)

/-- Digits with single underscores between them, and what follows. -/
def takeDigits : List Char → List Char × List Char
  | [] => ([], [])
  | '_' :: d :: cs =>
    if Text.isDigit d then
      let (digits, rest) := takeDigits cs
      (d :: digits, rest)
    else ([], '_' :: d :: cs)
  | c :: cs =>
    if Text.isDigit c then
      let (digits, rest) := takeDigits cs
      (c :: digits, rest)
    else ([], c :: cs)

/-- Digits that do not start with an underscore, and what follows. -/
def leadingDigits (cs : List Char) : List Char × List Char :=
  if cs.head? == some '_' then ([], cs) else takeDigits cs

/-- The whole number that a text denotes. It has at most 4300 digits. -/
def readWhole? (text : String) : Option Int :=
  let (negative, cs) := Text.readSign (Text.trimBy isMargin text.toList)
  let (digits, rest) := leadingDigits cs
  if digits.isEmpty || !rest.isEmpty || 4300 < digits.length then none
  else
    let n : Int := Text.digitsValue digits
    some (if negative then -n else n)

/-- An exponent at the end of a numeral. -/
def readPower? : List Char → Option Int
  | [] => some 0
  | mark :: cs =>
    if mark == 'e' || mark == 'E' then
      let (negative, cs) := Text.readSign cs
      let (digits, rest) := leadingDigits cs
      if digits.isEmpty || !rest.isEmpty then none
      else
        let n : Int := Text.digitsValue digits
        some (if negative then -n else n)
    else none

/-- The fraction after a point, and what follows. -/
def takeFraction : List Char → List Char × List Char
  | '.' :: cs => leadingDigits cs
  | cs => ([], cs)

/-- The binary number nearest to what a text denotes. -/
def readDouble? (text : String) : Option Double :=
  let (negative, cs) := Text.readSign (Text.trimBy isMargin text.toList)
  let word := String.ofList (cs.map Char.toLower)
  if word == "inf" || word == "infinity" then some (.infinite negative)
  else if word == "nan" then some .undefined
  else
    let (digits, rest) := leadingDigits cs
    let (fraction, rest) := takeFraction rest
    if digits.isEmpty && fraction.isEmpty then none
    else
      (readPower? rest).map fun power =>
        Double.ofDecimal negative (Text.digitsValue (digits ++ fraction))
          (power - fraction.length)

/-- The message about a value that is none of some words. -/
def badChoice (value : String) (words : List String) : String :=
  "invalid choice: " ++ quote value ++ " (choose from " ++ ", ".intercalate (words.map quote) ++
    ")"
where
  quote (s : String) : String := String.ofList (Text.quoted s.toList)

/-- The value of an option, or what is wrong with it. -/
def readValue (form : ValueForm) (text : String) : Except String ArgumentValue :=
  match form with
  | .text => .ok (.text text)
  | .choice words =>
    if words.contains text then .ok (.text text) else .error (badChoice text words)
  | .whole =>
    match readWhole? text with
    | some n => .ok (.whole n)
    | none => .error ("invalid int value: " ++ String.ofList (Text.quoted text.toList))
  | .double =>
    match readDouble? text with
    | some x => .ok (.double x)
    | none => .error ("invalid float value: " ++ String.ofList (Text.quoted text.toList))

end Restyle.Arguments
