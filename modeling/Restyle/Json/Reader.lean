import Restyle.Json.Value
import Restyle.Text.Digit

namespace Restyle.Json

/-- What is wrong with a text that writes no value. -/
inductive ReadProblem where
  | value
  | propertyName
  | colon
  | comma
  | controlCharacter
  | unterminatedText
  | escape
  | hexEscape
  | extraData
  | byteOrderMark
  | tooManyDigits (digits : Nat)
  deriving DecidableEq, Repr

/-- A problem and how many characters were left where it shows. -/
structure ReadFault where
  problem : ReadProblem
  left : Nat
  deriving DecidableEq, Repr

def ReadProblem.message : ReadProblem → String
  | .value => "Expecting value"
  | .propertyName => "Expecting property name enclosed in double quotes"
  | .colon => "Expecting ':' delimiter"
  | .comma => "Expecting ',' delimiter"
  | .controlCharacter => "Invalid control character at"
  | .unterminatedText => "Unterminated string starting at"
  | .escape => "Invalid \\escape"
  | .hexEscape => "Invalid \\uXXXX escape"
  | .extraData => "Extra data"
  | .byteOrderMark => "Unexpected UTF-8 BOM (decode using utf-8-sig)"
  | .tooManyDigits digits =>
    "Exceeds the limit (4300 digits) for integer string conversion: value has " ++
      toString digits ++ " digits; use sys.set_int_max_str_digits() to increase the limit"

/-- The message of a fault in a text: the problem, the line, the column and the offset. A number
that is too long is not placed. -/
def ReadFault.message (source : List Char) (fault : ReadFault) : String :=
  match fault.problem with
  | .tooManyDigits _ => fault.problem.message
  | problem =>
    let offset := source.length - fault.left
    let before := source.take offset
    let line := before.count '\n' + 1
    let column := (before.reverse.takeWhile (· != '\n')).length + 1
    problem.message ++ ": line " ++ toString line ++ " column " ++ toString column ++
      " (char " ++ toString offset ++ ")"

abbrev Reads (α : Type) := Except ReadFault (α × List Char)

def isGap (c : Char) : Bool := c == ' ' || c == '\t' || c == '\n' || c == '\r'

def skipGap (cs : List Char) : List Char := cs.dropWhile isGap

def hexValue? (c : Char) : Option Nat :=
  if c.isDigit then some (c.toNat - 48)
  else if 'a' ≤ c && c ≤ 'f' then some (c.toNat - 87)
  else if 'A' ≤ c && c ≤ 'F' then some (c.toNat - 55)
  else none

/-- The number that four hexadecimal digits write. -/
def hex4? : List Char → Option Nat
  | [a, b, c, d] => do
    let a ← hexValue? a
    let b ← hexValue? b
    let c ← hexValue? c
    let d ← hexValue? d
    some (((a * 16 + b) * 16 + c) * 16 + d)
  | _ => none

def shortEscape? (c : Char) : Option Char :=
  if c == '\x22' || c == '\\' || c == '/' then some c
  else if c == 'b' then some '\x08'
  else if c == 'f' then some '\x0c'
  else if c == 'n' then some '\n'
  else if c == 'r' then some '\r'
  else if c == 't' then some '\t'
  else none

def isHighSurrogate (n : Nat) : Bool := 0xd800 ≤ n && n ≤ 0xdbff

def isLowSurrogate (n : Nat) : Bool := 0xdc00 ≤ n && n ≤ 0xdfff

/-- A code unit as a character. No character is half of a pair, so each half that stands alone has a
place of its own among the last 2048 private characters. -/
def ofUnit (n : Nat) : Char :=
  if isHighSurrogate n || isLowSurrogate n then Char.ofNat (0x10f800 + (n - 0xd800))
  else Char.ofNat n

/-- The character written by the escape whose four digits stand at the front, and how many
characters it takes: a pair of surrogates takes both escapes. -/
def readUnit (cs : List Char) : Except ReadFault (Char × Nat) :=
  match hex4? (cs.take 4) with
  | none => .error ⟨.hexEscape, cs.length + 1⟩
  | some unit =>
    if cs.length ≤ 4 then .error ⟨.hexEscape, cs.length + 1⟩
    else
      let next := cs.drop 4
      if isHighSurrogate unit && 6 < next.length && next.take 2 == ['\\', 'u'] then
        match hex4? ((next.drop 2).take 4) with
        | none => .error ⟨.hexEscape, next.length - 1⟩
        | some second =>
          if isLowSurrogate second then
            .ok (Char.ofNat (0x10000 + (unit - 0xd800) * 1024 + (second - 0xdc00)), 10)
          else .ok (ofUnit unit, 4)
      else .ok (ofUnit unit, 4)

/-- The rest of a text whose opening quote had `opening` characters at and after it. The first
`skip` characters belong to an escape that has been read. -/
def readText (opening skip : Nat) (read : List Char) : List Char → Reads (List Char)
  | [] => .error ⟨.unterminatedText, opening⟩
  | c :: cs =>
    match skip with
    | skip + 1 => readText opening skip read cs
    | 0 =>
      if c == '\x22' then .ok (read.reverse, cs)
      else if c == '\\' then
        match cs with
        | [] => .error ⟨.unterminatedText, opening⟩
        | e :: rest =>
          if e == 'u' then
            match readUnit rest with
            | .error fault => .error fault
            | .ok (unit, size) => readText opening (size + 1) (unit :: read) cs
          else
            match shortEscape? e with
            | none => .error ⟨.escape, cs.length + 1⟩
            | some d => readText opening 1 (d :: read) cs
      else if c.toNat < 32 then .error ⟨.controlCharacter, cs.length + 1⟩
      else readText opening 0 (c :: read) cs

/-- The digits at the front, if there are any. -/
def someDigits? (cs : List Char) : Option (List Char × List Char) :=
  let digits := cs.takeWhile Char.isDigit
  if digits.isEmpty then none else some (digits, cs.dropWhile Char.isDigit)

/-- The digits of a whole number: a zero stands alone. -/
def wholeDigits? : List Char → Option (List Char × List Char)
  | '0' :: cs => some (['0'], cs)
  | cs => someDigits? cs

/-- The fraction after a number, if a point and a digit follow. -/
def fraction? : List Char → Option (List Char × List Char)
  | '.' :: cs => someDigits? cs
  | _ => none

/-- The power after a number, if a mark, perhaps a sign, and a digit follow. -/
def power? : List Char → Option (Int × List Char)
  | c :: cs =>
    if c == 'e' || c == 'E' then
      let (negative, digits) := Text.readSign cs
      (someDigits? digits).map fun (ds, rest) =>
        let n : Int := Text.digitsValue ds
        (if negative then -n else n, rest)
    else none
  | [] => none

/-- A number at the front. -/
def readNumber (cs : List Char) : Reads Json :=
  let (negative, digits) :=
    match cs with
    | '-' :: ds => (true, ds)
    | ds => (false, ds)
  match wholeDigits? digits with
  | none => .error ⟨.value, cs.length⟩
  | some (front, rest) =>
    let fraction := fraction? rest
    let rest := (fraction.map (·.2)).getD rest
    let power := power? rest
    let rest := (power.map (·.2)).getD rest
    if fraction.isNone && power.isNone then
      if 4300 < front.length then .error ⟨.tooManyDigits front.length, cs.length⟩
      else
        let n : Int := Text.digitsValue front
        .ok (.whole (if negative then -n else n), rest)
    else
      let places := (fraction.map (·.1)).getD []
      let exponent := (power.map (·.1)).getD 0 - places.length
      .ok (.double (Double.ofDecimal negative (Text.digitsValue (front ++ places)) exponent), rest)

/-- The values that are written as a word. -/
def namedValues : List (List Char × Json) := [
  ("null".toList, .null), ("true".toList, .bool true), ("false".toList, .bool false),
  ("NaN".toList, .double .undefined), ("Infinity".toList, .double (.infinite false)),
  ("-Infinity".toList, .double (.infinite true))]

def readNamed? (cs : List Char) : Option (Json × List Char) :=
  namedValues.findSome? fun (word, value) => (word.isPrefixOf? cs).map (value, ·)

mutual

/-- A value at the front. The fuel bounds the nesting. -/
def readValue : Nat → List Char → Reads Json
  | 0, cs => .error ⟨.value, cs.length⟩
  | fuel + 1, cs =>
    match cs with
    | '\x22' :: rest =>
      match readText cs.length 0 [] rest with
      | .ok (chars, rest) => .ok (.text (String.ofList chars), rest)
      | .error fault => .error fault
    | '{' :: rest =>
      match skipGap rest with
      | '}' :: rest => .ok (.object [], rest)
      | rest => readFields fuel [] rest
    | '[' :: rest =>
      match skipGap rest with
      | ']' :: rest => .ok (.list [], rest)
      | rest => readItems fuel [] rest
    | cs =>
      match readNamed? cs with
      | some found => .ok found
      | none => readNumber cs

/-- The items of a list up to its end. -/
def readItems : Nat → List Json → List Char → Reads Json
  | 0, _, cs => .error ⟨.value, cs.length⟩
  | fuel + 1, items, cs =>
    match readValue fuel cs with
    | .error fault => .error fault
    | .ok (item, rest) =>
      match skipGap rest with
      | ']' :: rest => .ok (.list (items ++ [item]), rest)
      | ',' :: rest => readItems fuel (items ++ [item]) (skipGap rest)
      | rest => .error ⟨.comma, rest.length⟩

/-- The fields of an object up to its end. -/
def readFields : Nat → Fields Json → List Char → Reads Json
  | 0, _, cs => .error ⟨.value, cs.length⟩
  | fuel + 1, fields, cs =>
    match cs with
    | '\x22' :: rest =>
      match readText cs.length 0 [] rest with
      | .error fault => .error fault
      | .ok (name, rest) =>
        match skipGap rest with
        | ':' :: rest =>
          match readValue fuel (skipGap rest) with
          | .error fault => .error fault
          | .ok (value, rest) =>
            let fields := fields.put (String.ofList name) value
            match skipGap rest with
            | '}' :: rest => .ok (.object fields, rest)
            | ',' :: rest => readFields fuel fields (skipGap rest)
            | rest => .error ⟨.comma, rest.length⟩
        | rest => .error ⟨.colon, rest.length⟩
    | cs => .error ⟨.propertyName, cs.length⟩

end

/-- The value that a whole text writes. -/
def read (cs : List Char) : Except ReadFault Json :=
  match cs with
  | '\ufeff' :: _ => .error ⟨.byteOrderMark, cs.length⟩
  | _ =>
    match readValue (2 * cs.length + 2) (skipGap cs) with
    | .error fault => .error fault
    | .ok (value, rest) =>
      match skipGap rest with
      | [] => .ok value
      | rest => .error ⟨.extraData, rest.length⟩

end Restyle.Json
