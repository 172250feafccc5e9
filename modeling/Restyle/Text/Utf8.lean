import Restyle.Text.Quoted

namespace Restyle.Text

/-- Why a run of bytes is no text. -/
inductive Utf8Cause where
  | badStart
  | badContinuation
  | endOfData
  deriving DecidableEq, Repr

/-- The bytes at `start`, `count` of them, are refused; `byte` is the first of them. -/
structure Utf8Fault where
  byte : UInt8
  start : Nat
  count : Nat
  cause : Utf8Cause
  deriving DecidableEq, Repr

def Utf8Cause.message : Utf8Cause → String
  | .badStart => "invalid start byte"
  | .badContinuation => "invalid continuation byte"
  | .endOfData => "unexpected end of data"

def Utf8Fault.message (f : Utf8Fault) : String :=
  let place :=
    if f.count == 1 then
      "byte 0x" ++ String.ofList (hexPadded 2 f.byte.toNat) ++ " in position " ++ toString f.start
    else
      "bytes in position " ++ toString f.start ++ "-" ++ toString (f.start + f.count - 1)
  "'utf-8' codec can't decode " ++ place ++ ": " ++ f.cause.message

/-- What one step of decoding finds at the front of the bytes. -/
inductive Utf8Step where
  | char (c : Char) (size : Nat)
  | refused (count : Nat) (cause : Utf8Cause)
  deriving DecidableEq, Repr

/-- The bytes that may follow the first byte of a longer sequence in second place, so that no
character has two forms and none is a surrogate. -/
def secondFits (first second : UInt8) : Bool :=
  0x80 ≤ second && second ≤ 0xbf &&
    (first != 0xe0 || 0xa0 ≤ second) && (first != 0xed || second < 0xa0) &&
    (first != 0xf0 || 0x90 ≤ second) && (first != 0xf4 || second < 0x90)

/-- The bytes that continue a sequence after its second place. -/
def continues (b : UInt8) : Bool := 0x80 ≤ b && b ≤ 0xbf

private def low6 (b : UInt8) : Nat := b.toNat % 64

/-- How many bytes the sequence that starts with `b` has, if any does. -/
def sequenceSize? (b : UInt8) : Option Nat :=
  if b < 0x80 then some 1
  else if 0xc2 ≤ b && b < 0xe0 then some 2
  else if 0xe0 ≤ b && b < 0xf0 then some 3
  else if 0xf0 ≤ b && b < 0xf5 then some 4
  else none

/-- Reads one character. -/
def utf8Step (b : UInt8) (bs : List UInt8) : Utf8Step :=
  match sequenceSize? b, bs with
  | none, _ => .refused 1 .badStart
  | some 1, _ => .char (Char.ofNat b.toNat) 1
  | some _, [] => .refused 1 .endOfData
  | some size, b₂ :: bs =>
    if !secondFits b b₂ then .refused 1 .badContinuation
    else if size == 2 then .char (Char.ofNat (b.toNat % 32 * 64 + low6 b₂)) 2
    else
      match bs with
      | [] => .refused 2 .endOfData
      | b₃ :: bs =>
        if !continues b₃ then .refused 2 .badContinuation
        else if size == 3 then
          .char (Char.ofNat ((b.toNat % 16 * 64 + low6 b₂) * 64 + low6 b₃)) 3
        else
          match bs with
          | [] => .refused 3 .endOfData
          | b₄ :: _ =>
            if !continues b₄ then .refused 3 .badContinuation
            else
              .char (Char.ofNat (((b.toNat % 8 * 64 + low6 b₂) * 64 + low6 b₃) * 64 + low6 b₄)) 4

/-- Decodes the bytes from position `start` on. The first `skip` of them belong to a character
that has been read. -/
def decodeFrom (start skip : Nat) : List UInt8 → Except Utf8Fault (List Char)
  | [] => .ok []
  | b :: bs =>
    match skip with
    | skip + 1 => decodeFrom (start + 1) skip bs
    | 0 =>
      match utf8Step b bs with
      | .char c size => (decodeFrom (start + 1) (size - 1) bs).map (c :: ·)
      | .refused count cause => .error ⟨b, start, count, cause⟩

/-- The text that the bytes encode. -/
def decodeUtf8 (bytes : List UInt8) : Except Utf8Fault (List Char) := decodeFrom 0 0 bytes

end Restyle.Text
