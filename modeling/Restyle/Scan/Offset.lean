import Restyle.Scan.Split

namespace Restyle

/-- A line and a column, both counted from one. -/
structure Location where
  line : Int
  column : Int
  deriving DecidableEq, Repr

/-- The location of an offset. An offset outside of the text still counts its own column. -/
def Location.ofOffset (source : List Char) (offset : Int) : Location :=
  let stop := if offset < 0 then (offset + source.length).toNat else offset.toNat
  let before := source.take stop
  let lineStart : Int := before.length - (before.reverse.takeWhile (· != '\n')).length
  ⟨before.count '\n' + 1, offset - lineStart + 1⟩

namespace Scan

/-- A text as a single character, if it is one. -/
def single? (s : String) : Option Char :=
  match s.toList with
  | [c] => some c
  | _ => none

/-- The region that starts at an offset. -/
def regionAt? (source : List Char) (start : Int) (opening closing : String) :
    Option (List Char) := do
  let o ← single? opening
  let c ← single? closing
  if start < 0 then none
  let (region, _) ← takeRegion? o c (source.drop start.toNat)
  some region

/-- The template literal that starts at an offset. -/
def templateAt? (source : List Char) (start : Int) : Option (List Char) := do
  if start < 0 then none
  let (literal, _) ← takeTemplate? (source.drop start.toNat)
  some literal

/-- Reads the end of a text in which a string has begun. No interpolation can open there. Gives
how much of the string's end was read, or the frame in which the text ends. -/
def runTail : Frame → List Char → Option (Nat ⊕ Frame)
  | .region .., _ => none
  | .string quote _, [] => some (.inr (.string quote false))
  | .escaped quote, [] => some (.inr (.escaped quote))
  | frame, c :: cs =>
    match step [frame] c with
    | [next] => (runTail next cs).map (Sum.map (· + 1) id)
    | [] => some (.inl 1)
    | _ => none

/-- The offset after the string that starts at an offset. A string that starts below zero and
does not end with the text goes on at the front of the text. -/
def stringEnd (source : List Char) (start : Int) : Except Fault (Option Int) :=
  let first := if start < 0 then start + source.length else start
  if first < 0 then .error .outOfRange
  else
    match source.drop first.toNat with
    | [] => .error .outOfRange
    | quote :: cs =>
      if 0 ≤ start then
        .ok ((run [.string quote false] cs).map fun (read, _) => start + 1 + read.length)
      else
        .ok <|
          match runTail (.string quote false) cs with
          | none => none
          | some (.inl read) => some (start + 1 + read)
          | some (.inr frame) => (run [frame] source).map fun (read, _) => read.length

/-- The parts of a text between the separators. -/
def split (source : List Char) (separator : String) : Except Fault (List (List Char)) :=
  splitBy (fun c => single? separator == some c) source

/-- The offset of the first mark at depth zero. -/
def find? (source : List Char) (mark : String) : Option Nat :=
  (cutAt? (fun c => single? mark == some c) 0 source).map (·.1.length)

end Scan

end Restyle
