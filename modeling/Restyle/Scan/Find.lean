namespace Restyle.Scan

/-- Reads something at a place, given the character before the place and the text from there on,
and gives it with the text that follows. -/
abbrev Recognizer (α : Type) := Option Char → List Char → Option (α × List Char)

/-- A place where something was read: its offset, what was read, the text of it and what follows. -/
structure Hit (α : Type) where
  offset : Nat
  value : α
  text : List Char
  rest : List Char

variable {α : Type}

/-- All places where `recognize` reads something. The next place is looked for after the end of the
last one. -/
def findFrom (recognize : Recognizer α) (before : Option Char) (offset : Nat) (cs : List Char) :
    List (Hit α) :=
  match cs with
  | [] => []
  | c :: tail =>
    match recognize before (c :: tail) with
    | none => findFrom recognize (some c) (offset + 1) tail
    | some (value, rest) =>
      if rest.length ≤ tail.length then
        let text := (c :: tail).take ((c :: tail).length - rest.length)
        ⟨offset, value, text, rest⟩ ::
          findFrom recognize text.getLast? (offset + text.length) rest
      else findFrom recognize (some c) (offset + 1) tail
termination_by cs.length

/-- All places in a whole text. -/
def findAll (recognize : Recognizer α) (cs : List Char) : List (Hit α) :=
  findFrom recognize none 0 cs

/-- A text with everything that `recognize` reads replaced by what `write` gives for it. -/
def substitute {ε : Type} (recognize : Recognizer α) (write : α → Except ε (List Char))
    (before : Option Char) (cs : List Char) : Except ε (List Char) :=
  match cs with
  | [] => .ok []
  | c :: tail =>
    match recognize before (c :: tail) with
    | none => (substitute recognize write (some c) tail).map (c :: ·)
    | some (value, rest) =>
      if rest.length ≤ tail.length then
        match write value with
        | .error fault => .error fault
        | .ok text =>
          let last := ((c :: tail).take ((c :: tail).length - rest.length)).getLast?
          (substitute recognize write last rest).map (text ++ ·)
      else (substitute recognize write (some c) tail).map (c :: ·)
termination_by cs.length

/-- Whether `p` holds at some place of a text. -/
def holdsSomewhere (p : Option Char → List Char → Bool) (before : Option Char) : List Char → Bool
  | [] => false
  | c :: cs => p before (c :: cs) || holdsSomewhere p (some c) cs

end Restyle.Scan
