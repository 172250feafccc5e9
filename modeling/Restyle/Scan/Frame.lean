namespace Restyle.Scan

/-- The quotes that open a string. -/
def isQuote (c : Char) : Bool := c == '\x27' || c == '\x22' || c == '\x60'

/-- What the reader is inside of. -/
inductive Frame where
  /-- A string up to `quote`; `dollar` says that an interpolation opens at a brace. -/
  | string (quote : Char) (dollar : Bool)
  /-- The same string, one character after a backslash. -/
  | escaped (quote : Char)
  /-- A region up to `closing`, with `depth` regions of its own kind open inside. -/
  | region (opening closing : Char) (depth : Nat)
  deriving DecidableEq, Repr

/-- What one character does to the stack. Only a string in backticks has interpolations. -/
def step : List Frame → Char → List Frame
  | [], _ => []
  | .escaped quote :: frames, _ => .string quote false :: frames
  | .string quote dollar :: frames, c =>
    if c == '\\' then .escaped quote :: frames
    else if dollar && c == '{' then .region '{' '}' 0 :: .string quote false :: frames
    else if c == quote then frames
    else .string quote (quote == '\x60' && c == '$') :: frames
  | .region opening closing depth :: frames, c =>
    if isQuote c then .string c false :: .region opening closing depth :: frames
    else if c == opening then .region opening closing (depth + 1) :: frames
    else if c == closing then
      match depth with
      | 0 => frames
      | depth + 1 => .region opening closing depth :: frames
    else .region opening closing depth :: frames

/-- Reads until the stack is empty, and gives what was read and what follows. -/
def run : List Frame → List Char → Option (List Char × List Char)
  | [], cs => some ([], cs)
  | _ :: _, [] => none
  | frame :: frames, c :: cs =>
    (run (step (frame :: frames) c) cs).map fun (read, rest) => (c :: read, rest)

theorem run_append {frames : List Frame} {cs read rest : List Char}
    (h : run frames cs = some (read, rest)) : cs = read ++ rest := by
  induction cs generalizing frames read with
  | nil =>
    cases frames with
    | nil => cases h; rfl
    | cons frame frames => simp [run] at h
  | cons c cs ih =>
    cases frames with
    | nil => cases h; rfl
    | cons frame frames =>
      obtain ⟨⟨read', rest'⟩, hr, he⟩ := Option.map_eq_some_iff.mp h
      cases he
      rw [List.cons_append, ← ih hr]

theorem run_length_le {frames : List Frame} {cs read rest : List Char}
    (h : run frames cs = some (read, rest)) : rest.length ≤ cs.length := by
  rw [run_append h]
  simp

end Restyle.Scan
