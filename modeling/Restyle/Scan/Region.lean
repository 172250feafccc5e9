import Restyle.Scan.Frame

namespace Restyle.Scan

/-- The string at the front of a text, whose first character is taken for its quote, and what
follows the string. -/
def takeString? : List Char → Option (List Char × List Char)
  | [] => none
  | quote :: cs => (run [.string quote false] cs).map fun (read, rest) => (quote :: read, rest)

/-- The region at the front of a text, from `opening` to the `closing` that matches it, and what
follows the region. Brackets inside strings do not count. -/
def takeRegion? (opening closing : Char) : List Char → Option (List Char × List Char)
  | [] => none
  | c :: cs =>
    if c == opening && !isQuote c then
      (run [.region opening closing 0] cs).map fun (read, rest) => (c :: read, rest)
    else none

/-- The region in braces at the front of a text. -/
def takeBraces? (cs : List Char) : Option (List Char × List Char) := takeRegion? '{' '}' cs

/-- The template literal at the front of a text, backticks included. -/
def takeTemplate? : List Char → Option (List Char × List Char)
  | '\x60' :: cs => takeString? ('\x60' :: cs)
  | _ => none

theorem takeString?_append {cs literal rest : List Char}
    (h : takeString? cs = some (literal, rest)) : cs = literal ++ rest := by
  cases cs with
  | nil => simp [takeString?] at h
  | cons c cs =>
    obtain ⟨⟨read, rest'⟩, hr, he⟩ := Option.map_eq_some_iff.mp h
    cases he
    rw [List.cons_append, ← run_append hr]

theorem takeString?_length_lt {cs literal rest : List Char}
    (h : takeString? cs = some (literal, rest)) : rest.length < cs.length := by
  cases cs with
  | nil => simp [takeString?] at h
  | cons c cs =>
    obtain ⟨⟨read, rest'⟩, hr, he⟩ := Option.map_eq_some_iff.mp h
    cases he
    exact Nat.lt_succ_of_le (run_length_le hr)

theorem takeRegion?_cons {opening closing c : Char} {cs region rest : List Char}
    (h : takeRegion? opening closing (c :: cs) = some (region, rest)) :
    c = opening ∧ isQuote c = false ∧
      ∃ read, run [.region opening closing 0] cs = some (read, rest) ∧ region = c :: read := by
  simp only [takeRegion?] at h
  split at h
  next hc =>
    obtain ⟨⟨read, rest'⟩, hr, he⟩ := Option.map_eq_some_iff.mp h
    cases he
    simp only [Bool.and_eq_true, beq_iff_eq, Bool.not_eq_true'] at hc
    exact ⟨hc.1, hc.2, read, hr, rfl⟩
  next => simp at h

theorem takeRegion?_append {opening closing : Char} {cs region rest : List Char}
    (h : takeRegion? opening closing cs = some (region, rest)) : cs = region ++ rest := by
  cases cs with
  | nil => simp [takeRegion?] at h
  | cons c cs =>
    obtain ⟨_, _, read, hr, rfl⟩ := takeRegion?_cons h
    rw [List.cons_append, ← run_append hr]

theorem takeRegion?_length_lt {opening closing : Char} {cs region rest : List Char}
    (h : takeRegion? opening closing cs = some (region, rest)) : rest.length < cs.length := by
  cases cs with
  | nil => simp [takeRegion?] at h
  | cons c cs =>
    obtain ⟨_, _, read, hr, _⟩ := takeRegion?_cons h
    exact Nat.lt_succ_of_le (run_length_le hr)

theorem takeTemplate?_eq_takeString? {cs : List Char} {found : List Char × List Char}
    (h : takeTemplate? cs = some found) : takeString? cs = some found := by
  unfold takeTemplate? at h
  split at h
  next => exact h
  next => simp at h

theorem takeTemplate?_append {cs literal rest : List Char}
    (h : takeTemplate? cs = some (literal, rest)) : cs = literal ++ rest :=
  takeString?_append (takeTemplate?_eq_takeString? h)

theorem takeTemplate?_length_lt {cs literal rest : List Char}
    (h : takeTemplate? cs = some (literal, rest)) : rest.length < cs.length :=
  takeString?_length_lt (takeTemplate?_eq_takeString? h)

/-- The interpolations of a template's text, from the left. The first one that does not end is
the end of the search. -/
def interpolations (cs : List Char) : List (List Char) :=
  match cs with
  | [] => []
  | c :: tail =>
    if c == '$' then
      match h : takeBraces? tail with
      | some (region, rest) =>
        have : rest.length < tail.length := takeRegion?_length_lt h
        ('$' :: region) :: interpolations rest
      | none => if tail.head? == some '{' then [] else interpolations tail
    else interpolations tail
termination_by cs.length

end Restyle.Scan
