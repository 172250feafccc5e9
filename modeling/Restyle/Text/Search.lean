namespace Restyle.Text

/-- The texts before and after the first place where `pat` stands. -/
def cut? (pat : List Char) : List Char → Option (List Char × List Char)
  | [] => if pat.isEmpty then some ([], []) else none
  | c :: cs =>
    match pat.isPrefixOf? (c :: cs) with
    | some rest => some ([], rest)
    | none => (cut? pat cs).map fun (before, after) => (c :: before, after)

/-- Whether `pat` stands somewhere in a text. -/
def hasPart (pat cs : List Char) : Bool := (cut? pat cs).isSome

/-- Puts `new` in the first place where `pat` stands. -/
def replaceFirst (pat new cs : List Char) : List Char :=
  match cut? pat cs with
  | some (before, after) => before ++ new ++ after
  | none => cs

theorem isPrefixOf?_length_le {pat cs rest : List Char} (h : pat.isPrefixOf? cs = some rest) :
    rest.length ≤ cs.length := by
  induction pat generalizing cs with
  | nil => cases h; exact Nat.le_refl _
  | cons p pat ih =>
    cases cs with
    | nil => cases h
    | cons c cs =>
      have hs : (if p == c then pat.isPrefixOf? cs else none) = some rest := h
      split at hs
      next => exact Nat.le_succ_of_le (ih hs)
      next => cases hs

theorem cut?_length_le {pat cs before after : List Char}
    (h : cut? pat cs = some (before, after)) : after.length ≤ cs.length := by
  induction cs generalizing before with
  | nil =>
    simp only [cut?] at h
    split at h
    next => cases h; exact Nat.le_refl _
    next => cases h
  | cons c cs ih =>
    simp only [cut?] at h
    split at h
    next rest hr => cases h; exact isPrefixOf?_length_le hr
    next =>
      obtain ⟨⟨before', after'⟩, hb, he⟩ := Option.map_eq_some_iff.mp h
      cases he
      exact Nat.le_succ_of_le (ih hb)

/-- A text without the places where `pat` stands, taken from the left. -/
def removeAll (pat : List Char) (cs : List Char) : List Char :=
  match cs with
  | [] => []
  | c :: tail =>
    match pat.isPrefixOf? (c :: tail) with
    | some rest => if rest.length ≤ tail.length then removeAll pat rest else c :: tail
    | none => c :: removeAll pat tail
termination_by cs.length

end Restyle.Text
