import Restyle.Scan.Region

namespace Restyle.Scan

/-- The reader stops when its stack is empty, so what follows the text it has read is free. -/
theorem run_read_append {frames : List Frame} {cs read rest : List Char}
    (h : run frames cs = some (read, rest)) (after : List Char) :
    run frames (read ++ after) = some (read, after) := by
  induction cs generalizing frames read with
  | nil =>
    cases frames with
    | nil => cases h; simp [run]
    | cons frame frames => simp [run] at h
  | cons c cs ih =>
    cases frames with
    | nil => cases h; simp [run]
    | cons frame frames =>
      obtain ⟨⟨read', rest'⟩, hr, he⟩ := Option.map_eq_some_iff.mp h
      cases he
      simp only [List.cons_append, run, ih hr, Option.map_some]

theorem takeString?_read_append {cs literal rest : List Char}
    (h : takeString? cs = some (literal, rest)) (after : List Char) :
    takeString? (literal ++ after) = some (literal, after) := by
  cases cs with
  | nil => simp [takeString?] at h
  | cons quote cs =>
    obtain ⟨⟨read, rest'⟩, hr, he⟩ := Option.map_eq_some_iff.mp h
    cases he
    simp only [List.cons_append, takeString?, run_read_append hr, Option.map_some]

theorem takeRegion?_read_append {opening closing : Char} {cs region rest : List Char}
    (h : takeRegion? opening closing cs = some (region, rest)) (after : List Char) :
    takeRegion? opening closing (region ++ after) = some (region, after) := by
  cases cs with
  | nil => simp [takeRegion?] at h
  | cons c cs =>
    obtain ⟨hc, hq, read, hr, rfl⟩ := takeRegion?_cons h
    subst hc
    simp [takeRegion?, hq, run_read_append hr]

theorem takeBraces?_read_append {cs region rest : List Char}
    (h : takeBraces? cs = some (region, rest)) (after : List Char) :
    takeBraces? (region ++ after) = some (region, after) :=
  takeRegion?_read_append h after

theorem run_string {quote : Char} (ht : quote ≠ '\x60') (hb : quote ≠ '\\') {cs : List Char}
    (hq : quote ∉ cs) (he : '\\' ∉ cs) :
    run [.string quote false] (cs ++ [quote]) = some (cs ++ [quote], []) := by
  induction cs with
  | nil => simp [run, step, hb]
  | cons c cs ih =>
    have hc : c ≠ quote := fun h => hq (h ▸ List.mem_cons_self)
    have hs : c ≠ '\\' := fun h => he (h ▸ List.mem_cons_self)
    have hi := ih (fun h => hq (List.mem_cons_of_mem c h)) (fun h => he (List.mem_cons_of_mem c h))
    have hk : (quote == '\x60') = false := beq_eq_false_iff_ne.mpr ht
    simp [run, step, hc, hs, hk, hi]

/-- A string without its quote and without escapes inside ends at its last character. -/
theorem takeString?_quoted {quote : Char} (ht : quote ≠ '\x60') (hb : quote ≠ '\\')
    {cs : List Char} (hq : quote ∉ cs) (he : '\\' ∉ cs) :
    takeString? (quote :: cs ++ [quote]) = some (quote :: cs ++ [quote], []) := by
  simp [takeString?, run_string ht hb hq he]

theorem takeString?_eq_cons {c : Char} {tail literal rest : List Char}
    (h : takeString? (c :: tail) = some (literal, rest)) : ∃ read, literal = c :: read := by
  obtain ⟨⟨read, rest'⟩, _, he⟩ := Option.map_eq_some_iff.mp h
  cases he
  exact ⟨read, rfl⟩

theorem takeTemplate?_eq_cons {cs literal rest : List Char}
    (h : takeTemplate? cs = some (literal, rest)) : ∃ read, literal = '\x60' :: read := by
  unfold takeTemplate? at h
  split at h
  next => exact takeString?_eq_cons h
  next => cases h

theorem takeTemplate?_read_append {cs literal rest : List Char}
    (h : takeTemplate? cs = some (literal, rest)) (after : List Char) :
    takeTemplate? (literal ++ after) = some (literal, after) := by
  obtain ⟨read, rfl⟩ := takeTemplate?_eq_cons h
  exact takeString?_read_append (takeTemplate?_eq_takeString? h) after

/-- A region in braces starts with its brace. -/
theorem takeBraces?_eq_cons {cs region rest : List Char}
    (h : takeBraces? cs = some (region, rest)) : ∃ read, region = '{' :: read := by
  cases cs with
  | nil => simp [takeBraces?, takeRegion?] at h
  | cons c cs =>
    obtain ⟨hc, _, read, _, rfl⟩ := takeRegion?_cons h
    exact ⟨read, by rw [hc]⟩

/-- The character that ends a frame. -/
def Frame.closer : Frame → Char
  | .string quote _ => quote
  | .escaped quote => quote
  | .region _ closing _ => closing

/-- The character that empties a stack: the one that ends the frame at its bottom. -/
def closer? (frames : List Frame) : Option Char := frames.getLast?.map Frame.closer

/-- A step empties the stack by its last character, or leaves the bottom of the stack as it is. -/
theorem step_closer? (frame : Frame) (frames : List Frame) (c : Char) :
    (step (frame :: frames) c = [] ∧ closer? (frame :: frames) = some c) ∨
      (step (frame :: frames) c ≠ [] ∧
        closer? (step (frame :: frames) c) = closer? (frame :: frames)) := by
  have hkeep : ∀ frame' : Frame, frame'.closer = frame.closer →
      closer? (frame' :: frames) = closer? (frame :: frames) := by
    intro frame' he
    cases frames with
    | nil => simp [closer?, he]
    | cons next frames => simp [closer?]
  have hpop : frame.closer = c → (frames = [] ∧ closer? (frame :: frames) = some c) ∨
      (frames ≠ [] ∧ closer? frames = closer? (frame :: frames)) := by
    intro he
    cases frames with
    | nil => exact Or.inl ⟨rfl, by simp [closer?, he]⟩
    | cons next frames => exact Or.inr ⟨by simp, by simp [closer?]⟩
  cases frame with
  | string quote dollar =>
    simp only [step]
    split
    next => exact Or.inr ⟨by simp, hkeep _ rfl⟩
    next =>
      split
      next => exact Or.inr ⟨by simp, by rw [← hkeep (.string quote false) rfl]; simp [closer?]⟩
      next =>
        split
        next he => exact hpop (eq_of_beq he).symm
        next => exact Or.inr ⟨by simp, hkeep _ rfl⟩
  | escaped quote => exact Or.inr ⟨by simp [step], hkeep _ rfl⟩
  | region opening closing depth =>
    simp only [step]
    split
    next => exact Or.inr ⟨by simp, by simp [closer?]⟩
    next =>
      split
      next => exact Or.inr ⟨by simp, hkeep _ rfl⟩
      next =>
        split
        next he =>
          cases depth with
          | zero => exact hpop (eq_of_beq he).symm
          | succ depth => exact Or.inr ⟨by simp, hkeep _ rfl⟩
        next => exact Or.inr ⟨by simp, hkeep _ rfl⟩

/-- What is read ends with the character that empties the stack. -/
theorem run_getLast? {frames : List Frame} {cs read rest : List Char} (hf : frames ≠ [])
    (h : run frames cs = some (read, rest)) : read.getLast? = closer? frames := by
  induction cs generalizing frames read with
  | nil =>
    obtain ⟨frame, frames, rfl⟩ := List.exists_cons_of_ne_nil hf
    simp [run] at h
  | cons c cs ih =>
    obtain ⟨frame, frames, rfl⟩ := List.exists_cons_of_ne_nil hf
    obtain ⟨⟨read', rest'⟩, hr, he⟩ := Option.map_eq_some_iff.mp h
    cases he
    rcases step_closer? frame frames c with ⟨hs, hc⟩ | ⟨hs, hc⟩
    · have hread : read' = [] := by simpa [hs, run] using (congrArg (·.map (·.1)) hr).symm
      rw [hread, hc]
      rfl
    · have hi := ih hs hr
      have hne : read' ≠ [] := by
        rintro rfl
        obtain ⟨next, stack, hn⟩ := List.exists_cons_of_ne_nil hs
        rw [hn, closer?, List.getLast?_eq_some_getLast (List.cons_ne_nil next stack)] at hi
        cases hi
      obtain ⟨d, read', rfl⟩ := List.exists_cons_of_ne_nil hne
      rw [List.getLast?_cons_cons, hi, hc]

/-- A stack that a text does not empty is not emptied later either without its last character. -/
theorem run_append_eq_none {frames : List Frame} {cs : List Char} (h : run frames cs = none)
    {after : List Char} (ha : ∀ c ∈ after, closer? frames ≠ some c) :
    run frames (cs ++ after) = none := by
  have hf : frames ≠ [] := by
    rintro rfl
    simp [run] at h
  cases hr : run frames (cs ++ after) with
  | none => rfl
  | some found =>
    obtain ⟨read, rest⟩ := found
    have hlast := run_getLast? hf hr
    rcases List.append_eq_append_iff.mp (run_append hr) with ⟨more, hm, he⟩ | ⟨more, hm, he⟩
    · -- the end of what is read lies in the second text
      cases more with
      | nil =>
        rw [List.append_nil] at hm
        subst hm
        have hw := run_read_append hr []
        rw [List.append_nil, h] at hw
        cases hw
      | cons c more =>
        have hend := List.getLast?_eq_some_getLast (List.cons_ne_nil c more)
        have hmem : (c :: more).getLast (by simp) ∈ after := by
          rw [he]
          exact List.mem_append_left _ (List.getLast_mem _)
        refine absurd ?_ (ha _ hmem)
        rw [← hlast, hm, List.getLast?_append, hend, Option.some_or]
    · have hw := run_read_append hr more
      rw [← hm, h] at hw
      cases hw

/-- A string without an end has none either if its quote does not follow. -/
theorem takeString?_append_eq_none {quote : Char} {tail after : List Char}
    (h : takeString? (quote :: tail) = none) (ha : quote ∉ after) :
    takeString? (quote :: (tail ++ after)) = none := by
  have hr : run [.string quote false] tail = none := Option.map_eq_none_iff.mp h
  have hc : ∀ c ∈ after, closer? [.string quote false] ≠ some c := by
    intro c hm he
    cases he
    exact ha hm
  rw [takeString?, run_append_eq_none hr hc]
  rfl

/-- A region in braces ends with its brace. -/
theorem takeBraces?_eq_concat {cs region rest : List Char}
    (h : takeBraces? cs = some (region, rest)) : ∃ inner, region = '{' :: inner ++ ['}'] := by
  cases cs with
  | nil => simp [takeBraces?, takeRegion?] at h
  | cons c cs =>
    obtain ⟨rfl, _, read, hr, rfl⟩ := takeRegion?_cons h
    have hl := run_getLast? (by simp) hr
    obtain ⟨inner, rfl⟩ := List.getLast?_eq_some_iff.mp hl
    exact ⟨inner, rfl⟩

theorem takeBraces?_of_head {cs : List Char} (h : cs.head? ≠ some '{') : takeBraces? cs = none := by
  cases cs with
  | nil => rfl
  | cons c cs =>
    have hc : c ≠ '{' := by simpa using h
    simp [takeBraces?, takeRegion?, hc]

section

variable {c : Char} {tail region rest : List Char}

/-- A character opens no interpolation unless it is a dollar sign before a brace. -/
theorem interpolations_of_head (h : c = '$' → tail.head? ≠ some '{') :
    interpolations (c :: tail) = interpolations tail := by
  rw [interpolations.eq_def]
  simp only
  split
  next hc =>
    have hhead := h (eq_of_beq hc)
    split
    next ht =>
      rw [takeBraces?_of_head hhead] at ht
      cases ht
    next => rw [if_neg (by simpa using hhead)]
  next => rfl

theorem interpolations_of_region (h : takeBraces? tail = some (region, rest)) :
    interpolations ('$' :: tail) = ('$' :: region) :: interpolations rest := by
  rw [interpolations.eq_def]
  simp only [beq_self_eq_true, if_true]
  split
  next ht =>
    rw [h] at ht
    cases ht
    rfl
  next ht =>
    rw [h] at ht
    cases ht

theorem interpolations_of_open (h : takeBraces? tail = none) (hb : tail.head? = some '{') :
    interpolations ('$' :: tail) = [] := by
  rw [interpolations.eq_def]
  simp only [beq_self_eq_true, if_true]
  split
  next ht =>
    rw [h] at ht
    cases ht
  next => rw [hb, if_pos (beq_self_eq_true _)]

end

end Restyle.Scan
