import Restyle.Proofs.Scan.Locality

namespace Restyle.Scan

/-- A frame that takes the next character for itself. -/
def Frame.calm : Frame → Frame
  | .string quote _ => .string quote false
  | .escaped quote => .string quote false
  | .region opening closing depth => .region opening closing depth

/-- A stack with a calm frame on top. -/
def calm : List Frame → List Frame
  | [] => []
  | frame :: frames => frame.calm :: frames

/-- The frames that reading a region in braces leads to. -/
def Frame.isBraced : Frame → Bool
  | .string quote _ => isQuote quote
  | .escaped quote => isQuote quote
  | .region opening closing _ => opening == '{' && closing == '}'

/-- The characters that open and close nothing. -/
def isMild (c : Char) : Bool := !isQuote c && c != '{' && c != '}'

/-- The characters that are the same to a calm frame as to any other, and after which it is calm. -/
def isSettling (c : Char) : Bool := !isQuote c && c != '{' && c != '\\' && c != '$'

section

variable {frames : List Frame} {c : Char}

theorem isBraced_step (h : ∀ frame ∈ frames, frame.isBraced = true) (c : Char) :
    ∀ frame ∈ step frames c, frame.isBraced = true := by
  cases frames with
  | nil => exact h
  | cons frame frames =>
    obtain ⟨hf, hs⟩ := List.forall_mem_cons.mp h
    cases frame with
    | escaped quote => exact List.forall_mem_cons.mpr ⟨hf, hs⟩
    | string quote dollar =>
      have hkeep : ∀ dollar, ∀ frame ∈ .string quote dollar :: frames, frame.isBraced = true :=
        fun _ => List.forall_mem_cons.mpr ⟨hf, hs⟩
      simp only [step]
      split
      next => exact List.forall_mem_cons.mpr ⟨hf, hs⟩
      next =>
        split
        next => exact List.forall_mem_cons.mpr ⟨rfl, hkeep false⟩
        next =>
          split
          next => exact hs
          next => exact hkeep _
    | region opening closing depth =>
      have hkeep : ∀ depth, ∀ frame ∈ .region opening closing depth :: frames,
          frame.isBraced = true := fun _ => List.forall_mem_cons.mpr ⟨hf, hs⟩
      simp only [step]
      split
      next hq => exact List.forall_mem_cons.mpr ⟨hq, hkeep depth⟩
      next =>
        split
        next => exact hkeep _
        next =>
          split
          next =>
            cases depth with
            | zero => exact hs
            | succ depth => exact hkeep depth
          next => exact hkeep depth

theorem isBraced_foldl (h : ∀ frame ∈ frames, frame.isBraced = true) (cs : List Char) :
    ∀ frame ∈ cs.foldl step frames, frame.isBraced = true := by
  induction cs generalizing frames with
  | nil => exact h
  | cons c cs ih => exact ih (isBraced_step h c)

/-- A mild character leaves the stack as it is up to what the next character is taken for. -/
theorem calm_step (h : ∀ frame ∈ frames, frame.isBraced = true) (hc : isMild c = true) :
    calm (step frames c) = calm frames := by
  simp only [isMild, Bool.and_eq_true, Bool.not_eq_true', bne_iff_ne, ne_eq] at hc
  obtain ⟨⟨hq, hopen⟩, hclose⟩ := hc
  cases frames with
  | nil => rfl
  | cons frame frames =>
    have hf := h frame List.mem_cons_self
    cases frame with
    | escaped quote => rfl
    | string quote dollar =>
      have hne : c ≠ quote := by
        rintro rfl
        rw [Frame.isBraced, hq] at hf
        cases hf
      simp only [step, beq_iff_eq, hopen, hne, Bool.and_eq_true, and_false, if_false]
      split
      next => rfl
      next => rfl
    | region opening closing depth =>
      simp only [Frame.isBraced, Bool.and_eq_true, beq_iff_eq] at hf
      obtain ⟨rfl, rfl⟩ := hf
      simp [step, hq, hopen, hclose]

/-- A settling character does the same to a calm frame. -/
theorem step_calm (h : ∀ frame ∈ frames, frame.isBraced = true) (hc : isSettling c = true) :
    step (calm frames) c = step frames c := by
  simp only [isSettling, Bool.and_eq_true, Bool.not_eq_true', bne_iff_ne, ne_eq] at hc
  obtain ⟨⟨⟨hq, hopen⟩, hescape⟩, hdollar⟩ := hc
  cases frames with
  | nil => rfl
  | cons frame frames =>
    have hf := h frame List.mem_cons_self
    cases frame with
    | region opening closing depth => rfl
    | escaped quote =>
      have hne : c ≠ quote := by
        rintro rfl
        rw [Frame.isBraced, hq] at hf
        cases hf
      simp [calm, Frame.calm, step, hescape, hne, hdollar]
    | string quote dollar => simp [calm, Frame.calm, step, hopen]

theorem step_eq_calm (h : ∀ frame ∈ frames, frame.isBraced = true) (hm : isMild c = true)
    (hs : isSettling c = true) : step frames c = calm frames := by
  have hcalm : calm (step frames c) = step frames c := by
    simp only [isMild, Bool.and_eq_true, Bool.not_eq_true', bne_iff_ne, ne_eq] at hm
    simp only [isSettling, Bool.and_eq_true, Bool.not_eq_true', bne_iff_ne, ne_eq] at hs
    obtain ⟨⟨⟨hq, hopen⟩, hescape⟩, hdollar⟩ := hs
    cases frames with
    | nil => rfl
    | cons frame frames =>
      have hf := h frame List.mem_cons_self
      cases frame with
      | escaped quote => rfl
      | string quote dollar =>
        have hne : c ≠ quote := by
          rintro rfl
          rw [Frame.isBraced, hq] at hf
          cases hf
        simp [calm, Frame.calm, step, hescape, hopen, hne, hdollar]
      | region opening closing depth =>
        simp only [Frame.isBraced, Bool.and_eq_true, beq_iff_eq] at hf
        obtain ⟨rfl, rfl⟩ := hf
        simp [calm, Frame.calm, step, hq, hopen, hm.2]
  rw [← hcalm, calm_step h hm]

theorem calm_foldl (h : ∀ frame ∈ frames, frame.isBraced = true) {cs : List Char}
    (hc : ∀ c ∈ cs, isMild c = true) : calm (cs.foldl step frames) = calm frames := by
  induction cs generalizing frames with
  | nil => rfl
  | cons c cs ih =>
    obtain ⟨hm, hs⟩ := List.forall_mem_cons.mp hc
    exact (ih (isBraced_step h c) hs).trans (calm_step h hm)

end

/-- A text without quotes and braces, at the end of which nothing hangs on the next character. -/
structure IsMildText (text : List Char) : Prop where
  mild : ∀ c ∈ text, isMild c = true
  settles : ∃ front c, text = front ++ [c] ∧ isSettling c = true

theorem IsMildText.foldl_step {text : List Char} (h : IsMildText text) {frames : List Frame}
    (hf : ∀ frame ∈ frames, frame.isBraced = true) : text.foldl step frames = calm frames := by
  obtain ⟨front, c, rfl, hs⟩ := h.settles
  have hm := h.mild
  rw [List.foldl_append, List.foldl_cons, List.foldl_nil,
    step_eq_calm (isBraced_foldl hf front) (hm c (by simp)) hs,
    calm_foldl hf fun d hd => hm d (List.mem_append_left _ hd)]

section

variable {frames : List Frame}

theorem foldl_step_nil (cs : List Char) : cs.foldl step [] = [] := by
  induction cs with
  | nil => rfl
  | cons c cs ih => exact ih

/-- The reader is not done exactly as long as its stack is not empty. -/
theorem run_eq_none_iff {cs : List Char} : run frames cs = none ↔ cs.foldl step frames ≠ [] := by
  induction cs generalizing frames with
  | nil =>
    cases frames with
    | nil => simp [run]
    | cons frame frames => simp [run]
  | cons c cs ih =>
    cases frames with
    | nil => simp [run, step, foldl_step_nil]
    | cons frame frames => rw [run, Option.map_eq_none_iff, ih, List.foldl_cons]

/-- A reader that is not done with a text goes on with the next one. -/
theorem run_append_of_eq_none {cs : List Char} (h : run frames cs = none) (after : List Char) :
    run frames (cs ++ after) =
      (run (cs.foldl step frames) after).map fun (read, rest) => (cs ++ read, rest) := by
  induction cs generalizing frames with
  | nil => simp
  | cons c cs ih =>
    cases frames with
    | nil => simp [run] at h
    | cons frame frames =>
      have hr : run (step (frame :: frames) c) cs = none := Option.map_eq_none_iff.mp h
      rw [List.cons_append, run, ih hr, List.foldl_cons, Option.map_map]
      rfl

/-- A calm stack reads the same after a settling character. -/
theorem run_calm (h : ∀ frame ∈ frames, frame.isBraced = true) {cs : List Char}
    (hc : ∃ c ∈ cs.head?, isSettling c = true) : run (calm frames) cs = run frames cs := by
  obtain ⟨c, hhead, hs⟩ := hc
  obtain ⟨tail, rfl⟩ := List.head?_eq_some_iff.mp hhead
  have hstep := step_calm h hs
  cases frames with
  | nil => rfl
  | cons frame frames =>
    rw [calm] at hstep ⊢
    rw [run, run, hstep]

end

theorem takeBraces?_cons_brace (cs : List Char) : takeBraces? ('{' :: cs) =
    (run [.region '{' '}' 0] cs).map fun (read, rest) => ('{' :: read, rest) := by
  simp [takeBraces?, takeRegion?, isQuote]

theorem calm_calm (frames : List Frame) : calm (calm frames) = calm frames := by
  cases frames with
  | nil => rfl
  | cons frame frames =>
    cases frame with
    | string quote dollar => rfl
    | escaped quote => rfl
    | region opening closing depth => rfl

/-- A scan that reads more than a text does not end in it. -/
theorem run_eq_none_of_append {frames : List Frame} {left cs read rest : List Char}
    (h : run frames (left ++ cs) = some (left ++ read, rest)) (hne : read ≠ []) :
    run frames left = none := by
  cases hl : run frames left with
  | none => rfl
  | some found =>
    obtain ⟨front, back⟩ := found
    have hagain := run_read_append hl (back ++ cs)
    rw [← List.append_assoc, ← run_append hl, h] at hagain
    have hlength := congrArg List.length (run_append hl)
    have hsame := congrArg List.length (Prod.mk.inj (Option.some.inj hagain)).1
    have hpos := List.length_pos_iff.mpr hne
    simp only [List.length_append] at hlength hsame
    omega

theorem isBraced_brace : ∀ frame ∈ [Frame.region '{' '}' 0], frame.isBraced = true := by
  simp [Frame.isBraced]

/-- At a settling character, a region goes on as if it were calm. -/
theorem run_calm_foldl {left cs : List Char}
    (hb : (∀ c ∈ left.getLast?, isMild c = true ∧ isSettling c = true) ∨
      ∃ c ∈ cs.head?, isSettling c = true) :
    run (calm (left.foldl step [.region '{' '}' 0])) cs =
      run (left.foldl step [.region '{' '}' 0]) cs := by
  rcases hb with hb | hb
  · rcases List.eq_nil_or_concat left with rfl | ⟨front, c, rfl⟩
    · rfl
    · obtain ⟨hm, hs⟩ := hb c (by simp)
      rw [List.concat_eq_append, List.foldl_append, List.foldl_cons, List.foldl_nil,
        step_eq_calm (isBraced_foldl isBraced_brace front) hm hs, calm_calm]
  · exact run_calm (isBraced_foldl isBraced_brace left) hb

/-- A mild text can be put into a region after or before a settling character. -/
theorem takeBraces?_insert {cs left right text rest : List Char}
    (h : takeBraces? cs = some ('{' :: (left ++ right) ++ ['}'], rest)) (ht : IsMildText text)
    (hb : (∀ c ∈ left.getLast?, isMild c = true ∧ isSettling c = true) ∨
      ∀ c ∈ right.head?, isSettling c = true) (after : List Char) :
    takeBraces? ('{' :: (left ++ text ++ right) ++ ['}'] ++ after) =
      some ('{' :: (left ++ text ++ right) ++ ['}'], after) := by
  have hread : run [.region '{' '}' 0] (left ++ (right ++ '}' :: after)) =
      some (left ++ (right ++ ['}']), after) := by
    have hwhole := takeBraces?_read_append h after
    simp only [List.cons_append, List.append_assoc, List.nil_append] at hwhole
    rw [takeBraces?_cons_brace] at hwhole
    obtain ⟨⟨read, rest'⟩, hr, he⟩ := Option.map_eq_some_iff.mp hwhole
    cases he
    exact hr
  have hnone := run_eq_none_of_append hread (by simp)
  have hstack := isBraced_foldl isBraced_brace left
  rw [run_append_of_eq_none hnone] at hread
  obtain ⟨⟨read, rest'⟩, hright, he⟩ := Option.map_eq_some_iff.mp hread
  obtain ⟨hl, rfl⟩ := Prod.mk.inj he
  cases List.append_cancel_left hl
  -- the text leaves a calm stack, which goes on like the stack before it
  have hcalm : run (calm (left.foldl step [.region '{' '}' 0])) (right ++ '}' :: rest') =
      some (right ++ ['}'], rest') := by
    rw [← hright]
    refine run_calm_foldl (hb.imp_right fun hhead => ?_)
    cases right with
    | nil => exact ⟨'}', rfl, rfl⟩
    | cons c right => exact ⟨c, rfl, hhead c rfl⟩
  have htext : run (left.foldl step [.region '{' '}' 0]) text = none := by
    rw [run_eq_none_iff, ht.foldl_step hstack]
    have hne := run_eq_none_iff.mp hnone
    obtain ⟨frame, frames, hf⟩ := List.exists_cons_of_ne_nil hne
    rw [hf, calm]
    exact List.cons_ne_nil _ _
  simp only [List.cons_append, List.append_assoc, List.nil_append]
  rw [takeBraces?_cons_brace, run_append_of_eq_none hnone, run_append_of_eq_none htext,
    ht.foldl_step hstack, hcalm]
  rfl

end Restyle.Scan
