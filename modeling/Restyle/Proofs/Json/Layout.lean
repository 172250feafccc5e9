import Restyle.Json.Printer
import Restyle.Proofs.Number.Text
import Restyle.Proofs.Scan.Keeps

namespace Restyle

namespace Json

/-- The characters that open and close nothing and break no line. -/
def isPlain (c : Char) : Bool := Scan.isMild c && c != '\n'

theorem isPlain_of_isNumeric {c : Char} (h : isNumeric c = true) : isPlain c = true := by
  refine forall_isNumeric (p := (isPlain · = true)) (fun c hc => ?_) (by decide) h
  have hne : ∀ d : Char, d.isDigit = false → c ≠ d := by
    rintro d hd rfl
    rw [hd] at hc
    cases hc
  simp [isPlain, Scan.isMild, Scan.isQuote, hne '\x27' rfl, hne '\x22' rfl, hne '\x60' rfl,
    hne '{' rfl, hne '}' rfl, hne '\n' rfl]

theorem isPlain_of_mem_renderDouble (x : Double) :
    ∀ c ∈ (renderDouble x).toList, isPlain c = true := by
  cases x with
  | undefined => exact List.all_eq_true.mp (by decide)
  | infinite negative =>
    apply List.all_eq_true.mp
    cases negative <;> decide
  | finite negative mantissa exponent =>
    have htext : renderDouble (.finite negative mantissa exponent) =
        String.ofList (Double.finite negative mantissa exponent).text := rfl
    rw [htext, String.toList_ofList]
    exact fun c hc => isPlain_of_isNumeric (Double.isNumeric_of_mem_text _ c hc)

/-- A text with the blanks of some levels more after each line break. -/
def indented (levels : Nat) (text : List Char) : List Char :=
  text.flatMap fun c => if c == '\n' then '\n' :: List.replicate (2 * levels) ' ' else [c]

theorem indented_of_not_mem {levels : Nat} {text : List Char} (h : '\n' ∉ text) :
    indented levels text = text := by
  induction text with
  | nil => rfl
  | cons c text ih =>
    have hc : c ≠ '\n' := fun he => h (he ▸ List.mem_cons_self)
    have hrest := ih fun hm => h (List.mem_cons_of_mem c hm)
    rw [indented] at hrest ⊢
    rw [List.flatMap_cons, hrest]
    simp [hc]

/-- A text that can stand in a region, and what it is some levels deeper. -/
structure IsLaidOut (levels : Nat) (text deeper : List Char) : Prop where
  keeps : Scan.Keeps text
  indented : indented levels text = deeper

namespace IsLaidOut

variable {levels : Nat} {text deeper : List Char}

theorem append {after after' : List Char} (h : IsLaidOut levels text deeper)
    (ha : IsLaidOut levels after after') : IsLaidOut levels (text ++ after) (deeper ++ after') := by
  refine ⟨h.keeps.append ha.keeps, ?_⟩
  rw [← h.indented, ← ha.indented]
  exact List.flatMap_append

theorem plain (h : ∀ c ∈ text, isPlain c = true) : IsLaidOut levels text text := by
  have hboth : ∀ c ∈ text, Scan.isMild c = true ∧ c ≠ '\n' := fun c hc => by
    simpa [isPlain] using h c hc
  exact ⟨Scan.keeps_of_isMild fun c hc => (hboth c hc).1,
    indented_of_not_mem fun hm => (hboth _ hm).2 rfl⟩

theorem literal (h : text.all isPlain = true) : IsLaidOut levels text text :=
  plain (List.all_eq_true.mp h)

theorem braces (h : IsLaidOut levels text deeper) :
    IsLaidOut levels ('{' :: text ++ ['}']) ('{' :: deeper ++ ['}']) := by
  refine ⟨h.keeps.braces, ?_⟩
  rw [← h.indented]
  simp [Json.indented]

theorem brackets (h : IsLaidOut levels text deeper) :
    IsLaidOut levels ('[' :: text ++ [']']) ('[' :: deeper ++ [']']) := by
  have hopen : IsLaidOut levels ['['] ['['] := literal (by decide)
  have hclose : IsLaidOut levels [']'] [']'] := literal (by decide)
  exact (hopen.append h).append hclose

end IsLaidOut

theorem isLaidOut_lineBreak (levels level : Nat) :
    IsLaidOut levels (lineBreak level).toList (lineBreak (level + levels)).toList := by
  have hblanks : ∀ n, '\n' ∉ List.replicate n ' ' := fun n h =>
    absurd (List.mem_replicate.mp h).2 (by decide)
  rw [lineBreak, lineBreak, String.toList_ofList, String.toList_ofList]
  constructor
  · refine Scan.keeps_of_isMild (List.forall_mem_cons.mpr ⟨rfl, fun c hc => ?_⟩)
    rw [(List.mem_replicate.mp hc).2]
    rfl
  · have hrest : indented levels (List.replicate (2 * level) ' ') = List.replicate (2 * level) ' ' :=
      indented_of_not_mem (hblanks (2 * level))
    rw [indented] at hrest ⊢
    rw [List.flatMap_cons, hrest]
    simp only [beq_self_eq_true, if_true, List.cons_append, List.replicate_append_replicate]
    congr 2
    omega

/-- The hexadecimal digits of a control character. -/
theorem hexPadded_control {n : Nat} (h : n < 32) :
    ∀ c ∈ Text.hexPadded 4 n, c ≠ '\\' ∧ c ≠ '\x22' ∧ c ≠ '\n' := by
  have hall : ∀ n < 32,
      (Text.hexPadded 4 n).all (fun c => c ≠ '\\' ∧ c ≠ '\x22' ∧ c ≠ '\n') = true := by
    decide +kernel
  intro c hc
  exact of_decide_eq_true (List.all_eq_true.mp (hall n h) c hc)

theorem step_quoted {c : Char} (he : c ≠ '\\') (hq : c ≠ '\x22') (frames : List Scan.Frame) :
    Scan.step (.string '\x22' false :: frames) c = .string '\x22' false :: frames := by
  simp [Scan.step, he, hq]

theorem foldl_quoted {text : List Char} (h : ∀ c ∈ text, c ≠ '\\' ∧ c ≠ '\x22')
    (frames : List Scan.Frame) :
    text.foldl Scan.step (.string '\x22' false :: frames) = .string '\x22' false :: frames := by
  induction text with
  | nil => rfl
  | cons c text ih =>
    obtain ⟨⟨he, hq⟩, ht⟩ := List.forall_mem_cons.mp h
    rw [List.foldl_cons, step_quoted he hq]
    exact ih ht

/-- An escaped character stays inside of its string and on its line. -/
theorem escapeChar_stays (c : Char) (frames : List Scan.Frame) :
    (escapeChar c).foldl Scan.step (.string '\x22' false :: frames) =
      .string '\x22' false :: frames ∧ '\n' ∉ escapeChar c := by
  unfold escapeChar
  split
  next hc =>
    have hne : c ≠ '\n' := by
      rintro rfl
      cases hc
    exact ⟨rfl, by simp [hne.symm]⟩
  next hc =>
    simp only [Bool.or_eq_true, beq_iff_eq, not_or] at hc
    split
    next => exact ⟨rfl, by decide⟩
    next hn =>
    split
    next => exact ⟨rfl, by decide⟩
    next =>
    split
    next => exact ⟨rfl, by decide⟩
    next =>
    split
    next => exact ⟨rfl, by decide⟩
    next =>
    split
    next => exact ⟨rfl, by decide⟩
    next =>
    split
    next hlow =>
      have hhex := hexPadded_control hlow
      constructor
      · exact foldl_quoted (fun d hd => ⟨(hhex d hd).1, (hhex d hd).2.1⟩) frames
      · simp only [List.mem_cons, not_or]
        exact ⟨by decide, by decide, fun hm => (hhex '\n' hm).2.2 rfl⟩
    next =>
      have hne : '\n' ≠ c := fun he => hn (by rw [← he]; rfl)
      exact ⟨step_quoted hc.2 hc.1 frames, by simp [hne]⟩

theorem isLaidOut_renderText (levels : Nat) (s : String) :
    IsLaidOut levels (renderText s).toList (renderText s).toList := by
  have hinside : ∀ (cs : List Char) (frames : List Scan.Frame),
      (cs.flatMap escapeChar).foldl Scan.step (.string '\x22' false :: frames) =
        .string '\x22' false :: frames := by
    intro cs frames
    induction cs with
    | nil => rfl
    | cons c cs ih => rw [List.flatMap_cons, List.foldl_append, (escapeChar_stays c frames).1, ih]
  rw [renderText, String.toList_ofList]
  constructor
  · intro depth
    have hopen : Scan.step [.region '{' '}' depth] '\x22' =
        [.string '\x22' false, .region '{' '}' depth] := rfl
    rw [List.cons_append, List.foldl_cons, hopen, List.foldl_append, hinside]
    rfl
  · refine indented_of_not_mem fun hm => ?_
    simp only [List.cons_append, List.mem_cons, List.mem_append, List.mem_flatMap, List.not_mem_nil,
      or_false] at hm
    rcases hm with he | ⟨c, _, hc⟩ | he
    · cases he
    · exact (escapeChar_stays c []).2 hc
    · cases he

/-- What stands between the braces of an object that starts at a level. -/
def objectInside (level : Nat) : List (String × Json) → List Char
  | [] => []
  | (name, value) :: fields =>
    (lineBreak (level + 1) ++ renderText name ++ ": " ++ renderAt (level + 1) value ++
      renderFields (level + 1) fields ++ lineBreak level).toList

theorem toList_renderAt_object (level : Nat) (fields : List (String × Json)) :
    (renderAt level (.object fields)).toList = '{' :: objectInside level fields ++ ['}'] := by
  cases fields with
  | nil => simp [renderAt, objectInside]
  | cons field fields => simp [renderAt, objectInside]

-- By induction on the value. Its parts stand one level deeper, so the statement is about all levels.
mutual

theorem isLaidOut_renderAt (levels level : Nat) : ∀ value : Json,
    IsLaidOut levels (renderAt level value).toList (renderAt (level + levels) value).toList
  | .null => by
    simp only [renderAt]
    exact .literal (by decide)
  | .bool true => by
    simp only [renderAt]
    exact .literal (by decide)
  | .bool false => by
    simp only [renderAt]
    exact .literal (by decide)
  | .whole n => by
    simp only [renderAt]
    exact .plain fun c hc => isPlain_of_isNumeric (isNumeric_of_mem_toString_int n c hc)
  | .double x => by
    simp only [renderAt]
    exact .plain (isPlain_of_mem_renderDouble x)
  | .text s => by
    simp only [renderAt]
    exact isLaidOut_renderText levels s
  | .list [] => by
    simp only [renderAt]
    exact .literal (by decide)
  | .list (item :: items) => by
    have hinside := (((isLaidOut_lineBreak levels (level + 1)).append
      (isLaidOut_renderAt levels (level + 1) item)).append
      (isLaidOut_renderItems levels (level + 1) items)).append (isLaidOut_lineBreak levels level)
    simpa [renderAt, Nat.add_right_comm level levels 1] using hinside.brackets
  | .object fields => by
    rw [toList_renderAt_object, toList_renderAt_object]
    exact (isLaidOut_objectInside levels level fields).braces

theorem isLaidOut_renderItems (levels level : Nat) : ∀ items : List Json,
    IsLaidOut levels (renderItems level items).toList (renderItems (level + levels) items).toList
  | [] => by
    simp only [renderItems]
    exact .literal (by decide)
  | item :: items => by
    simp only [renderItems, String.toList_append]
    exact (((IsLaidOut.literal (by decide)).append (isLaidOut_lineBreak levels level)).append
      (isLaidOut_renderAt levels level item)).append (isLaidOut_renderItems levels level items)

theorem isLaidOut_renderFields (levels level : Nat) : ∀ fields : List (String × Json),
    IsLaidOut levels (renderFields level fields).toList
      (renderFields (level + levels) fields).toList
  | [] => by
    simp only [renderFields]
    exact .literal (by decide)
  | (name, value) :: fields => by
    simp only [renderFields, String.toList_append]
    exact (((((IsLaidOut.literal (by decide)).append (isLaidOut_lineBreak levels level)).append
      (isLaidOut_renderText levels name)).append (.literal (by decide))).append
      (isLaidOut_renderAt levels level value)).append (isLaidOut_renderFields levels level fields)

theorem isLaidOut_objectInside (levels level : Nat) : ∀ fields : List (String × Json),
    IsLaidOut levels (objectInside level fields) (objectInside (level + levels) fields)
  | [] => .plain (List.forall_mem_nil _)
  | (name, value) :: fields => by
    simp only [objectInside, String.toList_append, Nat.add_right_comm level levels 1]
    exact (((((isLaidOut_lineBreak levels (level + 1)).append
      (isLaidOut_renderText levels name)).append (.literal (by decide))).append
      (isLaidOut_renderAt levels (level + 1) value)).append
      (isLaidOut_renderFields levels (level + 1) fields)).append (isLaidOut_lineBreak levels level)

end

end Json

end Restyle
