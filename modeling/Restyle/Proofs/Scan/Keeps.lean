import Restyle.Expression.Classification
import Restyle.Proofs.Scan.Balanced
import Restyle.Proofs.Scan.Comment

namespace Restyle.Scan

/-- A text after which a reader of a region in braces is where it was, at whatever depth. -/
def Keeps (text : List Char) : Prop :=
  ∀ depth, text.foldl step [.region '{' '}' depth] = [.region '{' '}' depth]

variable {text inner : List Char}

theorem step_of_isMild {c : Char} (h : isMild c = true) (depth : Nat) :
    step [.region '{' '}' depth] c = [.region '{' '}' depth] := by
  simp only [isMild, Bool.and_eq_true, Bool.not_eq_true', bne_iff_ne, ne_eq] at h
  obtain ⟨⟨hq, hopen⟩, hclose⟩ := h
  simp [step, hq, hopen, hclose]

theorem keeps_of_isMild (h : ∀ c ∈ text, isMild c = true) : Keeps text := by
  intro depth
  induction text with
  | nil => rfl
  | cons c text ih =>
    obtain ⟨hc, ht⟩ := List.forall_mem_cons.mp h
    rw [List.foldl_cons, step_of_isMild hc]
    exact ih ht

theorem Keeps.append {after : List Char} (h : Keeps text) (ha : Keeps after) :
    Keeps (text ++ after) := by
  intro depth
  rw [List.foldl_append, h, ha]

theorem Keeps.braces (h : Keeps inner) : Keeps ('{' :: inner ++ ['}']) := by
  intro depth
  have hopen : step [.region '{' '}' depth] '{' = [.region '{' '}' (depth + 1)] := rfl
  rw [List.cons_append, List.foldl_cons, hopen, List.foldl_append, h]
  rfl

/-- A reader that a text leaves inside of a region goes on, and the next brace is the end. -/
theorem run_of_foldl {frames : List Frame} (h : inner.foldl step frames = [.region '{' '}' 0])
    (after : List Char) : run frames (inner ++ '}' :: after) = some (inner ++ ['}'], after) := by
  have hne : inner.foldl step frames ≠ [] := by
    rw [h]
    exact List.cons_ne_nil _ _
  rw [run_append_of_eq_none (run_eq_none_iff.mpr hne), h]
  simp [run, step, isQuote]

theorem Keeps.takeBraces? (h : Keeps inner) (after : List Char) :
    takeBraces? ('{' :: inner ++ ['}'] ++ after) = some ('{' :: inner ++ ['}'], after) := by
  have hrun := run_of_foldl (h 0) after
  simp only [List.cons_append, List.append_assoc, List.nil_append] at hrun ⊢
  rw [takeBraces?_cons_brace, hrun]
  rfl

/-- A dollar sign counts only before a brace. -/
theorem foldl_string_dollar {quote : Char} {dollar : Bool} {frames : List Frame} {cs : List Char}
    (hne : cs ≠ []) (h : dollar = true → cs.head? ≠ some '{') :
    cs.foldl step (.string quote dollar :: frames) =
      cs.foldl step (.string quote false :: frames) := by
  cases cs with
  | nil => exact absurd rfl hne
  | cons c cs =>
    have hstep : step (.string quote dollar :: frames) c = step (.string quote false :: frames) c := by
      cases dollar with
      | false => rfl
      | true =>
        have hc : c ≠ '{' := fun he => h rfl (by rw [he]; rfl)
        simp [step, hc]
    rw [List.foldl_cons, List.foldl_cons, hstep]

theorem Fills.ne_nil {context : Context} {cs : List Char} (h : Fills context cs) : cs ≠ [] := by
  cases h <;> exact List.cons_ne_nil _ _

/-- What fills a context leads out of it. -/
theorem Fills.foldl_step {context : Context} {cs : List Char} (h : Fills context cs) (depth : Nat)
    (frames : List Frame) :
    cs.foldl step (context.enter depth frames) = context.leave depth frames := by
  induction h generalizing depth frames with
  | quote hq => simp [Context.enter, Context.leave, step, hq]
  | escape _ ih => exact ih depth frames
  | @letter quote c cs he hq hd h ih =>
    have hnext : cs.foldl step (.string quote (quote == '\x60' && c == '$') :: frames) =
        cs.foldl step (.string quote false :: frames) := by
      refine foldl_string_dollar h.ne_nil fun hdollar => ?_
      obtain ⟨hquote, hc⟩ := Bool.and_eq_true_iff.mp hdollar
      exact hd (eq_of_beq hquote) (eq_of_beq hc)
    have hstep : step (.string quote false :: frames) c =
        .string quote (quote == '\x60' && c == '$') :: frames := by
      simp [step, he, hq]
    rw [Context.enter, List.foldl_cons, hstep, hnext]
    exact ih depth frames
  | @interpolation inner cs _ _ ihi ih =>
    have hi := ihi 0 (.string '\x60' false :: frames)
    rw [List.foldl_append]
    exact (congrArg (cs.foldl step) hi).trans (ih depth frames)
  | closing hq ho =>
    cases depth with
    | zero => simp [Context.enter, Context.leave, step, hq, ho]
    | succ depth => simp [Context.enter, Context.leave, step, hq, ho]
  | @plain opening closing c cs hq ho hc _ ih =>
    have hstep : step (.region opening closing depth :: frames) c =
        .region opening closing depth :: frames := by
      simp [step, hq, ho, hc]
    rw [Context.enter, List.foldl_cons, hstep]
    exact ih depth frames
  | @literal opening closing quote inner cs hq _ _ ihi ih =>
    have hstep : step (.region opening closing depth :: frames) quote =
        .string quote false :: .region opening closing depth :: frames := by
      simp [step, hq]
    have hi := ihi 0 (.region opening closing depth :: frames)
    rw [List.foldl_append, Context.enter, List.foldl_cons, hstep]
    exact (congrArg (cs.foldl step) hi).trans (ih depth frames)
  | @nested opening closing inner cs hq _ _ ihi ih =>
    have hstep : step (.region opening closing depth :: frames) opening =
        .region opening closing (depth + 1) :: frames := by
      simp [step, hq]
    have hi := ihi (depth + 1) frames
    rw [List.foldl_append, Context.enter, List.foldl_cons, hstep]
    exact (congrArg (cs.foldl step) hi).trans (ih depth frames)

/-- What fills a region in braces keeps the reader in it up to the last brace. -/
theorem Fills.keeps_dropLast {cs : List Char} (h : Fills (.region '{' '}') cs) :
    Keeps cs.dropLast := by
  generalize hc : Context.region '{' '}' = context at h
  induction h with
  | quote => cases hc
  | escape => cases hc
  | letter => cases hc
  | interpolation => cases hc
  | closing => exact fun _ => rfl
  | @plain opening closing c cs hq ho hclose h ih =>
    cases hc
    have hmild : ∀ d ∈ [c], isMild d = true := by
      simp [isMild, hq, ho, hclose]
    rw [List.dropLast_cons_of_ne_nil h.ne_nil]
    exact (keeps_of_isMild hmild).append (ih rfl)
  | @literal opening closing quote inner cs hq hi h _ ih =>
    cases hc
    have hstring : Keeps (quote :: inner) := by
      intro depth
      have hstep : step [.region '{' '}' depth] quote =
          [.string quote false, .region '{' '}' depth] := by
        simp [step, hq]
      rw [List.foldl_cons, hstep]
      exact hi.foldl_step 0 [.region '{' '}' depth]
    rw [List.dropLast_append_of_ne_nil h.ne_nil]
    exact hstring.append (ih rfl)
  | @nested opening closing inner cs hq hi h _ ih =>
    cases hc
    have hregion : Keeps ('{' :: inner) := fun depth => hi.foldl_step (depth + 1) []
    rw [List.dropLast_append_of_ne_nil h.ne_nil]
    exact hregion.append (ih rfl)

theorem keeps_inside {region : List Char} (h : takeBraces? region = some (region, [])) :
    Keeps (Expression.inside region) := by
  obtain ⟨-, inner, rfl, -, hfills⟩ := takeRegion?_eq_some_iff.mp h
  exact hfills.keeps_dropLast

/-- Only where a reader is in a region can blanks leave it there. -/
theorem eq_region_of_foldl_blanks {frames : List Frame} {blanks : List Char} {depth : Nat}
    (hf : ∀ frame ∈ frames, frame.isBraced = true) (hb : ∀ c ∈ blanks, Text.isBlank c = true)
    (h : blanks.foldl step frames = [.region '{' '}' depth]) : frames = [.region '{' '}' depth] := by
  induction blanks generalizing frames with
  | nil => exact h
  | cons c blanks ih =>
    obtain ⟨hc, hb⟩ := List.forall_mem_cons.mp hb
    have hcalm := step_eq_calm hf (settling_of_isBlank hc).1 (settling_of_isBlank hc).2
    have hnext := ih (isBraced_step hf c) hb h
    rw [hcalm] at hnext
    cases frames with
    | nil => cases hnext
    | cons frame frames =>
      cases frame with
      | string => cases hnext
      | escaped => cases hnext
      | region => exact hnext

theorem keeps_trim (h : Keeps text) : Keeps (Text.trim text) := by
  obtain ⟨back, hback, hblanks⟩ := Text.exists_trim_append text
  have htext : text = text.takeWhile Text.isBlank ++ (Text.trim text ++ back) := by
    rw [← hback, List.takeWhile_append_dropWhile]
  have hfront : Keeps (text.takeWhile Text.isBlank) := keeps_of_isMild fun c hc =>
    (settling_of_isBlank (List.all_eq_true.mp List.all_takeWhile c hc)).1
  intro depth
  have hd := h depth
  rw [htext, List.foldl_append, hfront depth, List.foldl_append] at hd
  refine eq_region_of_foldl_blanks (isBraced_foldl ?_ _) hblanks hd
  exact List.forall_mem_singleton.mpr rfl

/-- A text in braces. -/
def inBraces (text : List Char) : List Char := '{' :: (text ++ ['}'])

/-- A text that a region in braces can hold. -/
def FitsBraces (text : List Char) : Prop := takeBraces? (inBraces text) = some (inBraces text, [])

instance (text : List Char) : Decidable (FitsBraces text) := inferInstanceAs (Decidable (_ = _))

theorem FitsBraces.keeps (h : FitsBraces text) : Keeps text := by
  have hinside : Expression.inside (inBraces text) = text := List.dropLast_concat
  rw [← hinside]
  exact keeps_inside h

theorem Keeps.fitsBraces (h : Keeps text) : FitsBraces text := by
  simpa [FitsBraces, inBraces] using h.takeBraces? []

/-- A text in double quotes. -/
def inQuotes (text : List Char) : List Char := '\x22' :: (text ++ ['\x22'])

/-- A text that a string in double quotes can hold: the reader of the string is where it was after
it. -/
def FitsQuotes (text : List Char) : Prop :=
  text.foldl step [.string '\x22' false] = [.string '\x22' false]

instance (text : List Char) : Decidable (FitsQuotes text) := inferInstanceAs (Decidable (_ = _))

theorem FitsQuotes.append {after : List Char} (h : FitsQuotes text) (ha : FitsQuotes after) :
    FitsQuotes (text ++ after) := by
  rw [FitsQuotes, List.foldl_append, h, ha]

theorem FitsQuotes.takeString? (h : FitsQuotes text) :
    takeString? (inQuotes text) = some (inQuotes text, []) := by
  have hne : text.foldl step [.string '\x22' false] ≠ [] := by
    rw [h]
    exact List.cons_ne_nil _ _
  rw [inQuotes, Scan.takeString?, run_append_of_eq_none (run_eq_none_iff.mpr hne), h]
  rfl

theorem takeString?_eq_concat {quote : Char} {cs literal rest : List Char}
    (h : takeString? (quote :: cs) = some (literal, rest)) :
    ∃ inner, literal = quote :: (inner ++ [quote]) := by
  obtain ⟨⟨read, rest'⟩, hr, he⟩ := Option.map_eq_some_iff.mp h
  cases he
  obtain ⟨inner, rfl⟩ := List.getLast?_eq_some_iff.mp (run_getLast? (List.cons_ne_nil _ _) hr)
  exact ⟨inner, rfl⟩

/-- What holds of texts and of what stands between them holds of the whole if it does of appended
texts. -/
theorem intercalate_of_append {holds : List Char → Prop} (nil : holds [])
    (append : ∀ text after, holds text → holds after → holds (text ++ after))
    {separator : List Char} (hs : holds separator) {texts : List (List Char)}
    (h : ∀ text ∈ texts, holds text) : holds (separator.intercalate texts) := by
  induction texts with
  | nil => exact nil
  | cons text texts ih =>
    obtain ⟨ht, hrest⟩ := List.forall_mem_cons.mp h
    cases texts with
    | nil => rwa [List.intercalate_singleton]
    | cons next texts =>
      rw [List.intercalate_cons_cons]
      exact append _ _ (append _ _ ht hs) (ih hrest)

theorem flatMap_of_append {holds : List Char → Prop} (nil : holds [])
    (append : ∀ text after, holds text → holds after → holds (text ++ after))
    {α : Type} {f : α → List Char} {xs : List α} (h : ∀ x ∈ xs, holds (f x)) :
    holds (xs.flatMap f) := by
  induction xs with
  | nil => exact nil
  | cons x xs ih =>
    obtain ⟨hx, hxs⟩ := List.forall_mem_cons.mp h
    rw [List.flatMap_cons]
    exact append _ _ hx (ih hxs)

end Restyle.Scan
