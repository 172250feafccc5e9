import Restyle.Proofs.Scan.Locality
import Restyle.Scan.Offset

namespace Restyle.Scan

/-- What a place is inside of: a string up to its quote, or a region up to its closing bracket. -/
inductive Context where
  | string (quote : Char)
  | region (opening closing : Char)

/-- What can stand in a context up to its end, the mark of the end included. -/
inductive Fills : Context → List Char → Prop where
  | quote {quote : Char} (hq : quote ≠ '\\') : Fills (.string quote) [quote]
  | escape {quote c : Char} {cs : List Char} (h : Fills (.string quote) cs) :
      Fills (.string quote) ('\\' :: c :: cs)
  | letter {quote c : Char} {cs : List Char} (he : c ≠ '\\') (hq : c ≠ quote)
      (hd : quote = '\x60' → c = '$' → cs.head? ≠ some '{') (h : Fills (.string quote) cs) :
      Fills (.string quote) (c :: cs)
  | interpolation {inner cs : List Char} (hi : Fills (.region '{' '}') inner)
      (h : Fills (.string '\x60') cs) : Fills (.string '\x60') ('$' :: '{' :: inner ++ cs)
  | closing {opening closing : Char} (hq : isQuote closing = false) (ho : closing ≠ opening) :
      Fills (.region opening closing) [closing]
  | plain {opening closing c : Char} {cs : List Char} (hq : isQuote c = false) (ho : c ≠ opening)
      (hc : c ≠ closing) (h : Fills (.region opening closing) cs) :
      Fills (.region opening closing) (c :: cs)
  | literal {opening closing quote : Char} {inner cs : List Char} (hq : isQuote quote = true)
      (hi : Fills (.string quote) inner) (h : Fills (.region opening closing) cs) :
      Fills (.region opening closing) (quote :: inner ++ cs)
  | nested {opening closing : Char} {inner cs : List Char} (hq : isQuote opening = false)
      (hi : Fills (.region opening closing) inner) (h : Fills (.region opening closing) cs) :
      Fills (.region opening closing) (opening :: inner ++ cs)

/-- A region from its opening to the closing that matches it. -/
def IsRegion (opening closing : Char) (region : List Char) : Prop :=
  ∃ inner, region = opening :: inner ∧ isQuote opening = false ∧
    Fills (.region opening closing) inner

namespace Context

variable (depth : Nat) (frames : List Frame)

/-- The stack in a context, with so many regions open around it that share its frame. -/
def enter : Context → List Frame
  | .string quote => .string quote false :: frames
  | .region opening closing => .region opening closing depth :: frames

/-- The stack after the end of the context. -/
def leave : Context → List Frame
  | .string _ => frames
  | .region opening closing =>
    match depth with
    | 0 => frames
    | depth + 1 => .region opening closing depth :: frames

end Context

section

variable {frames : List Frame} {c : Char} {cs : List Char}

theorem run_cons_eq_some {frame : Frame} {read rest : List Char}
    (h : run (frame :: frames) cs = some (read, rest)) :
    ∃ c tail read', cs = c :: tail ∧ read = c :: read' ∧
      run (step (frame :: frames) c) tail = some (read', rest) := by
  cases cs with
  | nil => cases h
  | cons c tail =>
    obtain ⟨⟨read', rest'⟩, hr, he⟩ := Option.map_eq_some_iff.mp h
    cases he
    exact ⟨c, tail, read', rfl, rfl, hr⟩

/-- A dollar sign counts only before a brace. -/
theorem run_string_dollar {quote : Char} {dollar : Bool}
    (h : dollar = true → cs.head? ≠ some '{') :
    run (.string quote dollar :: frames) cs = run (.string quote false :: frames) cs := by
  cases dollar with
  | false => rfl
  | true =>
    cases cs with
    | nil => rfl
    | cons c cs =>
      have hc : c ≠ '{' := fun he => h rfl (by rw [he]; rfl)
      simp [run, step, hc]

end

theorem Fills.head?_append {context : Context} {cs : List Char} (h : Fills context cs)
    (after : List Char) : (cs ++ after).head? = cs.head? := by
  cases h <;> rfl

/-- What fills a context is read up to the end of the context, whatever follows. -/
theorem Fills.run_append {context : Context} {cs : List Char} (h : Fills context cs)
    (depth : Nat) (frames : List Frame) (after : List Char) :
    run (context.enter depth frames) (cs ++ after) =
      (run (context.leave depth frames) after).map fun (read, rest) => (cs ++ read, rest) := by
  induction h generalizing depth frames after with
  | quote hq => simp [Context.enter, Context.leave, run, step, hq]
  | escape _ ih =>
    simp only [Context.enter] at ih
    simp [Context.enter, Context.leave, run, step, ih depth, Function.comp_def]
  | @letter quote c cs he hq hd hcs ih =>
    have hnext : run (.string quote (quote == '\x60' && c == '$') :: frames) (cs ++ after) =
        run (.string quote false :: frames) (cs ++ after) := by
      refine run_string_dollar fun hdollar => ?_
      obtain ⟨hquote, hc⟩ := Bool.and_eq_true_iff.mp hdollar
      rw [hcs.head?_append]
      exact hd (eq_of_beq hquote) (eq_of_beq hc)
    simp only [Context.enter] at ih
    simp [Context.enter, Context.leave, run, step, he, hq, hnext, ih depth, Function.comp_def]
  | @interpolation inner cs _ _ ihi ih =>
    have hi := ihi 0 (.string '\x60' false :: frames) (cs ++ after)
    simp only [Context.enter, Context.leave] at hi ih
    simp [Context.enter, Context.leave, run, step, hi, ih depth, Function.comp_def]
  | @closing opening closing hq ho =>
    cases depth with
    | zero => simp [Context.enter, Context.leave, run, step, hq, ho]
    | succ depth => simp [Context.enter, Context.leave, run, step, hq, ho]
  | plain hq ho hc _ ih =>
    simp only [Context.enter] at ih
    simp [Context.enter, run, step, hq, ho, hc, ih depth, Function.comp_def]
  | @literal opening closing quote inner cs hq _ _ ihi ih =>
    have hi := ihi 0 (.region opening closing depth :: frames) (cs ++ after)
    simp only [Context.enter, Context.leave] at hi
    simp only [Context.enter] at ih
    simp [Context.enter, run, step, hq, hi, ih depth, Function.comp_def]
  | @nested opening closing inner cs hq _ _ ihi ih =>
    have hi := ihi (depth + 1) frames (cs ++ after)
    simp only [Context.enter, Context.leave] at hi
    simp only [Context.enter] at ih
    simp [Context.enter, run, step, hq, hi, ih depth, Function.comp_def]

/-- A stretch read from inside a context begins with what fills the context. -/
def Filled (context : Context) (depth : Nat) (frames : List Frame) (read rest : List Char) : Prop :=
  ∃ inner after, read = inner ++ after ∧ Fills context inner ∧
    run (context.leave depth frames) (after ++ rest) = some (after, rest)

section

variable {opening closing quote : Char} {depth : Nat} {frames : List Frame}
variable {cs read rest : List Char}

theorem Filled.of_run_leave {context : Context} {c : Char} (hc : Fills context [c])
    (h : run (context.leave depth frames) cs = some (read, rest)) :
    Filled context depth frames (c :: read) rest :=
  ⟨[c], read, rfl, hc, run_append h ▸ h⟩

theorem filled_string (h : run (.string quote false :: frames) cs = some (read, rest))
    (ih : ∀ context depth frames tail read, tail.length < cs.length →
      run (Context.enter depth frames context) tail = some (read, rest) →
        Filled context depth frames read rest) :
    Filled (.string quote) depth frames read rest := by
  obtain ⟨c, tail, read, rfl, rfl, hr⟩ := run_cons_eq_some h
  by_cases he : c = '\\'
  · subst he
    have hescaped : run (.escaped quote :: frames) tail = some (read, rest) := hr
    obtain ⟨d, tail, read, rfl, rfl, hs⟩ := run_cons_eq_some hescaped
    obtain ⟨inner, after, rfl, hi, ha⟩ :=
      ih (.string quote) depth frames tail read (Nat.lt_add_of_pos_right Nat.zero_lt_two) hs
    exact ⟨'\\' :: d :: inner, after, rfl, hi.escape, ha⟩
  by_cases hq : c = quote
  · subst hq
    exact .of_run_leave (.quote he) (by simpa [step, he, Context.leave] using hr)
  have hstep : step (.string quote false :: frames) c =
      .string quote (quote == '\x60' && c == '$') :: frames := by
    simp [step, he, hq]
  rw [hstep] at hr
  by_cases hd : (quote == '\x60' && c == '$') = true ∧ tail.head? = some '{'
  · obtain ⟨hdollar, hhead⟩ := hd
    obtain ⟨rfl, rfl⟩ : quote = '\x60' ∧ c = '$' := by simpa using hdollar
    obtain ⟨d, tail, read, rfl, rfl, hs⟩ := run_cons_eq_some hr
    obtain rfl : d = '{' := by simpa using hhead
    obtain ⟨inner, after, rfl, hi, ha⟩ :=
      ih (.region '{' '}') 0 (.string '\x60' false :: frames) tail read
        (Nat.lt_add_of_pos_right Nat.zero_lt_two) hs
    have hlen := congrArg List.length (run_append hs)
    obtain ⟨inner', after', rfl, hi', ha'⟩ :=
      ih (.string '\x60') depth frames (after ++ rest) after (by grind) ha
    exact ⟨'$' :: '{' :: inner ++ inner', after', by simp, .interpolation hi hi', ha'⟩
  · rw [run_string_dollar fun hdollar hhead => hd ⟨hdollar, hhead⟩] at hr
    obtain ⟨inner, after, rfl, hi, ha⟩ :=
      ih (.string quote) depth frames tail read (by simp) hr
    refine ⟨c :: inner, after, rfl, .letter he hq (fun hquote hc hhead => hd ?_) hi, ha⟩
    rw [run_append hr, List.append_assoc, hi.head?_append]
    exact ⟨by simp [hquote, hc], hhead⟩

theorem filled_region
    (h : run (.region opening closing depth :: frames) cs = some (read, rest))
    (ih : ∀ context depth frames tail read, tail.length < cs.length →
      run (Context.enter depth frames context) tail = some (read, rest) →
        Filled context depth frames read rest) :
    Filled (.region opening closing) depth frames read rest := by
  obtain ⟨c, tail, read, rfl, rfl, hr⟩ := run_cons_eq_some h
  have hlen := congrArg List.length (run_append hr)
  by_cases hq : isQuote c = true
  · simp only [step, hq, if_true] at hr
    obtain ⟨inner, after, rfl, hi, ha⟩ :=
      ih (.string c) 0 (.region opening closing depth :: frames) tail read (by simp) hr
    obtain ⟨inner', after', rfl, hi', ha'⟩ :=
      ih (.region opening closing) depth frames (after ++ rest) after (by grind) ha
    exact ⟨c :: inner ++ inner', after', by simp, .literal hq hi hi', ha'⟩
  rw [Bool.not_eq_true] at hq
  by_cases ho : c = opening
  · subst ho
    simp only [step, hq, beq_self_eq_true, if_true] at hr
    obtain ⟨inner, after, rfl, hi, ha⟩ :=
      ih (.region c closing) (depth + 1) frames tail read (by simp) hr
    obtain ⟨inner', after', rfl, hi', ha'⟩ :=
      ih (.region c closing) depth frames (after ++ rest) after (by grind) ha
    exact ⟨c :: inner ++ inner', after', by simp, .nested hq hi hi', ha'⟩
  by_cases hc : c = closing
  · subst hc
    apply Filled.of_run_leave (.closing hq ho)
    cases depth with
    | zero => simpa [step, hq, ho, Context.leave] using hr
    | succ depth => simpa [step, hq, ho, Context.leave] using hr
  · have hstep : step (.region opening closing depth :: frames) c =
        .region opening closing depth :: frames := by
      simp [step, hq, ho, hc]
    rw [hstep] at hr
    obtain ⟨inner, after, rfl, hi, ha⟩ :=
      ih (.region opening closing) depth frames tail read (by simp) hr
    exact ⟨c :: inner, after, rfl, .plain hq ho hc hi, ha⟩

end

/-- Every reading that leaves a context has read what fills it. -/
theorem filled_of_run (context : Context) (depth : Nat) (frames : List Frame)
    {cs read rest : List Char} (h : run (context.enter depth frames) cs = some (read, rest)) :
    Filled context depth frames read rest := by
  -- on the length of the text: an inner context is read first, and the rest of its outer one after
  induction hlen : cs.length using Nat.strongRecOn generalizing context depth frames cs read with
  | ind n ih =>
    have ih' : ∀ context depth frames tail read, tail.length < cs.length →
        run (Context.enter depth frames context) tail = some (read, rest) →
          Filled context depth frames read rest :=
      fun context depth frames tail read hlt hrun => ih tail.length (hlen ▸ hlt) _ _ _ hrun rfl
    cases context with
    | string quote => exact filled_string h ih'
    | region opening closing => exact filled_region h ih'

/-- The reader takes exactly the regions of the grammar. -/
theorem takeRegion?_eq_some_iff {opening closing : Char} {cs region rest : List Char} :
    takeRegion? opening closing cs = some (region, rest) ↔
      cs = region ++ rest ∧ IsRegion opening closing region := by
  constructor
  · intro h
    refine ⟨takeRegion?_append h, ?_⟩
    cases cs with
    | nil => cases h
    | cons c cs =>
      obtain ⟨rfl, hq, read, hr, rfl⟩ := takeRegion?_cons h
      obtain ⟨inner, after, rfl, hi, ha⟩ := filled_of_run (.region c closing) 0 [] hr
      obtain rfl : [] = after := by simpa [Context.leave, run] using ha
      exact ⟨inner, by rw [List.append_nil], hq, hi⟩
  · rintro ⟨rfl, inner, rfl, hq, hi⟩
    have hr := hi.run_append 0 [] rest
    simp only [Context.enter, Context.leave] at hr
    simp [takeRegion?, hq, hr, run]

namespace IsRegion

variable {opening closing : Char} {region short : List Char}

theorem takeRegion? (h : IsRegion opening closing region) (after : List Char) :
    takeRegion? opening closing (region ++ after) = some (region, after) :=
  takeRegion?_eq_some_iff.mpr ⟨rfl, h⟩

theorem eq_of_isPrefix (h : IsRegion opening closing short) (hr : IsRegion opening closing region)
    (hp : short <+: region) : short = region := by
  obtain ⟨after, rfl⟩ := hp
  have hshort := h.takeRegion? after
  have hregion := hr.takeRegion? []
  rw [List.append_nil, hshort] at hregion
  exact congrArg Prod.fst (Option.some.inj hregion)

theorem exists_eq_concat (h : IsRegion opening closing region) :
    ∃ inner, region = opening :: (inner ++ [closing]) := by
  have ht := h.takeRegion? []
  obtain ⟨inner, rfl, _, _⟩ := h
  obtain ⟨_, _, read, hr, he⟩ := takeRegion?_cons ht
  obtain ⟨front, rfl⟩ := List.getLast?_eq_some_iff.mp (run_getLast? (List.cons_ne_nil _ _) hr)
  exact ⟨front, he⟩

end IsRegion

section

variable {opening closing : Char} {source region : List Char} {start : Int}

theorem regionAt?_singleton :
    regionAt? source start (.singleton opening) (.singleton closing) =
      if start < 0 then none
      else (takeRegion? opening closing (source.drop start.toNat)).map Prod.fst := by
  have hsingle : ∀ c, single? (.singleton c) = some c := fun c => by simp [single?]
  simp only [regionAt?, hsingle, bind, Option.bind_some]
  split
  next => rfl
  next => cases takeRegion? opening closing (source.drop start.toNat) <;> rfl

theorem regionAt?_eq_some_iff :
    regionAt? source start (.singleton opening) (.singleton closing) = some region ↔
      ∃ before after, source = before ++ region ++ after ∧ start = before.length ∧
        IsRegion opening closing region := by
  rw [regionAt?_singleton]
  split
  next hstart =>
    simp only [reduceCtorEq, false_iff]
    rintro ⟨before, after, _, rfl, _⟩
    omega
  next hstart =>
    constructor
    · intro h
      obtain ⟨⟨region, after⟩, ht, rfl⟩ := Option.map_eq_some_iff.mp h
      obtain ⟨hdrop, hregion⟩ := takeRegion?_eq_some_iff.mp ht
      refine ⟨source.take start.toNat, after, ?_, ?_, hregion⟩
      · rw [List.append_assoc, ← hdrop, List.take_append_drop]
      · obtain ⟨inner, rfl, _⟩ := hregion
        have hlen := congrArg List.length hdrop
        simp only [List.length_drop, List.length_append, List.length_cons] at hlen
        simp only [List.length_take]
        omega
    · rintro ⟨before, after, rfl, rfl, hregion⟩
      simp [List.append_assoc, hregion.takeRegion?]

end

/-- Where a region is found, it is the text from there on to its closing, the same region is found
in any other text around it, and no part of it that stops short is one. Where none is found, no
region of the grammar stands. -/
theorem regionAt?_prefix_code (opening closing : Char) (source : List Char) (start : Int) :
    (∀ region, regionAt? source start (.singleton opening) (.singleton closing) = some region →
      (0 ≤ start ∧ region = (source.drop start.toNat).take region.length) ∧
      (∃ inner, region = opening :: (inner ++ [closing])) ∧
      (∀ before after, regionAt? (before ++ region ++ after) before.length
        (.singleton opening) (.singleton closing) = some region) ∧
      ∀ short, short <+: region → short ≠ region →
        regionAt? short 0 (.singleton opening) (.singleton closing) = none) ∧
    (regionAt? source start (.singleton opening) (.singleton closing) = none →
      ∀ before region after, source = before ++ region ++ after → start = before.length →
        ¬ IsRegion opening closing region) := by
  refine ⟨fun region h => ?_, fun hnone before region after hsource hstart hregion => ?_⟩
  · obtain ⟨before, after, rfl, rfl, hregion⟩ := regionAt?_eq_some_iff.mp h
    refine ⟨⟨Int.natCast_nonneg _, by simp⟩, hregion.exists_eq_concat, fun p s => ?_, ?_⟩
    · exact regionAt?_eq_some_iff.mpr ⟨p, s, rfl, rfl, hregion⟩
    · intro short hprefix hne
      refine Option.eq_none_iff_forall_ne_some.mpr fun found hfound => hne ?_
      obtain ⟨p, s, rfl, hp, hshort⟩ := regionAt?_eq_some_iff.mp hfound
      obtain rfl : p = [] := List.length_eq_zero_iff.mp (by omega)
      have hfirst : found <+: region := (List.prefix_append found s).trans hprefix
      have heq := hshort.eq_of_isPrefix hregion hfirst
      exact hprefix.eq_of_length_le (by simp [heq])
  · have hfound := regionAt?_eq_some_iff.mpr ⟨before, after, hsource, hstart, hregion⟩
    rw [hnone] at hfound
    cases hfound

/-- Braces in a string, after an escaped quote and on both sides of an interpolation's end. -/
def crowdedRegion : List Char :=
  "\x7ba:'\\'\x7d',b:\x60\x7d$\x7bc(\x7b\x7d)\x7d\x7b\x60\x7d".toList

theorem regionAt?_crowdedRegion :
    regionAt? ("f(".toList ++ crowdedRegion ++ ")".toList) 2 (.singleton '{') (.singleton '}') =
        some crowdedRegion ∧
      (∀ before after, regionAt? (before ++ crowdedRegion ++ after) before.length
        (.singleton '{') (.singleton '}') = some crowdedRegion) ∧
      regionAt? (crowdedRegion.take 19) 0 (.singleton '{') (.singleton '}') = none ∧
      regionAt? "\x7b'\x7d".toList 0 (.singleton '{') (.singleton '}') = none ∧
      ¬ IsRegion '{' '}' "\x7b'\x7d".toList := by
  have hfound : regionAt? ("f(".toList ++ crowdedRegion ++ ")".toList) 2
      (.singleton '{') (.singleton '}') = some crowdedRegion := by decide +kernel
  have hnone : regionAt? "\x7b'\x7d".toList 0 (.singleton '{') (.singleton '}') = none := by
    decide +kernel
  obtain ⟨_, _, hmoved, hshort⟩ := (regionAt?_prefix_code '{' '}' _ 2).1 crowdedRegion hfound
  refine ⟨hfound, hmoved, ?_, hnone, ?_⟩
  · exact hshort (crowdedRegion.take 19) (List.take_prefix _ _) (by decide +kernel)
  · exact (regionAt?_prefix_code '{' '}' _ 0).2 hnone [] _ [] rfl rfl

end Restyle.Scan
