import Restyle.Proofs.Conversion.Agreement
import Restyle.Proofs.Number.Excess
import Restyle.Proofs.Token.Form
import Restyle.Proofs.Utility.Opacity

namespace Restyle

theorem ok_ne_error {α ε : Type} {a : α} {e : ε} : (Except.ok a : Except ε α) ≠ .error e := by
  intro h
  cases h

namespace Numeral

/-- Digits and nothing else, and more of them than are read. -/
structure IsLong (digits : List Char) : Prop where
  all : ∀ c ∈ digits, Text.isDigit c = true
  long : 4300 < digits.length

theorem IsLong.isRun {digits : List Char} (h : IsLong digits) : Text.IsRun Text.isDigit digits := by
  have hlong := h.long
  exact ⟨List.ne_nil_of_length_pos (by omega), h.all⟩

/-- A text that ends with digits does not end with the unit. -/
theorem IsLong.ne_append_unit {sign digits : List Char} (h : IsLong digits) (front : List Char) :
    sign ++ digits ≠ front ++ ['p', 'x'] := by
  intro he
  have hlast := congrArg List.getLast? he
  rw [List.getLast?_append_of_ne_nil _ h.isRun.ne_nil,
    List.getLast?_append_of_ne_nil _ (by simp)] at hlast
  exact absurd (h.all 'x' (List.mem_of_getLast? hlast)) (by decide)

variable {cs digits : List Char} {fault : Fault}

theorem readUnsigned?_fails_iff {negative : Bool} :
    (∃ numeral, readUnsigned? negative digits = some numeral ∧ numeral.value = .error fault) ↔
      IsLong digits ∧ fault = .tooManyDigits digits.length := by
  constructor
  · rintro ⟨numeral, hread, hvalue⟩
    cases hexcess : excessDigits? digits with
    | none =>
      obtain ⟨x, hx⟩ := exists_value_of_excessDigits? hexcess hread
      rw [hx] at hvalue
      cases hvalue
    | some n =>
      obtain ⟨hall, hlong, rfl⟩ := of_excessDigits? hexcess
      obtain ⟨long, hlongread, hlongvalue⟩ := readUnsigned?_of_excessDigits? hexcess negative
      rw [hread] at hlongread
      cases hlongread
      rw [hvalue] at hlongvalue
      cases hlongvalue
      exact ⟨⟨hall, hlong⟩, rfl⟩
  · rintro ⟨hlong, rfl⟩
    have hexcess : excessDigits? digits = some digits.length :=
      if_pos ⟨List.all_eq_true.mpr hlong.all, hlong.long⟩
    exact readUnsigned?_of_excessDigits? hexcess negative

theorem read?_fails_iff :
    (∃ numeral, read? cs = some numeral ∧ numeral.value = .error fault) ↔
      ∃ sign ∈ [[], ['-']], ∃ digits, cs = sign ++ digits ∧ IsLong digits ∧
        fault = .tooManyDigits digits.length := by
  have hdash : ∀ {digits : List Char}, '-' :: cs.tail = digits → ¬ IsLong digits := by
    rintro _ rfl hlong
    exact absurd (hlong.all '-' List.mem_cons_self) (by decide)
  unfold read?
  split
  next digits =>
    rw [readUnsigned?_fails_iff]
    constructor
    · rintro ⟨hlong, hfault⟩
      exact ⟨['-'], by simp, digits, rfl, hlong, hfault⟩
    · rintro ⟨sign, hsign, found, hcs, hlong, hfault⟩
      simp only [List.mem_cons, List.not_mem_nil, or_false] at hsign
      rcases hsign with rfl | rfl
      · exact absurd hlong (hdash hcs)
      · cases hcs
        exact ⟨hlong, hfault⟩
  next hsigned =>
    rw [readUnsigned?_fails_iff]
    constructor
    · rintro ⟨hlong, hfault⟩
      exact ⟨[], by simp, cs, rfl, hlong, hfault⟩
    · rintro ⟨sign, hsign, found, hcs, hlong, hfault⟩
      simp only [List.mem_cons, List.not_mem_nil, or_false] at hsign
      rcases hsign with rfl | rfl
      · cases hcs
        exact ⟨hlong, hfault⟩
      · exact absurd hcs (hsigned found)

end Numeral

namespace Scale

open Numeral (IsLong)

variable {cs : List Char} {n : Nat} {fault : Fault}

/-- A whole number with too many digits, perhaps with a sign before it and its unit after it. -/
def IsLongMeasure (cs : List Char) (n : Nat) : Prop :=
  ∃ sign ∈ [[], ['-']], ∃ unit ∈ [[], ['p', 'x']], ∃ digits,
    Text.trim cs = sign ++ digits ++ unit ∧ IsLong digits ∧ digits.length = n

theorem measure?_eq_error_iff_numeral :
    measure? cs = .error fault ↔
      ∃ numeral, numeral? cs = some numeral ∧ numeral.value = .error fault := by
  unfold measure?
  cases numeral? cs with
  | none => simp
  | some numeral =>
    cases hv : numeral.value with
    | ok x => simp [hv, Except.map]
    | error found => simp [hv, Except.map]

/-- The unit that a text ends with is not read, and no other text ends with it. -/
theorem unit_cases (cs : List Char) :
    (∃ front, cs = front ++ ['p', 'x'] ∧
      (if ['x', 'p'].isPrefixOf cs.reverse then cs.dropLast.dropLast else cs) = front) ∨
    ((∀ front, cs ≠ front ++ ['p', 'x']) ∧
      (if ['x', 'p'].isPrefixOf cs.reverse then cs.dropLast.dropLast else cs) = cs) := by
  by_cases hunit : ['x', 'p'].isPrefixOf cs.reverse = true
  · obtain ⟨back, hback⟩ := List.isPrefixOf_iff_prefix.mp hunit
    have hcs : cs = back.reverse ++ ['p', 'x'] := by
      rw [← List.reverse_reverse cs, ← hback]
      simp
    refine .inl ⟨back.reverse, hcs, ?_⟩
    rw [if_pos hunit, hcs]
    simp
  · refine .inr ⟨?_, if_neg hunit⟩
    rintro front rfl
    simp at hunit

theorem measure?_eq_error_iff :
    measure? cs = .error fault ↔ ∃ n, IsLongMeasure cs n ∧ fault = .tooManyDigits n := by
  rw [measure?_eq_error_iff_numeral]
  unfold numeral? IsLongMeasure
  dsimp only
  rcases unit_cases (Text.trim cs) with ⟨front, hfront, hread⟩ | ⟨hnone, hread⟩
  · rw [hread, Numeral.read?_fails_iff, hfront]
    constructor
    · rintro ⟨sign, hsign, digits, rfl, hlong, rfl⟩
      exact ⟨_, ⟨sign, hsign, ['p', 'x'], by simp, digits, rfl, hlong, rfl⟩, rfl⟩
    · rintro ⟨_, ⟨sign, hsign, unit, hunit, digits, htext, hlong, rfl⟩, rfl⟩
      simp only [List.mem_cons, List.not_mem_nil, or_false] at hunit
      rcases hunit with rfl | rfl
      · rw [List.append_nil] at htext
        exact absurd htext.symm (hlong.ne_append_unit front)
      · exact ⟨sign, hsign, digits, List.append_cancel_right htext, hlong, rfl⟩
  · rw [hread, Numeral.read?_fails_iff]
    constructor
    · rintro ⟨sign, hsign, digits, htext, hlong, rfl⟩
      exact ⟨_, ⟨sign, hsign, [], by simp, digits, by rw [htext, List.append_nil], hlong, rfl⟩, rfl⟩
    · rintro ⟨_, ⟨sign, hsign, unit, hunit, digits, htext, hlong, rfl⟩, rfl⟩
      simp only [List.mem_cons, List.not_mem_nil, or_false] at hunit
      rcases hunit with rfl | rfl
      · exact ⟨sign, hsign, digits, by rw [htext, List.append_nil], hlong, rfl⟩
      · exact absurd htext (hnone _)

theorem IsLongMeasure.ends (h : IsLongMeasure cs n) (ht : Text.IsTrimmed cs) :
    (∀ c ∈ cs.head?, Text.isDigit c = true ∨ c = '-') ∧
      ∀ c ∈ cs.getLast?, Text.isDigit c = true ∨ c = 'x' := by
  obtain ⟨sign, hsign, unit, hunit, digits, htext, hlong, -⟩ := h
  rw [Text.trim_of_isTrimmed ht] at htext
  simp only [List.mem_cons, List.not_mem_nil, or_false] at hsign hunit
  obtain ⟨d, ds, hds⟩ := List.exists_cons_of_ne_nil hlong.isRun.ne_nil
  constructor
  · intro c hc
    rcases hsign with rfl | rfl
    · rw [htext, hds] at hc
      cases hc
      exact .inl (hlong.all d (hds ▸ List.mem_cons_self))
    · rw [htext] at hc
      cases hc
      exact .inr rfl
  · intro c hc
    rcases hunit with rfl | rfl
    · rw [htext, List.append_nil, List.getLast?_append_of_ne_nil _ hlong.isRun.ne_nil] at hc
      exact .inl (hlong.all c (List.mem_of_getLast? hc))
    · rw [htext, List.getLast?_append_of_ne_nil _ (by simp)] at hc
      cases hc
      exact .inr rfl

section Token

variable {words : List String}

/-- That the words of a token can be told from one another and from its digits. -/
structure AreDistinct (words : List String) : Prop where
  noDigit : ∀ word ∈ words, word.toList.head?.any Text.isDigit = false
  ne_empty : ∀ word ∈ words, word ≠ ""
  apart : ∀ word ∈ words, ∀ other ∈ words, other ≠ word →
    ∀ rest, other.toList.isPrefixOf? (word.toList ++ rest) = none

theorem token?_word (hw : AreDistinct words) {word : String} (hm : word ∈ words)
    (rest : List Char) :
    token? words ('$' :: (word.toList ++ rest)) = Numeral.readUnsigned? false rest := by
  have hfind : ∀ others : List String, (∀ other ∈ others, other ∈ words) → word ∈ others →
      (others.findSome? fun other => other.toList.isPrefixOf? (word.toList ++ rest)) =
        some rest := by
    intro others
    induction others with
    | nil => simp
    | cons other others ih =>
      intro hall hin
      rw [List.findSome?_cons]
      by_cases he : other = word
      · rw [he, List.isPrefixOf?_eq_some_iff_append_eq.mpr rfl]
      · rw [hw.apart word hm other (hall other List.mem_cons_self) he]
        refine ih (fun o ho => hall o (List.mem_cons_of_mem _ ho)) ?_
        rcases List.mem_cons.mp hin with h | h
        · exact absurd h.symm he
        · exact h
  rw [token?, hfind words (fun _ h => h) hm, Option.getD_some]

theorem token?_fails_iff (hw : AreDistinct words) :
    (∃ numeral, token? words cs = some numeral ∧ numeral.value = .error fault) ↔
      ∃ word ∈ [] :: words.map String.toList, ∃ digits, cs = '$' :: (word ++ digits) ∧
        IsLong digits ∧ fault = .tooManyDigits digits.length := by
  constructor
  · rintro ⟨numeral, htoken, hvalue⟩
    obtain ⟨word, hword, rest, rfl, hread⟩ := token?_eq_some htoken
    have hlong := Numeral.readUnsigned?_fails_iff.mp ⟨numeral, hread, hvalue⟩
    exact ⟨word, hword, rest, rfl, hlong⟩
  · rintro ⟨word, hword, digits, rfl, hlong⟩
    have htoken : token? words ('$' :: (word ++ digits)) = Numeral.readUnsigned? false digits := by
      rcases List.mem_cons.mp hword with rfl | hm
      · exact token?_digits hw.noDigit hw.ne_empty hlong.1.isRun
      · obtain ⟨w, hin, rfl⟩ := List.mem_map.mp hm
        exact token?_word hw hin digits
    rw [htoken]
    exact Numeral.readUnsigned?_fails_iff.mpr hlong

theorem areDistinct_spacing : AreDistinct ["space", "size"] := by
  refine ⟨by decide +kernel, by decide, ?_⟩
  intro word hword other hother hne rest
  simp only [List.mem_cons, List.not_mem_nil, or_false] at hword hother
  rcases hword with rfl | rfl <;> rcases hother with rfl | rfl
  · exact absurd rfl hne
  · rfl
  · rfl
  · exact absurd rfl hne

theorem areDistinct_radius : AreDistinct ["radius"] := by
  refine ⟨by decide +kernel, by decide, ?_⟩
  intro word hword other hother hne
  rw [List.mem_singleton.mp hword, List.mem_singleton.mp hother] at hne
  exact absurd rfl hne

end Token

end Scale

namespace Rule

open Numeral (IsLong)
open Scale (IsLongMeasure)

/-- The text whose number a rule asks for. -/
def measured? (rule : Rule) (cs : List Char) : Option (List Char) :=
  match rule with
  | .flex | .growth _ | .layer | .length _ | .letterSpacing | .borderWidth _ | .spacing _ _
  | .radius _ => some cs
  | .aspectRatio => if '/' ∈ cs then none else some (cs.filter (· != ' '))
  | .rotation => some (Text.removeAll "deg".toList cs)
  | .keyword _ | .opacity | .fontFamily | .zoom | .color _ => none

/-- What may stand between the dollar sign and the number of a token that a rule knows. -/
def tokenWords : Rule → List (List Char)
  | .spacing _ _ => [[], "space".toList, "size".toList]
  | .radius _ => [[], "radius".toList]
  | _ => []

/-- Whether a rule turns the number of a text into percent. -/
def takesPercent (rule : Rule) (cs : List Char) : Bool :=
  match rule with
  | .opacity => cs.getLast? != some '%'
  | .zoom => true
  | _ => false

/-- That a rule fails on a text, and why. -/
inductive Fails (rule : Rule) (cs : List Char) : Fault → Prop
  | measure {text : List Char} {n : Nat} (hm : rule.measured? cs = some text)
      (hl : IsLongMeasure text n) : Fails rule cs (.tooManyDigits n)
  | token {word digits : List Char} (hw : word ∈ rule.tokenWords)
      (hcs : cs = '$' :: (word ++ digits)) (hl : IsLong digits) :
      Fails rule cs (.tooManyDigits digits.length)
  | overflow {d : Decimal} (hp : rule.takesPercent cs = true) (hd : decimal? cs = some d)
      (hl : Decimal.limit ≤ 100 * d.magnitude) : Fails rule cs .decimalOverflow

variable {rule : Rule} {cs text : List Char} {fault : Fault}

theorem not_fails (hm : rule.measured? cs = none) (hw : rule.tokenWords = [])
    (hp : rule.takesPercent cs = false) : ¬ rule.Fails cs fault := by
  intro h
  cases h with
  | measure hmeasured => cases hm.symm.trans hmeasured
  | token hword => cases hw ▸ hword
  | overflow hpercent => cases hp.symm.trans hpercent

theorem ofMeasure_eq_error_iff {write : Number → Option String} :
    ofMeasure cs write = .error fault ↔ ∃ n, IsLongMeasure cs n ∧ fault = .tooManyDigits n := by
  rw [← Scale.measure?_eq_error_iff, ofMeasure]
  cases Scale.measure? cs with
  | ok found => simp [Except.map]
  | error found => simp [Except.map]

theorem ofMeasure_fails_iff {write : Number → Option String} (hm : rule.measured? cs = some text)
    (hw : rule.tokenWords = []) (hp : rule.takesPercent cs = false) :
    ofMeasure text write = .error fault ↔ rule.Fails cs fault := by
  rw [ofMeasure_eq_error_iff]
  constructor
  · rintro ⟨n, hl, rfl⟩
    exact .measure hm hl
  · intro h
    cases h with
    | measure hmeasured hl =>
      cases hm.symm.trans hmeasured
      exact ⟨_, hl, rfl⟩
    | token hword => cases hw ▸ hword
    | overflow hpercent => cases hp.symm.trans hpercent

/-- A rule that knows tokens fails on a long number and on the token of one. -/
theorem fails_iff_of_token {words : List String} (hd : Scale.AreDistinct words)
    (hm : rule.measured? cs = some cs) (hw : rule.tokenWords = [] :: words.map String.toList)
    (hp : rule.takesPercent cs = false) :
    rule.Fails cs fault ↔ (∃ n, IsLongMeasure cs n ∧ fault = .tooManyDigits n) ∨
      ∃ numeral, Scale.token? words cs = some numeral ∧ numeral.value = .error fault := by
  rw [Scale.token?_fails_iff hd]
  constructor
  · intro h
    cases h with
    | measure hmeasured hl =>
      cases hm.symm.trans hmeasured
      exact .inl ⟨_, hl, rfl⟩
    | token hword hcs hl => exact .inr ⟨_, hw ▸ hword, _, hcs, hl, rfl⟩
    | overflow hpercent => cases hp.symm.trans hpercent
  · rintro (⟨n, hl, rfl⟩ | ⟨word, hword, digits, hcs, hl, rfl⟩)
    · exact .measure hm hl
    · exact .token (hw ▸ hword) hcs hl

theorem map_value_eq_error_iff {numeral : Numeral} {write : Number → Option String} :
    numeral.value.map write = .error fault ↔ numeral.value = .error fault := by
  cases numeral.value with
  | ok x => simp [Except.map]
  | error found => simp [Except.map]

/-- A text with a token is no number, so that a rule that looks for the token first misses none. -/
theorem not_isLongMeasure_of_token {words : List String} {numeral : Numeral} {n : Nat}
    (ht : Text.IsTrimmed cs) (h : Scale.token? words cs = some numeral) : ¬ IsLongMeasure cs n := by
  intro hl
  obtain ⟨word, -, rest, rfl, -⟩ := Scale.token?_eq_some h
  have hhead := (hl.ends ht).1 '$' rfl
  exact absurd hhead (by decide)

theorem match_token_eq_error_iff {words : List String} (hd : Scale.AreDistinct words)
    (ht : Text.IsTrimmed cs) (hm : rule.measured? cs = some cs)
    (hw : rule.tokenWords = [] :: words.map String.toList) (hp : rule.takesPercent cs = false)
    {write writeToken : Number → Option String} :
    (match Scale.token? words cs with
      | some numeral => numeral.value.map writeToken
      | none => ofMeasure cs write) = .error fault ↔ rule.Fails cs fault := by
  rw [fails_iff_of_token hd hm hw hp]
  split
  next numeral htoken =>
    have hnot : ¬ ∃ n, IsLongMeasure cs n ∧ fault = .tooManyDigits n := by
      rintro ⟨n, hl, -⟩
      exact not_isLongMeasure_of_token ht htoken hl
    rw [map_value_eq_error_iff, or_iff_right hnot]
    simp [htoken]
  next htoken =>
    rw [ofMeasure_eq_error_iff]
    simp [htoken]

theorem not_fails_of_neither {words : List String} (hd : Scale.AreDistinct words)
    (hm : rule.measured? cs = some cs) (hw : rule.tokenWords = [] :: words.map String.toList)
    (hp : rule.takesPercent cs = false) (hnumber : ∀ n, ¬ IsLongMeasure cs n)
    (htoken : Scale.token? words cs = none) : ¬ rule.Fails cs fault := by
  rw [fails_iff_of_token hd hm hw hp, htoken]
  rintro (⟨n, hl, -⟩ | ⟨numeral, hnone, -⟩)
  · exact hnumber n hl
  · cases hnone

theorem spacingClass_eq_error_iff (ht : Text.IsTrimmed cs) {stem : String} {sizing : Bool} :
    spacingClass stem sizing cs = .error fault ↔ (Rule.spacing stem sizing).Fails cs fault := by
  unfold spacingClass
  split
  next hauto =>
    refine iff_of_false ok_ne_error ?_
    have hcs : cs = "auto".toList := eq_of_beq hauto
    refine not_fails_of_neither Scale.areDistinct_spacing rfl rfl rfl (fun n hl => ?_) ?_
    · have hhead := (hl.ends ht).1 'a' (by rw [hcs]; rfl)
      exact absurd hhead (by decide)
    · rw [hcs]
      rfl
  next =>
    split
    next hlast =>
      have hpercent : '%' ∈ cs.getLast? := eq_of_beq hlast
      refine iff_of_false (by split <;> exact ok_ne_error) ?_
      refine not_fails_of_neither Scale.areDistinct_spacing rfl rfl rfl (fun n hl => ?_) ?_
      · exact absurd ((hl.ends ht).2 '%' hpercent) (by decide)
      · refine Option.eq_none_iff_forall_ne_some.mpr fun numeral htoken => ?_
        exact (Scale.token?_ends htoken).2 hpercent
    next => exact match_token_eq_error_iff Scale.areDistinct_spacing ht rfl rfl rfl

theorem radiusClass_eq_error_iff (ht : Text.IsTrimmed cs) {stem : String} :
    radiusClass stem cs = .error fault ↔ (Rule.radius stem).Fails cs fault := by
  unfold radiusClass
  split
  next hfull =>
    refine iff_of_false ok_ne_error ?_
    have hcs : cs = Scale.fullRadiusToken.toList := eq_of_beq hfull
    refine not_fails_of_neither Scale.areDistinct_radius rfl rfl rfl (fun n hl => ?_) ?_
    · have hhead := (hl.ends ht).1 '$' (by rw [hcs]; rfl)
      exact absurd hhead (by decide)
    · rw [hcs]
      decide +kernel
  next => exact match_token_eq_error_iff Scale.areDistinct_radius ht rfl rfl rfl

theorem aspectRatioClass_eq_error_iff :
    aspectRatioClass cs = .error fault ↔ Rule.aspectRatio.Fails cs fault := by
  have hslash : (cs.filter (· != ' ')).contains '/' = true ↔ '/' ∈ cs := by
    rw [List.contains_iff_mem, List.mem_filter]
    exact and_iff_left (by decide)
  unfold aspectRatioClass
  dsimp only
  split
  next hs => exact iff_of_false ok_ne_error (not_fails (if_pos (hslash.mp hs)) rfl rfl)
  next hs => exact ofMeasure_fails_iff (if_neg (mt hslash.mpr hs)) rfl rfl

/-- A rule that turns numbers into percent fails on the ones that are too great for it. -/
theorem fails_iff_of_percent (hm : rule.measured? cs = none) (hw : rule.tokenWords = []) :
    rule.Fails cs fault ↔ rule.takesPercent cs = true ∧
      (∃ d, decimal? cs = some d ∧ d.hundredfold? = none) ∧ fault = .decimalOverflow := by
  constructor
  · intro h
    cases h with
    | measure hmeasured => cases hm.symm.trans hmeasured
    | token hword => cases hw ▸ hword
    | overflow hp hd hl => exact ⟨hp, ⟨_, hd, (Decimal.hundredfold?_eq_none_iff _).mpr hl⟩, rfl⟩
  · rintro ⟨hp, ⟨d, hd, hnone⟩, rfl⟩
    exact .overflow hp hd ((Decimal.hundredfold?_eq_none_iff d).mp hnone)

theorem opacityClass_eq_error_iff :
    opacityClass cs = .error fault ↔ Rule.opacity.Fails cs fault := by
  rw [fails_iff_of_percent rfl rfl]
  cases hd : decimal? cs with
  | none => simp [opacityClass, hd]
  | some d =>
    cases hp : (if cs.getLast? == some '%' then some d else d.hundredfold?) with
    | none =>
      have hlast : (cs.getLast? == some '%') = false := by
        cases hl : cs.getLast? == some '%' with
        | false => rfl
        | true => simp [hl] at hp
      have hpercent : Rule.opacity.takesPercent cs = true := by
        rw [takesPercent, bne, hlast]
        rfl
      have hnone : d.hundredfold? = none := by simpa [hlast] using hp
      have hfails : opacityClass cs = .error .decimalOverflow := by simp only [opacityClass, hd, hp]
      rw [hfails, Except.error.injEq]
      constructor
      · rintro rfl
        exact ⟨hpercent, ⟨d, rfl, hnone⟩, rfl⟩
      · rintro ⟨-, -, rfl⟩
        rfl
    | some percent =>
      obtain ⟨s, hs⟩ := exists_opacityClass hd hp
      rw [hs]
      refine iff_of_false ok_ne_error ?_
      rintro ⟨hpercent, ⟨found, hfound, hnone⟩, -⟩
      cases hfound
      have hlast : (cs.getLast? == some '%') = false := by simpa [takesPercent] using hpercent
      rw [hlast, if_neg Bool.false_ne_true, hnone] at hp
      cases hp

/-- The number one is far below the limit. -/
theorem hundredfold?_of_one {d : Decimal} (h : d.toInt? 0 = some 1) : d.hundredfold? ≠ none := by
  have hrat := (Decimal.toInt?_eq_some_iff.mp h).1
  have hmagnitude : d.magnitude ≤ 1 := by
    rw [Decimal.toRat] at hrat
    split at hrat
    next =>
      have hnonneg := d.magnitude_nonneg
      push_cast at hrat
      linarith
    next => exact_mod_cast hrat.le
  have hlimit := Decimal.limit_bounds.1
  have hhundred : (10 : ℚ) ^ (3 : ℤ) ≤ 10 ^ Decimal.greatestPlace :=
    zpow_le_zpow_right₀ (by norm_num) (by decide)
  rw [Ne, Decimal.hundredfold?_eq_none_iff, not_le]
  norm_num at hhundred
  linarith

theorem zoomClass_eq_error_iff : zoomClass cs = .error fault ↔ Rule.zoom.Fails cs fault := by
  have hpercent : Rule.zoom.takesPercent cs = true := rfl
  rw [fails_iff_of_percent rfl rfl, hpercent]
  cases hd : decimal? cs with
  | none => simp [zoomClass, hd]
  | some d =>
    cases hh : d.hundredfold? with
    | none =>
      have hone : ¬ d.toInt? 0 = some 1 := fun h => hundredfold?_of_one h hh
      have hfails : zoomClass cs = .error .decimalOverflow := by simp [zoomClass, hd, hh, hone]
      rw [hfails, Except.error.injEq]
      constructor
      · rintro rfl
        exact ⟨rfl, ⟨d, rfl, hh⟩, rfl⟩
      · rintro ⟨-, -, rfl⟩
        rfl
    | some percent =>
      have hnormal : ∃ text, d.normalText? = some text := by
        cases hr : d.round? with
        | none => cases (Decimal.hundredfold?_of_round? hr).symm.trans hh
        | some rounded => exact ⟨_, by rw [Decimal.normalText?, hr]; rfl⟩
      obtain ⟨text, htext⟩ := hnormal
      have hok : ∃ found, zoomClass cs = .ok found := by
        simp only [zoomClass, hd, hh, htext]
        split
        next => exact ⟨_, rfl⟩
        next =>
          split
          next => exact ⟨_, rfl⟩
          next => exact ⟨_, rfl⟩
      obtain ⟨found, hfound⟩ := hok
      rw [hfound]
      refine iff_of_false ok_ne_error ?_
      rintro ⟨-, ⟨other, hother, hnone⟩, -⟩
      cases hother
      cases hnone.symm.trans hh

theorem exists_colorClass (colors : Fields Json) (stem : String) (cs : List Char) :
    ∃ found, colorClass (.object colors) stem cs = .ok found := by
  obtain ⟨found, hfound⟩ := Color.exists_find? colors (String.ofList cs)
  unfold colorClass
  rw [hfound]
  split
  next => exact ⟨_, rfl⟩
  next =>
    split
    next => exact ⟨_, rfl⟩
    next =>
      split
      next => exact ⟨_, rfl⟩
      next =>
        split
        next => exact ⟨_, rfl⟩
        next => exact ⟨_, rfl⟩

theorem classOf_eq_error_iff (colors : Fields Json) (rule : Rule) (ht : Text.IsTrimmed cs) :
    rule.classOf (.object colors) cs = .error fault ↔ rule.Fails cs fault := by
  cases rule with
  | keyword table => exact iff_of_false ok_ne_error (not_fails rfl rfl rfl)
  | flex => exact ofMeasure_fails_iff rfl rfl rfl
  | growth stem => exact ofMeasure_fails_iff rfl rfl rfl
  | layer => exact ofMeasure_fails_iff rfl rfl rfl
  | opacity => exact opacityClass_eq_error_iff
  | aspectRatio => exact aspectRatioClass_eq_error_iff
  | fontFamily => exact iff_of_false ok_ne_error (not_fails rfl rfl rfl)
  | length stem => exact ofMeasure_fails_iff rfl rfl rfl
  | letterSpacing => exact ofMeasure_fails_iff rfl rfl rfl
  | rotation => exact ofMeasure_fails_iff rfl rfl rfl
  | zoom => exact zoomClass_eq_error_iff
  | spacing stem sizing => exact spacingClass_eq_error_iff ht
  | color stem =>
    obtain ⟨found, hfound⟩ := exists_colorClass colors stem cs
    rw [classOf, hfound]
    exact iff_of_false ok_ne_error (not_fails rfl rfl rfl)
  | borderWidth stem => exact ofMeasure_fails_iff rfl rfl rfl
  | radius stem => exact radiusClass_eq_error_iff ht

/-- That a style has a rule that fails on its value, and why. -/
inductive FailsOn (property : String) (value : Json) : Fault → Prop
  | unshown {rule : Rule} (hr : find? property = some rule) (hv : value.isShowable = false) :
      FailsOn property value .tooLongToShow
  | failed {rule : Rule} {fault : Fault} (hr : find? property = some rule)
      (hv : value.isShowable = true) (hf : rule.Fails (Text.trim value.display.toList) fault) :
      FailsOn property value fault

theorem convert_eq_error_iff (colors : Fields Json) {property : String} {value : Json} :
    convert (.object colors) property value = .error fault ↔ FailsOn property value fault := by
  unfold convert
  cases hr : find? property with
  | none =>
    refine iff_of_false ok_ne_error fun h => ?_
    cases h with
    | unshown hrule => cases hr.symm.trans hrule
    | failed hrule => cases hr.symm.trans hrule
  | some rule =>
    dsimp only
    by_cases hv : value.isShowable = true
    · rw [if_pos hv, classOf_eq_error_iff colors rule (Text.isTrimmed_trim _)]
      constructor
      · exact fun hf => .failed hr hv hf
      · intro h
        cases h with
        | unshown hrule hnot => cases hv.symm.trans hnot
        | failed hrule _ hf =>
          cases hr.symm.trans hrule
          exact hf
    · rw [if_neg hv]
      rw [Bool.not_eq_true] at hv
      constructor
      · intro h
        cases h
        exact .unshown hr hv
      · intro h
        cases h with
        | unshown => rfl
        | failed _ hshown => cases hv.symm.trans hshown

/-- A style is converted, or found to have no class, unless its rule fails for one of the known
reasons; and then the fault tells the reason. -/
theorem conversion_fails_exactly (colors : Fields Json) (property : String) (value : Json) :
    ((∃ found, convert (.object colors) property value = .ok found) ↔
      ∀ fault, ¬ FailsOn property value fault) ∧
    ∀ fault, convert (.object colors) property value = .error fault ↔
      FailsOn property value fault := by
  refine ⟨?_, fun fault => convert_eq_error_iff colors⟩
  cases hc : convert (.object colors) property value with
  | ok found =>
    refine iff_of_true ⟨found, rfl⟩ fun fault hf => ?_
    rw [← convert_eq_error_iff colors, hc] at hf
    cases hf
  | error fault =>
    refine iff_of_false ?_ fun hnone => hnone fault ((convert_eq_error_iff colors).mp hc)
    rintro ⟨found, hfound⟩
    cases hfound

/-- Numbers that are too great for the rule, for the reader, and for the text of a value. -/
theorem convert_fails_on_great_numbers :
    convert (.object Color.design) "opacity" (.text "1e999999") = .error .decimalOverflow ∧
      convert (.object Color.design) "padding" (.text (String.ofList (List.replicate 4301 '9'))) =
        .error (.tooManyDigits 4301) ∧
      convert (.object Color.design) "color" (.whole (tenTo 4300 : Nat)) =
        .error .tooLongToShow := by
  refine ⟨?_, ?_, ?_⟩
  · have hnone : Decimal.hundredfold? ⟨false, 1, 999999⟩ = none := by decide +kernel
    have hread : decimal? "1e999999".toList = some ⟨false, 1, 999999⟩ := by decide +kernel
    have hrule : find? "opacity" = some .opacity := by decide +kernel
    have hpercent : Rule.opacity.takesPercent "1e999999".toList = true := by decide +kernel
    have hlimit := (Decimal.hundredfold?_eq_none_iff _).mp hnone
    rw [convert_eq_error_iff]
    exact .failed hrule rfl (.overflow hpercent hread hlimit)
  · have hdigits : ∀ c ∈ List.replicate 4301 '9', Text.isDigit c = true := by
      intro c hc
      rw [(List.mem_replicate.mp hc).2]
      decide
    have htrim : Text.trim (List.replicate 4301 '9') = List.replicate 4301 '9' :=
      Text.trim_of_isTrimmed
        (Text.isTrimmed_of_all fun c hc => Text.isBlank_of_isDigit (hdigits c hc))
    have hrule : find? "padding" = some (.spacing "p" false) := by decide +kernel
    rw [convert_eq_error_iff]
    refine .failed hrule rfl (.measure rfl ?_)
    refine ⟨[], by simp, [], by simp, List.replicate 4301 '9', ?_, ⟨hdigits, ?_⟩, ?_⟩
    · rw [Json.display, String.toList_ofList, htrim, htrim, List.nil_append, List.append_nil]
    · rw [List.length_replicate]
      omega
    · exact List.length_replicate
  · have hrule : find? "color" = some (.color "text") := by decide +kernel
    rw [convert_eq_error_iff]
    refine .unshown hrule ?_
    have hlength := Decimal.length_tenTo 4300
    rw [Decimal.length] at hlength
    rw [Json.isShowable, Int.natAbs_natCast, hlength]
    decide

end Rule

end Restyle
