import Mathlib.Tactic.FieldSimp
import Restyle.Proofs.Number.Decimal
import Restyle.Proofs.Text.Words
import Restyle.Proofs.Utility.Class
import Std.Data.String.ToInt

namespace Restyle

namespace Text

theorem digitValue_lt (c : Char) : (digitValue? c).getD 0 < 10 := by
  unfold digitValue?
  split
  next =>
    split
    next hd =>
      have hrange := isDigit_range hd
      rw [Option.getD_some]
      omega
    next => decide
  next =>
    cases hfind : zeros.find? fun z => z ≤ c.toNat && c.toNat < z + 10 with
    | none =>
      rw [Option.map_none, Option.getD_none]
      omega
    | some z =>
      have hz := List.find?_some hfind
      simp only [Bool.and_eq_true, decide_eq_true_eq] at hz
      rw [Option.map_some, Option.getD_some]
      omega

variable {cs ds : List Char}

theorem digitsValue_cons (c : Char) (cs : List Char) :
    digitsValue (c :: cs) = (digitValue? c).getD 0 * tenTo cs.length + digitsValue cs := by
  have hfold : ∀ n, cs.foldl (fun n c => 10 * n + (digitValue? c).getD 0) n =
      n * tenTo cs.length + digitsValue cs := by
    induction cs with
    | nil =>
      intro n
      have hone : tenTo 0 = 1 := rfl
      rw [List.foldl_nil, List.length_nil, hone, Nat.mul_one]
      rfl
    | cons d cs ih =>
      intro n
      have hvalue : digitsValue (d :: cs) =
          (10 * 0 + (digitValue? d).getD 0) * tenTo cs.length + digitsValue cs := ih _
      rw [List.foldl_cons, ih, hvalue, List.length_cons, tenTo_add]
      have hten : tenTo 1 = 10 := rfl
      rw [hten]
      ring
  have hvalue : digitsValue (c :: cs) =
      (10 * 0 + (digitValue? c).getD 0) * tenTo cs.length + digitsValue cs := hfold _
  rw [hvalue, Nat.mul_zero, Nat.zero_add]

theorem digitsValue_append (cs ds : List Char) :
    digitsValue (cs ++ ds) = digitsValue cs * tenTo ds.length + digitsValue ds := by
  induction cs with
  | nil =>
    have hzero : digitsValue [] = 0 := rfl
    rw [List.nil_append, hzero, Nat.zero_mul, Nat.zero_add]
  | cons c cs ih =>
    rw [List.cons_append, digitsValue_cons, digitsValue_cons, ih, List.length_append, tenTo_add]
    ring

theorem digitsValue_lt (cs : List Char) : digitsValue cs < tenTo cs.length := by
  induction cs with
  | nil => decide
  | cons c cs ih =>
    have hdigit := digitValue_lt c
    have hone : tenTo 1 = 10 := rfl
    rw [digitsValue_cons, List.length_cons, tenTo_add, hone]
    have hle : (digitValue? c).getD 0 * tenTo cs.length ≤ 9 * tenTo cs.length :=
      Nat.mul_le_mul_right _ (by omega)
    omega

/-- Zeros in front do not count. -/
theorem digitsValue_dropWhile_zero (cs : List Char) :
    digitsValue (cs.dropWhile (digitValue? · == some 0)) = digitsValue cs := by
  induction cs with
  | nil => rfl
  | cons c cs ih =>
    rw [List.dropWhile_cons]
    split
    next hz =>
      rw [ih, digitsValue_cons, eq_of_beq hz, Option.getD_some, Nat.zero_mul, Nat.zero_add]
    next => rfl

theorem removeAll_of_not_mem {c : Char} {pat : List Char} (h : c ∉ cs) :
    removeAll (c :: pat) cs = cs := by
  induction cs with
  | nil => rw [removeAll]
  | cons d cs ih =>
    have hne : c ≠ d := fun he => h (he ▸ List.mem_cons_self)
    have hprefix : (c :: pat).isPrefixOf? (d :: cs) = none := by simp [List.isPrefixOf?, hne]
    rw [removeAll, hprefix]
    dsimp only
    rw [ih fun hm => h (List.mem_cons_of_mem d hm)]

end Text

namespace Decimal

open Text (isDigit digitsValue)

/-- A number as it is written: perhaps a sign, digits, perhaps a point with digits after it, and
perhaps a percent sign. -/
structure Written where
  sign : List Char
  whole : List Char
  fraction : Option (List Char)
  percent : Bool
  isSign : sign ∈ [[], ['-'], ['+']]
  areDigits : ∀ c ∈ whole ++ fraction.getD [], isDigit c = true
  hasDigits : whole ++ fraction.getD [] ≠ []

namespace Written

variable (t : Written)

def digits : List Char := t.whole ++ t.fraction.getD []

/-- The point and the digits after it. -/
def tail : List Char :=
  match t.fraction with
  | some digits => '.' :: digits
  | none => []

def numeral : List Char := t.sign ++ (t.whole ++ t.tail)

def text : List Char := t.numeral ++ if t.percent then ['%'] else []

/-- The digits from the first one on that is not zero. -/
def significant : List Char := t.digits.dropWhile (Text.digitValue? · == some 0)

/-- The number that a text denotes. -/
def value : ℚ :=
  (if t.sign = ['-'] then -1 else 1) *
    (digitsValue t.whole + digitsValue (t.fraction.getD []) / 10 ^ (t.fraction.getD []).length) /
      if t.percent then 100 else 1

/-- The decimal that stands in a text before its percent sign. -/
def decimal : Decimal :=
  ⟨t.sign == ['-'], digitsValue t.digits, -((t.fraction.getD []).length : Int)⟩

theorem toRat_decimal : t.decimal.toRat = if t.percent then 100 * t.value else t.value := by
  have hmagnitude : t.decimal.magnitude =
      digitsValue t.whole + digitsValue (t.fraction.getD []) / 10 ^ (t.fraction.getD []).length := by
    have hpos : (10 : ℚ) ^ (t.fraction.getD []).length ≠ 0 := by positivity
    simp only [decimal, magnitude, digits, Text.digitsValue_append, zpow_neg, zpow_natCast]
    push_cast
    rw [cast_tenTo]
    field_simp
  have hsign : ∀ x : ℚ, (if t.decimal.negative then -x else x) =
      (if t.sign = ['-'] then -1 else 1) * x := by
    intro x
    by_cases hs : t.sign = ['-']
    · simp [decimal, hs]
    · simp [decimal, hs]
  rw [toRat, hmagnitude, hsign, value]
  cases t.percent with
  | false => simp
  | true =>
    simp only [if_true]
    ring

variable {t}

theorem mem_whole_tail {c : Char} (h : c ∈ t.whole ++ t.tail) : isDigit c = true ∨ c = '.' := by
  have hdigits := List.forall_mem_append.mp t.areDigits
  rcases List.mem_append.mp h with hwhole | htail
  · exact .inl (hdigits.1 c hwhole)
  · cases hf : t.fraction with
    | none => simp [tail, hf] at htail
    | some digits =>
      simp only [tail, hf, List.mem_cons] at htail
      rcases htail with rfl | hm
      · exact .inr rfl
      · exact .inl (hdigits.2 c (by simpa [hf] using hm))

theorem mem_numeral {c : Char} (h : c ∈ t.numeral) : isDigit c = true ∨ c ∈ ['-', '+', '.'] := by
  rcases List.mem_append.mp h with hsign | hrest
  · have hs := t.isSign
    simp only [List.mem_cons, List.not_mem_nil, or_false] at hs
    rcases hs with hs | hs | hs
    · simp [hs] at hsign
    · exact .inr (by simp_all)
    · exact .inr (by simp_all)
  · rcases mem_whole_tail hrest with hdigit | rfl
    · exact .inl hdigit
    · exact .inr (by decide)

theorem not_mem_numeral {c : Char} (hd : isDigit c = false) (hs : c ∉ ['-', '+', '.']) :
    c ∉ t.numeral := by
  intro hm
  rcases mem_numeral hm with hdigit | hsign
  · rw [hd] at hdigit
    cases hdigit
  · exact hs hsign

theorem isBlank_of_mem_numeral : ∀ c ∈ t.numeral, Text.isBlank c = false := by
  intro c hc
  rcases mem_numeral hc with hdigit | hsign
  · exact Text.isBlank_of_isDigit hdigit
  · exact (by decide : ∀ c ∈ ['-', '+', '.'], Text.isBlank c = false) c hsign

theorem not_sign_of_mem {c : Char} (h : c ∈ t.whole ++ t.tail) : c ≠ '-' ∧ c ≠ '+' := by
  constructor
  · rintro rfl
    rcases mem_whole_tail h with hdigit | hpoint
    · exact absurd hdigit (by decide)
    · exact absurd hpoint (by decide)
  · rintro rfl
    rcases mem_whole_tail h with hdigit | hpoint
    · exact absurd hdigit (by decide)
    · exact absurd hpoint (by decide)

theorem readSign_numeral : Text.readSign t.numeral = (t.sign == ['-'], t.whole ++ t.tail) := by
  have hs := t.isSign
  simp only [List.mem_cons, List.not_mem_nil, or_false] at hs
  rcases hs with hs | hs | hs
  · -- without a sign the text starts with a digit or the point
    rw [numeral, hs, List.nil_append]
    unfold Text.readSign
    split
    next cs hcs => exact absurd rfl (not_sign_of_mem (hcs ▸ List.mem_cons_self)).1
    next cs hcs => exact absurd rfl (not_sign_of_mem (hcs ▸ List.mem_cons_self)).2
    next => rfl
  · rw [numeral, hs]
    rfl
  · rw [numeral, hs]
    rfl

theorem length_le_length_text :
    t.digits.length ≤ t.text.length ∧ (t.fraction.getD []).length ≤ t.text.length := by
  have htail : (t.fraction.getD []).length ≤ t.tail.length := by
    unfold tail
    split
    next hf => simp [hf]
    next hf => simp [hf]
  simp only [digits, text, numeral, List.length_append]
  omega

theorem readableExponents_decimal (h : t.text.length ≤ 100000) :
    readableExponents t.decimal.coefficient t.decimal.exponent = true := by
  have hlengths := t.length_le_length_text
  have hvalue : length (digitsValue t.digits) ≤ t.digits.length + 1 :=
    (length_le_iff (by omega)).mpr
      ((Text.digitsValue_lt t.digits).trans_le (tenTo_le (by omega)))
  simp only [length] at hvalue
  refine Bool.and_eq_true_iff.mpr ⟨decide_eq_true ?_, decide_eq_true ?_⟩
  · simp only [decimal]
    omega
  · simp only [decimal]
    omega

theorem read?_numeral (h : t.text.length ≤ 100000) : read? t.numeral = some t.decimal := by
  have htrim : Text.trim t.numeral = t.numeral :=
    Text.trim_of_isTrimmed (Text.isTrimmed_of_all isBlank_of_mem_numeral)
  have hbars : t.numeral.filter (· != '_') = t.numeral := by
    refine List.filter_eq_self.mpr fun c hc => ?_
    have hne : c ≠ '_' := by
      rintro rfl
      exact not_mem_numeral (by decide) (by decide) hc
    simpa using hne
  have hdigits := List.forall_mem_append.mp t.areDigits
  have hpoint : ∀ c ∈ t.tail.head?, isDigit c = false := by
    intro c hc
    cases hf : t.fraction with
    | none => simp [tail, hf] at hc
    | some digits =>
      simp only [tail, hf, List.head?_cons, Option.mem_def, Option.some.injEq] at hc
      subst hc
      decide
  have hwhole := Text.takeWhile_append_of_head hdigits.1 hpoint
  have hrest := Text.dropWhile_append_of_head hdigits.1 hpoint
  have hreadable := readableExponents_decimal h
  have hsome : (t.whole.isEmpty && (t.fraction.getD []).isEmpty) = false := by
    have hne := t.hasDigits
    rw [Ne, List.append_eq_nil_iff] at hne
    simpa [Bool.and_eq_false_iff, List.isEmpty_eq_false_iff, imp_iff_not_or] using hne
  have hpower : readExponent? [] = some 0 := rfl
  simp only [decimal, digits] at hreadable ⊢
  cases hf : t.fraction with
  | none =>
    have htail : t.tail = [] := by rw [tail, hf]
    simp only [hf, Option.getD_none] at hsome hreadable ⊢
    simp only [htail] at hwhole hrest
    simp only [read?, htrim, hbars, readSign_numeral, htail, hwhole, hrest, hsome]
    simpa [hpower] using hreadable
  | some digits =>
    have htail : t.tail = '.' :: digits := by rw [tail, hf]
    have hend : ∀ c ∈ ([] : List Char).head?, isDigit c = false := by simp
    simp only [hf, Option.getD_some] at hsome hreadable hdigits ⊢
    have htake := Text.takeWhile_append_of_head hdigits.2 hend
    have hdrop := Text.dropWhile_append_of_head hdigits.2 hend
    rw [List.append_nil] at htake hdrop
    simp only [htail] at hwhole hrest
    simp only [read?, htrim, hbars, readSign_numeral, htail, hwhole, hrest, htake, hdrop, hsome]
    simpa [hpower] using hreadable

theorem decimal?_text (h : t.text.length ≤ 100000) : Rule.decimal? t.text = some t.decimal := by
  have hend : Text.dropTrailing (· == '%') t.text = t.numeral := by
    have hall : ∀ c ∈ (if t.percent then ['%'] else []), (c == '%') = true := by
      cases t.percent <;> decide
    rw [text, Text.dropTrailing_append_of_all hall]
    refine Text.dropTrailing_of_getLast fun c hc => ?_
    have hne : c ≠ '%' := by
      rintro rfl
      exact not_mem_numeral (by decide) (by decide) (List.mem_of_getLast? hc)
    simpa using hne
  have hunit : Text.removeAll ['p', 'x'] t.numeral = t.numeral :=
    Text.removeAll_of_not_mem (not_mem_numeral (by decide) (by decide))
  rw [Rule.decimal?, hend, hunit, read?_numeral h]

theorem getLast?_text : (t.text.getLast? == some '%') = t.percent := by
  cases hp : t.percent with
  | true => simp [text, hp]
  | false =>
    have hlast : t.text.getLast? ≠ some '%' := by
      intro hl
      have hmem : '%' ∈ t.numeral := by simpa [text, hp] using List.mem_of_getLast? hl
      exact not_mem_numeral (by decide) (by decide) hmem
    simpa using hlast

/-- A number of at most 26 digits that count is not rounded when it is turned into percent. -/
theorem exists_percent (hl : t.text.length ≤ 100000) (hs : t.significant.length ≤ 26) :
    ∃ percent, (if t.percent then some t.decimal else t.decimal.hundredfold?) = some percent ∧
      percent.toRat = 100 * t.value := by
  have hrat := t.toRat_decimal
  cases hp : t.percent with
  | true =>
    rw [hp, if_pos rfl] at hrat
    exact ⟨t.decimal, rfl, hrat⟩
  | false =>
    rw [hp] at hrat
    simp only [Bool.false_eq_true, if_false] at hrat ⊢
    have hcoefficient : t.decimal.coefficient < tenTo 26 := by
      have hlt := Text.digitsValue_lt t.significant
      rw [significant, Text.digitsValue_dropWhile_zero] at hlt
      exact hlt.trans_le (tenTo_le hs)
    have hprecision : tenTo precision = 100 * tenTo 26 := by decide
    have hexponent : leastExponent ≤ t.decimal.exponent := by
      have hfraction := t.length_le_length_text.2
      have hleast : leastExponent = -1000026 := rfl
      simp only [decimal]
      omega
    obtain ⟨percent, hpercent, hvalue⟩ := hundredfold?_of_fits (d := t.decimal)
      (by omega) hexponent (by simp only [decimal]; omega)
    exact ⟨percent, hpercent, by rw [hvalue, hrat]⟩

end Written

end Decimal

namespace Rule

open Utility

variable {cs : List Char} {d percent : Decimal}

theorem namedOpacity?_eq_some_iff (hd : decimal? cs = some d)
    (hp : (if cs.getLast? == some '%' then some d else d.hundredfold?) = some percent) {n : Int} :
    namedOpacity? cs = some n ↔ (5 ∣ n ∧ 0 ≤ n ∧ n ≤ 100) ∧ percent.toRat = n := by
  have hnamed : namedOpacity? cs =
      (percent.toInt? 2).filter fun n => 0 ≤ n && n ≤ 100 && n % 5 == 0 := by
    rw [namedOpacity?, hd, Option.bind_some, hp, Option.bind_some]
  have hbounds : (decide (0 ≤ n) && decide (n ≤ 100) && n % 5 == 0) = true ↔
      5 ∣ n ∧ 0 ≤ n ∧ n ≤ 100 := by
    simp only [Bool.and_eq_true, decide_eq_true_eq, beq_iff_eq]
    omega
  rw [hnamed, Option.filter_eq_some_iff, Decimal.toInt?_eq_some_iff, hbounds]
  constructor
  · rintro ⟨⟨hrat, -⟩, hn⟩
    exact ⟨hn, hrat⟩
  · rintro ⟨hn, hrat⟩
    -- a percent of at most one hundred ends in at most two zeros
    refine ⟨⟨hrat, fun hne => ?_⟩, hn⟩
    have hthousand : ((tenTo (2 + 1) : Nat) : Int) = 1000 := rfl
    rw [hthousand]
    omega

theorem exists_opacityClass (hd : decimal? cs = some d)
    (hp : (if cs.getLast? == some '%' then some d else d.hundredfold?) = some percent) :
    ∃ s, opacityClass cs = .ok (some s) := by
  simp only [opacityClass, hd, hp]
  split
  next =>
    split
    next => exact ⟨_, rfl⟩
    next => exact ⟨_, rfl⟩
  next => exact ⟨_, rfl⟩

theorem named_ne_arbitrary (n : Int) (value : String) :
    "opacity-" ++ toString n ≠ arbitrary "opacity" value := by
  intro he
  have hlist : "opacity-".toList ++ (toString n).toList =
      "opacity-".toList ++ '[' :: (value.toList ++ [']']) := by
    simpa [arbitrary] using congrArg String.toList he
  have htail := List.append_cancel_left hlist
  have hmem : '[' ∈ (toString n).toList := htail ▸ List.mem_cons_self
  rcases mem_toString_int hmem with heq | hdigit
  · exact absurd heq (by decide)
  · exact absurd hdigit (by decide)

theorem named_inj {m n : Int} : "opacity-" ++ toString m = "opacity-" ++ toString n ↔ m = n := by
  constructor
  · intro he
    have hlist : "opacity-".toList ++ (toString m).toList =
        "opacity-".toList ++ (toString n).toList := by
      simpa using congrArg String.toList he
    exact Int.repr_injective (String.toList_inj.mp (List.append_cancel_left hlist))
  · rintro rfl
    rfl

theorem convert_opacity (colors : Json) (s : String) :
    convert colors "opacity" (.text s) = opacityClass (Text.trim s.toList) := rfl

/-- An opacity is named exactly if it is a multiple of five percent from nothing to full; any other
one is written as it stands. -/
theorem opacity_classes_are_exact (colors : Json) (t : Decimal.Written) {s : String}
    (hs : Text.trim s.toList = t.text) (hl : t.text.length ≤ 100000)
    (hd : t.significant.length ≤ 26) :
    (∀ n : Int, convert colors "opacity" (.text s) = .ok (some ("opacity-" ++ toString n)) ↔
      (5 ∣ n ∧ 0 ≤ n ∧ n ≤ 100) ∧ t.value = n / 100) ∧
    ((∀ n : Int, 5 ∣ n ∧ 0 ≤ n ∧ n ≤ 100 → t.value ≠ n / 100) →
      convert colors "opacity" (.text s) =
        .ok (some ("opacity-[" ++ String.ofList t.text ++ "]"))) := by
  obtain ⟨percent, hpercent, hrat⟩ := Decimal.Written.exists_percent hl hd
  have hread := Decimal.Written.decimal?_text hl
  rw [← Decimal.Written.getLast?_text] at hpercent
  have hnamed : ∀ n : Int, namedOpacity? t.text = some n ↔
      (5 ∣ n ∧ 0 ≤ n ∧ n ≤ 100) ∧ t.value = n / 100 := by
    intro n
    rw [namedOpacity?_eq_some_iff hread hpercent, hrat, eq_div_iff (by norm_num), mul_comm]
  obtain ⟨found, hfound⟩ := exists_opacityClass hread hpercent
  rw [convert_opacity, hs, hfound]
  rcases opacityClass_eq_ok hfound with ⟨m, hm, rfl⟩ | ⟨hm, rfl⟩
  · refine ⟨fun n => ?_, fun hnone => ?_⟩
    · rw [← hnamed, hm, Except.ok.injEq, Option.some.injEq, Option.some.injEq, named_inj]
    · exact absurd ((hnamed m).mp hm).2 (hnone m ((hnamed m).mp hm).1)
  · refine ⟨fun n => ?_, fun _ => rfl⟩
    rw [← hnamed, hm, Except.ok.injEq, Option.some.injEq]
    constructor
    · exact fun he => absurd he.symm (named_ne_arbitrary n _)
    · intro he
      cases he

/-- A number with a sign, zeros in front and 26 digits that count. -/
def longThirtyFive : Decimal.Written where
  sign := ['+']
  whole := ['0', '0']
  fraction := some ("35".toList ++ List.replicate 24 '0')
  percent := false
  isSign := by decide
  areDigits := by decide
  hasDigits := by decide

theorem longThirtyFive_is_named :
    Text.trim " +00.35000000000000000000000000 ".toList = longThirtyFive.text ∧
      longThirtyFive.text.length ≤ 100000 ∧ longThirtyFive.significant.length ≤ 26 ∧
      convert .null "opacity" (.text " +00.35000000000000000000000000 ") =
        .ok (some "opacity-35") := by
  have htrim : Text.trim " +00.35000000000000000000000000 ".toList = longThirtyFive.text := by
    decide +kernel
  have hlength : longThirtyFive.text.length ≤ 100000 := by decide
  have hdigits : longThirtyFive.significant.length ≤ 26 := by decide
  have hvalue : longThirtyFive.value = ((35 : Int) : ℚ) / 100 := by decide +kernel
  refine ⟨htrim, hlength, hdigits, ?_⟩
  exact ((opacity_classes_are_exact .null longThirtyFive htrim hlength hdigits).1 35).mpr
    ⟨by decide, hvalue⟩

end Rule

end Restyle
