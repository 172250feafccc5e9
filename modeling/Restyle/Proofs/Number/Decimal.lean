import Mathlib.Algebra.Order.Field.Power
import Mathlib.Algebra.Order.Ring.Rat
import Mathlib.Tactic.Linarith
import Mathlib.Tactic.Ring
import Restyle.Number.Decimal

namespace Restyle

theorem tenTo_add (m n : Nat) : tenTo (m + n) = tenTo m * tenTo n := Nat.pow_add 10 m n

theorem tenTo_le {m n : Nat} (h : m ≤ n) : tenTo m ≤ tenTo n := Nat.pow_le_pow_right (by omega) h

theorem cast_tenTo (n : Nat) : ((tenTo n : Nat) : ℚ) = 10 ^ n := by
  have h : tenTo n = 10 ^ n := rfl
  rw [h, Nat.cast_pow]
  rfl

/-- A quotient is rounded up if its remainder is more than half of the divisor, or half of it and the
quotient is odd. -/
theorem roundQuotient_cases (num den : Nat) :
    (roundQuotient num den = num / den ∧
      (2 * (num % den) < den ∨ 2 * (num % den) = den ∧ num / den % 2 = 0)) ∨
    (roundQuotient num den = num / den + 1 ∧
      (den < 2 * (num % den) ∨ 2 * (num % den) = den ∧ num / den % 2 = 1)) := by
  unfold roundQuotient
  dsimp only
  by_cases hless : 2 * (num % den) < den
  · rw [if_pos hless]
    exact .inl ⟨rfl, .inl hless⟩
  · rw [if_neg hless]
    by_cases hmore : den < 2 * (num % den)
    · rw [if_pos hmore]
      exact .inr ⟨rfl, .inl hmore⟩
    · rw [if_neg hmore]
      by_cases heven : num / den % 2 = 0
      · rw [if_pos (beq_iff_eq.mpr heven)]
        exact .inl ⟨rfl, .inr ⟨by omega, heven⟩⟩
      · rw [if_neg fun h => heven (beq_iff_eq.mp h)]
        exact .inr ⟨rfl, .inr ⟨by omega, by omega⟩⟩

theorem roundQuotient_one (n : Nat) : roundQuotient n 1 = n := by
  have hcases := roundQuotient_cases n 1
  have hmod := Nat.mod_one n
  have hdiv := Nat.div_one n
  omega

theorem le_roundQuotient {num den k : Nat} (hd : 0 < den) (h : k * den ≤ num) :
    k ≤ roundQuotient num den := by
  have hcases := roundQuotient_cases num den
  have hdiv := (Nat.le_div_iff_mul_le hd).mpr h
  omega

theorem roundQuotient_le {num den k : Nat} (hd : 0 < den) (h : num < k * den) :
    roundQuotient num den ≤ k := by
  have hcases := roundQuotient_cases num den
  have hdiv := (Nat.div_lt_iff_lt_mul hd).mpr h
  omega

/-- An even number is reached by rounding from half a unit below it on. -/
theorem le_roundQuotient_iff (num : Nat) {den k : Nat} (hd : 0 < den) (hk : k % 2 = 0) (hpos : 0 < k) :
    k ≤ roundQuotient num den ↔ (2 * k - 1) * den ≤ 2 * num := by
  have hcases := roundQuotient_cases num den
  have hdiv := Nat.div_add_mod num den
  have hmod := Nat.mod_lt num hd
  obtain ⟨j, rfl⟩ : ∃ j, k = j + 1 := ⟨k - 1, by omega⟩
  have hsplit : (2 * (j + 1) - 1) * den = 2 * (den * j) + den := by
    have h : 2 * (j + 1) - 1 = 2 * j + 1 := by omega
    rw [h]
    ring
  rw [hsplit]
  rcases Nat.lt_trichotomy (num / den) j with hq | hq | hq
  · have hmul : den * (num / den + 1) ≤ den * j := Nat.mul_le_mul_left den hq
    rw [Nat.mul_add, Nat.mul_one] at hmul
    omega
  · rw [hq] at hcases hdiv
    omega
  · have hmul : den * (j + 1) ≤ den * (num / den) := Nat.mul_le_mul_left den hq
    rw [Nat.mul_add, Nat.mul_one] at hmul
    omega

namespace Decimal

/-- The number of digits of a coefficient. -/
def length (n : Nat) : Nat := (Nat.toDigits 10 n).length

theorem length_pos (n : Nat) : 0 < length n := Nat.length_toDigits_pos

theorem length_le_iff {n k : Nat} (hk : 0 < k) : length n ≤ k ↔ n < tenTo k :=
  Nat.length_toDigits_le_iff (by omega) hk

theorem lt_tenTo_length (n : Nat) : n < tenTo (length n) :=
  (length_le_iff (length_pos n)).mp (Nat.le_refl _)

theorem tenTo_le_of_lt_length {n k : Nat} (h : k < length n) (hn : n ≠ 0) : tenTo k ≤ n := by
  by_cases hk : k = 0
  · subst hk
    have hone : tenTo 0 = 1 := rfl
    omega
  · have hnot := mt (length_le_iff (n := n) (Nat.pos_of_ne_zero hk)).mpr (by omega)
    omega

theorem length_eq {n k : Nat} (hl : tenTo k ≤ n) (hu : n < tenTo (k + 1)) : length n = k + 1 := by
  have hupper := (length_le_iff (by omega)).mpr hu
  by_cases hk : k = 0
  · have hpos := length_pos n
    omega
  · have hlower := mt (length_le_iff (n := n) (Nat.pos_of_ne_zero hk)).mp (by omega)
    omega

/-- The size of a number without its sign. -/
def magnitude (d : Decimal) : ℚ := d.coefficient * 10 ^ d.exponent

/-- The number that a decimal is. -/
def toRat (d : Decimal) : ℚ := if d.negative then -d.magnitude else d.magnitude

/-- The numbers from which on there is no number of the precision to round to. -/
def limit : ℚ := (10 ^ precision - 1 / 2) * 10 ^ (greatestPlace + 1 - precision)

/-- That a number with a coefficient other than zero is rounded to one that is too great. -/
def Exceeds (d : Decimal) : Prop :=
  greatestPlace + 1 < length d.coefficient + d.exponent ∨
    length d.coefficient + d.exponent = greatestPlace + 1 ∧ precision < length d.coefficient ∧
      (2 * tenTo precision - 1) * tenTo (length d.coefficient - precision) ≤ 2 * d.coefficient

theorem dropPlaces_zero (n : Nat) : dropPlaces n 0 = n := by
  have hone : tenTo 0 = 1 := rfl
  rw [dropPlaces, if_neg (Nat.not_lt_zero _), hone, roundQuotient_one]

theorem dropPlaces_le {n places : Nat} (h : n < tenTo (precision + places)) :
    dropPlaces n places ≤ tenTo precision := by
  unfold dropPlaces
  split
  next => exact Nat.zero_le _
  next =>
    rw [tenTo_add] at h
    exact roundQuotient_le (tenTo_pos places) h

theorem length_tenTo (k : Nat) : length (tenTo k) = k + 1 := by
  refine length_eq (Nat.le_refl _) ?_
  have hpos := tenTo_pos k
  rw [tenTo_succ]
  omega

section

variable {d : Decimal}

/-- The places that rounding drops. -/
def extraPlaces (d : Decimal) : Nat :=
  max (length d.coefficient - precision) (leastExponent - d.exponent).toNat

/-- A number overflows by the place of its first digit after rounding. -/
theorem round?_eq_none_iff_place (hc : d.coefficient ≠ 0) :
    d.round? = none ↔
      if dropPlaces d.coefficient d.extraPlaces = tenTo precision then
        greatestPlace < d.exponent + d.extraPlaces + precision
      else dropPlaces d.coefficient d.extraPlaces ≠ 0 ∧
        greatestPlace < d.exponent + d.extraPlaces +
          length (dropPlaces d.coefficient d.extraPlaces) - 1 := by
  have hplaces : max ((Nat.toDigits 10 d.coefficient).length - precision)
      (leastExponent - d.exponent).toNat = d.extraPlaces := rfl
  have hcarry : tenTo (precision - 1) ≠ 0 := Nat.ne_of_gt (tenTo_pos _)
  have hlength : (Nat.toDigits 10 (tenTo (precision - 1))).length = precision := length_tenTo 27
  have hnone : ∀ (b : Bool) (x : Decimal), (if b then none else some x) = none ↔ b = true := by
    intro b x
    cases b <;> simp
  unfold round?
  simp only [hplaces, beq_iff_eq, hc, if_false]
  by_cases hten : dropPlaces d.coefficient d.extraPlaces = tenTo precision
  · simp only [hten, if_true]
    rw [hnone, Bool.and_eq_true, bne_iff_ne, decide_eq_true_eq, hlength]
    constructor
    · rintro ⟨-, h⟩
      omega
    · intro h
      exact ⟨hcarry, by omega⟩
  · simp only [hten, if_false]
    rw [hnone, Bool.and_eq_true, bne_iff_ne, decide_eq_true_eq]
    exact Iff.rfl

/-- How a coefficient of more digits than the precision is rounded. -/
theorem dropPlaces_of_long (h : precision < length d.coefficient) :
    tenTo (precision - 1) ≤ dropPlaces d.coefficient (length d.coefficient - precision) ∧
      dropPlaces d.coefficient (length d.coefficient - precision) ≤ tenTo precision ∧
      (dropPlaces d.coefficient (length d.coefficient - precision) = tenTo precision ↔
        (2 * tenTo precision - 1) * tenTo (length d.coefficient - precision) ≤
          2 * d.coefficient) := by
  have hne : d.coefficient ≠ 0 := by
    intro hz
    rw [hz] at h
    exact absurd h (by decide)
  have hpos := tenTo_pos (length d.coefficient - precision)
  have hdrop : dropPlaces d.coefficient (length d.coefficient - precision) =
      roundQuotient d.coefficient (tenTo (length d.coefficient - precision)) := by
    rw [dropPlaces, if_neg]
    show ¬ length d.coefficient < length d.coefficient - precision
    omega
  have hprecision : precision = 28 := rfl
  have hlower : tenTo (precision - 1) * tenTo (length d.coefficient - precision) ≤ d.coefficient := by
    rw [← tenTo_add]
    exact tenTo_le_of_lt_length (by omega) hne
  have hupper : dropPlaces d.coefficient (length d.coefficient - precision) ≤ tenTo precision := by
    apply dropPlaces_le
    have hsum : precision + (length d.coefficient - precision) = length d.coefficient := by omega
    rw [hsum]
    exact lt_tenTo_length _
  have heven : tenTo precision % 2 = 0 := by decide
  have hreach := le_roundQuotient_iff d.coefficient hpos heven (tenTo_pos precision)
  rw [hdrop] at hupper ⊢
  refine ⟨le_roundQuotient hpos hlower, hupper, ?_⟩
  rw [← hreach]
  exact ⟨fun he => Nat.le_of_eq he.symm, Nat.le_antisymm hupper⟩

theorem round?_eq_none_iff_exceeds (hc : d.coefficient ≠ 0) : d.round? = none ↔ d.Exceeds := by
  have hprecision : precision = 28 := rfl
  have hleast : leastExponent = -1000026 := rfl
  have hgreatest : greatestPlace = 999999 := rfl
  rw [round?_eq_none_iff_place hc, Exceeds]
  by_cases hsmall : length d.coefficient - precision < (leastExponent - d.exponent).toNat
  · -- the last places are lost below the range, far from its upper end
    have hplaces : d.extraPlaces = (leastExponent - d.exponent).toNat := by
      unfold extraPlaces
      omega
    have hbound : dropPlaces d.coefficient d.extraPlaces ≤ tenTo precision := by
      apply dropPlaces_le
      exact Nat.lt_of_lt_of_le (lt_tenTo_length _) (tenTo_le (by omega))
    have hlength : length (dropPlaces d.coefficient d.extraPlaces) ≤ 29 := by
      rw [length_le_iff (by omega)]
      have hlt : tenTo precision < tenTo 29 := by decide
      omega
    split
    next => omega
    next => omega
  · have hplaces : d.extraPlaces = length d.coefficient - precision := by
      unfold extraPlaces
      omega
    by_cases hlong : precision < length d.coefficient
    · obtain ⟨hlower, hupper, hreach⟩ := dropPlaces_of_long hlong
      rw [hplaces, ← hreach]
      split
      next hcarry => omega
      next hcarry =>
        have hlt := Nat.lt_of_le_of_ne hupper hcarry
        have hlength := length_eq (k := 27) hlower hlt
        have hne : dropPlaces d.coefficient (length d.coefficient - precision) ≠ 0 := by
          have hpos := tenTo_pos (precision - 1)
          omega
        omega
    · have hzero : length d.coefficient - precision = 0 := by omega
      have hlt : d.coefficient < tenTo precision := (length_le_iff (by decide)).mp (by omega)
      rw [hplaces, hzero, dropPlaces_zero, if_neg (by omega)]
      omega

theorem tenTo_zpow (k : Nat) : ((tenTo k : Nat) : ℚ) = 10 ^ (k : ℤ) := by
  rw [cast_tenTo, zpow_natCast]

/-- The place of the first digit bounds a number. -/
theorem magnitude_bounds (hc : d.coefficient ≠ 0) :
    (10 : ℚ) ^ (length d.coefficient - 1 + d.exponent) ≤ d.magnitude ∧
      d.magnitude < 10 ^ (length d.coefficient + d.exponent) := by
  have hten : (10 : ℚ) ≠ 0 := by norm_num
  have hpos : (0 : ℚ) < 10 ^ d.exponent := zpow_pos (by norm_num) _
  have hlength := length_pos d.coefficient
  have hlower : ((tenTo (length d.coefficient - 1) : Nat) : ℚ) ≤ d.coefficient :=
    Nat.cast_le.mpr (tenTo_le_of_lt_length (by omega) hc)
  have hupper : (d.coefficient : ℚ) < (tenTo (length d.coefficient) : Nat) :=
    Nat.cast_lt.mpr (lt_tenTo_length _)
  rw [tenTo_zpow, Nat.cast_sub hlength] at hlower
  rw [tenTo_zpow] at hupper
  rw [magnitude, zpow_add₀ hten, zpow_add₀ hten]
  exact ⟨mul_le_mul_of_nonneg_right hlower hpos.le, mul_lt_mul_of_pos_right hupper hpos⟩

theorem limit_bounds :
    (10 : ℚ) ^ greatestPlace ≤ limit ∧ limit < 10 ^ (greatestPlace + 1) := by
  have hten : (10 : ℚ) ≠ 0 := by norm_num
  have hpos : (0 : ℚ) < 10 ^ (greatestPlace + 1 - precision) := zpow_pos (by norm_num) _
  have hplace : greatestPlace = 27 + (greatestPlace + 1 - precision) := by decide
  have htop : greatestPlace + 1 = 28 + (greatestPlace + 1 - precision) := by decide
  have hlower : (10 : ℚ) ^ greatestPlace = 10 ^ (27 : ℤ) * 10 ^ (greatestPlace + 1 - precision) := by
    rw [← zpow_add₀ hten, ← hplace]
  have hupper : (10 : ℚ) ^ (greatestPlace + 1) =
      10 ^ (28 : ℤ) * 10 ^ (greatestPlace + 1 - precision) := by
    rw [← zpow_add₀ hten, ← htop]
  have hprecision : (10 : ℚ) ^ precision = 10 ^ (28 : ℤ) := rfl
  rw [limit, hlower, hupper, hprecision]
  constructor
  · apply mul_le_mul_of_nonneg_right _ hpos.le
    norm_num
  · apply mul_lt_mul_of_pos_right _ hpos
    norm_num

/-- A number whose first digit stands at the greatest place overflows by its first digits. -/
theorem limit_le_magnitude_of_place
    (hplace : length d.coefficient + d.exponent = greatestPlace + 1) :
    limit ≤ d.magnitude ↔ precision < length d.coefficient ∧
      (2 * tenTo precision - 1) * tenTo (length d.coefficient - precision) ≤ 2 * d.coefficient := by
  have hten : (10 : ℚ) ≠ 0 := by norm_num
  have hprecision : (10 : ℚ) ^ precision = (tenTo precision : Nat) := (cast_tenTo precision).symm
  have hlt := lt_tenTo_length d.coefficient
  by_cases hlong : precision < length d.coefficient
  · have hpos : (0 : ℚ) < 10 ^ d.exponent := zpow_pos (by norm_num) _
    have hsplit : (10 : ℚ) ^ (greatestPlace + 1 - precision) =
        (tenTo (length d.coefficient - precision) : Nat) * 10 ^ d.exponent := by
      have hsum : greatestPlace + 1 - precision =
          (length d.coefficient - precision : Nat) + d.exponent := by omega
      rw [hsum, zpow_add₀ hten, tenTo_zpow]
    have htwo : ((2 * tenTo precision - 1 : Nat) : ℚ) = 2 * (tenTo precision : Nat) - 1 := by
      have hone : 1 ≤ 2 * tenTo precision := by decide
      rw [Nat.cast_sub hone]
      norm_num
    rw [and_iff_right hlong, limit, magnitude, hprecision, hsplit, ← mul_assoc,
      mul_le_mul_iff_left₀ hpos, ← Nat.cast_le (α := ℚ), Nat.cast_mul, Nat.cast_mul, htwo]
    push_cast
    constructor <;> intro h <;> linarith
  · have hpos : (0 : ℚ) < 10 ^ (greatestPlace + 1 - precision) := zpow_pos (by norm_num) _
    have hsplit : (10 : ℚ) ^ d.exponent =
        (tenTo (precision - length d.coefficient) : Nat) * 10 ^ (greatestPlace + 1 - precision) := by
      have hsum : d.exponent =
          (precision - length d.coefficient : Nat) + (greatestPlace + 1 - precision) := by omega
      rw [hsum, zpow_add₀ hten, tenTo_zpow]
    have hbelow : (d.coefficient + 1) * tenTo (precision - length d.coefficient) ≤
        tenTo precision := by
      have hsum : length d.coefficient + (precision - length d.coefficient) = precision := by omega
      have hmul := Nat.mul_le_mul_right (tenTo (precision - length d.coefficient)) hlt
      rwa [← tenTo_add, hsum] at hmul
    have hunit : 1 ≤ tenTo (precision - length d.coefficient) := tenTo_pos _
    refine iff_of_false ?_ fun h => hlong h.1
    rw [limit, magnitude, hprecision, hsplit, ← mul_assoc, mul_le_mul_iff_left₀ hpos, not_le]
    have hbelow' : ((d.coefficient : ℚ) + 1) * (tenTo (precision - length d.coefficient) : Nat) ≤
        (tenTo precision : Nat) := by exact_mod_cast hbelow
    have hunit' : (1 : ℚ) ≤ (tenTo (precision - length d.coefficient) : Nat) := by
      exact_mod_cast hunit
    linarith

theorem limit_le_magnitude_iff (hc : d.coefficient ≠ 0) : limit ≤ d.magnitude ↔ d.Exceeds := by
  have hmagnitude := magnitude_bounds hc
  have hlimit := limit_bounds
  have hmono : ∀ {m n : ℤ}, m ≤ n → (10 : ℚ) ^ m ≤ 10 ^ n := fun h =>
    zpow_le_zpow_right₀ (by norm_num) h
  rw [Exceeds]
  rcases lt_trichotomy ((length d.coefficient : ℤ) + d.exponent) (greatestPlace + 1) with h | h | h
  · refine iff_of_false ?_ (by omega)
    have hplace := hmono (show (length d.coefficient : ℤ) + d.exponent ≤ greatestPlace by omega)
    rw [not_le]
    linarith
  · rw [limit_le_magnitude_of_place h]
    constructor
    · exact fun hboth => .inr ⟨h, hboth⟩
    · intro hboth
      rcases hboth with hgreater | ⟨-, hboth⟩
      · omega
      · exact hboth
  · refine iff_of_true ?_ (.inl h)
    have hplace := hmono (show greatestPlace + 1 ≤ (length d.coefficient : ℤ) - 1 + d.exponent by omega)
    linarith

/-- Rounding overflows from the limit on, and only there. -/
theorem round?_eq_none_iff (d : Decimal) : d.round? = none ↔ limit ≤ d.magnitude := by
  by_cases hc : d.coefficient = 0
  · have hpos : (0 : ℚ) < 10 ^ greatestPlace := zpow_pos (by norm_num) _
    have hlimit := limit_bounds.1
    have hzero : d.magnitude = 0 := by simp [magnitude, hc]
    refine iff_of_false (by simp [round?, hc]) ?_
    rw [hzero, not_le]
    linarith
  · rw [round?_eq_none_iff_exceeds hc, limit_le_magnitude_iff hc]

theorem hundredfold?_eq_none_iff (d : Decimal) :
    d.hundredfold? = none ↔ limit ≤ 100 * d.magnitude := by
  have hmagnitude : magnitude { d with coefficient := 100 * d.coefficient } = 100 * d.magnitude := by
    simp [magnitude, mul_assoc]
  rw [hundredfold?, round?_eq_none_iff, hmagnitude]

theorem magnitude_nonneg (d : Decimal) : 0 ≤ d.magnitude :=
  mul_nonneg (Nat.cast_nonneg _) (zpow_nonneg (by norm_num) _)

/-- A number that is too great to be rounded is too great to be multiplied. -/
theorem hundredfold?_of_round? (h : d.round? = none) : d.hundredfold? = none := by
  have hnonneg := d.magnitude_nonneg
  rw [round?_eq_none_iff] at h
  rw [hundredfold?_eq_none_iff]
  linarith

/-- A number of the precision and the range is not changed by rounding. -/
theorem round?_of_fits (hc : d.coefficient < tenTo precision) (hl : leastExponent ≤ d.exponent)
    (hu : d.exponent ≤ 0) : d.round? = some d := by
  have hgreatest : greatestPlace = 999999 := rfl
  by_cases hzero : d.coefficient = 0
  · have hexponent : max leastExponent (min d.exponent greatestPlace) = d.exponent := by omega
    rw [round?, if_pos (beq_iff_eq.mpr hzero), hexponent]
  · have hlength : length d.coefficient ≤ precision := (length_le_iff (by decide)).mpr hc
    have hprecision : precision = 28 := rfl
    have hplaces : d.extraPlaces = 0 := by
      unfold extraPlaces
      omega
    have hnot : ¬ (d.coefficient != 0 &&
        decide (greatestPlace < d.exponent + (Nat.toDigits 10 d.coefficient).length - 1)) = true := by
      have hplace : ¬ greatestPlace < d.exponent + (Nat.toDigits 10 d.coefficient).length - 1 := by
        have hsame : (Nat.toDigits 10 d.coefficient).length = length d.coefficient := rfl
        omega
      simp [hplace]
    have hextra : max ((Nat.toDigits 10 d.coefficient).length - precision)
        (leastExponent - d.exponent).toNat = 0 := hplaces
    unfold round?
    simp only [hextra, beq_iff_eq, hzero, if_false, dropPlaces_zero, Nat.ne_of_lt hc,
      Nat.cast_zero, add_zero]
    rw [if_neg hnot]

theorem hundredfold?_of_fits (hc : 100 * d.coefficient < tenTo precision)
    (hl : leastExponent ≤ d.exponent) (hu : d.exponent ≤ 0) :
    ∃ percent, d.hundredfold? = some percent ∧ percent.toRat = 100 * d.toRat := by
  refine ⟨{ d with coefficient := 100 * d.coefficient }, ?_, ?_⟩
  · exact round?_of_fits (d := { d with coefficient := 100 * d.coefficient }) hc hl hu
  · unfold toRat magnitude
    push_cast
    split
    next => ring
    next => ring

/-- The zeros at the end of the digits of a number are all the tens that it can be divided by. -/
theorem trailing_zeros {n : Nat} (hn : n ≠ 0) :
    ∃ m, n = m * tenTo ((Nat.toDigits 10 n).reverse.takeWhile (· == '0')).length ∧ ¬ 10 ∣ m := by
  have hdigit : ∀ k < 10, (Nat.digitChar k == '0') = (k == 0) := by decide
  induction n using Nat.strong_induction_on with
  | h n ih =>
    rw [Nat.toDigits_eq_if (by omega)]
    by_cases hless : n < 10
    · refine ⟨n, ?_, by omega⟩
      have hnot : (Nat.digitChar n == '0') = false := by rw [hdigit n hless]; simpa using hn
      have hone : tenTo 0 = 1 := rfl
      simp [hless, hnot, hone]
    · rw [if_neg hless, List.reverse_concat, List.takeWhile_cons, hdigit _ (Nat.mod_lt n (by omega))]
      by_cases hmod : n % 10 = 0
      · obtain ⟨m, hm, hnot⟩ := ih (n / 10) (by omega) (by omega)
        refine ⟨m, ?_, hnot⟩
        rw [if_pos (beq_iff_eq.mpr hmod), List.length_cons, tenTo_succ, ← mul_assoc, ← hm]
        omega
      · refine ⟨n, ?_, by omega⟩
        have hone : tenTo 0 = 1 := rfl
        rw [if_neg (by simpa using hmod), List.length_nil, hone, Nat.mul_one]

theorem exists_reduced (hc : d.coefficient ≠ 0) :
    ∃ m zeros, d.coefficient = m * tenTo zeros ∧ ¬ 10 ∣ m ∧
      d.reduced = ⟨d.negative, m, d.exponent + zeros⟩ := by
  obtain ⟨m, hm, hnot⟩ := trailing_zeros hc
  refine ⟨m, _, hm, hnot, ?_⟩
  rw [reduced, if_neg (by simpa using hc)]
  dsimp only
  congr 1
  exact Nat.div_eq_of_eq_mul_left (tenTo_pos _) hm

theorem mul_zpow_eq_iff {m : Nat} (hm : ¬ 10 ∣ m) {exponent n : Int} :
    (m : ℚ) * 10 ^ exponent = n ↔ 0 ≤ exponent ∧ ((m * tenTo exponent.toNat : Nat) : Int) = n := by
  by_cases he : 0 ≤ exponent
  · have hpow : (10 : ℚ) ^ exponent = (tenTo exponent.toNat : Nat) := by
      rw [tenTo_zpow, Int.toNat_of_nonneg he]
    rw [and_iff_right he, hpow]
    norm_cast
  · refine iff_of_false (fun h => hm ?_) fun h => he h.1
    have hpos : (0 : ℚ) < 10 ^ (-exponent) := zpow_pos (by norm_num) _
    have hpow : (10 : ℚ) ^ (-exponent) = (tenTo (-exponent).toNat : Nat) := by
      rw [tenTo_zpow, Int.toNat_of_nonneg (by omega)]
    have hprod : (m : ℚ) = n * (tenTo (-exponent).toNat : Nat) := by
      rw [← h, ← hpow, mul_assoc, ← zpow_add₀ (by norm_num)]
      simp
    have hint : (m : Int) = n * (tenTo (-exponent).toNat : Nat) := by exact_mod_cast hprod
    obtain ⟨k, hk⟩ : ∃ k, (-exponent).toNat = k + 1 := ⟨(-exponent).toNat - 1, by omega⟩
    rw [hk, tenTo_succ] at hint
    have hdvd : (10 : Int) ∣ m := ⟨n * (tenTo k : Nat), by rw [hint]; push_cast; ring⟩
    exact_mod_cast hdvd

theorem tenTo_dvd_iff {m : Nat} (hm : ¬ 10 ∣ m) {j k : Nat} : tenTo j ∣ m * tenTo k ↔ j ≤ k := by
  constructor
  · intro h
    by_contra hlt
    have hten : tenTo (k + 1) ∣ m * tenTo k := (Nat.pow_dvd_pow 10 (by omega)).trans h
    rw [tenTo_succ, Nat.mul_comm (tenTo k)] at hten
    exact hm (Nat.dvd_of_mul_dvd_mul_right (tenTo_pos k) hten)
  · intro h
    exact (Nat.pow_dvd_pow 10 h).trans (Nat.dvd_mul_left _ m)

/-- A decimal is a whole number that ends in at most some zeros exactly if it gives this number. -/
theorem toInt?_eq_some_iff {zeros : Nat} {n : Int} :
    d.toInt? zeros = some n ↔ d.toRat = n ∧ (n ≠ 0 → ¬ ((tenTo (zeros + 1) : Nat) : Int) ∣ n) := by
  by_cases hc : d.coefficient = 0
  · have hint : d.toInt? zeros = some 0 := by simp [toInt?, reduced, hc]
    have hrat : d.toRat = 0 := by simp [toRat, magnitude, hc]
    have hcast : (0 : ℚ) = n ↔ 0 = n := by norm_cast
    rw [hint, hrat, Option.some.injEq, hcast]
    exact ⟨fun h => ⟨h, fun hne => absurd h.symm hne⟩, fun h => h.1⟩
  · obtain ⟨m, k, hm, hten, hreduced⟩ := exists_reduced hc
    have hmagnitude : d.magnitude = (m : ℚ) * 10 ^ (d.exponent + k) := by
      rw [magnitude, hm, Nat.cast_mul, tenTo_zpow, mul_assoc, ← zpow_add₀ (by norm_num),
        add_comm (k : Int)]
    have hint : d.toInt? zeros = if 0 ≤ d.exponent + k ∧ d.exponent + k ≤ zeros then
        some (if d.negative then -((m * tenTo (d.exponent + k).toNat : Nat) : Int)
          else (m * tenTo (d.exponent + k).toNat : Nat)) else none := by
      simp only [toInt?, hreduced, Bool.and_eq_true, decide_eq_true_eq]
    -- what is said of a number is said of its size
    have hrat : d.toRat = n ↔ d.magnitude = ((if d.negative then -n else n : Int) : ℚ) := by
      unfold toRat
      split
      next => rw [Int.cast_neg, neg_eq_iff_eq_neg]
      next => rfl
    have hsize : (if d.negative then -((m * tenTo (d.exponent + k).toNat : Nat) : Int)
          else (m * tenTo (d.exponent + k).toNat : Nat)) = n ↔
        ((m * tenTo (d.exponent + k).toNat : Nat) : Int) = if d.negative then -n else n := by
      split
      next => exact neg_eq_iff_eq_neg
      next => rfl
    have hends : (n ≠ 0 → ¬ ((tenTo (zeros + 1) : Nat) : Int) ∣ n) ↔
        ((if d.negative then -n else n) ≠ 0 →
          ¬ ((tenTo (zeros + 1) : Nat) : Int) ∣ if d.negative then -n else n) := by
      split
      next => rw [neg_ne_zero, dvd_neg]
      next => rfl
    have hpos : m * tenTo (d.exponent + k).toNat ≠ 0 := by
      have htens := tenTo_pos (d.exponent + k).toNat
      refine Nat.mul_ne_zero ?_ (by omega)
      rintro rfl
      exact hten (Nat.dvd_zero 10)
    rw [hint, Option.ite_none_right_eq_some, Option.some.injEq, hsize, hrat, hmagnitude,
      mul_zpow_eq_iff hten, hends]
    constructor
    · rintro ⟨⟨hl, hu⟩, h⟩
      refine ⟨⟨hl, h⟩, fun _ => ?_⟩
      rw [← h, Int.natCast_dvd_natCast, tenTo_dvd_iff hten]
      omega
    · rintro ⟨⟨hl, h⟩, hnot⟩
      rw [← h, Int.natCast_dvd_natCast, tenTo_dvd_iff hten] at hnot
      have hle := hnot (by exact_mod_cast hpos)
      exact ⟨⟨hl, by omega⟩, h⟩

end

end Decimal

end Restyle
