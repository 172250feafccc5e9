import Restyle.Number.Numeral

namespace Restyle

namespace Double

/-- That a number has a sign; zero has both. -/
inductive HasSign (negative : Bool) : Double → Prop where
  | finite (mantissa : Nat) (exponent : Int) : HasSign negative (.finite negative mantissa exponent)
  | infinite : HasSign negative (.infinite negative)

theorem hasSign_ofRatio (negative : Bool) (num den : Nat) :
    HasSign negative (ofRatio negative num den) := by
  unfold ofRatio
  split
  next => exact .finite _ _
  next =>
    extract_lets exponent mantissa
    split
    split
    next => exact .infinite
    next => exact .finite _ _

theorem hasSign_ofDecimal (negative : Bool) (coefficient : Nat) (exponent : Int) :
    HasSign negative (ofDecimal negative coefficient exponent) := by
  unfold ofDecimal
  extract_lets digits
  split
  next => exact .finite _ _
  next =>
    split
    next => exact .infinite
    next => exact hasSign_ofRatio _ _ _

theorem HasSign.not_less_zero {x : Double} (h : x.HasSign false) :
    x.less (.ofInt 0) = false := by
  have hzero : ofInt 0 = .finite false 0 (-1074) := rfl
  rw [hzero]
  cases h with
  | finite mantissa exponent =>
    simp only [less, units, Bool.false_eq_true, if_false, decide_eq_false_iff_not]
    omega
  | infinite => rfl

end Double

namespace Numeral

theorem mem_of_readUnsigned? {negative : Bool} {cs : List Char} {numeral : Numeral}
    (h : readUnsigned? negative cs = some numeral) :
    ∀ c ∈ cs, Text.isDigit c = true ∨ c = '.' := by
  intro c hc
  rw [← List.takeWhile_append_dropWhile (p := Text.isDigit) (l := cs)] at hc
  rcases List.mem_append.mp hc with hc | hc
  · exact Or.inl (List.all_eq_true.mp List.all_takeWhile c hc)
  · simp only [readUnsigned?] at h
    split at h
    next => cases h
    next =>
      split at h
      next hd =>
        rw [hd] at hc
        cases hc
      next fraction hd =>
        rw [hd] at hc
        split at h
        next hf =>
          simp only [Bool.and_eq_true, List.all_eq_true] at hf
          rcases List.mem_cons.mp hc with rfl | hc
          · exact Or.inr rfl
          · exact Or.inl (hf.2 c hc)
        next => cases h
      next => cases h

theorem mem_of_read? {cs : List Char} {numeral : Numeral} (h : read? cs = some numeral) :
    ∀ c ∈ cs, Text.isDigit c = true ∨ c = '.' ∨ c = '-' := by
  intro c hc
  unfold read? at h
  split at h
  next cs =>
    rcases List.mem_cons.mp hc with rfl | hc
    · exact Or.inr (Or.inr rfl)
    · exact (mem_of_readUnsigned? h c hc).imp_right Or.inl
  next => exact (mem_of_readUnsigned? h c hc).imp_right Or.inl

theorem negative_of_readUnsigned? {negative : Bool} {cs : List Char} {numeral : Numeral}
    (h : readUnsigned? negative cs = some numeral) : numeral.negative = negative := by
  unfold readUnsigned? at h
  dsimp only at h
  split at h
  next => cases h
  next =>
    split at h
    next =>
      cases h
      rfl
    next =>
      split at h
      next =>
        cases h
        rfl
      next => cases h
    next => cases h

theorem not_isBelow_of_value {numeral : Numeral} {px : Number} (hn : numeral.negative = false)
    (h : numeral.value = .ok px) : px.isBelow 0 = false := by
  unfold value at h
  rw [hn] at h
  split at h
  next =>
    cases h
    exact (Double.hasSign_ofDecimal false _ _).not_less_zero
  next =>
    split at h
    next => cases h
    next =>
      cases h
      simp [Number.isBelow]

end Numeral

end Restyle
