import Mathlib.Data.List.TakeWhile
import Restyle.Pattern.Inline
import Restyle.Proofs.Expression.Literal
import Restyle.Proofs.Returns

namespace Restyle

/-- The faults of numbers: one has too many digits, or names no interpolation. -/
def Fault.isMisnumbered : Fault → Bool
  | .tooManyDigits _ | .outOfRange => true
  | _ => false

namespace Numeral

/-- How many digits a text has, if they are all it has and more than are read. -/
def excessDigits? (digits : List Char) : Option Nat :=
  if digits.all Text.isDigit = true ∧ 4300 < digits.length then some digits.length else none

/-- The same of a text that may have a minus sign before the digits. -/
def excess? : List Char → Option Nat
  | '-' :: digits => excessDigits? digits
  | digits => excessDigits? digits

theorem of_excessDigits? {digits : List Char} {n : Nat} (h : excessDigits? digits = some n) :
    (∀ c ∈ digits, Text.isDigit c = true) ∧ 4300 < digits.length ∧ digits.length = n := by
  unfold excessDigits? at h
  split at h
  next hd =>
    cases h
    exact ⟨List.all_eq_true.mp hd.1, hd.2, rfl⟩
  next => cases h

theorem readUnsigned?_of_excessDigits? {digits : List Char} {n : Nat}
    (h : excessDigits? digits = some n) (negative : Bool) :
    ∃ numeral, readUnsigned? negative digits = some numeral ∧
      numeral.value = .error (.tooManyDigits n) := by
  obtain ⟨hall, hlength, rfl⟩ := of_excessDigits? h
  have htake : digits.takeWhile Text.isDigit = digits := List.takeWhile_eq_self_iff.mpr hall
  have hdrop : digits.dropWhile Text.isDigit = [] := List.dropWhile_eq_nil_iff.mpr hall
  have hne : digits ≠ [] := List.ne_nil_of_length_pos (by omega)
  exact ⟨⟨negative, digits, none⟩, by simp [readUnsigned?, htake, hdrop, hne],
    by simp [value, hlength]⟩

theorem exists_value_of_excessDigits? {digits : List Char} (h : excessDigits? digits = none)
    {negative : Bool} {numeral : Numeral} (hr : readUnsigned? negative digits = some numeral) :
    ∃ x, numeral.value = .ok x := by
  simp only [readUnsigned?] at hr
  split at hr
  next => cases hr
  next =>
    split at hr
    next hdrop =>
      cases hr
      have hall := List.dropWhile_eq_nil_iff.mp hdrop
      have htake : digits.takeWhile Text.isDigit = digits := List.takeWhile_eq_self_iff.mpr hall
      have hlength : ¬ 4300 < digits.length := by
        intro hl
        rw [excessDigits?, if_pos ⟨List.all_eq_true.mpr hall, hl⟩] at h
        cases h
      simp only [value, htake, if_neg hlength]
      exact ⟨_, rfl⟩
    next =>
      split at hr
      next =>
        cases hr
        exact ⟨_, rfl⟩
      next => cases hr
    next => cases hr

theorem read?_of_excess? {cs : List Char} {n : Nat} (h : excess? cs = some n) :
    ∃ numeral, read? cs = some numeral ∧ numeral.value = .error (.tooManyDigits n) := by
  unfold excess? at h
  split at h
  next digits => exact readUnsigned?_of_excessDigits? h true
  next hsign =>
    obtain ⟨numeral, hr, hv⟩ := readUnsigned?_of_excessDigits? h false
    exact ⟨numeral, by rw [read?]; exact hr; exact hsign, hv⟩

theorem exists_value_of_excess? {cs : List Char} (h : excess? cs = none) {numeral : Numeral}
    (hr : read? cs = some numeral) : ∃ x, numeral.value = .ok x := by
  unfold excess? at h
  unfold read? at hr
  split at h
  next digits => exact exists_value_of_excessDigits? h hr
  next hsign =>
    split at hr
    next digits => exact absurd rfl (hsign digits)
    next => exact exists_value_of_excessDigits? h hr

/-- A number does not start with a quote. -/
theorem head?_of_excess? {cs : List Char} {n : Nat} (h : excess? cs = some n) :
    ∀ c ∈ cs.head?, Expression.isPlainQuote c = false := by
  intro c hc
  unfold excess? at h
  split at h
  next digits =>
    cases hc
    rfl
  next =>
    have hdigit := (of_excessDigits? h).1 c (List.mem_of_head? hc)
    refine Bool.eq_false_iff.mpr fun hquote => ?_
    rcases Bool.or_eq_true_iff.mp hquote with he | he
    · rw [eq_of_beq he] at hdigit
      exact absurd hdigit (by decide)
    · rw [eq_of_beq he] at hdigit
      exact absurd hdigit (by decide)

end Numeral

namespace Expression

theorem literal?_of_excess? {raw : List Char} {n : Nat}
    (h : Numeral.excess? (Text.trim raw) = some n) :
    literal? raw = .error (.tooManyDigits n) := by
  obtain ⟨numeral, hr, hv⟩ := Numeral.read?_of_excess? h
  simp only [literal?, unquote?_eq_none (Numeral.head?_of_excess? h), hr, hv]
  rfl

theorem exists_literal? {raw : List Char} (h : Numeral.excess? (Text.trim raw) = none) :
    ∃ value, literal? raw = .ok value := by
  simp only [literal?]
  split
  next => exact ⟨_, rfl⟩
  next =>
    split
    next numeral hr =>
      obtain ⟨x, hx⟩ := Numeral.exists_value_of_excess? h hr
      rw [hx]
      exact ⟨_, rfl⟩
    next => exact ⟨_, rfl⟩

end Expression

theorem InlinePattern.bracedProperty_returns (name : String) (expression : List Char) :
    ReturnsIff (Numeral.excess? expression = none) (fun _ => True) (·.isMisnumbered = true)
      (bracedProperty name expression) := by
  constructor
  · intro h
    unfold bracedProperty
    split
    next numeral hr =>
      obtain ⟨x, hx⟩ := Numeral.exists_value_of_excess? h hr
      rw [hx]
      exact ⟨_, rfl, trivial⟩
    next =>
      split
      next => exact ⟨_, rfl, trivial⟩
      next => exact ⟨_, rfl, trivial⟩
  · intro h
    obtain ⟨n, hn⟩ := Option.ne_none_iff_exists'.mp h
    obtain ⟨numeral, hr, hv⟩ := Numeral.read?_of_excess? hn
    refine ⟨.tooManyDigits n, ?_, rfl⟩
    rw [bracedProperty, hr]
    exact congrArg (Except.map _) hv

end Restyle
