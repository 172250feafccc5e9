import Restyle.Number.Decimal
import Restyle.Number.Numeral
import Restyle.Proofs.Expression.Literal
import Restyle.Proofs.Text.Trim

namespace Restyle

/-- The digits, the signs, the point, the mark of an exponent, and the letters of the numbers that
are not finite. -/
def isNumeric (c : Char) : Bool := c.isDigit || "-+.einfa".toList.contains c

theorem isNumeric_of_isDigit {c : Char} (h : c.isDigit = true) : isNumeric c = true := by
  rw [isNumeric, h, Bool.true_or]

/-- What holds of all digits and of the other characters of numbers holds of all of them. -/
theorem forall_isNumeric {p : Char → Prop} (hd : ∀ c : Char, c.isDigit = true → p c)
    (ho : ∀ c ∈ "-+.einfa".toList, p c) {c : Char} (h : isNumeric c = true) : p c := by
  rcases Bool.or_eq_true_iff.mp h with h | h
  · exact hd c h
  · exact ho c (List.contains_iff_mem.mp h)

theorem isBlank_of_isNumeric {c : Char} (h : isNumeric c = true) : Text.isBlank c = false := by
  refine forall_isNumeric (p := (Text.isBlank · = false)) (fun c hc => ?_) (by decide) h
  have hr := Text.isDigit_range hc
  simp only [Text.isBlank, Bool.or_eq_false_iff, Bool.and_eq_false_iff, decide_eq_false_iff_not,
    beq_eq_false_iff_ne]
  omega

theorem isNumeric_of_mem_toDigits {n : Nat} : ∀ c ∈ Nat.toDigits 10 n, isNumeric c = true :=
  fun _ hc => isNumeric_of_isDigit (Nat.isDigit_of_mem_toDigits (by omega) (by omega) hc)

theorem isNumeric_of_mem_zeros {n : Nat} : ∀ c ∈ List.replicate n '0', isNumeric c = true := by
  intro c hc
  rw [(List.mem_replicate.mp hc).2]
  rfl

theorem isNumeric_of_mem_sign (negative : Bool) :
    ∀ c ∈ (if negative then ['-'] else []), isNumeric c = true := by
  cases negative <;> decide

theorem isNumeric_of_mem_toString_int (n : Int) :
    ∀ c ∈ (toString n).toList, isNumeric c = true := by
  intro c hc
  rcases mem_toString_int hc with rfl | hd
  · rfl
  · exact isNumeric_of_isDigit hd

namespace Double

theorem isNumeric_of_mem_exponentText (e : Int) : ∀ c ∈ exponentText e, isNumeric c = true := by
  have hsign : isNumeric (if e < 0 then '-' else '+') = true := by
    split
    next => rfl
    next => rfl
  simp only [exponentText, List.cons_append, List.forall_mem_cons, List.forall_mem_append]
  exact ⟨hsign, isNumeric_of_mem_zeros, isNumeric_of_mem_toDigits⟩

theorem isNumeric_of_mem_layOut {digits : List Char} (h : ∀ c ∈ digits, isNumeric c = true)
    (place : Int) : ∀ c ∈ layOut digits place, isNumeric c = true := by
  have htake : ∀ n, ∀ c ∈ digits.take n, isNumeric c = true := fun n c hc =>
    h c (List.mem_of_mem_take hc)
  have hdrop : ∀ n, ∀ c ∈ digits.drop n, isNumeric c = true := fun n c hc =>
    h c (List.mem_of_mem_drop hc)
  unfold layOut
  split
  next =>
    split
    next =>
      simp only [List.cons_append, List.forall_mem_cons, List.forall_mem_append]
      exact ⟨rfl, rfl, isNumeric_of_mem_zeros, h⟩
    next =>
      simp only [List.forall_mem_append, List.forall_mem_cons]
      refine ⟨⟨htake _, isNumeric_of_mem_zeros⟩, rfl, ?_⟩
      split
      next => exact List.forall_mem_singleton.mpr rfl
      next => exact hdrop _
  next =>
    simp only [List.forall_mem_append, List.forall_mem_cons]
    refine ⟨⟨htake 1, ?_⟩, rfl, isNumeric_of_mem_exponentText place⟩
    split
    next => exact List.forall_mem_nil _
    next => exact List.forall_mem_cons.mpr ⟨rfl, hdrop 1⟩

theorem isNumeric_of_mem_shortest (mantissa : Nat) (exponent : Int) :
    ∀ c ∈ (shortest mantissa exponent).1, isNumeric c = true := by
  unfold shortest
  dsimp only
  split
  next => exact List.forall_mem_singleton.mpr rfl
  next =>
    intro c hc
    have hm := (List.dropWhile_suffix _).subset (List.mem_reverse.mp hc)
    exact isNumeric_of_mem_toDigits c (List.mem_reverse.mp hm)

theorem isNumeric_of_mem_text (x : Double) : ∀ c ∈ x.text, isNumeric c = true := by
  cases x with
  | undefined => decide
  | infinite negative => cases negative <;> decide
  | finite negative mantissa exponent =>
    unfold text
    refine List.forall_mem_append.mpr ⟨isNumeric_of_mem_sign negative, ?_⟩
    split
    next => decide
    next => exact isNumeric_of_mem_layOut (isNumeric_of_mem_shortest mantissa exponent) _

end Double

theorem Number.isNumeric_of_mem_text (x : Number) : ∀ c ∈ x.text.toList, isNumeric c = true := by
  cases x with
  | whole n => exact isNumeric_of_mem_toString_int n
  | double d =>
    unfold text
    split
    next => cases ‹_ = _›
    next h =>
      cases h
      split
      next n _ => exact isNumeric_of_mem_toString_int n
      next =>
        rw [String.toList_ofList]
        exact d.isNumeric_of_mem_text

namespace Decimal

theorem isNumeric_of_mem_plainText (d : Decimal) : ∀ c ∈ d.plainText, isNumeric c = true := by
  unfold plainText
  refine List.forall_mem_append.mpr ⟨isNumeric_of_mem_sign d.negative, ?_⟩
  split
  next => exact List.forall_mem_append.mpr ⟨isNumeric_of_mem_toDigits, isNumeric_of_mem_zeros⟩
  next =>
    extract_lets places padded whole
    have hpadded : ∀ c ∈ padded, isNumeric c = true :=
      List.forall_mem_append.mpr ⟨isNumeric_of_mem_zeros, isNumeric_of_mem_toDigits⟩
    refine List.forall_mem_append.mpr ⟨fun c hc => hpadded c (List.mem_of_mem_take hc), ?_⟩
    exact List.forall_mem_cons.mpr ⟨rfl, fun c hc => hpadded c (List.mem_of_mem_drop hc)⟩

theorem isNumeric_of_mem_normalText? {d : Decimal} {text : List Char}
    (h : d.normalText? = some text) : ∀ c ∈ text, isNumeric c = true := by
  obtain ⟨rounded, -, h⟩ := Option.bind_eq_some_iff.mp h
  cases h
  exact isNumeric_of_mem_plainText _

end Decimal

end Restyle
