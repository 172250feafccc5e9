import Restyle.Expression.Literal
import Restyle.Proofs.Text.Trim

namespace Restyle

namespace Text

theorem digitValue?_of_isDigit {c : Char} (h : c.isDigit = true) :
    digitValue? c = some (c.toNat - 48) := by
  have hr : c.toNat < 128 := by have := isDigit_range h; omega
  simp [digitValue?, hr, h]

theorem isDigit_of_low {c : Char} (h : isDigit c = true) (hlow : c.toNat < 128) :
    c.isDigit = true := by
  unfold isDigit digitValue? at h
  rw [if_pos hlow] at h
  split at h
  next hd => exact hd
  next => cases h

theorem digitsValue_toDigits (n : Nat) : digitsValue (Nat.toDigits 10 n) = n := by
  have hf : ∀ (cs : List Char) (m : Nat), (∀ c ∈ cs, c.isDigit = true) →
      cs.foldl (fun n c => 10 * n + (digitValue? c).getD 0) m = Nat.ofDigitChars 10 cs m := by
    intro cs
    induction cs with
    | nil => intro m _; simp
    | cons c cs ih =>
      intro m hc
      have hd := digitValue?_of_isDigit (hc c List.mem_cons_self)
      rw [List.foldl_cons, Nat.ofDigitChars_cons, hd]
      exact ih _ fun d hd => hc d (List.mem_cons_of_mem c hd)
  have hd : ∀ c ∈ Nat.toDigits 10 n, c.isDigit = true := fun c hc =>
    Nat.isDigit_of_mem_toDigits (by omega) (by omega) hc
  rw [digitsValue, hf _ 0 hd, Nat.ofDigitChars_ten_toDigits]

theorem isDigit_of_mem_toDigits {c : Char} {n : Nat} (h : c ∈ Nat.toDigits 10 n) :
    isDigit c = true := by
  have hd : c.isDigit = true := Nat.isDigit_of_mem_toDigits (by omega) (by omega) h
  simp [isDigit, digitValue?_of_isDigit hd]

end Text

namespace Numeral

theorem readUnsigned?_toDigits (negative : Bool) (n : Nat) :
    readUnsigned? negative (Nat.toDigits 10 n) = some ⟨negative, Nat.toDigits 10 n, none⟩ := by
  have hd : ∀ c ∈ Nat.toDigits 10 n, Text.isDigit c = true := fun c hc =>
    Text.isDigit_of_mem_toDigits hc
  have ht : (Nat.toDigits 10 n).takeWhile Text.isDigit = Nat.toDigits 10 n := by
    simpa using Text.takeWhile_append_of_head hd (by simp : ∀ c ∈ [].head?, Text.isDigit c = false)
  have hr : (Nat.toDigits 10 n).dropWhile Text.isDigit = [] := by
    simpa using Text.dropWhile_append_of_head hd (by simp : ∀ c ∈ [].head?, Text.isDigit c = false)
  simp [readUnsigned?, ht, hr, Nat.toDigits_ne_nil]

end Numeral

/-- The text of a whole number is its digits, after the sign. -/
theorem toList_toString_int (n : Int) : (toString n).toList =
    if n < 0 then '-' :: Nat.toDigits 10 n.natAbs else Nat.toDigits 10 n.natAbs := by
  rw [Int.toString_eq_repr, Int.repr_eq_if]
  split
  next hn =>
    have ha : n.toNat = n.natAbs := by omega
    rw [if_neg (by omega), Nat.toList_repr, ha]
  next hn =>
    have ha : (-n).toNat = n.natAbs := by omega
    rw [if_pos (by omega), String.toList_append, Nat.toList_repr, ha]
    rfl

theorem mem_toString_int {n : Int} {c : Char} (h : c ∈ (toString n).toList) :
    c = '-' ∨ c.isDigit = true := by
  have hd : ∀ d ∈ Nat.toDigits 10 n.natAbs, d.isDigit = true := fun d hd =>
    Nat.isDigit_of_mem_toDigits (by omega) (by omega) hd
  rw [toList_toString_int] at h
  split at h
  next =>
    rcases List.mem_cons.mp h with hc | hc
    · exact Or.inl hc
    · exact Or.inr (hd c hc)
  next => exact Or.inr (hd c h)

namespace Numeral

theorem read?_toString_int (n : Int) : read? (toString n).toList =
    some ⟨decide (n < 0), Nat.toDigits 10 n.natAbs, none⟩ := by
  rw [toList_toString_int]
  split
  next hn => simp [read?, readUnsigned?_toDigits, hn]
  next hn =>
    have hd : ∀ c ∈ Nat.toDigits 10 n.natAbs, c ≠ '-' := by
      rintro c hc rfl
      exact absurd (Text.isDigit_of_mem_toDigits hc) (by decide)
    rw [← readUnsigned?_toDigits (decide (n < 0)), read?.eq_def]
    split
    next cs he => exact absurd rfl (hd '-' (he ▸ List.mem_cons_self))
    next => simp [hn]

theorem value_of_digits {n : Int} (h : (Nat.toDigits 10 n.natAbs).length ≤ 4300) :
    (Numeral.mk (decide (n < 0)) (Nat.toDigits 10 n.natAbs) none).value = .ok (.whole n) := by
  have hl : ¬4300 < (Nat.toDigits 10 n.natAbs).length := by omega
  have hv : (if n < 0 then -(n.natAbs : Int) else n.natAbs) = n := by
    split
    next => omega
    next => omega
  simp only [value, hl, if_false, Text.digitsValue_toDigits, decide_eq_true_eq, hv]

end Numeral

namespace Expression

theorem unquote?_eq_none {isMark : Char → Bool} {cs : List Char}
    (h : ∀ c ∈ cs.head?, isMark c = false) : unquote? isMark cs = none := by
  cases cs with
  | nil => rfl
  | cons c cs => simp [unquote?, h c rfl]

theorem quotesEscaped_of_not_mem {quote : Char} {cs : List Char} (h : quote ∉ cs) (escape : Bool) :
    quotesEscaped quote escape cs = true := by
  induction cs generalizing escape with
  | nil => rfl
  | cons c cs ih =>
    have hc : c ≠ quote := fun he => h (he ▸ List.mem_cons_self)
    simp [quotesEscaped, hc, ih (fun hm => h (List.mem_cons_of_mem c hm))]

theorem unquote?_quoted {isMark : Char → Bool} {quote : Char} {cs : List Char}
    (hq : isMark quote = true) (h : quote ∉ cs) :
    unquote? isMark (quote :: cs ++ [quote]) = some cs := by
  simp [unquote?, hq, quotesEscaped_of_not_mem h]

theorem literal?_toString_int {n : Int} (h : (Nat.toDigits 10 n.natAbs).length ≤ 4300) :
    literal? (toString n).toList = .ok (some (.whole n)) := by
  have hc : ∀ c ∈ (toString n).toList, Text.isBlank c = false ∧ isPlainQuote c = false := by
    intro c hc
    rcases mem_toString_int hc with rfl | hd
    · decide
    · have hr := Text.isDigit_range hd
      have hne : ∀ d : Char, d.isDigit = false → c ≠ d := by
        intro d hf he
        rw [he, hf] at hd
        exact Bool.false_ne_true hd
      refine ⟨?_, by simp [isPlainQuote, hne '\x27' (by decide), hne '\x22' (by decide)]⟩
      simp only [Text.isBlank, Bool.or_eq_false_iff, Bool.and_eq_false_iff,
        decide_eq_false_iff_not, beq_eq_false_iff_ne]
      omega
  have ht := Text.trim_of_isTrimmed (Text.isTrimmed_of_all fun c hm => (hc c hm).1)
  have hu : unquote? isPlainQuote (toString n).toList = none :=
    unquote?_eq_none fun c hm => (hc c (List.mem_of_head? hm)).2
  simp only [literal?, ht, hu, Numeral.read?_toString_int, Numeral.value_of_digits h]
  rfl

theorem isTrimmed_quoted {quote : Char} (hq : isPlainQuote quote = true) (cs : List Char) :
    Text.IsTrimmed (quote :: cs ++ [quote]) := by
  have hblank : Text.isBlank quote = false := by
    rw [isPlainQuote, Bool.or_eq_true, beq_iff_eq, beq_iff_eq] at hq
    rcases hq with rfl | rfl
    · decide
    · decide
  refine ⟨by simpa using hblank, ?_⟩
  rw [List.getLast?_append_of_ne_nil _ (by simp)]
  simpa using hblank

theorem literal?_quoted {quote : Char} (hq : isPlainQuote quote = true) {cs : List Char}
    (h : quote ∉ cs) :
    literal? (quote :: cs ++ [quote]) = .ok (some (.text (String.ofList cs))) := by
  simp only [literal?, Text.trim_of_isTrimmed (isTrimmed_quoted hq cs), unquote?_quoted hq h]

end Expression

end Restyle
