import Restyle.Expression.Name
import Restyle.Proofs.Text.Trim

namespace Restyle

namespace Text

/-- The blanks beyond ASCII. -/
def blankSpans : List (Nat × Nat) := [
  (0x85, 0x85), (0xa0, 0xa0), (0x1680, 0x1680), (0x2000, 0x200a), (0x2028, 0x2029),
  (0x202f, 0x202f), (0x205f, 0x205f), (0x3000, 0x3000)]

/-- Whether two lists of spans have no code point in common. -/
def areApart (spans others : List (Nat × Nat)) : Bool :=
  spans.all fun span => others.all fun other => other.2 < span.1 || span.2 < other.1

theorem inSpans_eq_false {spans others : List (Nat × Nat)} {n : Nat}
    (h : areApart spans others = true) (hn : inSpans spans n = true) :
    inSpans others n = false := by
  obtain ⟨⟨lo, hi⟩, hm, hb⟩ := List.any_eq_true.mp hn
  refine List.any_eq_false.mpr ?_
  rintro ⟨first, last⟩ ho
  have hs := List.all_eq_true.mp (List.all_eq_true.mp h (lo, hi) hm) (first, last) ho
  simp only [Bool.or_eq_true, Bool.and_eq_true, decide_eq_true_eq] at hs hb ⊢
  omega

theorem isBlank_of_isWord {c : Char} (h : isWord c = true) : isBlank c = false := by
  rw [← Bool.not_eq_true]
  intro hb
  simp only [isBlank, Bool.or_eq_true, Bool.and_eq_true, decide_eq_true_eq, beq_iff_eq] at hb
  unfold isWord at h
  split at h
  next hlow =>
    have hr : c.toNat ≤ 32 := by omega
    have hd : ¬c.isDigit = true := fun hd => by have := isDigit_range hd; omega
    have ha : ¬c.isAlpha = true := fun ha => by have := isAlpha_range ha; omega
    have hu : c ≠ '_' := by
      rintro rfl
      exact absurd hr (by decide)
    simp [Char.isAlphanum, hd, ha, hu] at h
  next hhigh =>
    have hs : inSpans blankSpans c.toNat = true := by
      simp only [inSpans, blankSpans, List.any_cons, List.any_nil, Bool.or_eq_true,
        Bool.and_eq_true, decide_eq_true_eq, Bool.or_false]
      omega
    rw [inSpans_eq_false (by decide +kernel : areApart blankSpans wordSpans = true) hs] at h
    exact Bool.false_ne_true h

end Text

namespace Expression

theorem continuesName_ne {c d : Char} (h : continuesName c = true)
    (hd : continuesName d = false) : c ≠ d := by
  rintro rfl
  rw [hd] at h
  exact Bool.false_ne_true h

theorem isBlank_of_continuesName {c : Char} (h : continuesName c = true) :
    Text.isBlank c = false := by
  simp only [continuesName, Bool.or_eq_true, beq_iff_eq] at h
  rcases h with hw | rfl
  · exact Text.isBlank_of_isWord hw
  · decide

theorem continuesName_of_startsName {c : Char} (h : startsName c = true) :
    continuesName c = true := by
  simp only [startsName, Bool.or_eq_true, beq_iff_eq] at h
  rcases h with (ha | rfl) | rfl
  · have hr : c.toNat < 128 := by have := Text.isAlpha_range ha; omega
    simp [continuesName, Text.isWord, hr, Char.isAlphanum, ha]
  · decide
  · decide

theorem isBlank_of_startsName {c : Char} (h : startsName c = true) : Text.isBlank c = false :=
  isBlank_of_continuesName (continuesName_of_startsName h)

theorem isName_all {cs : List Char} (h : isName cs = true) :
    cs ≠ [] ∧ ∀ c ∈ cs, continuesName c = true := by
  cases cs with
  | nil => simp [isName] at h
  | cons c cs =>
    simp only [isName, Bool.and_eq_true, List.all_eq_true] at h
    refine ⟨by simp, ?_⟩
    intro d hd
    rcases List.mem_cons.mp hd with rfl | hd
    · exact continuesName_of_startsName h.1
    · exact h.2 d hd

end Expression

end Restyle
