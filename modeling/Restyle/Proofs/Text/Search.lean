import Mathlib.Data.List.Basic
import Restyle.Text.Search

namespace Restyle.Text

variable {a b : Char}

theorem hasPart_pair_nil : hasPart [a, b] [] = false := rfl

theorem hasPart_pair_cons (c : Char) (cs : List Char) :
    hasPart [a, b] (c :: cs) = ((a == c && cs.head? == some b) || hasPart [a, b] cs) := by
  unfold hasPart
  rw [cut?, List.isPrefixOf?]
  by_cases hc : a == c
  · cases cs with
    | nil => simp [List.isPrefixOf?, cut?]
    | cons d cs =>
      by_cases hd : b == d
      · have he : d = b := (eq_of_beq hd).symm
        simp [hc, he, List.isPrefixOf?]
      · have hne : ¬d = b := fun he => hd (by simp [he])
        simp [hc, hd, hne, List.isPrefixOf?]
  · simp [hc]

/-- A mark that does not stand across the border stands in one of the two texts. -/
theorem hasPart_pair_append_of_border {cs ds : List Char}
    (h : cs.getLast? = some a → ds.head? ≠ some b) :
    hasPart [a, b] (cs ++ ds) = (hasPart [a, b] cs || hasPart [a, b] ds) := by
  induction cs with
  | nil => simp [hasPart_pair_nil]
  | cons c cs ih =>
    rw [List.cons_append, hasPart_pair_cons, hasPart_pair_cons]
    cases cs with
    | nil =>
      by_cases hc : a = c
      · have hd : ds.head? ≠ some b := h (by rw [hc]; rfl)
        simp [hd, hasPart_pair_nil]
      · simp [hc, hasPart_pair_nil]
    | cons d cs =>
      rw [ih h]
      simp [Bool.or_assoc]

theorem hasPart_pair_append {cs ds : List Char} (h : ds.head? ≠ some b) :
    hasPart [a, b] (cs ++ ds) = (hasPart [a, b] cs || hasPart [a, b] ds) :=
  hasPart_pair_append_of_border fun _ => h

theorem hasPart_pair_append_pair (front rest : List Char) :
    hasPart [a, b] (front ++ a :: b :: rest) = true := by
  induction front with
  | nil => simp [hasPart_pair_cons]
  | cons c front ih => rw [List.cons_append, hasPart_pair_cons, ih, Bool.or_true]

theorem hasPart_pair_of_not_mem {cs : List Char} (h : a ∉ cs) : hasPart [a, b] cs = false := by
  induction cs with
  | nil => rfl
  | cons c cs ih =>
    have hc : a ≠ c := fun he => h (he ▸ List.mem_cons_self)
    rw [hasPart_pair_cons, ih fun hm => h (List.mem_cons_of_mem c hm)]
    simp [hc]

theorem hasPart_pair_of_not_mem_right {cs : List Char} (h : b ∉ cs) :
    hasPart [a, b] cs = false := by
  induction cs with
  | nil => rfl
  | cons c cs ih =>
    simp only [List.mem_cons, not_or] at h
    have hh : cs.head? ≠ some b := fun he => h.2 (List.mem_of_head? he)
    rw [hasPart_pair_cons, ih h.2]
    simp [hh]

theorem cut?_append {pat cs before after : List Char} (h : cut? pat cs = some (before, after)) :
    cs = before ++ pat ++ after := by
  induction cs generalizing before with
  | nil =>
    simp only [cut?] at h
    split at h
    next hp => cases h; simp_all
    next => cases h
  | cons c cs ih =>
    simp only [cut?] at h
    split at h
    next rest hr => cases h; exact (List.append_eq_of_isPrefixOf?_eq_some hr).symm
    next =>
      obtain ⟨⟨before', after'⟩, hb, he⟩ := Option.map_eq_some_iff.mp h
      cases he
      simpa using ih hb

/-- A pattern that opens with a mark is found at its own place if the text before has no mark. -/
theorem cut?_of_hasPart_eq_false {front : List Char} (h : hasPart [a, b] front = false)
    (hne : a ≠ b) (pat rest : List Char) :
    cut? (a :: b :: pat) (front ++ (a :: b :: pat ++ rest)) = some (front, rest) := by
  induction front with
  | nil =>
    have hp : (a :: b :: pat).isPrefixOf? (a :: b :: (pat ++ rest)) = some rest :=
      List.isPrefixOf?_eq_some_iff_append_eq.mpr rfl
    simp [cut?, hp]
  | cons c front ih =>
    rw [hasPart_pair_cons, Bool.or_eq_false_iff] at h
    have hn : (a :: b :: pat).isPrefixOf? (c :: (front ++ (a :: b :: pat ++ rest))) = none := by
      by_cases hc : a = c
      · subst hc
        cases front with
        | nil => simp [List.isPrefixOf?, hne.symm]
        | cons d front =>
          have hd : b ≠ d := by
            intro hd
            simp [hd] at h
          simp [List.isPrefixOf?, hd]
      · simp [List.isPrefixOf?, hc]
    rw [List.cons_append, cut?, hn, ih h.2]
    rfl

end Restyle.Text
