import Restyle.Proofs.Scan.Boundary
import Restyle.Proofs.Number.Excess

namespace Restyle

theorem Text.trim_sublist (cs : List Char) : List.Sublist (trim cs) cs := by
  have hfront : List.Sublist (cs.dropWhile isBlank) cs := List.dropWhile_sublist isBlank
  have hback : List.Sublist ((cs.dropWhile isBlank).reverse.dropWhile isBlank)
      (cs.dropWhile isBlank).reverse := List.dropWhile_sublist isBlank
  have hreverse := hback.reverse
  rw [List.reverse_reverse] at hreverse
  exact hreverse.trans hfront

theorem Expression.inside_sublist (cs : List Char) : List.Sublist (inside cs) cs :=
  (List.dropLast_sublist _).trans (List.drop_sublist 1 cs)

namespace Scan

theorem afterComment?_sublist {cs rest : List Char} (h : afterComment? cs = some rest) :
    List.Sublist rest cs := by
  rcases afterComment?_cases h with ⟨text, rfl, rfl⟩ | ⟨text, rfl, rfl⟩
  · exact ((List.dropWhile_sublist _).cons _).cons _
  · cases hc : Text.cut? ['*', '/'] text with
    | none => exact List.nil_sublist _
    | some found =>
      obtain ⟨before, after⟩ := found
      have hsuffix : List.Sublist after text := by
        rw [Text.cut?_append hc]
        exact List.sublist_append_right _ after
      exact (hsuffix.cons _).cons _

theorem sublist_of_mem_extendFirst {front part cs : List Char} {found : List (List Char)}
    (h : ∀ part ∈ found, List.Sublist part cs) (hm : part ∈ extendFirst front found) :
    List.Sublist part (front ++ cs) := by
  cases found with
  | nil =>
    rw [List.mem_singleton.mp hm]
    exact List.sublist_append_left front cs
  | cons first found =>
    rcases List.mem_cons.mp hm with rfl | hm
    · exact (h first List.mem_cons_self).append_left front
    · exact (h part (List.mem_cons_of_mem first hm)).trans (List.sublist_append_right front cs)

theorem parts_sublist {isSeparator : Char → Bool} {depth : Int} {offset : Nat} {cs : List Char}
    {found : List (List Char)} (h : parts isSeparator depth offset cs = .ok found) :
    ∀ part ∈ found, List.Sublist part cs := by
  fun_induction parts isSeparator depth offset cs generalizing found with
  | case1 =>
    cases h
    simp
  | case2 => cases h
  | case3 depth offset c tail hq literal rest hs hl ih =>
    obtain ⟨found, hf, rfl⟩ := map_eq_ok h
    intro part hm
    rw [takeString?_append hs]
    exact sublist_of_mem_extendFirst (ih hf) hm
  | case4 depth offset c tail hq rest hc hl ih =>
    exact fun part hm => (ih h part hm).trans (afterComment?_sublist hc)
  | case5 depth offset c tail hq hc hsep ih =>
    obtain ⟨found, hf, rfl⟩ := map_eq_ok h
    intro part hm
    rcases List.mem_cons.mp hm with rfl | hm
    · exact List.nil_sublist _
    · exact (ih hf part hm).cons c
  | case6 depth offset c tail hq hc hsep ih =>
    obtain ⟨found, hf, rfl⟩ := map_eq_ok h
    exact fun part hm => sublist_of_mem_extendFirst (ih hf) hm

theorem cutAt?_suffix {isMark : Char → Bool} {depth : Int} {cs before after : List Char}
    (h : cutAt? isMark depth cs = some (before, after)) : after <:+ cs := by
  fun_induction cutAt? isMark depth cs generalizing before with
  | case1 => cases h
  | case2 => cases h
  | case3 depth c tail hq literal rest hs hl ih =>
    obtain ⟨⟨before, _⟩, hc, he⟩ := Option.map_eq_some_iff.mp h
    cases he
    rw [takeString?_append hs]
    exact (ih hc).trans (List.suffix_append literal rest)
  | case4 depth c tail hq hm =>
    cases h
    exact List.suffix_cons c after
  | case5 depth c tail hq hm ih =>
    obtain ⟨⟨before, _⟩, hc, he⟩ := Option.map_eq_some_iff.mp h
    cases he
    exact (ih hc).trans (List.suffix_cons c tail)

end Scan

namespace Numeral

theorem countP_of_excessDigits? {digits : List Char} {n : Nat}
    (h : excessDigits? digits = some n) : 4300 < digits.countP Text.isDigit := by
  obtain ⟨hall, hlength, _⟩ := of_excessDigits? h
  rw [List.countP_eq_length.mpr hall]
  exact hlength

/-- A number with too many digits has its digits from every text that it is cut out of. -/
theorem countP_of_excess? {cs text : List Char} {n : Nat} (h : excess? cs = some n)
    (hs : List.Sublist cs text) : 4300 < text.countP Text.isDigit := by
  have hcs : 4300 < cs.countP Text.isDigit := by
    unfold excess? at h
    split at h
    next digits =>
      have hdigits := countP_of_excessDigits? h
      exact hdigits.trans_le (List.sublist_cons_self '-' digits).countP_le
    next => exact countP_of_excessDigits? h
  exact hcs.trans_le hs.countP_le

end Numeral

end Restyle
