import Restyle.Proofs.Fields
import Restyle.Proofs.Number.Text
import Restyle.Proofs.Traverse
import Restyle.Utility.Rule
import Std.Data.String.ToInt

namespace Restyle

namespace Scale

theorem hyphen_not_mem_digits {n : Int} (h : 0 ≤ n) : '-' ∉ (toString n).toList := by
  intro hm
  rw [toList_toString_int, if_neg (by omega)] at hm
  exact absurd (Nat.isDigit_of_mem_toDigits (by omega) (by omega) hm) (by decide)

theorem spacingSuffix_whole (n : Int) :
    spacingSuffix (.whole n) = (spacings.lookup n).getD ("[" ++ (toString n ++ "px") ++ "]") := rfl

theorem hyphen_not_mem_spacingSuffix {n : Int} (h : 0 ≤ n) :
    '-' ∉ (spacingSuffix (.whole n)).toList := by
  have hnames : ∀ entry ∈ spacings, '-' ∉ entry.2.toList := by decide
  rw [spacingSuffix_whole]
  cases hl : spacings.lookup n with
  | some name => exact hnames _ (mem_of_lookup hl)
  | none =>
    have hdigits := hyphen_not_mem_digits h
    simpa using hdigits

theorem spacingSuffix_ne_empty (n : Int) : spacingSuffix (.whole n) ≠ "" := by
  have hnames : ∀ entry ∈ spacings, entry.2 ≠ "" := by decide
  rw [spacingSuffix_whole]
  cases hl : spacings.lookup n with
  | some name => exact hnames _ (mem_of_lookup hl)
  | none => simp [← String.toList_inj]

/-- A name on the scale is no length in brackets, and neither stands for two lengths. -/
theorem spacingSuffix_injective {m n : Int}
    (h : spacingSuffix (.whole m) = spacingSuffix (.whole n)) : m = n := by
  have hnames : ∀ entry ∈ spacings, entry.2.toList.head? ≠ some '[' := by decide
  have hdistinct : ∀ entry ∈ spacings, ∀ other ∈ spacings, entry.2 = other.2 → entry.1 = other.1 := by
    decide
  rw [spacingSuffix_whole, spacingSuffix_whole] at h
  cases hm : spacings.lookup m with
  | some name =>
    cases hn : spacings.lookup n with
    | some other =>
      rw [hm, hn] at h
      exact hdistinct _ (mem_of_lookup hm) _ (mem_of_lookup hn) h
    | none =>
      rw [hm, hn, Option.getD_some, Option.getD_none] at h
      refine absurd ?_ (hnames _ (mem_of_lookup hm))
      simp [h]
  | none =>
    cases hn : spacings.lookup n with
    | some other =>
      rw [hm, hn, Option.getD_some, Option.getD_none] at h
      refine absurd ?_ (hnames _ (mem_of_lookup hn))
      simp [← h]
    | none =>
      rw [hm, hn, Option.getD_none, Option.getD_none] at h
      simp only [← String.toList_inj, String.toList_append, List.append_cancel_right_eq,
        List.append_cancel_left_eq] at h
      exact Int.repr_injective (String.toList_inj.mp h)

end Scale

/-- The last place of a character in a text is known. -/
theorem append_cons_inj_of_not_mem {c : Char} {xs ys xs' ys' : List Char}
    (h : xs ++ c :: ys = xs' ++ c :: ys') (hy : c ∉ ys) (hy' : c ∉ ys') : xs = xs' ∧ ys = ys' := by
  have hback : ∀ {front back : List Char}, c ∉ back →
      (front ++ c :: back).reverse.takeWhile (· != c) = back.reverse := by
    intro front back hb
    have hall : ∀ d ∈ back.reverse, (d != c) = true := by
      intro d hd
      rw [bne_iff_ne]
      rintro rfl
      exact hb (List.mem_reverse.mp hd)
    rw [List.reverse_append, List.reverse_cons, List.append_assoc]
    exact Text.takeWhile_append_of_head hall (by simp)
  have hys : ys = ys' := by
    rw [← List.reverse_inj, ← hback hy, h, hback hy']
  rw [hys] at h
  exact ⟨List.append_cancel_right h, hys⟩

namespace Rule

open Utility

/-- The stems of the properties for spacings and sizes. -/
def lengthStems : List (String × String) := spacingStems ++ sizingStems

theorem find?_of_mem_lengthStems {entry : String × String} (h : entry ∈ lengthStems) :
    ∃ sizing, find? entry.1 = some (.spacing entry.2 sizing) := by
  have hspacings : ∀ entry ∈ spacingStems, find? entry.1 = some (.spacing entry.2 false) := by
    decide +kernel
  have hsizes : ∀ entry ∈ sizingStems, find? entry.1 = some (.spacing entry.2 true) := by
    decide +kernel
  rcases List.mem_append.mp h with hm | hm
  · exact ⟨false, hspacings entry hm⟩
  · exact ⟨true, hsizes entry hm⟩

/-- A whole number is read from its own text. -/
theorem measure?_toString_int {n : Int} (h : (Nat.toDigits 10 n.natAbs).length ≤ 4300) :
    Scale.measure? (toString n).toList = .ok (some (.whole n)) := by
  have hblank : ∀ c ∈ (toString n).toList, Text.isBlank c = false := fun c hc =>
    isBlank_of_isNumeric (isNumeric_of_mem_toString_int n c hc)
  have htrim := Text.trim_of_isTrimmed (Text.isTrimmed_of_all hblank)
  have hunit : ¬ ['x', 'p'].isPrefixOf (toString n).toList.reverse = true := by
    intro hp
    have hm : 'x' ∈ (toString n).toList.reverse :=
      (List.isPrefixOf_iff_prefix.mp hp).subset List.mem_cons_self
    exact absurd (isNumeric_of_mem_toString_int n 'x' (List.mem_reverse.mp hm)) (by decide)
  have hread : Scale.numeral? (toString n).toList =
      some ⟨decide (n < 0), Nat.toDigits 10 n.natAbs, none⟩ := by
    rw [Scale.numeral?, htrim, if_neg hunit, Numeral.read?_toString_int]
  rw [Scale.measure?, hread]
  simp only [Numeral.value_of_digits h]
  rfl

theorem spacingClass_toString_int (stem : String) (sizing : Bool) {n : Int}
    (h : (Nat.toDigits 10 n.natAbs).length ≤ 4300) :
    spacingClass stem sizing (toString n).toList = .ok (some (spacingOf stem (.whole n))) := by
  have hnot : ∀ c : Char, isNumeric c = false → c ∉ (toString n).toList := by
    intro c hc hm
    rw [isNumeric_of_mem_toString_int n c hm] at hc
    cases hc
  have hauto : ¬ ((toString n).toList == "auto".toList) = true := by
    intro he
    exact hnot 'u' (by decide) (by rw [eq_of_beq he]; decide)
  have hpercent : ¬ ((toString n).toList.getLast? == some '%') = true := by
    intro he
    exact hnot '%' (by decide) (List.mem_of_getLast? (eq_of_beq he))
  have htoken : Scale.spacingToken? (toString n).toList = none := by
    unfold Scale.spacingToken? Scale.token?
    split
    next cs he => exact absurd (he ▸ List.mem_cons_self) (hnot '$' (by decide))
    next => rfl
  rw [spacingClass, if_neg hauto, if_neg hpercent, htoken]
  simp only [ofMeasure, measure?_toString_int h]
  rfl

theorem convert_length_whole (colors : Json) {entry : String × String} (he : entry ∈ lengthStems)
    {n : Int} (h : (Nat.toDigits 10 n.natAbs).length ≤ 4300) :
    convert colors entry.1 (.whole n) = .ok (some (spacingOf entry.2 (.whole n))) := by
  obtain ⟨sizing, hr⟩ := find?_of_mem_lengthStems he
  have hshow : (Json.whole n).isShowable = true := by simp [Json.isShowable, h]
  have hblank : ∀ c ∈ (toString n).toList, Text.isBlank c = false := fun c hc =>
    isBlank_of_isNumeric (isNumeric_of_mem_toString_int n c hc)
  have htrim : Text.trim (Json.whole n).display.toList = (toString n).toList :=
    Text.trim_of_isTrimmed (Text.isTrimmed_of_all hblank)
  rw [convert, hr]
  simp only [hshow, if_true, htrim, classOf]
  exact spacingClass_toString_int entry.2 sizing h

/-- The sign and the stem of a class stand before its last hyphen, and the length after it. -/
theorem toList_spacingOf_whole (stem : String) (n : Int) :
    (spacingOf stem (.whole n)).toList = ((if n < 0 then ['-'] else []) ++ stem.toList) ++
      '-' :: (Scale.spacingSuffix (.whole n.natAbs)).toList := by
  have hjoin : ∀ m : Int, (join stem (Scale.spacingSuffix (.whole m))).toList =
      stem.toList ++ '-' :: (Scale.spacingSuffix (.whole m)).toList := by
    intro m
    rw [join, if_neg (by simpa using Scale.spacingSuffix_ne_empty m)]
    simp
  unfold spacingOf
  by_cases hn : n < 0
  · have habs : ((n.natAbs : Nat) : Int) = -n := by omega
    simp [Number.isBelow, Number.neg, hn, hjoin, habs]
  · have habs : ((n.natAbs : Nat) : Int) = n := by omega
    simp [Number.isBelow, hn, hjoin, habs]

theorem spacingOf_injective {entry other : String × String} (he : entry ∈ lengthStems)
    (ho : other ∈ lengthStems) {m n : Int}
    (h : spacingOf entry.2 (.whole m) = spacingOf other.2 (.whole n)) :
    entry.1 = other.1 ∧ m = n := by
  have hstart : ∀ entry ∈ lengthStems, entry.2.toList.head? ≠ some '-' := by decide +kernel
  have hdistinct : ∀ entry ∈ lengthStems, ∀ other ∈ lengthStems,
      entry.2 = other.2 → entry.1 = other.1 := by decide +kernel
  have hsuffix : ∀ k : Int, '-' ∉ (Scale.spacingSuffix (.whole k.natAbs)).toList := fun k =>
    Scale.hyphen_not_mem_spacingSuffix (Int.natCast_nonneg _)
  rw [← String.toList_inj, toList_spacingOf_whole, toList_spacingOf_whole] at h
  obtain ⟨hfront, hback⟩ := append_cons_inj_of_not_mem h (hsuffix m) (hsuffix n)
  have habs : m.natAbs = n.natAbs := by
    exact_mod_cast Scale.spacingSuffix_injective (String.toList_inj.mp hback)
  -- no stem starts with a hyphen, so that the first character is the sign
  by_cases hm : m < 0
  · by_cases hn : n < 0
    · have hstem : entry.2 = other.2 := String.toList_inj.mp (by simpa [hm, hn] using hfront)
      exact ⟨hdistinct entry he other ho hstem, by omega⟩
    · have hhead : other.2.toList.head? = some '-' := by
        simp only [if_pos hm, if_neg hn, List.nil_append] at hfront
        rw [← hfront]
        rfl
      exact absurd hhead (hstart other ho)
  · by_cases hn : n < 0
    · have hhead : entry.2.toList.head? = some '-' := by
        simp only [if_neg hm, if_pos hn, List.nil_append] at hfront
        rw [hfront]
        rfl
      exact absurd hhead (hstart entry he)
    · have hstem : entry.2 = other.2 := String.toList_inj.mp (by simpa [hm, hn] using hfront)
      exact ⟨hdistinct entry he other ho hstem, by omega⟩

/-- Whole spacings and sizes have classes, and two of them have the same class only if they are of the
same property and the same length. -/
theorem length_classes_tell_apart (colors : Json) {p q : String}
    (hp : p ∈ lengthStems.map (·.1)) (hq : q ∈ lengthStems.map (·.1)) {a b : Int}
    (ha : (Nat.toDigits 10 a.natAbs).length ≤ 4300)
    (hb : (Nat.toDigits 10 b.natAbs).length ≤ 4300) :
    ∃ s t, convert colors p (.whole a) = .ok (some s) ∧ convert colors q (.whole b) = .ok (some t) ∧
      (s = t ↔ p = q ∧ a = b) := by
  obtain ⟨entry, he, rfl⟩ := List.mem_map.mp hp
  obtain ⟨other, ho, rfl⟩ := List.mem_map.mp hq
  have hs := convert_length_whole colors he ha
  have ht := convert_length_whole colors ho hb
  refine ⟨_, _, hs, ht, fun h => spacingOf_injective he ho h, ?_⟩
  rintro ⟨hpq, rfl⟩
  rw [hpq, ht] at hs
  exact (Option.some.inj (Except.ok.inj hs)).symm

theorem length_classes_of_paddings :
    convert (.object Color.design) "padding" (.whole (-1)) = .ok (some "-p-px") ∧
      convert (.object Color.design) "paddingHorizontal" (.whole 97) = .ok (some "px-[97px]") ∧
      ∃ s t, convert (.object Color.design) "padding" (.whole (-1)) = .ok (some s) ∧
        convert (.object Color.design) "paddingHorizontal" (.whole 97) = .ok (some t) ∧
        (s = t ↔ "padding" = "paddingHorizontal" ∧ (-1 : Int) = 97) :=
  ⟨eq_ok_of_gives (by decide +kernel), eq_ok_of_gives (by decide +kernel),
    length_classes_tell_apart _ (by decide +kernel) (by decide +kernel) (by decide) (by decide)⟩

end Rule

end Restyle
