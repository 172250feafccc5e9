import Restyle.Proofs.Scan.Comment

namespace Restyle.Scan

section

variable {isSeparator : Char → Bool} {depth : Int} {offset : Nat} {cs : List Char}

/-- A string without an end is reported that much later if the text stands that much later. -/
theorem parts_add_error {place : Nat}
    (h : parts isSeparator depth offset cs = .error (.unterminatedString place)) (width : Nat) :
    parts isSeparator depth (width + offset) cs =
      .error (.unterminatedString (width + place)) := by
  fun_induction parts isSeparator depth offset cs with
  | case1 => cases h
  | case2 depth offset c tail hq hs =>
    cases h
    exact parts_of_open_string hq hs
  | case3 depth offset c tail hq literal rest hs _ ih =>
    rw [parts_of_string hq hs, Nat.add_assoc, ih (map_eq_error h)]
    rfl
  | case4 depth offset c tail hq rest hc _ ih =>
    rw [parts_of_comment (by simpa using hq) hc, Nat.add_assoc, ih h]
  | case5 depth offset c tail hq hc hs ih =>
    have hd : deepen depth c = depth := by
      simp only [Bool.and_eq_true, Bool.not_eq_true'] at hs
      simp [deepen, hs.1.1.1, hs.1.1.2]
    rw [parts_of_char (by simpa using hq) hc, hd, Nat.add_assoc, ih (map_eq_error h)]
    rfl
  | case6 depth offset c tail hq hc hs ih =>
    rw [parts_of_char (by simpa using hq) hc, Nat.add_assoc, ih (map_eq_error h)]
    rfl

/-- A text that is split and does not end in a comment is settled, up to a slash. -/
theorem unsettled_of_parts {found : List (List Char)}
    (h : parts isSeparator depth offset cs = .ok found)
    (hc : opensComment (unsettled depth cs).2 = false) :
    (unsettled depth cs).2 = [] ∨ (unsettled depth cs).2 = ['/'] := by
  rcases unsettled_cases depth cs with hu | hu | ⟨quote, tail, hu, hq, hs⟩
  · exact hu
  · rw [hu] at hc
    cases hc
  · obtain ⟨done, last, width, -, hp⟩ := parts_append_unsettled isSeparator depth cs
    have hself := hp offset []
    rw [List.append_nil, List.append_nil, hu, parts_of_open_string hq hs, h] at hself
    cases hself

end

/-- A comma at depth zero ends its part, also if the part ends with a slash. -/
theorem parts_comma {cs : List Char} (h : cs = [] ∨ cs = ['/']) (offset : Nat)
    (after : List Char) :
    parts (· == ',') 0 offset (cs ++ ',' :: after) =
      (parts (· == ',') 0 (offset + cs.length + 1) after).map (cs :: ·) := by
  rcases h with rfl | rfl
  · exact parts_cut (crosses_nil 0) (by decide) (by decide) (by decide) (by decide) (by decide)
      offset after
  · have hnone : afterComment? ('/' :: ',' :: after) = none :=
      afterComment?_eq_none_append (rfl : afterComment? ['/'] = none) (',' :: after)
        fun _ _ => by simp
    have hcut : parts (· == ',') 0 (offset + 1) (',' :: after) =
        (parts (· == ',') 0 (offset + 1 + 1) after).map ([] :: ·) :=
      parts_cut (crosses_nil 0) (by decide) (by decide) (by decide) (by decide) (by decide)
        (offset + 1) after
    have hdepth : deepen 0 '/' = 0 := by decide
    rw [List.singleton_append, parts_of_char (by decide) hnone, hdepth, hcut]
    exact map_of_map_eq fun found => rfl

/-- What is split after a comma is split as if nothing stood before. -/
theorem parts_append_comma {cs : List Char} {front : List (List Char)}
    (h : parts (· == ',') 0 0 cs = .ok front) (hd : (unsettled 0 cs).1 = 0)
    (hc : opensComment (unsettled 0 cs).2 = false) (after : List Char) :
    parts (· == ',') 0 0 (cs ++ ',' :: after) =
      (parts (· == ',') 0 (cs.length + 1) after).map (front ++ ·) := by
  have hu := unsettled_of_parts h hc
  obtain ⟨done, last, width, hwidth, hp⟩ := parts_append_unsettled (· == ',') 0 cs
  obtain ⟨rest, hrest⟩ : ∃ rest, (unsettled 0 cs).2 = rest := ⟨_, rfl⟩
  rw [hd, hrest] at hp
  rw [hrest] at hu hwidth
  have hfront : front = done ++ [last ++ rest] := by
    have hself := hp 0 []
    have hone : parts (· == ',') 0 (0 + width) rest = .ok [rest] := by
      rcases hu with rfl | rfl
      · exact parts_of_crosses (crosses_nil 0) _
      · exact parts_slash (by decide) (by simp) (by simp) 0 _
    rw [List.append_nil, List.append_nil, h, hone] at hself
    cases hself
    rfl
  have hplace : 0 + width + rest.length + 1 = cs.length + 1 := by omega
  rw [hp, parts_comma hu, hplace, hfront]
  exact map_of_map_eq fun found => by simp [extendFirst]

/-- Splitting at commas goes over from two texts to the text that is put together from them with a
comma, if the first one can be split and ends at depth zero and not in a comment: either the second
one can be split too, and then its parts follow those of the first one, or both end with the same
string that has no end. -/
theorem splitCommas_append_comma {a : List Char} {front : List (List Char)}
    (h : splitCommas a = .ok front) (hdepth : (unsettled 0 a).1 = 0)
    (hcomment : opensComment (unsettled 0 a).2 = false) (b : List Char) :
    (∃ back, splitCommas b = .ok back ∧ splitCommas (a ++ ',' :: b) = .ok (front ++ back)) ∨
      ∃ offset, splitCommas b = .error (.unterminatedString offset) ∧
        splitCommas (a ++ ',' :: b) = .error (.unterminatedString (a.length + 1 + offset)) := by
  obtain ⟨first, hfirst, rfl⟩ := map_eq_ok h
  have happend := parts_append_comma hfirst hdepth hcomment b
  cases hb : parts (· == ',') 0 0 b with
  | ok second =>
    left
    refine ⟨_, by rw [splitCommas, splitBy, hb]; rfl, ?_⟩
    rw [splitCommas, splitBy, happend, parts_offset hb]
    simp only [Except.map, List.map_append, List.filter_append]
  | error fault =>
    right
    obtain ⟨offset, rfl⟩ := exists_offset_of_parts hb
    refine ⟨offset, by rw [splitCommas, splitBy, hb]; rfl, ?_⟩
    rw [splitCommas, splitBy, happend]
    have hlater := parts_add_error hb (a.length + 1)
    rw [Nat.add_zero] at hlater
    rw [hlater]
    rfl

/-- Commas and brackets in a string, in comments of both kinds and in brackets, and a slash at the
end. -/
def closedText : List Char := "a: '), ', /* [, */ b: f(1, [2]) // (\n c: d /".toList

theorem splitCommas_append_closedText :
    splitCommas closedText =
        .ok ["a: '), '".toList, "b: f(1, [2]) \n c: d /".toList] ∧
      (unsettled 0 closedText).1 = 0 ∧ opensComment (unsettled 0 closedText).2 = false ∧
      splitCommas (closedText ++ ',' :: "*/ e, \x60,$\x7b','\x7d\x60".toList) =
        .ok ["a: '), '".toList, "b: f(1, [2]) \n c: d /".toList, "*/ e".toList,
          "\x60,$\x7b','\x7d\x60".toList] ∧
      splitCommas (closedText ++ ',' :: "e, 'f".toList) = .error (.unterminatedString 48) := by
  have h : splitCommas closedText =
      .ok ["a: '), '".toList, "b: f(1, [2]) \n c: d /".toList] := eq_ok_of_gives (by decide +kernel)
  have hdepth : (unsettled 0 closedText).1 = 0 := by decide +kernel
  have hcomment : opensComment (unsettled 0 closedText).2 = false := by decide +kernel
  have hread : splitCommas "*/ e, \x60,$\x7b','\x7d\x60".toList =
      .ok ["*/ e".toList, "\x60,$\x7b','\x7d\x60".toList] := eq_ok_of_gives (by decide +kernel)
  refine ⟨h, hdepth, hcomment, ?_, ?_⟩
  · rcases splitCommas_append_comma h hdepth hcomment "*/ e, \x60,$\x7b','\x7d\x60".toList with
      ⟨back, hback, hall⟩ | ⟨offset, hback, _⟩
    · rw [hread] at hback
      cases hback
      exact hall
    · rw [hread] at hback
      cases hback
  · have hfails : failsWith (fun | .unterminatedString place => place == 3 | _ => false)
        (splitCommas "e, 'f".toList) = true := by decide +kernel
    rcases splitCommas_append_comma h hdepth hcomment "e, 'f".toList with
      ⟨back, hback, _⟩ | ⟨offset, hback, hall⟩
    · rw [hback] at hfails
      cases hfails
    · rw [hback] at hfails
      rw [hall, eq_of_beq hfails]
      rfl

end Restyle.Scan
