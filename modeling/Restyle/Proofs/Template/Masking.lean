import Restyle.Proofs.Scan.Interpolation
import Restyle.Proofs.Template.Total

namespace Restyle.TemplatePattern

/-- The cut between the characters and the interpolations of a text. -/
def cutOf : List Piece → Scan.Cut
  | [] => .empty
  | .plain c :: ps => (cutOf ps).cons c
  | .hole _ region :: ps => (cutOf ps).consRegion region

theorem cutOf_map_plain (cs : List Char) : cutOf (cs.map .plain) = ⟨cs, []⟩ := by
  induction cs with
  | nil => rfl
  | cons c cs ih => rw [List.map_cons, cutOf, ih]; rfl

theorem text_cutOf (ps : List Piece) : (cutOf ps).text = textOf ps := by
  induction ps with
  | nil => rfl
  | cons piece ps ih =>
    cases piece with
    | plain c => rw [cutOf, Scan.Cut.text_cons, ih, textOf_plain]
    | hole index region => rw [cutOf, Scan.Cut.text_consRegion, ih, textOf_hole]

theorem regions_cutOf (ps : List Piece) : (cutOf ps).regions = regionsOf ps := by
  induction ps with
  | nil => rfl
  | cons piece ps ih =>
    cases piece with
    | plain c => rw [cutOf, Scan.Cut.regions_cons, ih, regionsOf_plain]
    | hole index region => rw [cutOf, Scan.Cut.regions_consRegion, ih, regionsOf_hole]

/-- The placeholders are numbered in the order of the text. -/
theorem fill_cutOf_pieces (index : Nat) (cs : List Char) :
    ((cutOf (pieces index cs)).fill fun n _ => placeholder (index + n)) =
      maskedOf (pieces index cs) := by
  fun_induction pieces index cs with
  | case1 => rfl
  | case2 index c tail hc region rest ht _ ih =>
    have hnext : (fun (n : Nat) (_ : List Char) => placeholder (index + (n + 1))) =
        fun n _ => placeholder (index + 1 + n) := by
      funext n _
      congr 1
      omega
    rw [cutOf, Scan.Cut.fill_consRegion, hnext, ih, maskedOf_hole, Nat.add_zero]
  | case3 index c tail _ _ _ =>
    rw [cutOf_map_plain, maskedOf_map_plain]
    simp [Scan.Cut.fill]
  | case4 index c tail _ _ _ ih => rw [cutOf, Scan.Cut.fill_cons, ih, maskedOf_plain]
  | case5 index c tail _ ih => rw [cutOf, Scan.Cut.fill_cons, ih, maskedOf_plain]

/-- The pieces of a text are cut where the search for interpolations cuts it. -/
theorem searches_cutOf_pieces (index : Nat) (cs : List Char) :
    Scan.Searches cs (cutOf (pieces index cs)) := by
  fun_induction pieces index cs with
  | case1 => exact .absent rfl
  | case2 index c tail hc region rest ht _ ih =>
    rw [eq_of_beq hc]
    exact ih.consRegion ht
  | case3 index c tail hc ht hb =>
    rw [cutOf_map_plain, eq_of_beq hc]
    obtain ⟨after, rfl⟩ := List.head?_eq_some_iff.mp (eq_of_beq hb)
    exact .unended (Scan.cut?_dollar_brace after) ht
  | case4 index c tail hc ht hb ih => exact ih.cons fun _ => by simpa using hb
  | case5 index c tail hc ih => exact ih.cons fun he => absurd he (by simpa using hc)

theorem mem_pieces_of_getElem? {index n : Nat} {cs region : List Char}
    (h : (Scan.interpolations cs)[n]? = some region) :
    .hole (index + n) region ∈ pieces index cs := by
  rw [← regionsOf_pieces index cs] at h
  fun_induction pieces index cs generalizing n with
  | case1 => cases h
  | case2 index c tail hc found rest ht _ ih =>
    cases n with
    | zero =>
      cases h
      exact List.mem_cons_self
    | succ n =>
      have hn : index + (n + 1) = index + 1 + n := by omega
      rw [hn]
      exact List.mem_cons_of_mem _ (ih h)
  | case3 index c tail _ _ _ =>
    rw [regionsOf_map_plain] at h
    cases h
  | case4 index c tail _ _ _ ih => exact List.mem_cons_of_mem _ (ih h)
  | case5 index c tail _ ih => exact List.mem_cons_of_mem _ (ih h)

section

variable {regions : List (List Char)} {ps : List Piece}

theorem regionOf_of_length_lt {digits : List Char} (h : 4300 < digits.length) :
    regionOf regions digits = .error (.tooManyDigits digits.length) := by
  rw [regionOf, if_pos h]

/-- A number with too many digits cannot be read back. -/
theorem exists_unmask_maskedOf_error (hn : .plain '\x00' ∉ ps) (hr : NumberedIn regions ps)
    (h : ∃ index region, .hole index region ∈ ps ∧ 4300 < (Nat.toDigits 10 index).length) :
    ∃ digits, unmask regions (maskedOf ps) = .error (.tooManyDigits digits) := by
  induction ps with
  | nil =>
    obtain ⟨_, _, hm, _⟩ := h
    cases hm
  | cons piece ps ih =>
    obtain ⟨index, region, hm, hl⟩ := h
    simp only [List.mem_cons, not_or] at hn
    have htail := ih hn.2 (hr.of_subset (List.subset_cons_self piece ps))
    cases piece with
    | plain c =>
      have hc : c ≠ '\x00' := fun he => hn.1 (by rw [he])
      obtain ⟨digits, hi⟩ := htail ⟨index, region, by simpa using hm, hl⟩
      refine ⟨digits, ?_⟩
      rw [maskedOf_plain, unmask_skip regions (placeholder?_of_ne hc none _), hi]
      rfl
    | hole first found =>
      rw [maskedOf_hole, unmask_placeholder_append]
      by_cases hfirst : 4300 < (Nat.toDigits 10 first).length
      · exact ⟨_, by rw [regionOf_of_length_lt hfirst]; rfl⟩
      · have hother : .hole index region ∈ ps := by
          rcases List.mem_cons.mp hm with he | hm
          · cases he
            exact absurd hl hfirst
          · exact hm
        obtain ⟨digits, hi⟩ := htail ⟨index, region, hother, hl⟩
        have hok : regionOf regions (Nat.toDigits 10 first) = .ok found := by
          rw [regionOf_eq_ok_iff, Text.digitsValue_toDigits]
          exact ⟨by omega, hr first found List.mem_cons_self⟩
        refine ⟨digits, ?_⟩
        rw [hok, hi]
        rfl

end

theorem length_toDigits_le_iff (index : Nat) :
    (Nat.toDigits 10 index).length ≤ 4300 ↔ index < lengthLimit :=
  @Nat.length_toDigits_le_iff 10 index digitLimit (by decide) (by decide)

/-- A text is cut where the search finds its interpolations. The masked text is the text with the
placeholder of each in its place, in their order, also if an interpolation is written twice or in
another one, or if the search ends at one without an end. From a text without the mark of
placeholders unmasking gives the text back, as long as the numbers can be read. -/
theorem mask_is_undone {body : List Char} (hn : '\x00' ∉ body) :
    ∃ cut : Scan.Cut, Scan.Searches body cut ∧ cut.text = body ∧
      cut.regions = Scan.interpolations body ∧
      mask body = (cut.fill fun index _ => placeholder index, cut.regions) ∧
      (cut.regions.length ≤ lengthLimit → unmask (mask body).2 (mask body).1 = .ok body) ∧
      (lengthLimit < cut.regions.length →
        ∃ digits, unmask (mask body).2 (mask body).1 = .error (.tooManyDigits digits)) := by
  have hregions : (cutOf (pieces 0 body)).regions = Scan.interpolations body := by
    rw [regions_cutOf, regionsOf_pieces]
  have hfill : ((cutOf (pieces 0 body)).fill fun index _ => placeholder index) =
      maskedOf (pieces 0 body) := by
    simpa only [Nat.zero_add] using fill_cutOf_pieces 0 body
  have hplain : .plain '\x00' ∉ pieces 0 body := fun hm => hn (mem_of_plain_mem_pieces hm)
  refine ⟨cutOf (pieces 0 body), searches_cutOf_pieces 0 body, ?_, hregions, ?_, ?_, ?_⟩
  · rw [text_cutOf, textOf_pieces]
  · rw [hfill, hregions, mask_eq]
  · intro hl
    rw [hregions] at hl
    have hdigits : ∀ index < (Scan.interpolations body).length,
        (Nat.toDigits 10 index).length ≤ 4300 :=
      fun index hi => (length_toDigits_le_iff index).mpr (Nat.lt_of_lt_of_le hi hl)
    have hrestored := restoredBy_of_length_le (numberedIn_pieces body) hdigits
    rw [mask_eq, unmask_maskedOf hplain hrestored, textOf_pieces]
  · intro hl
    rw [hregions] at hl
    have hmem : .hole (0 + lengthLimit) (Scan.interpolations body)[lengthLimit] ∈ pieces 0 body :=
      mem_pieces_of_getElem? (List.getElem?_eq_getElem hl)
    rw [Nat.zero_add] at hmem
    have hlong : 4300 < (Nat.toDigits 10 lengthLimit).length := by
      have hnot := (length_toDigits_le_iff lengthLimit).not.mpr (Nat.lt_irrefl _)
      omega
    rw [mask_eq]
    exact exists_unmask_maskedOf_error hplain (numberedIn_pieces body) ⟨_, _, hmem, hlong⟩

/-- An interpolation that stands inside of another one and twice on its own, the second time right
before one without an end. -/
def repeatedText : List Char :=
  "a$\x7b\x60$\x7bx\x7d\x60\x7d$\x7bx\x7db$\x7bx\x7d$\x7bc;\x7b\x7d".toList

theorem repeatedText_mask_is_undone :
    '\x00' ∉ repeatedText ∧
      mask repeatedText = ("a\x000\x00\x001\x00b\x002\x00$\x7bc;\x7b\x7d".toList,
        ["$\x7b\x60$\x7bx\x7d\x60\x7d".toList, "$\x7bx\x7d".toList, "$\x7bx\x7d".toList]) ∧
      unmask (mask repeatedText).2 (mask repeatedText).1 = .ok repeatedText := by
  have hn : '\x00' ∉ repeatedText := by decide +kernel
  obtain ⟨cut, _, _, hregions, _, hundone, _⟩ := mask_is_undone hn
  have hcount : cut.regions.length ≤ 10 := by
    rw [hregions]
    decide +kernel
  have hlimit : 10 ≤ lengthLimit := Nat.le_self_pow (by decide) 10
  exact ⟨hn, by decide +kernel, hundone (hcount.trans hlimit)⟩

end Restyle.TemplatePattern
