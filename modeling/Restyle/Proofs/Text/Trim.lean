import Mathlib.Data.List.Basic
import Restyle.Text.Blank

namespace Restyle.Text

/-- What holds of all characters of a text is decided at each of them, and not for all characters that
there are. -/
instance (priority := 2000) decidableForallMem {p : Char → Prop} [DecidablePred p]
    (cs : List Char) : Decidable (∀ c ∈ cs, p c) :=
  List.decidableBAll p cs

/-- Whether neither end of a text is blank. -/
def IsTrimmed (cs : List Char) : Prop :=
  (∀ c ∈ cs.head?, isBlank c = false) ∧ ∀ c ∈ cs.getLast?, isBlank c = false

theorem dropWhile_of_head {p : Char → Bool} {cs : List Char} (h : ∀ c ∈ cs.head?, p c = false) :
    cs.dropWhile p = cs := by
  cases cs with
  | nil => rfl
  | cons c cs => simp [h c rfl]

theorem takeWhile_append_of_head {p : Char → Bool} {cs rest : List Char} (h : ∀ c ∈ cs, p c = true)
    (hr : ∀ c ∈ rest.head?, p c = false) : (cs ++ rest).takeWhile p = cs := by
  have hs : rest.takeWhile p = [] := by
    cases rest with
    | nil => rfl
    | cons c rest => simp [hr c rfl]
  rw [List.takeWhile_append_of_pos h, hs, List.append_nil]

theorem dropWhile_append_of_head {p : Char → Bool} {cs rest : List Char} (h : ∀ c ∈ cs, p c = true)
    (hr : ∀ c ∈ rest.head?, p c = false) : (cs ++ rest).dropWhile p = rest := by
  rw [List.dropWhile_append_of_pos h, dropWhile_of_head hr]

theorem dropTrailing_of_getLast {p : Char → Bool} {cs : List Char}
    (h : ∀ c ∈ cs.getLast?, p c = false) : dropTrailing p cs = cs := by
  have hr : cs.reverse.dropWhile p = cs.reverse :=
    dropWhile_of_head (by simpa only [List.head?_reverse] using h)
  rw [dropTrailing, hr, List.reverse_reverse]

theorem trim_of_isTrimmed {cs : List Char} (h : IsTrimmed cs) : trim cs = cs := by
  rw [trim, trimBy, dropWhile_of_head h.1, dropTrailing_of_getLast h.2]

theorem isTrimmed_of_all {cs : List Char} (h : ∀ c ∈ cs, isBlank c = false) : IsTrimmed cs :=
  ⟨fun c hc => h c (List.mem_of_head? hc), fun c hc => h c (List.mem_of_getLast? hc)⟩

theorem head_of_dropWhile_eq_self {p : Char → Bool} {cs : List Char} (h : cs.dropWhile p = cs) :
    ∀ c ∈ cs.head?, p c = false := by
  intro c hc
  cases cs with
  | nil => simp at hc
  | cons d tail =>
    simp only [List.head?_cons, Option.mem_some_iff] at hc
    subst hc
    cases hp : p d with
    | false => rfl
    | true =>
      rw [List.dropWhile_cons_of_pos hp] at h
      have hl := (List.dropWhile_suffix p (l := tail)).length_le
      rw [h, List.length_cons] at hl
      omega

theorem trim_eq_self_iff {cs : List Char} : trim cs = cs ↔ IsTrimmed cs := by
  refine ⟨fun h => ?_, trim_of_isTrimmed⟩
  have hs := List.dropWhile_suffix isBlank (l := cs)
  have ht := (List.dropWhile_suffix isBlank (l := (cs.dropWhile isBlank).reverse)).length_le
  have hl : (trim cs).length ≤ (cs.dropWhile isBlank).length := by
    simpa only [trim, trimBy, dropTrailing, List.length_reverse] using ht
  rw [h] at hl
  -- a suffix that is no shorter is the whole
  have hd : cs.dropWhile isBlank = cs := hs.eq_of_length (by have := hs.length_le; omega)
  refine ⟨head_of_dropWhile_eq_self hd, ?_⟩
  rw [trim, trimBy, hd, dropTrailing, List.reverse_eq_iff] at h
  simpa only [List.head?_reverse] using head_of_dropWhile_eq_self h

theorem head_dropWhile {p : Char → Bool} {cs : List Char} :
    ∀ c ∈ (cs.dropWhile p).head?, p c = false := by
  induction cs with
  | nil => simp
  | cons d cs ih =>
    cases hp : p d with
    | true => rwa [List.dropWhile_cons_of_pos hp]
    | false =>
      rw [List.dropWhile_cons_of_neg (by simp [hp])]
      intro c hc
      cases hc
      exact hp

theorem isTrimmed_trim (cs : List Char) : IsTrimmed (trim cs) := by
  have hh : ∀ c ∈ (cs.dropWhile isBlank).head?, isBlank c = false := head_dropWhile
  rw [trim, trimBy, dropTrailing]
  constructor
  · -- what is left after the blanks at the end are dropped starts as before
    intro c hc
    obtain ⟨back, hb⟩ := List.dropWhile_suffix isBlank (l := (cs.dropWhile isBlank).reverse)
    have hp : cs.dropWhile isBlank =
        ((cs.dropWhile isBlank).reverse.dropWhile isBlank).reverse ++ back.reverse := by
      rw [← List.reverse_append, hb, List.reverse_reverse]
    refine hh c ?_
    rw [hp, List.head?_append]
    rw [Option.mem_def] at hc ⊢
    rw [hc]
    rfl
  · rw [List.getLast?_reverse]
    exact head_dropWhile

theorem isAlpha_range {c : Char} (h : c.isAlpha = true) :
    (65 ≤ c.toNat ∧ c.toNat ≤ 90) ∨ (97 ≤ c.toNat ∧ c.toNat ≤ 122) := by
  have hr : (decide (c.val ≥ 'A'.val ∧ c.val ≤ 'Z'.val) ||
      (decide (c.val ≥ 'a'.val) && decide (c.val ≤ 'z'.val))) = true := h
  simp only [Bool.or_eq_true, Bool.and_eq_true, decide_eq_true_eq, ge_iff_le,
    UInt32.le_iff_toNat_le] at hr
  exact hr

theorem isDigit_range {c : Char} (h : c.isDigit = true) : 48 ≤ c.toNat ∧ c.toNat ≤ 57 := by
  simp only [Char.isDigit, Bool.and_eq_true, decide_eq_true_eq, ge_iff_le,
    UInt32.le_iff_toNat_le] at h
  exact h

theorem isBlank_of_isAlpha {c : Char} (h : c.isAlpha = true) : isBlank c = false := by
  have hr := isAlpha_range h
  simp only [isBlank, Bool.or_eq_false_iff, Bool.and_eq_false_iff, decide_eq_false_iff_not,
    beq_eq_false_iff_ne]
  omega

theorem dropTrailing_append_of_all {p : Char → Bool} {cs blanks : List Char}
    (h : ∀ c ∈ blanks, p c = true) : dropTrailing p (cs ++ blanks) = dropTrailing p cs := by
  have hr : ∀ c ∈ blanks.reverse, p c = true := fun c hc => h c (List.mem_reverse.mp hc)
  simp only [dropTrailing, List.reverse_append, List.dropWhile_append_of_pos hr]

/-- The blanks around a text do not count. -/
theorem trim_append_blanks {front cs back : List Char} (hf : ∀ c ∈ front, isBlank c = true)
    (hb : ∀ c ∈ back, isBlank c = true) (h : IsTrimmed cs) (hne : cs ≠ []) :
    trim (front ++ cs ++ back) = cs := by
  have hd : (cs ++ back).dropWhile isBlank = cs ++ back := by
    refine dropWhile_of_head ?_
    obtain ⟨c, tail, rfl⟩ := List.exists_cons_of_ne_nil hne
    exact h.1
  rw [trim, trimBy, List.append_assoc, List.dropWhile_append_of_pos hf, hd,
    dropTrailing_append_of_all hb, dropTrailing_of_getLast h.2]

theorem dropTrailing_append_of_head {p : Char → Bool} {cs back : List Char}
    (h : ∃ c ∈ back.head?, p c = false) :
    dropTrailing p (cs ++ back) = cs ++ dropTrailing p back := by
  obtain ⟨c, hc, hp⟩ := h
  have hne : back.reverse.dropWhile p ≠ [] := by
    intro he
    have hw := List.takeWhile_append_dropWhile (p := p) (l := back.reverse)
    rw [he, List.append_nil] at hw
    have hm : c ∈ back.reverse.takeWhile p := by
      rw [hw]
      exact List.mem_reverse.mpr (List.mem_of_head? hc)
    rw [List.all_eq_true.mp List.all_takeWhile c hm] at hp
    cases hp
  rw [dropTrailing, dropTrailing, List.reverse_append, List.dropWhile_append,
    if_neg (by simpa using hne), List.reverse_append, List.reverse_reverse]

/-- Of a text before one that does not start with a blank, only the blanks at the front go. -/
theorem trim_append_of_head {cs back : List Char} (h : ∃ c ∈ back.head?, isBlank c = false) :
    trim (cs ++ back) = cs.dropWhile isBlank ++ dropTrailing isBlank back := by
  have hh : ∀ c ∈ back.head?, isBlank c = false := by
    obtain ⟨d, hd, hb⟩ := h
    intro c hc
    cases hc.symm.trans hd
    exact hb
  have hd : (cs ++ back).dropWhile isBlank = cs.dropWhile isBlank ++ back := by
    rw [List.dropWhile_append]
    split
    next he => rw [dropWhile_of_head hh, List.isEmpty_iff.mp he, List.nil_append]
    next => rfl
  rw [trim, trimBy, hd, dropTrailing_append_of_head h]

theorem trim_append_of_blank {cs blanks : List Char} (h : ∀ c ∈ blanks, isBlank c = true) :
    trim (cs ++ blanks) = trim cs := by
  rw [trim, trim, trimBy, trimBy, List.dropWhile_append]
  split
  next he =>
    have hw := dropWhile_append_of_head h (by simp : ∀ c ∈ ([] : List Char).head?, isBlank c = false)
    rw [List.append_nil] at hw
    rw [hw, List.isEmpty_iff.mp he]
  next => exact dropTrailing_append_of_all h

theorem trim_blank_append {blanks : List Char} (h : ∀ c ∈ blanks, isBlank c = true)
    (cs : List Char) : trim (blanks ++ cs) = trim cs := by
  rw [trim, trim, trimBy, trimBy, List.dropWhile_append_of_pos h]

theorem exists_dropTrailing_append (p : Char → Bool) (cs : List Char) :
    ∃ back, cs = dropTrailing p cs ++ back ∧ ∀ c ∈ back, p c = true := by
  refine ⟨(cs.reverse.takeWhile p).reverse, ?_, ?_⟩
  · rw [dropTrailing, ← List.reverse_append, List.takeWhile_append_dropWhile, List.reverse_reverse]
  · intro c hc
    exact List.all_eq_true.mp List.all_takeWhile c (List.mem_reverse.mp hc)

theorem getLast_dropTrailing (p : Char → Bool) (cs : List Char) :
    ∀ c ∈ (dropTrailing p cs).getLast?, p c = false := by
  rw [dropTrailing, List.getLast?_reverse]
  exact head_dropWhile

theorem exists_dropTrailing_cons {p : Char → Bool} {c : Char} (h : p c = false) (cs : List Char) :
    ∃ ds, dropTrailing p (c :: cs) = c :: ds := by
  obtain ⟨back, hcs, hback⟩ := exists_dropTrailing_append p (c :: cs)
  generalize dropTrailing p (c :: cs) = front at hcs
  cases front with
  | nil =>
    have hc := hback c (by rw [← List.nil_append back, ← hcs]; exact List.mem_cons_self)
    rw [h] at hc
    cases hc
  | cons d ds => exact ⟨ds, by rw [(List.cons.inj hcs).1]⟩

/-- A part of a text is left when the end of the text is dropped, but for its own end. -/
theorem dropTrailing_infix (p : Char → Bool) {cs ds : List Char} (h : cs <:+: ds) :
    dropTrailing p cs <:+: dropTrailing p ds := by
  obtain ⟨front, back, rfl⟩ := h
  obtain ⟨tail, hcs, -⟩ := exists_dropTrailing_append p cs
  rcases List.eq_nil_or_concat (dropTrailing p cs) with hnil | ⟨start, c, hconcat⟩
  · rw [hnil]
    exact List.nil_infix
  · have hc : p c = false := getLast_dropTrailing p cs c (by simp [hconcat])
    obtain ⟨kept, hkept⟩ := exists_dropTrailing_cons hc (tail ++ back)
    have hall : front ++ cs ++ back = front ++ start ++ c :: (tail ++ back) := by
      rw [hcs, hconcat]
      simp
    rw [hall, dropTrailing_append_of_head ⟨c, rfl, hc⟩, hkept, hconcat]
    exact ⟨front, kept, by simp⟩

theorem exists_trim_append (cs : List Char) :
    ∃ blanks, cs.dropWhile isBlank = trim cs ++ blanks ∧ ∀ c ∈ blanks, isBlank c = true :=
  exists_dropTrailing_append isBlank (cs.dropWhile isBlank)

theorem ne_of_isBlank {c d : Char} (h : isBlank c = true) (hd : isBlank d = false) : c ≠ d := by
  rintro rfl
  rw [h] at hd
  cases hd

end Restyle.Text
