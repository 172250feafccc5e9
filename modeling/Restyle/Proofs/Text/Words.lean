import Restyle.Proofs.Text.Trim
import Restyle.Text.Digit

namespace Restyle.Text

/-- A text that is not empty and has no blanks in it. -/
structure IsSolid (cs : List Char) : Prop where
  ne_nil : cs ≠ []
  notBlank : ∀ c ∈ cs, isBlank c = false

variable {cs ds : List Char}

instance : Decidable (IsSolid cs) :=
  decidable_of_iff (cs ≠ [] ∧ ∀ c ∈ cs, isBlank c = false)
    ⟨fun h => ⟨h.1, h.2⟩, fun h => ⟨h.ne_nil, h.notBlank⟩⟩

theorem IsSolid.append (h : IsSolid cs) (hd : ∀ c ∈ ds, isBlank c = false) :
    IsSolid (cs ++ ds) :=
  ⟨by simp [h.ne_nil], List.forall_mem_append.mpr ⟨h.notBlank, hd⟩⟩

theorem isBlank_of_isDigit {c : Char} (h : isDigit c = true) : isBlank c = false := by
  have hzeros : ∀ z ∈ zeros, (0xa0 < z ∧ z + 10 ≤ 0x1680) ∨ (0x1680 < z ∧ z + 10 ≤ 0x2000) ∨
      0x3000 < z := by decide
  have hrange : (48 ≤ c.toNat ∧ c.toNat ≤ 57) ∨
      ∃ z ∈ zeros, z ≤ c.toNat ∧ c.toNat < z + 10 := by
    unfold isDigit digitValue? at h
    split at h
    next =>
      split at h
      next hd => exact .inl (isDigit_range hd)
      next => cases h
    next =>
      rw [Option.isSome_map, List.find?_isSome] at h
      obtain ⟨z, hz, hc⟩ := h
      simp only [Bool.and_eq_true, decide_eq_true_eq] at hc
      exact .inr ⟨z, hz, hc⟩
  have hnot : ¬isBlank c = true := by
    intro hb
    simp only [isBlank, Bool.or_eq_true, Bool.and_eq_true, decide_eq_true_eq, beq_iff_eq] at hb
    rcases hrange with hr | ⟨z, hz, hr⟩
    · omega
    · have := hzeros z hz
      omega
  exact Bool.not_eq_true _ ▸ hnot

theorem fields_cons_of_not {p : Char → Bool} {c : Char} {field : List Char}
    {others : List (List Char)} (hc : p c = false) (h : fields p cs = field :: others) :
    fields p (c :: cs) = (c :: field) :: others := by
  rw [fields, if_neg (by simp [hc]), h]

theorem not_of_mem_fields {p : Char → Bool} {field : List Char} (h : field ∈ fields p cs) :
    ∀ c ∈ field, p c = false := by
  induction cs generalizing field with
  | nil =>
    rw [fields, List.mem_singleton] at h
    rw [h]
    exact List.forall_mem_nil _
  | cons c cs ih =>
    unfold fields at h
    split at h
    next =>
      rcases List.mem_cons.mp h with rfl | h
      · exact List.forall_mem_nil _
      · exact ih h
    next hc =>
      rw [Bool.not_eq_true] at hc
      split at h
      next =>
        rw [List.mem_singleton.mp h]
        exact List.forall_mem_singleton.mpr hc
      next first others hf =>
        rw [hf] at ih
        rcases List.mem_cons.mp h with rfl | h
        · exact List.forall_mem_cons.mpr ⟨hc, ih List.mem_cons_self⟩
        · exact ih (List.mem_cons_of_mem first h)

theorem isSolid_of_mem_words {word : List Char} (h : word ∈ words cs) : IsSolid word := by
  obtain ⟨hm, hne⟩ := List.mem_filter.mp h
  exact ⟨by simpa using hne, not_of_mem_fields hm⟩

theorem fields_of_not {p : Char → Bool} (h : ∀ c ∈ cs, p c = false) : fields p cs = [cs] := by
  induction cs with
  | nil => rfl
  | cons c cs ih =>
    obtain ⟨hc, hcs⟩ := List.forall_mem_cons.mp h
    exact fields_cons_of_not hc (ih hcs)

theorem fields_append_cons {p : Char → Bool} {c : Char} (h : ∀ c ∈ cs, p c = false)
    (hc : p c = true) (rest : List Char) :
    fields p (cs ++ c :: rest) = cs :: fields p rest := by
  induction cs with
  | nil => rw [List.nil_append, fields, if_pos hc]
  | cons d cs ih =>
    obtain ⟨hd, hcs⟩ := List.forall_mem_cons.mp h
    exact fields_cons_of_not hd (ih hcs)

theorem words_append_space (h : IsSolid cs) (rest : List Char) :
    words (cs ++ ' ' :: rest) = cs :: words rest := by
  rw [words, fields_append_cons h.notBlank (by decide)]
  exact List.filter_cons_of_pos (by simp [h.ne_nil])

theorem words_intercalate {texts : List (List Char)} (h : ∀ text ∈ texts, IsSolid text) :
    words ([' '].intercalate texts) = texts := by
  induction texts with
  | nil => rfl
  | cons text texts ih =>
    obtain ⟨ht, hrest⟩ := List.forall_mem_cons.mp h
    cases texts with
    | nil =>
      rw [List.intercalate_singleton, words, fields_of_not ht.notBlank]
      exact List.filter_cons_of_pos (by simp [ht.ne_nil])
    | cons next texts =>
      rw [List.intercalate_cons_cons, List.append_assoc, List.singleton_append,
        words_append_space ht, ih hrest]

/-- Texts are found again as words if and only if they are words. -/
theorem words_intercalate_iff {texts : List (List Char)} :
    words ([' '].intercalate texts) = texts ↔ ∀ text ∈ texts, IsSolid text := by
  refine ⟨fun h text hm => ?_, words_intercalate⟩
  rw [← h] at hm
  exact isSolid_of_mem_words hm

end Restyle.Text
