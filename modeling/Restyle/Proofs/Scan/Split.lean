import Restyle.Proofs.Scan.Locality
import Restyle.Proofs.Traverse
import Restyle.Scan.Split

namespace Restyle.Scan

variable {isSeparator : Char → Bool}

theorem extendFirst_append (front next : List Char) (found : List (List Char)) :
    extendFirst front (extendFirst next found) = extendFirst (front ++ next) found := by
  cases found with
  | nil => rfl
  | cons part parts => simp [extendFirst]

theorem extendFirst_ne_nil (front : List Char) (found : List (List Char)) :
    extendFirst front found ≠ [] := by
  cases found with
  | nil => simp [extendFirst]
  | cons part parts => simp [extendFirst]

theorem map_extendFirst_append (front next : List Char) (found : Except Fault (List (List Char))) :
    (found.map (extendFirst next)).map (extendFirst front) =
      found.map (extendFirst (front ++ next)) := by
  cases found with
  | error fault => rfl
  | ok found => exact congrArg Except.ok (extendFirst_append front next found)

/-- There is always a part, be it empty. -/
theorem parts_ne_nil {depth : Int} {offset : Nat} {cs : List Char} {found : List (List Char)}
    (h : parts isSeparator depth offset cs = .ok found) : found ≠ [] := by
  fun_induction parts isSeparator depth offset cs generalizing found with
  | case1 => cases h; simp
  | case2 => cases h
  | case3 =>
    obtain ⟨found', _, rfl⟩ := map_eq_ok h
    exact extendFirst_ne_nil _ found'
  | case4 _ _ _ _ _ _ _ _ ih => exact ih h
  | case5 =>
    obtain ⟨found', _, rfl⟩ := map_eq_ok h
    simp
  | case6 =>
    obtain ⟨found', _, rfl⟩ := map_eq_ok h
    exact extendFirst_ne_nil _ found'

/-- Only a string without an end keeps a text from being split. -/
theorem exists_offset_of_parts {depth : Int} {offset : Nat} {cs : List Char} {fault : Fault}
    (h : parts isSeparator depth offset cs = .error fault) :
    ∃ offset, fault = .unterminatedString offset := by
  fun_induction parts isSeparator depth offset cs with
  | case1 => cases h
  | case2 =>
    cases h
    exact ⟨_, rfl⟩
  | case3 depth offset c tail hq literal rest hs hl ih =>
    exact ih (map_eq_error h)
  | case4 depth offset c tail hq rest hc hl ih => exact ih h
  | case5 depth offset c tail hq hc hsep ih => exact ih (map_eq_error h)
  | case6 depth offset c tail hq hc hsep ih => exact ih (map_eq_error h)

/-- The splitter goes over a text from one depth to another and cuts nothing in it. -/
def Crosses (isSeparator : Char → Bool) (depth depth' : Int) (cs : List Char) : Prop :=
  ∀ offset after, parts isSeparator depth offset (cs ++ after) =
    (parts isSeparator depth' (offset + cs.length) after).map (extendFirst cs)

theorem crosses_nil (depth : Int) : Crosses isSeparator depth depth [] := by
  intro offset after
  cases h : parts isSeparator depth offset after with
  | error fault => simp [h, Except.map]
  | ok found =>
    obtain ⟨part, parts, rfl⟩ := List.exists_cons_of_ne_nil (parts_ne_nil h)
    simp [h, Except.map, extendFirst]

theorem Crosses.append {depth depth' depth'' : Int} {cs ds : List Char}
    (hc : Crosses isSeparator depth depth' cs) (hd : Crosses isSeparator depth' depth'' ds) :
    Crosses isSeparator depth depth'' (cs ++ ds) := by
  intro offset after
  rw [List.append_assoc, hc, hd, map_extendFirst_append, List.length_append, Nat.add_assoc]

theorem afterComment?_of_ne {c : Char} (h : c ≠ '/') (tail : List Char) :
    afterComment? (c :: tail) = none := by
  unfold afterComment?
  split
  next he => exact absurd (List.cons.inj he).1 h
  next he => exact absurd (List.cons.inj he).1 h
  next => rfl

theorem crosses_char {depth : Int} {c : Char} (hq : isQuote c = false) (hslash : c ≠ '/')
    (hs : (!isOpening c && !isClosing c && isSeparator c && depth == 0) = false) :
    Crosses isSeparator depth (deepen depth c) [c] := by
  intro offset after
  have hc := afterComment?_of_ne hslash after
  rw [List.singleton_append, parts.eq_def]
  simp only [hq, Bool.false_eq_true, if_false, hs]
  split
  next hr => rw [hc] at hr; cases hr
  next => rfl

theorem crosses_string {depth : Int} {token : List Char} (hq : ∃ c ∈ token.head?, isQuote c = true)
    (ht : takeString? token = some (token, [])) : Crosses isSeparator depth depth token := by
  intro offset after
  obtain ⟨quote, hc, hq⟩ := hq
  obtain ⟨tail, rfl⟩ : ∃ tail, token = quote :: tail := List.head?_eq_some_iff.mp hc
  have hs := takeString?_read_append ht after
  rw [List.cons_append] at hs ⊢
  rw [parts.eq_def]
  simp only [hq, if_true]
  split
  next hn => rw [hs] at hn; cases hn
  next literal rest hl =>
    rw [hs] at hl
    cases hl
    rfl

/-- The characters that mean nothing to the splitter, neither outside nor inside brackets. -/
def isInert (isSeparator : Char → Bool) (c : Char) : Bool :=
  !isQuote c && c != '/' && !isOpening c && !isClosing c && !isSeparator c

theorem crosses_inert {depth : Int} {cs : List Char} (h : ∀ c ∈ cs, isInert isSeparator c = true) :
    Crosses isSeparator depth depth cs := by
  induction cs with
  | nil => exact crosses_nil depth
  | cons c cs ih =>
    have hc := h c List.mem_cons_self
    simp only [isInert, Bool.and_eq_true, Bool.not_eq_true', bne_iff_ne, ne_eq] at hc
    obtain ⟨⟨⟨⟨hq, hslash⟩, ho⟩, hcl⟩, hs⟩ := hc
    have hd : deepen depth c = depth := by simp [deepen, ho, hcl]
    have hone : Crosses isSeparator depth (deepen depth c) [c] :=
      crosses_char hq hslash (by simp [hs])
    rw [hd] at hone
    exact hone.append (ih fun d hd => h d (List.mem_cons_of_mem c hd))

/-- A part that is crossed at depth zero ends at the next separator. -/
theorem parts_cut {cs : List Char} {c : Char} (hc : Crosses isSeparator 0 0 cs)
    (hs : isSeparator c = true) (hq : isQuote c = false) (hslash : c ≠ '/')
    (ho : isOpening c = false) (hcl : isClosing c = false) (offset : Nat) (after : List Char) :
    parts isSeparator 0 offset (cs ++ c :: after) =
      (parts isSeparator 0 (offset + cs.length + 1) after).map (cs :: ·) := by
  have hn := afterComment?_of_ne hslash after
  have hcut : parts isSeparator 0 (offset + cs.length) (c :: after) =
      (parts isSeparator 0 (offset + cs.length + 1) after).map ([] :: ·) := by
    rw [parts.eq_def]
    simp only [hq, Bool.false_eq_true, if_false, hs, ho, hcl]
    split
    next hr => rw [hn] at hr; cases hr
    next => rfl
  rw [hc, hcut]
  cases parts isSeparator 0 (offset + cs.length + 1) after with
  | error fault => rfl
  | ok found => simp [Except.map, extendFirst]

theorem parts_whole {cs : List Char} (hc : Crosses isSeparator 0 0 cs) (offset : Nat) :
    parts isSeparator 0 offset cs = .ok [cs] := by
  have h := hc offset []
  rw [List.append_nil] at h
  rw [h, parts.eq_def]
  simp [Except.map, extendFirst]

/-- The first mark after a text without marks, strings and brackets. -/
theorem cutAt?_of_not_mem {isMark : Char → Bool} {cs : List Char} {c : Char}
    (h : ∀ d ∈ cs, isQuote d = false ∧ isOpening d = false ∧ isClosing d = false ∧
      isMark d = false)
    (hm : isMark c = true) (hq : isQuote c = false) (ho : isOpening c = false)
    (hcl : isClosing c = false) (after : List Char) :
    cutAt? isMark 0 (cs ++ c :: after) = some (cs, after) := by
  induction cs with
  | nil =>
    rw [List.nil_append, cutAt?.eq_def]
    simp [hq, ho, hcl, hm]
  | cons d cs ih =>
    obtain ⟨hdq, hdo, hdc, hdm⟩ := h d List.mem_cons_self
    have hd : deepen 0 d = 0 := by simp [deepen, hdo, hdc]
    have hi := ih fun e he => h e (List.mem_cons_of_mem d he)
    rw [List.cons_append, cutAt?.eq_def]
    simp [hdq, hdm, hd, hi]

theorem cutAt?_of_string {isMark : Char → Bool} {depth : Int} {c : Char}
    {tail literal rest : List Char} (hq : isQuote c = true)
    (hs : takeString? (c :: tail) = some (literal, rest)) :
    cutAt? isMark depth (c :: tail) =
      (cutAt? isMark depth rest).map fun (before, after) => (literal ++ before, after) := by
  rw [cutAt?.eq_def]
  simp only [hq, if_true]
  split
  next hn => rw [hs] at hn; cases hn
  next hl =>
    rw [hs] at hl
    cases hl
    rfl

/-- The mark after a string. -/
theorem cutAt?_string_append {isMark : Char → Bool} {quote : Char} {cs : List Char} {c : Char}
    (hquote : isQuote quote = true) (ht : takeString? (quote :: cs) = some (quote :: cs, []))
    (hm : isMark c = true) (hq : isQuote c = false) (ho : isOpening c = false)
    (hcl : isClosing c = false) (after : List Char) :
    cutAt? isMark 0 (quote :: cs ++ c :: after) = some (quote :: cs, after) := by
  have hs := takeString?_read_append ht (c :: after)
  have hnext : cutAt? isMark 0 (c :: after) = some ([], after) := by
    rw [cutAt?.eq_def]
    simp [hq, ho, hcl, hm]
  rw [List.cons_append] at hs ⊢
  simp only [cutAt?_of_string hquote hs, hnext, Option.map_some, List.append_nil]

end Restyle.Scan
