import Restyle.Proofs.Scan.Boundary
import Restyle.Proofs.Scan.Insertion

namespace Restyle.Scan

/-- The comments without quotes and braces: a line with its end, or a block. -/
inductive IsMildComment : List Char → Prop
  | line {text : List Char} (hm : ∀ c ∈ text, isMild c = true) (hl : '\n' ∉ text) :
    IsMildComment ('/' :: '/' :: text ++ ['\n'])
  | block {text : List Char} (hm : ∀ c ∈ text, isMild c = true)
    (he : Text.hasPart ['*', '/'] text = false) :
    IsMildComment ('/' :: '*' :: text ++ ['*', '/'])

theorem IsMildComment.isMildText {comment : List Char} (h : IsMildComment comment) :
    IsMildText comment := by
  cases h with
  | line hm hl =>
    refine ⟨?_, '/' :: '/' :: _, '\n', rfl, by decide⟩
    intro c hc
    simp only [List.cons_append, List.mem_cons, List.mem_append, List.not_mem_nil, or_false] at hc
    rcases hc with rfl | rfl | hc | rfl
    · rfl
    · rfl
    · exact hm c hc
    · rfl
  | @block text hm he =>
    refine ⟨?_, '/' :: '*' :: text ++ ['*'], '/', by simp, by decide⟩
    intro c hc
    simp only [List.cons_append, List.mem_cons, List.mem_append, List.not_mem_nil, or_false] at hc
    rcases hc with rfl | rfl | hc | rfl | rfl
    · rfl
    · rfl
    · exact hm c hc
    · rfl
    · rfl

variable {isSeparator : Char → Bool}

/-- The splitter leaves a comment out; of a line the line feed stays. -/
theorem parts_comment_append (hsep : isSeparator '\n' = false) {comment : List Char}
    (h : IsMildComment comment) (depth : Int) (offset : Nat) (right : List Char) :
    ∃ offset' blanks, (∀ c ∈ blanks, Text.isBlank c = true) ∧
      parts isSeparator depth offset (comment ++ right) =
        (parts isSeparator depth offset' right).map (extendFirst blanks) := by
  cases h with
  | @line text hm hl =>
    have hd : (text ++ '\n' :: right).dropWhile (· != '\n') = '\n' :: right := by
      refine Text.dropWhile_append_of_head (fun c hc => ?_) (by simp)
      simp only [bne_iff_ne, ne_eq]
      rintro rfl
      exact hl hc
    have hc : afterComment? ('/' :: '/' :: (text ++ '\n' :: right)) = some ('\n' :: right) := by
      rw [afterComment?_line, hd]
    have hn : afterComment? ('\n' :: right) = none := afterComment?_of_ne (by decide) right
    refine ⟨offset + (('/' :: '/' :: (text ++ '\n' :: right)).length - ('\n' :: right).length) + 1,
      ['\n'], List.all_eq_true.mp (by decide), ?_⟩
    simp only [List.cons_append, List.append_assoc, List.nil_append]
    rw [parts_of_comment (by decide) hc, parts_of_char (by decide) hn, hsep]
    simp only [Bool.and_false, Bool.false_and, Bool.false_eq_true, if_false]
    rfl
  | @block text hm he =>
    have hcut := Text.cut?_of_hasPart_eq_false he (by decide) [] right
    have hc : afterComment? ('/' :: '*' :: (text ++ '*' :: '/' :: right)) = some right := by
      rw [afterComment?_block]
      simp only [List.cons_append, List.nil_append] at hcut
      rw [hcut]
      rfl
    refine ⟨offset + (('/' :: '*' :: (text ++ '*' :: '/' :: right)).length - right.length), [],
      by simp, ?_⟩
    simp only [List.cons_append, List.append_assoc, List.nil_append]
    rw [parts_of_comment (by decide) hc]
    exact crosses_nil depth _ right

/-- Where a text stands matters to the parts only if there are none. -/
theorem parts_offset {depth : Int} {offset : Nat} {cs : List Char} {found : List (List Char)}
    (h : parts isSeparator depth offset cs = .ok found) (offset' : Nat) :
    parts isSeparator depth offset' cs = .ok found := by
  fun_induction parts isSeparator depth offset cs generalizing found offset' with
  | case1 =>
    cases h
    rw [parts.eq_def]
  | case2 => cases h
  | case3 depth offset c tail hq literal rest hs _ ih =>
    obtain ⟨found', hf, rfl⟩ := map_eq_ok h
    rw [parts_of_string hq hs, ih hf]
    rfl
  | case4 depth offset c tail hq rest hc _ ih =>
    rw [parts_of_comment (by simpa using hq) hc, ih h]
  | case5 depth offset c tail hq hc hs ih =>
    obtain ⟨found', hf, rfl⟩ := map_eq_ok h
    have hd : deepen depth c = depth := by
      simp only [Bool.and_eq_true, Bool.not_eq_true'] at hs
      simp [deepen, hs.1.1.1, hs.1.1.2]
    rw [parts_of_char (by simpa using hq) hc, if_pos hs, hd, ih hf]
    rfl
  | case6 depth offset c tail hq hc hs ih =>
    obtain ⟨found', hf, rfl⟩ := map_eq_ok h
    rw [parts_of_char (by simpa using hq) hc, if_neg hs, ih hf]
    rfl

/-- Whether a place is between two parts of a text: the text before it ends outside of all strings,
comments and brackets, and only blanks stand between the place and a separator or an end. -/
def isGap (isSeparator : Char → Bool) (left right : List Char) : Bool :=
  unsettled 0 left == (0, []) &&
    (gives (·.getLast?.all (·.all Text.isBlank)) (parts isSeparator 0 0 left) ||
      gives (·.head?.all (·.all Text.isBlank)) (parts isSeparator 0 0 right))

/-- A comment in a gap changes no part. -/
theorem splitBy_comment (hsep : isSeparator '\n' = false) {left right comment : List Char}
    {found : List (List Char)} (hg : isGap isSeparator left right = true)
    (hc : IsMildComment comment) (h : splitBy isSeparator (left ++ right) = .ok found) :
    splitBy isSeparator (left ++ comment ++ right) = .ok found := by
  simp only [isGap, Bool.and_eq_true, beq_iff_eq, Bool.or_eq_true] at hg
  obtain ⟨hu, hblank⟩ := hg
  obtain ⟨done, last, width, -, hparts⟩ := parts_append_unsettled isSeparator 0 left
  rw [hu] at hparts
  simp only [List.nil_append] at hparts
  obtain ⟨pieces, hp, rfl⟩ := map_eq_ok h
  rw [hparts] at hp
  obtain ⟨found, hf, rfl⟩ := map_eq_ok hp
  obtain ⟨first, more, rfl⟩ := List.exists_cons_of_ne_nil (parts_ne_nil hf)
  obtain ⟨offset', blanks, hb, hcomment⟩ :=
    parts_comment_append hsep hc 0 (0 + width) right
  have htrim : Text.trim (last ++ (blanks ++ first)) = Text.trim (last ++ first) := by
    rcases hblank with hblank | hblank
    · have hself := hparts 0 []
      rw [List.append_nil, parts_of_crosses (crosses_nil 0)] at hself
      have hl : ∀ c ∈ last, Text.isBlank c = true := by
        simpa [hself, Except.map, gives, extendFirst] using hblank
      have hl' : ∀ c ∈ last ++ blanks, Text.isBlank c = true := fun c hm =>
        (List.mem_append.mp hm).elim (hl c) (hb c)
      rw [← List.append_assoc, Text.trim_blank_append hl', Text.trim_blank_append hl]
    · have hfirst : ∀ c ∈ first, Text.isBlank c = true := by
        simpa [parts_offset hf 0, gives] using hblank
      rw [← List.append_assoc, Text.trim_append_of_blank hfirst, Text.trim_append_of_blank hfirst,
        Text.trim_append_of_blank hb]
  rw [splitBy, List.append_assoc, hparts, hcomment, parts_offset hf]
  simp only [Except.map, extendFirst, List.map_append, List.map_cons, htrim]

theorem isQuote_of_isBlank {c : Char} (h : Text.isBlank c = true) : isQuote c = false := by
  simp [isQuote, Text.ne_of_isBlank h (d := '\x27') (by decide),
    Text.ne_of_isBlank h (d := '\x22') (by decide), Text.ne_of_isBlank h (d := '\x60') (by decide)]

theorem settling_of_isBlank {c : Char} (h : Text.isBlank c = true) :
    isMild c = true ∧ isSettling c = true := by
  simp [isMild, isSettling, isQuote_of_isBlank h, Text.ne_of_isBlank h (d := '{') (by decide),
    Text.ne_of_isBlank h (d := '}') (by decide), Text.ne_of_isBlank h (d := '\\') (by decide),
    Text.ne_of_isBlank h (d := '$') (by decide)]

theorem mem_of_extendFirst_eq {c : Char} {read first : List Char} {found more : List (List Char)}
    (h : extendFirst (c :: read) found = first :: more) : c ∈ first := by
  cases found with
  | nil =>
    cases h
    exact List.mem_cons_self
  | cons part found =>
    cases h
    exact List.mem_cons_self

/-- A text with a blank first part starts with a separator, a blank or a comment. -/
theorem settling_head (hsep : ∀ c, isSeparator c = true → isSettling c = true) {depth : Int}
    {offset : Nat} {c : Char} {tail : List Char} {first : List Char} {more : List (List Char)}
    (hp : parts isSeparator depth offset (c :: tail) = .ok (first :: more))
    (hb : ∀ d ∈ first, Text.isBlank d = true) : isSettling c = true := by
  cases hq : isQuote c with
  | true =>
    cases hs : takeString? (c :: tail) with
    | none =>
      rw [parts_of_open_string hq hs] at hp
      cases hp
    | some found =>
      obtain ⟨literal, rest⟩ := found
      rw [parts_of_string hq hs] at hp
      obtain ⟨found, _, he⟩ := map_eq_ok hp
      obtain ⟨tail', rfl⟩ := takeString?_eq_cons hs
      rw [isQuote_of_isBlank (hb c (mem_of_extendFirst_eq he))] at hq
      cases hq
  | false =>
    by_cases hslash : c = '/'
    · subst hslash
      rfl
    rw [parts_of_char hq (afterComment?_of_ne hslash tail)] at hp
    obtain ⟨found, _, he⟩ := map_eq_ok hp
    split at he
    next hs =>
      simp only [Bool.and_eq_true] at hs
      exact hsep c hs.1.2
    next => exact (settling_of_isBlank (hb c (mem_of_extendFirst_eq he))).2

/-- Whether only blanks stand in the last part. -/
def HasBlankLast (found : List (List Char)) : Prop :=
  ∀ last ∈ found.getLast?, ∀ c ∈ last, Text.isBlank c = true

theorem HasBlankLast.of_extendFirst {front : List Char} {found : List (List Char)}
    (h : HasBlankLast (extendFirst front found)) :
    HasBlankLast found ∧ (found.length ≤ 1 → ∀ c ∈ front, Text.isBlank c = true) := by
  cases found with
  | nil => exact ⟨by simp [HasBlankLast], fun _ => h front rfl⟩
  | cons part found =>
    cases found with
    | nil =>
      have hb := h (front ++ part) rfl
      refine ⟨?_, fun _ c hc => hb c (List.mem_append_left _ hc)⟩
      rintro last ⟨⟩ c hc
      exact hb c (List.mem_append_right _ hc)
    | cons next found => exact ⟨h, fun hl => by simp at hl⟩

/-- A comment that ends is what stands before the rest, and only a block can end the text. -/
theorem exists_comment_append {cs rest : List Char} (h : afterComment? cs = some rest)
    (ho : opensComment cs = false) :
    ∃ comment, cs = comment ++ rest ∧ (rest = [] → comment.getLast? = some '/') := by
  rcases afterComment?_cases h with ⟨text, rfl, rfl⟩ | ⟨text, rfl, rfl⟩
  · have hm : '\n' ∈ text := by simpa [opensComment] using ho
    refine ⟨'/' :: '/' :: text.takeWhile (· != '\n'), ?_, fun he => ?_⟩
    · simp only [List.cons_append, List.takeWhile_append_dropWhile]
    · have hw := List.takeWhile_append_dropWhile (p := (· != '\n')) (l := text)
      rw [he, List.append_nil] at hw
      rw [← hw] at hm
      simpa using List.all_eq_true.mp List.all_takeWhile '\n' hm
  · have hp : (Text.cut? ['*', '/'] text).isSome = true := by
      simpa [opensComment, Text.hasPart] using ho
    obtain ⟨⟨before, found⟩, hc⟩ := Option.isSome_iff_exists.mp hp
    refine ⟨'/' :: '*' :: before ++ ['*', '/'], ?_, fun _ => ?_⟩
    · rw [hc, Text.cut?_append hc]
      simp
    · rw [List.getLast?_append_of_ne_nil _ (by simp)]
      rfl

/-- A text with a blank last part ends with a separator, a blank or a comment. -/
theorem settling_getLast (hsep : ∀ c, isSeparator c = true → isMild c = true ∧ isSettling c = true)
    {depth : Int} {offset : Nat} {cs : List Char} {found : List (List Char)}
    (hu : (unsettled depth cs).2 = []) (hp : parts isSeparator depth offset cs = .ok found)
    (hb : HasBlankLast found) : ∀ c ∈ cs.getLast?, isMild c = true ∧ isSettling c = true := by
  fun_induction unsettled depth cs generalizing offset found with
  | case1 => simp
  | case2 => cases hu
  | case3 depth c tail hq literal rest hs _ ih =>
    rw [parts_of_string hq hs] at hp
    obtain ⟨found', hf, rfl⟩ := map_eq_ok hp
    obtain ⟨hlast, hfront⟩ := hb.of_extendFirst
    have happend := takeString?_append hs
    cases rest with
    | nil =>
      rw [parts.eq_def] at hf
      cases hf
      rw [List.append_nil] at happend
      have hc := hfront (by simp) c (by rw [← happend]; exact List.mem_cons_self)
      rw [isQuote_of_isBlank hc] at hq
      cases hq
    | cons d rest =>
      rw [happend, List.getLast?_append_of_ne_nil _ (List.cons_ne_nil d rest)]
      exact ih hu hf hlast
  | case4 => cases hu
  | case5 depth c tail hq rest hc _ ho ih =>
    rw [parts_of_comment (by simpa using hq) hc] at hp
    obtain ⟨comment, happend, hend⟩ := exists_comment_append hc (by simpa using ho)
    rw [happend]
    cases rest with
    | nil =>
      rw [List.append_nil, hend rfl]
      rintro d ⟨⟩
      exact ⟨rfl, rfl⟩
    | cons d rest =>
      rw [List.getLast?_append_of_ne_nil _ (List.cons_ne_nil d rest)]
      exact ih hu hp hb
  | case6 => cases hu
  | case7 depth c tail hq hc hs ih =>
    rw [parts_of_char (by simpa using hq) hc] at hp
    obtain ⟨found', hf, rfl⟩ := map_eq_ok hp
    cases tail with
    | nil =>
      rw [parts.eq_def] at hf
      cases hf
      rintro d ⟨⟩
      split at hb
      next hcut =>
        simp only [Bool.and_eq_true] at hcut
        exact hsep c hcut.1.2
      next => exact settling_of_isBlank (hb.of_extendFirst.2 (by simp) c List.mem_cons_self)
    | cons d tail =>
      rw [List.getLast?_cons_cons]
      refine ih hu hf ?_
      split at hb
      next =>
        obtain ⟨part, found', rfl⟩ := List.exists_cons_of_ne_nil (parts_ne_nil hf)
        exact hb
      next => exact hb.of_extendFirst.1

/-- A comment in a gap of a region's body does not move the end of the region. -/
theorem takeBraces?_comment
    (hsep : ∀ c, isSeparator c = true → isMild c = true ∧ isSettling c = true)
    {cs left right comment rest : List Char}
    (h : takeBraces? cs = some ('{' :: (left ++ right) ++ ['}'], rest))
    (hg : isGap isSeparator left right = true) (hc : IsMildComment comment) (after : List Char) :
    takeBraces? ('{' :: (left ++ comment ++ right) ++ ['}'] ++ after) =
      some ('{' :: (left ++ comment ++ right) ++ ['}'], after) := by
  simp only [isGap, Bool.and_eq_true, beq_iff_eq, Bool.or_eq_true] at hg
  obtain ⟨hu, hblank⟩ := hg
  refine takeBraces?_insert h hc.isMildText ?_ after
  rcases hblank with hblank | hblank
  · obtain ⟨found, hp, hb⟩ := exists_of_gives hblank
    refine Or.inl (settling_getLast hsep (by rw [hu]) hp ?_)
    intro last hl c hm
    rw [Option.mem_def.mp hl] at hb
    exact List.all_eq_true.mp hb c hm
  · obtain ⟨found, hp, hb⟩ := exists_of_gives hblank
    obtain ⟨first, more, rfl⟩ := List.exists_cons_of_ne_nil (parts_ne_nil hp)
    refine Or.inr fun c hhead => ?_
    obtain ⟨tail, rfl⟩ := List.head?_eq_some_iff.mp hhead
    exact settling_head (fun d hd => (hsep d hd).2) hp (List.all_eq_true.mp hb)

end Restyle.Scan
