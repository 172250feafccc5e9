import Restyle.Proofs.Scan.Split
import Restyle.Proofs.Text.Search
import Restyle.Proofs.Text.Trim

namespace Restyle.Text

theorem isPrefixOf?_append_of_length {pat cs : List Char} (h : pat.length ≤ cs.length)
    (after : List Char) :
    pat.isPrefixOf? (cs ++ after) = (pat.isPrefixOf? cs).map (· ++ after) := by
  induction pat generalizing cs with
  | nil => rfl
  | cons p pat ih =>
    cases cs with
    | nil => simp at h
    | cons c cs =>
      simp only [List.length_cons, Nat.add_le_add_iff_right] at h
      rw [List.cons_append, List.isPrefixOf?, List.isPrefixOf?, ih h]
      split
      next => rfl
      next => rfl

/-- The first place of a pattern stays the first one when the text goes on. -/
theorem cut?_append_right {pat cs before rest : List Char} (h : cut? pat cs = some (before, rest))
    (after : List Char) : cut? pat (cs ++ after) = some (before, rest ++ after) := by
  induction cs generalizing before with
  | nil =>
    simp only [cut?] at h
    split at h
    next hp =>
      cases h
      rw [List.isEmpty_iff] at hp
      subst hp
      cases after with
      | nil => rfl
      | cons c after => rfl
    next => cases h
  | cons c cs ih =>
    have hl : pat.length ≤ (c :: cs).length := by
      have he := congrArg List.length (cut?_append h)
      simp only [List.length_append] at he
      omega
    rw [cut?] at h
    rw [List.cons_append, cut?, ← List.cons_append, isPrefixOf?_append_of_length hl]
    split at h
    next found hf =>
      cases h
      rw [hf]
      rfl
    next hf =>
      obtain ⟨⟨before', rest'⟩, hc, he⟩ := Option.map_eq_some_iff.mp h
      cases he
      rw [hf, ih hc]
      rfl

end Restyle.Text

namespace Restyle.Scan

variable {isSeparator : Char → Bool}

/-- Whether a text starts with a comment that does not end in it. -/
def opensComment : List Char → Bool
  | '/' :: '/' :: rest => !rest.contains '\n'
  | '/' :: '*' :: rest => !Text.hasPart ['*', '/'] rest
  | _ => false

/-- The bracket depth at which a text ends, and the end of the text that is not settled: what
follows may end it, or make it a comment. -/
def unsettled (depth : Int) (cs : List Char) : Int × List Char :=
  match cs with
  | [] => (depth, [])
  | c :: tail =>
    if isQuote c then
      match h : takeString? (c :: tail) with
      | none => (depth, c :: tail)
      | some (_, rest) =>
        have : rest.length ≤ tail.length := Nat.le_of_lt_succ (takeString?_length_lt h)
        unsettled depth rest
    else
      match h : afterComment? (c :: tail) with
      | some rest =>
        have : rest.length ≤ tail.length := Nat.le_of_lt_succ (afterComment?_length_lt h)
        if opensComment (c :: tail) then (depth, c :: tail) else unsettled depth rest
      | none =>
        if c == '/' && tail.isEmpty then (depth, ['/'])
        else unsettled (deepen depth c) tail
termination_by cs.length

theorem afterComment?_line (rest : List Char) :
    afterComment? ('/' :: '/' :: rest) = some (rest.dropWhile (· != '\n')) := by
  simp [afterComment?]

theorem afterComment?_block (rest : List Char) : afterComment? ('/' :: '*' :: rest) =
    some (((Text.cut? ['*', '/'] rest).map (·.2)).getD []) := rfl

/-- A comment either runs to the end of its line or to its own end. -/
theorem afterComment?_cases {cs rest : List Char} (h : afterComment? cs = some rest) :
    (∃ text, cs = '/' :: '/' :: text ∧ rest = text.dropWhile (· != '\n')) ∨
      ∃ text, cs = '/' :: '*' :: text ∧ rest = ((Text.cut? ['*', '/'] text).map (·.2)).getD [] := by
  have hc := h
  unfold afterComment? at hc
  split at hc
  next text =>
    rw [afterComment?_line] at h
    exact Or.inl ⟨text, rfl, (Option.some.inj h).symm⟩
  next text => exact Or.inr ⟨text, rfl, (Option.some.inj hc).symm⟩
  next => cases hc

theorem afterComment?_append {cs rest : List Char} (h : afterComment? cs = some rest)
    (ho : opensComment cs = false) (after : List Char) :
    afterComment? (cs ++ after) = some (rest ++ after) := by
  rcases afterComment?_cases h with ⟨text, rfl, rfl⟩ | ⟨text, rfl, rfl⟩
  · have hm : '\n' ∈ text := by simpa [opensComment] using ho
    have hne : text.dropWhile (· != '\n') ≠ [] := by
      intro he
      have hw := List.takeWhile_append_dropWhile (p := (· != '\n')) (l := text)
      rw [he, List.append_nil] at hw
      rw [← hw] at hm
      simpa using List.all_eq_true.mp List.all_takeWhile '\n' hm
    have hd : (text ++ after).dropWhile (· != '\n') = text.dropWhile (· != '\n') ++ after := by
      rw [List.dropWhile_append, if_neg (by simpa using hne)]
    rw [List.cons_append, List.cons_append, afterComment?_line, hd]
  · have hp : (Text.cut? ['*', '/'] text).isSome = true := by
      simpa [opensComment, Text.hasPart] using ho
    obtain ⟨⟨before, found⟩, hc⟩ := Option.isSome_iff_exists.mp hp
    rw [List.cons_append, List.cons_append, afterComment?_block, hc, Text.cut?_append_right hc]
    rfl

theorem afterComment?_eq_none_append {c : Char} {tail : List Char}
    (h : afterComment? (c :: tail) = none) (after : List Char)
    (hb : c = '/' → tail = [] → after.head? ≠ some '/' ∧ after.head? ≠ some '*') :
    afterComment? (c :: (tail ++ after)) = none := by
  by_cases hc : c = '/'
  · subst hc
    cases tail with
    | nil =>
      obtain ⟨hs, ht⟩ := hb rfl rfl
      cases after with
      | nil => exact h
      | cons d after =>
        have hd : d ≠ '/' := fun he => hs (by rw [he]; rfl)
        have he : d ≠ '*' := fun he => ht (by rw [he]; rfl)
        simp [afterComment?, hd, he]
    | cons d tail =>
      have hd : d ≠ '/' := by
        rintro rfl
        rw [afterComment?_line] at h
        cases h
      have he : d ≠ '*' := by
        rintro rfl
        rw [afterComment?_block] at h
        cases h
      simp [afterComment?, hd, he]
  · exact afterComment?_of_ne hc _

section

variable {depth : Int} {offset : Nat} {c : Char} {tail : List Char}

theorem parts_of_open_string (hq : isQuote c = true) (hs : takeString? (c :: tail) = none) :
    parts isSeparator depth offset (c :: tail) = .error (.unterminatedString offset) := by
  rw [parts.eq_def]
  simp only [hq, if_true]
  split
  next => rfl
  next hl => rw [hs] at hl; cases hl

theorem parts_of_string (hq : isQuote c = true) {literal rest : List Char}
    (hs : takeString? (c :: tail) = some (literal, rest)) :
    parts isSeparator depth offset (c :: tail) =
      (parts isSeparator depth (offset + literal.length) rest).map (extendFirst literal) := by
  rw [parts.eq_def]
  simp only [hq, if_true]
  split
  next hn => rw [hs] at hn; cases hn
  next hl =>
    rw [hs] at hl
    cases hl
    rfl

theorem parts_of_comment (hq : isQuote c = false) {rest : List Char}
    (hc : afterComment? (c :: tail) = some rest) :
    parts isSeparator depth offset (c :: tail) =
      parts isSeparator depth (offset + ((c :: tail).length - rest.length)) rest := by
  rw [parts.eq_def]
  simp only [hq, Bool.false_eq_true, if_false]
  split
  next hr =>
    rw [hc] at hr
    cases hr
    rfl
  next hn => rw [hc] at hn; cases hn

theorem parts_of_char (hq : isQuote c = false) (hc : afterComment? (c :: tail) = none) :
    parts isSeparator depth offset (c :: tail) =
      (parts isSeparator (deepen depth c) (offset + 1) tail).map
        (if !isOpening c && !isClosing c && isSeparator c && depth == 0 then ([] :: ·)
          else extendFirst [c]) := by
  rw [parts.eq_def]
  simp only [hq, Bool.false_eq_true, if_false]
  split
  next hr => rw [hc] at hr; cases hr
  next =>
    split
    next hs =>
      have hd : deepen depth c = depth := by
        simp only [Bool.and_eq_true, Bool.not_eq_true'] at hs
        simp [deepen, hs.1.1.1, hs.1.1.2]
      rw [hd]
    next => rfl

end

/-- Parts with a text in front of the first are still parts that are done and one that is open. -/
theorem exists_extendFirst_append (front : List Char) (done : List (List Char))
    (last : List Char) : ∃ done' last', ∀ found : List (List Char),
      extendFirst front (done ++ extendFirst last found) = done' ++ extendFirst last' found := by
  cases done with
  | nil => exact ⟨[], front ++ last, fun found => extendFirst_append front last found⟩
  | cons part done => exact ⟨(front ++ part) :: done, last, fun found => rfl⟩

theorem map_of_map_eq {α β γ ε : Type} {x : Except ε α} {f : α → β} {g : β → γ} {k : α → γ}
    (h : ∀ a, g (f a) = k a) : (x.map f).map g = x.map k := by
  cases x with
  | error fault => rfl
  | ok a => exact congrArg Except.ok (h a)

/-- The splitter goes over a text up to what is not settled, whatever follows. -/
theorem parts_append_unsettled (isSeparator : Char → Bool) (depth : Int) (cs : List Char) :
    ∃ done last width, width + (unsettled depth cs).2.length = cs.length ∧
      ∀ offset after, parts isSeparator depth offset (cs ++ after) =
        (parts isSeparator (unsettled depth cs).1 (offset + width)
          ((unsettled depth cs).2 ++ after)).map fun found => done ++ extendFirst last found := by
  have hnone : ∀ (depth : Int) (cs : List Char), ∃ done last width, width + cs.length = cs.length ∧
      ∀ offset after, parts isSeparator depth offset (cs ++ after) =
        (parts isSeparator depth (offset + width) (cs ++ after)).map
          fun found => done ++ extendFirst last found :=
    fun depth cs => ⟨[], [], 0, Nat.zero_add _, fun offset after =>
      crosses_nil depth offset (cs ++ after)⟩
  fun_induction unsettled depth cs with
  | case1 depth => exact hnone depth []
  | case2 depth c tail hq hs => exact hnone depth (c :: tail)
  | case3 depth c tail hq literal rest hs _ ih =>
    obtain ⟨done, last, width, hwidth, hi⟩ := ih
    obtain ⟨done', last', he⟩ := exists_extendFirst_append literal done last
    have hl := congrArg List.length (takeString?_append hs)
    rw [List.length_append] at hl
    refine ⟨done', last', literal.length + width, by omega, fun offset after => ?_⟩
    have ht := takeString?_read_append hs (rest ++ after)
    rw [← List.append_assoc, ← takeString?_append hs, List.cons_append] at ht
    rw [List.cons_append, parts_of_string hq ht, hi, Nat.add_assoc]
    exact map_of_map_eq he
  | case4 depth c tail hq rest hc _ ho => exact hnone depth (c :: tail)
  | case5 depth c tail hq rest hc _ ho ih =>
    obtain ⟨done, last, width, hwidth, hi⟩ := ih
    have hshort := afterComment?_length_lt hc
    refine ⟨done, last, (c :: tail).length - rest.length + width, by omega, fun offset after => ?_⟩
    have ht := afterComment?_append hc (by simpa using ho) after
    rw [List.cons_append] at ht
    have hl : (c :: (tail ++ after)).length - (rest ++ after).length =
        (c :: tail).length - rest.length := by
      simp only [List.length_cons, List.length_append]
      omega
    rw [List.cons_append, parts_of_comment (by simpa using hq) ht, hl, hi, Nat.add_assoc]
  | case6 depth c tail hq hc hs =>
    simp only [Bool.and_eq_true, beq_iff_eq, List.isEmpty_iff] at hs
    obtain ⟨rfl, rfl⟩ := hs
    exact hnone depth ['/']
  | case7 depth c tail hq hc hs ih =>
    obtain ⟨done, last, width, hwidth, hi⟩ := ih
    have hlength : 1 + width + (unsettled (deepen depth c) tail).2.length = (c :: tail).length := by
      rw [List.length_cons]
      omega
    have ht : ∀ after, afterComment? (c :: (tail ++ after)) = none := by
      intro after
      refine afterComment?_eq_none_append hc after ?_
      rintro rfl rfl
      exact absurd rfl hs
    by_cases hcut : (!isOpening c && !isClosing c && isSeparator c && depth == 0) = true
    · refine ⟨[] :: done, last, 1 + width, hlength, fun offset after => ?_⟩
      rw [List.cons_append, parts_of_char (by simpa using hq) (ht after), if_pos hcut, hi,
        Nat.add_assoc]
      exact map_of_map_eq fun found => rfl
    · obtain ⟨done', last', he⟩ := exists_extendFirst_append [c] done last
      refine ⟨done', last', 1 + width, hlength, fun offset after => ?_⟩
      rw [List.cons_append, parts_of_char (by simpa using hq) (ht after), if_neg hcut, hi,
        Nat.add_assoc]
      exact map_of_map_eq he

/-- What is not settled is a slash, or a comment or a string without an end. -/
theorem unsettled_cases (depth : Int) (cs : List Char) :
    ((unsettled depth cs).2 = [] ∨ (unsettled depth cs).2 = ['/']) ∨
      opensComment (unsettled depth cs).2 = true ∨
      ∃ c tail, (unsettled depth cs).2 = c :: tail ∧ isQuote c = true ∧
        takeString? (c :: tail) = none := by
  fun_induction unsettled depth cs with
  | case1 => exact Or.inl (Or.inl rfl)
  | case2 depth c tail hq hs => exact Or.inr (Or.inr ⟨c, tail, rfl, hq, hs⟩)
  | case3 _ _ _ _ _ _ _ _ ih => exact ih
  | case4 depth c tail hq rest hc _ ho => exact Or.inr (Or.inl ho)
  | case5 _ _ _ _ _ _ _ _ ih => exact ih
  | case6 => exact Or.inl (Or.inr rfl)
  | case7 _ _ _ _ _ _ ih => exact ih

theorem opensComment_eq_cons {cs : List Char} (h : opensComment cs = true) :
    ∃ tail, cs = '/' :: tail := by
  unfold opensComment at h
  split at h
  next tail => exact ⟨_, rfl⟩
  next tail => exact ⟨_, rfl⟩
  next => cases h

/-- A comment without an end stays one if neither a line feed nor a slash follows. -/
theorem afterComment?_of_opensComment {cs after : List Char} (h : opensComment cs = true)
    (hl : '\n' ∉ after) (hs : '/' ∉ after) : afterComment? (cs ++ after) = some [] := by
  unfold opensComment at h
  split at h
  next text =>
    have hm : '\n' ∉ text ++ after := by
      simp only [Bool.not_eq_true', List.contains_eq_mem, decide_eq_false_iff_not] at h
      simp [h, hl]
    have hd : (text ++ after).dropWhile (· != '\n') = [] := by
      have hall : ∀ c ∈ text ++ after, (c != '\n') = true := by
        intro c hc
        simp only [bne_iff_ne, ne_eq]
        rintro rfl
        exact hm hc
      have hw := Text.dropWhile_append_of_head hall
        (by simp : ∀ c ∈ ([] : List Char).head?, (c != '\n') = false)
      rwa [List.append_nil] at hw
    rw [List.cons_append, List.cons_append, afterComment?_line, hd]
  next text =>
    have hp : Text.hasPart ['*', '/'] (text ++ after) = false := by
      have hh : after.head? ≠ some '/' := fun he => hs (List.mem_of_head? he)
      rw [Text.hasPart_pair_append hh, Text.hasPart_pair_of_not_mem_right hs]
      simpa using h
    have hc : Text.cut? ['*', '/'] (text ++ after) = none := by simpa [Text.hasPart] using hp
    rw [List.cons_append, List.cons_append, afterComment?_block, hc]
    rfl
  next => cases h

/-- The characters that neither end nor start anything but brackets. -/
def isPlain (isSeparator : Char → Bool) (c : Char) : Bool :=
  !isQuote c && c != '/' && !isSeparator c

theorem crosses_plain {cs : List Char} (h : ∀ c ∈ cs, isPlain isSeparator c = true) (depth : Int) :
    ∃ depth', Crosses isSeparator depth depth' cs := by
  induction cs generalizing depth with
  | nil => exact ⟨depth, crosses_nil depth⟩
  | cons c cs ih =>
    have hc := h c List.mem_cons_self
    simp only [isPlain, Bool.and_eq_true, Bool.not_eq_true', bne_iff_ne, ne_eq] at hc
    obtain ⟨depth', hi⟩ := ih (fun d hd => h d (List.mem_cons_of_mem c hd)) (deepen depth c)
    have hone : Crosses isSeparator depth (deepen depth c) [c] :=
      crosses_char hc.1.1 hc.1.2 (by simp [hc.2])
    exact ⟨depth', hone.append hi⟩

theorem parts_of_crosses {depth depth' : Int} {cs : List Char}
    (h : Crosses isSeparator depth depth' cs) (offset : Nat) :
    parts isSeparator depth offset cs = .ok [cs] := by
  have hp := h offset []
  rw [List.append_nil] at hp
  rw [hp, parts.eq_def]
  simp [Except.map, extendFirst]

/-- A slash before a plain text starts no comment. -/
theorem parts_slash (hslash : isSeparator '/' = false) {text : List Char}
    (ht : ∀ c ∈ text, isPlain isSeparator c = true) (hstar : text.head? ≠ some '*') (depth : Int)
    (offset : Nat) : parts isSeparator depth offset ('/' :: text) = .ok ['/' :: text] := by
  have hhead : text.head? ≠ some '/' := by
    intro he
    simpa [isPlain] using ht '/' (List.mem_of_head? he)
  have hnone : afterComment? ('/' :: ([] ++ text)) = none :=
    afterComment?_eq_none_append (rfl : afterComment? ['/'] = none) text
      fun _ _ => ⟨hhead, hstar⟩
  rw [List.nil_append] at hnone
  obtain ⟨depth', hcross⟩ := crosses_plain ht (deepen depth '/')
  rw [parts_of_char (by decide) hnone, parts_of_crosses hcross, hslash]
  simp [Except.map, extendFirst]

theorem parts_of_opensComment {cs after : List Char} (h : opensComment cs = true)
    (hl : '\n' ∉ after) (hs : '/' ∉ after) (depth : Int) (offset : Nat) :
    parts isSeparator depth offset (cs ++ after) = .ok [[]] := by
  have hc := afterComment?_of_opensComment h hl hs
  obtain ⟨text, rfl⟩ := opensComment_eq_cons h
  rw [List.cons_append] at hc ⊢
  rw [parts_of_comment (by decide) hc, parts_of_crosses (crosses_nil _)]

section

variable {tail : List Char}

/-- A plain text after another one goes on with its last part. -/
theorem parts_append_plain (hslash : isSeparator '/' = false)
    (ht : ∀ c ∈ tail, isPlain isSeparator c = true) (hstar : tail.head? ≠ some '*') {depth : Int}
    {cs : List Char} (h : (unsettled depth cs).2 = [] ∨ (unsettled depth cs).2 = ['/'])
    (offset : Nat) :
    ∃ done last, parts isSeparator depth offset cs = .ok (done ++ [last]) ∧
      parts isSeparator depth offset (cs ++ tail) = .ok (done ++ [last ++ tail]) := by
  obtain ⟨done, last, width, -, hp⟩ := parts_append_unsettled isSeparator depth cs
  have hself := hp offset []
  have htail := hp offset tail
  obtain ⟨depth', hcross⟩ := crosses_plain ht (unsettled depth cs).1
  rw [List.append_nil] at hself
  rcases h with hu | hu
  · rw [hu, List.nil_append, parts_of_crosses (crosses_nil _)] at hself
    rw [hu, List.nil_append, parts_of_crosses hcross] at htail
    refine ⟨done, last, hself.trans ?_, htail.trans ?_⟩
    · simp [Except.map, extendFirst]
    · simp [Except.map, extendFirst]
  · rw [hu, List.append_nil, parts_slash hslash (by simp) (by simp)] at hself
    rw [hu, List.singleton_append, parts_slash hslash ht hstar] at htail
    refine ⟨done, last ++ ['/'], hself.trans ?_, htail.trans ?_⟩
    · simp [Except.map, extendFirst]
    · simp [Except.map, extendFirst]

/-- A plain text after a comment or a string without an end changes nothing. -/
theorem parts_append_plain_of_open (ht : ∀ c ∈ tail, isPlain isSeparator c = true)
    (hl : '\n' ∉ tail) {depth : Int} {cs : List Char}
    (h : ¬((unsettled depth cs).2 = [] ∨ (unsettled depth cs).2 = ['/'])) (offset : Nat) :
    parts isSeparator depth offset (cs ++ tail) = parts isSeparator depth offset cs := by
  obtain ⟨done, last, width, -, hp⟩ := parts_append_unsettled isSeparator depth cs
  have hself := hp offset []
  have htail := hp offset tail
  rw [List.append_nil, List.append_nil] at hself
  rw [hself, htail]
  congr 1
  have hmem : ∀ d, isPlain isSeparator d = false → d ∉ tail := by
    intro d hd hm
    rw [ht d hm] at hd
    cases hd
  rcases unsettled_cases depth cs with hu | hu | ⟨quote, rest, hu, hq, hs⟩
  · exact absurd hu h
  · have hc : '/' ∉ tail := hmem '/' (by simp [isPlain])
    rw [parts_of_opensComment hu hl hc, ← List.append_nil (unsettled depth cs).2,
      parts_of_opensComment hu (by simp) (by simp)]
  · have hquote : quote ∉ tail := hmem quote (by simp [isPlain, hq])
    rw [hu, List.cons_append, parts_of_open_string hq hs,
      parts_of_open_string hq (takeString?_append_eq_none hs hquote)]

end

section

variable {isMark : Char → Bool} {depth : Int} {cs before rest after : List Char} {c : Char}
  {tail literal : List Char}

theorem cutAt?_of_open_string (hq : isQuote c = true) (hs : takeString? (c :: tail) = none) :
    cutAt? isMark depth (c :: tail) = none := by
  rw [cutAt?.eq_def]
  simp only [hq, if_true]
  split
  next => rfl
  next hl => rw [hs] at hl; cases hl

theorem cutAt?_append_some (h : cutAt? isMark depth cs = some (before, rest)) (after : List Char) :
    cutAt? isMark depth (cs ++ after) = some (before, rest ++ after) := by
  fun_induction cutAt? isMark depth cs generalizing before with
  | case1 => cases h
  | case2 => cases h
  | case3 depth c tail hq literal rest' hs _ ih =>
    obtain ⟨⟨before', rest''⟩, hr, he⟩ := Option.map_eq_some_iff.mp h
    cases he
    have ht := takeString?_read_append hs (rest' ++ after)
    rw [← List.append_assoc, ← takeString?_append hs, List.cons_append] at ht
    rw [List.cons_append, cutAt?_of_string hq ht, ih hr]
    rfl
  | case4 depth c tail hq hm =>
    cases h
    rw [List.cons_append, cutAt?.eq_def]
    simp only [hq, hm]
    rfl
  | case5 depth c tail hq hm ih =>
    obtain ⟨⟨before', rest''⟩, hr, he⟩ := Option.map_eq_some_iff.mp h
    cases he
    rw [List.cons_append, cutAt?.eq_def]
    simp only [hq, hm, ih hr]
    rfl

/-- Where there is no mark, a text without marks and quotes adds none. -/
theorem cutAt?_append_none (h : cutAt? isMark depth cs = none)
    (ha : ∀ c ∈ after, isQuote c = false ∧ isMark c = false) :
    cutAt? isMark depth (cs ++ after) = none := by
  fun_induction cutAt? isMark depth cs with
  | case1 depth =>
    rw [List.nil_append]
    clear h
    induction after generalizing depth with
    | nil => simp [cutAt?]
    | cons c after ih =>
      obtain ⟨hq, hm⟩ := ha c List.mem_cons_self
      have hi := ih (fun d hd => ha d (List.mem_cons_of_mem c hd)) (deepen depth c)
      rw [cutAt?.eq_def]
      simp [hq, hm, hi]
  | case2 depth c tail hq hs =>
    have hc : c ∉ after := by
      intro hm
      rw [(ha c hm).1] at hq
      cases hq
    exact cutAt?_of_open_string hq (takeString?_append_eq_none hs hc)
  | case3 depth c tail hq literal rest' hs _ ih =>
    have hr := Option.map_eq_none_iff.mp h
    have ht := takeString?_read_append hs (rest' ++ after)
    rw [← List.append_assoc, ← takeString?_append hs, List.cons_append] at ht
    rw [List.cons_append, cutAt?_of_string hq ht, ih hr]
    rfl
  | case4 => cases h
  | case5 depth c tail hq hm ih =>
    have hr := Option.map_eq_none_iff.mp h
    rw [List.cons_append, cutAt?.eq_def]
    simp only [hq, hm, ih hr]
    rfl

end

end Restyle.Scan
