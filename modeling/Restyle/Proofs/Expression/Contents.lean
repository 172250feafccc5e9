import Mathlib.Data.List.Induction
import Restyle.Proofs.Expression.Static
import Restyle.Proofs.Scan.Comment

namespace Restyle.Expression

section

variable {cs ds front body : List Char} {c quote : Char}

/-- Contents of a string that cannot end it or be taken for its end. -/
def IsClean (body : List Char) : Prop := ∀ c ∈ body, Scan.isQuote c = false ∧ c ≠ '\\'

instance : Decidable (IsClean body) := inferInstanceAs (Decidable (∀ c ∈ body, _))

/-- That two texts, read from the left, differ only in the contents of their strings. Contents that
differ are clean; a quote that starts no string stands for itself. -/
inductive Alike : List Char → List Char → Prop where
  | nil : Alike [] []
  | plain {c : Char} {cs ds : List Char} (hc : Scan.isQuote c = false) (h : Alike cs ds) :
      Alike (c :: cs) (c :: ds)
  | unclosed {quote : Char} {cs ds : List Char} (hq : Scan.isQuote quote = true)
      (hcs : afterString? quote cs = none) (hds : afterString? quote ds = none) (h : Alike cs ds) :
      Alike (quote :: cs) (quote :: ds)
  | same {quote : Char} {body cs ds : List Char} (hq : Scan.isQuote quote = true)
      (hb : IsStringBody quote body) (h : Alike cs ds) :
      Alike (quote :: (body ++ quote :: cs)) (quote :: (body ++ quote :: ds))
  | clean {quote : Char} {body body' cs ds : List Char} (hq : Scan.isQuote quote = true)
      (hb : IsClean body) (hb' : IsClean body') (h : Alike cs ds) :
      Alike (quote :: (body ++ quote :: cs)) (quote :: (body' ++ quote :: ds))

theorem IsClean.isStringBody (h : IsClean body) (hq : Scan.isQuote quote = true) :
    IsStringBody quote body := by
  induction body with
  | nil => exact .nil
  | cons c body ih =>
    obtain ⟨⟨hc, he⟩, hb⟩ := List.forall_mem_cons.mp h
    refine .plain ?_ he (ih hb)
    rintro rfl
    rw [hq] at hc
    cases hc

theorem isBlank_of_isQuote (h : Scan.isQuote quote = true) : Text.isBlank quote = false := by
  rw [← Bool.not_eq_true]
  intro hb
  rw [Scan.isQuote_of_isBlank hb] at h
  cases h

theorem dropWhile_isBlank_of_isQuote (h : Scan.isQuote quote = true) (cs : List Char) :
    (quote :: cs).dropWhile Text.isBlank = quote :: cs :=
  List.dropWhile_cons_of_neg (by simp [isBlank_of_isQuote h])

theorem dropMarks_of_ne (h : ∀ inside, cs ≠ '$' :: '{' :: inside) : dropMarks cs = cs := by
  unfold dropMarks
  split
  next inside => exact absurd rfl (h inside)
  next => rfl

namespace Alike

theorem symm (h : Alike cs ds) : Alike ds cs := by
  induction h with
  | nil => exact .nil
  | plain hc _ ih => exact .plain hc ih
  | unclosed hq hcs hds _ ih => exact .unclosed hq hds hcs ih
  | same hq hb _ ih => exact .same hq hb ih
  | clean hq hb hb' _ ih => exact .clean hq hb' hb ih

theorem append (hfront : ∀ c ∈ front, Scan.isQuote c = false) (h : Alike cs ds) :
    Alike (front ++ cs) (front ++ ds) := by
  induction front with
  | nil => exact h
  | cons c front ih =>
    obtain ⟨hc, hfront⟩ := List.forall_mem_cons.mp hfront
    exact .plain hc (ih hfront)

theorem of_cons (h : Alike (c :: cs) ds) (hc : Scan.isQuote c = false) :
    ∃ ds', ds = c :: ds' ∧ Alike cs ds' := by
  cases h with
  | plain _ h => exact ⟨_, rfl, h⟩
  | unclosed hq | same hq | clean hq =>
    rw [hc] at hq
    cases hq

theorem head?_eq (h : Alike cs ds) : cs.head? = ds.head? := by
  cases h <;> rfl

theorem eq_nil_iff (h : Alike cs ds) : cs = [] ↔ ds = [] := by
  rw [← List.head?_eq_none_iff, h.head?_eq, List.head?_eq_none_iff]

theorem getLast?_eq (h : Alike cs ds) : cs.getLast? = ds.getLast? := by
  induction h with
  | nil => rfl
  | plain _ _ ih => rw [List.getLast?_cons, List.getLast?_cons, ih]
  | unclosed _ _ _ _ ih => rw [List.getLast?_cons, List.getLast?_cons, ih]
  | same _ _ _ ih => simp [List.getLast?_cons, List.getLast?_append, ih]
  | clean _ _ _ _ ih => simp [List.getLast?_cons, List.getLast?_append, ih]

theorem eq_of_not_isQuote (h : Alike cs ds) (hcs : ∀ c ∈ cs, Scan.isQuote c = false) : cs = ds := by
  induction h with
  | nil => rfl
  | plain _ _ ih => rw [ih (List.forall_mem_cons.mp hcs).2]
  | unclosed hq | same hq | clean hq =>
    rw [hcs _ List.mem_cons_self] at hq
    cases hq

end Alike

theorem exists_body_of_afterString? {rest : List Char} (h : afterString? quote cs = some rest) :
    ∃ body, IsStringBody quote body ∧ cs = body ++ quote :: rest := by
  fun_induction afterString? quote cs with
  | case1 => cases h
  | case2 => cases h
  | case3 => cases h
  | case4 c cs hc ih =>
    obtain ⟨body, hb, rfl⟩ := ih h
    exact ⟨'\\' :: c :: body, .escaped (by simpa using hc) hb, rfl⟩
  | case5 c cs _ _ hc =>
    cases h
    exact ⟨[], .nil, by rw [eq_of_beq hc]; rfl⟩
  | case6 c cs hlast hescape hc ih =>
    obtain ⟨body, hb, rfl⟩ := ih h
    have he : c ≠ '\\' := by
      intro he
      obtain ⟨d, tail, ht⟩ := List.exists_cons_of_ne_nil (fun hn => hlast he hn)
      exact hescape d tail he ht
    exact ⟨c :: body, .plain (by simpa using hc) he hb, rfl⟩

/-- A quote that starts no string in a text starts none at the front of it. -/
theorem afterString?_eq_none_of_append (hq : Scan.isQuote quote = true) {after : List Char}
    (h : afterString? quote (cs ++ after) = none) : afterString? quote cs = none := by
  cases hcs : afterString? quote cs with
  | none => rfl
  | some rest =>
    obtain ⟨body, hb, rfl⟩ := exists_body_of_afterString? hcs
    rw [List.append_assoc, List.cons_append,
      hb.afterString? (ne_backslash_of_isQuote hq)] at h
    cases h

theorem exists_of_append_string (h : front ++ [c] = quote :: (body ++ quote :: cs))
    (hc : Scan.isQuote c = false) (hq : Scan.isQuote quote = true) :
    ∃ after, cs = after ++ [c] ∧ front = quote :: (body ++ quote :: after) := by
  rcases List.eq_nil_or_concat cs with rfl | ⟨after, d, rfl⟩
  · have hlast := congrArg List.getLast? h
    simp only [List.getLast?_append, List.getLast?_cons, List.getLast?_nil, Option.getD_none,
      Option.getD_some, Option.some_or, Option.some.injEq] at hlast
    rw [hlast, hq] at hc
    cases hc
  · have hsplit : front ++ [c] = quote :: (body ++ quote :: after) ++ [d] := by simpa using h
    obtain ⟨hfront, hlast⟩ := List.append_inj' hsplit rfl
    cases hlast
    exact ⟨after, List.concat_eq_append, hfront⟩

namespace Alike

/-- A character outside of strings at the end of one text is there in the other one, too. -/
theorem of_append_singleton (h : Alike (front ++ [c]) ds) (hc : Scan.isQuote c = false) :
    ∃ front', ds = front' ++ [c] ∧ Alike front front' := by
  generalize he : front ++ [c] = cs at h
  induction h generalizing front with
  | nil => simp at he
  | @plain d cs ds hd h ih =>
    cases front with
    | nil =>
      obtain ⟨rfl, rfl⟩ := List.cons.inj he
      rw [h.eq_nil_iff.mp rfl]
      exact ⟨[], rfl, .nil⟩
    | cons e front =>
      obtain ⟨rfl, rfl⟩ := List.cons.inj he
      obtain ⟨front', rfl, hf⟩ := ih rfl
      exact ⟨e :: front', rfl, .plain hd hf⟩
  | @unclosed quote cs ds hq hcs hds h ih =>
    cases front with
    | nil =>
      obtain ⟨rfl, _⟩ := List.cons.inj he
      rw [hc] at hq
      cases hq
    | cons e front =>
      obtain ⟨rfl, rfl⟩ := List.cons.inj he
      obtain ⟨front', rfl, hf⟩ := ih rfl
      exact ⟨e :: front', rfl, .unclosed hq (afterString?_eq_none_of_append hq hcs)
        (afterString?_eq_none_of_append hq hds) hf⟩
  | @same quote body cs ds hq hb h ih =>
    obtain ⟨front', rfl, rfl⟩ := exists_of_append_string he hc hq
    obtain ⟨after, rfl, hf⟩ := ih rfl
    exact ⟨quote :: (body ++ quote :: after), by simp, .same hq hb hf⟩
  | @clean quote body body' cs ds hq hb hb' h ih =>
    obtain ⟨front', rfl, rfl⟩ := exists_of_append_string he hc hq
    obtain ⟨after, rfl, hf⟩ := ih rfl
    exact ⟨quote :: (body' ++ quote :: after), by simp, .clean hq hb hb' hf⟩

theorem dropWhile_isBlank (h : Alike cs ds) :
    Alike (cs.dropWhile Text.isBlank) (ds.dropWhile Text.isBlank) := by
  induction h with
  | nil => exact .nil
  | @plain c cs ds hc h ih =>
    cases hb : Text.isBlank c with
    | true =>
      rw [List.dropWhile_cons_of_pos hb, List.dropWhile_cons_of_pos hb]
      exact ih
    | false =>
      rw [List.dropWhile_cons_of_neg (by simp [hb]), List.dropWhile_cons_of_neg (by simp [hb])]
      exact .plain hc h
  | unclosed hq hcs hds h =>
    rw [dropWhile_isBlank_of_isQuote hq, dropWhile_isBlank_of_isQuote hq]
    exact .unclosed hq hcs hds h
  | same hq hb h =>
    rw [dropWhile_isBlank_of_isQuote hq, dropWhile_isBlank_of_isQuote hq]
    exact .same hq hb h
  | clean hq hb hb' h =>
    rw [dropWhile_isBlank_of_isQuote hq, dropWhile_isBlank_of_isQuote hq]
    exact .clean hq hb hb' h

theorem dropTrailing_isBlank (h : Alike cs ds) :
    Alike (Text.dropTrailing Text.isBlank cs) (Text.dropTrailing Text.isBlank ds) := by
  induction cs using List.reverseRecOn generalizing ds with
  | nil =>
    rw [h.eq_nil_iff.mp rfl]
    exact .nil
  | append_singleton front c ih =>
    cases hb : Text.isBlank c with
    | true =>
      obtain ⟨front', rfl, hf⟩ := h.of_append_singleton (Scan.isQuote_of_isBlank hb)
      have hblank : ∀ d ∈ [c], Text.isBlank d = true := List.forall_mem_singleton.mpr hb
      rw [Text.dropTrailing_append_of_all hblank, Text.dropTrailing_append_of_all hblank]
      exact ih hf
    | false =>
      have hlast : ∀ d ∈ (front ++ [c]).getLast?, Text.isBlank d = false := by
        simp [hb]
      rw [Text.dropTrailing_of_getLast hlast,
        Text.dropTrailing_of_getLast (h.getLast?_eq ▸ hlast)]
      exact h

theorem trim (h : Alike cs ds) : Alike (Text.trim cs) (Text.trim ds) :=
  h.dropWhile_isBlank.dropTrailing_isBlank

theorem of_marks {inside : List Char} (h : Alike ('$' :: '{' :: inside) ds) :
    ∃ inside', ds = '$' :: '{' :: inside' ∧ Alike inside inside' := by
  obtain ⟨tail, rfl, htail⟩ := h.of_cons rfl
  obtain ⟨inside', rfl, hinside⟩ := htail.of_cons rfl
  exact ⟨inside', rfl, hinside⟩

theorem dropMarks (h : Alike cs ds) :
    Alike (Expression.dropMarks cs) (Expression.dropMarks ds) := by
  by_cases hmarks : ∃ inside, cs = '$' :: '{' :: inside
  · obtain ⟨inside, rfl⟩ := hmarks
    obtain ⟨inside', rfl, hinside⟩ := h.of_marks
    simp only [Expression.dropMarks, ← hinside.getLast?_eq]
    split
    next hlast =>
      obtain ⟨front, rfl⟩ := List.getLast?_eq_some_iff.mp (eq_of_beq hlast)
      obtain ⟨front', rfl, hfront⟩ := hinside.of_append_singleton rfl
      rw [List.dropLast_concat, List.dropLast_concat]
      exact hfront.trim
    next => exact h
  · have hcs : ∀ inside, cs ≠ '$' :: '{' :: inside := fun inside he => hmarks ⟨inside, he⟩
    have hds : ∀ inside, ds ≠ '$' :: '{' :: inside := by
      rintro inside rfl
      obtain ⟨inside', rfl, _⟩ := h.symm.of_marks
      exact hcs inside' rfl
    rw [dropMarks_of_ne hcs, dropMarks_of_ne hds]
    exact h

theorem unwrap (h : Alike cs ds) : Alike (Expression.unwrap cs) (Expression.unwrap ds) :=
  h.trim.dropMarks

end Alike

theorem emptyStrings_unclosed (hq : Scan.isQuote quote = true)
    (h : afterString? quote cs = none) : emptyStrings (quote :: cs) = quote :: emptyStrings cs := by
  rw [emptyStrings, if_pos hq]
  split
  next rest hs =>
    rw [h] at hs
    cases hs
  next => rfl

theorem quotesEscaped_append_congr {back back' : List Char}
    (h : ∀ escape, quotesEscaped quote escape back = quotesEscaped quote escape back')
    (front : List Char) (escape : Bool) :
    quotesEscaped quote escape (front ++ back) = quotesEscaped quote escape (front ++ back') := by
  induction front generalizing escape with
  | nil => exact h escape
  | cons c front ih => rw [List.cons_append, List.cons_append, quotesEscaped, quotesEscaped, ih]

theorem IsClean.quotesEscaped_append (h : IsClean body) (hq : Scan.isQuote quote = true)
    (back : List Char) :
    quotesEscaped quote false (body ++ back) = quotesEscaped quote false back := by
  induction body with
  | nil => rfl
  | cons c body ih =>
    obtain ⟨⟨hc, he⟩, hb⟩ := List.forall_mem_cons.mp h
    have hne : c ≠ quote := by
      rintro rfl
      rw [hq] at hc
      cases hc
    rw [List.cons_append, quotesEscaped, bne_iff_ne.mpr hne, beq_false_of_ne he, ih hb,
      Bool.true_or, Bool.true_and]

theorem isSome_unquote?_iff :
    (unquote? Scan.isQuote (quote :: cs)).isSome = true ↔ Scan.isQuote quote = true ∧ cs ≠ [] ∧
      (quote :: cs).getLast? = some quote ∧
      quotesEscaped quote true (quote :: cs).dropLast = true := by
  by_cases hcs : cs = []
  · simp [unquote?, hcs]
  · by_cases hq : Scan.isQuote quote = true
    · have hescape : (quote == '\\') = false := beq_false_of_ne (ne_backslash_of_isQuote hq)
      obtain ⟨last, hlast⟩ := Option.ne_none_iff_exists'.mp (mt List.getLast?_eq_none_iff.mp hcs)
      rw [List.dropLast_cons_of_ne_nil hcs, quotesEscaped, hescape, List.getLast?_cons, unquote?,
        hlast]
      simp [hq, hcs]
    · simp [unquote?, hq]

namespace Alike

theorem emptyStrings_eq (h : Alike cs ds) : emptyStrings cs = emptyStrings ds := by
  induction h with
  | nil => rfl
  | plain hc _ ih => rw [emptyStrings, emptyStrings, if_neg (by simp [hc]), if_neg (by simp [hc]), ih]
  | unclosed hq hcs hds _ ih => rw [emptyStrings_unclosed hq hcs, emptyStrings_unclosed hq hds, ih]
  | same hq hb _ ih => rw [emptyStrings_string hq hb, emptyStrings_string hq hb, ih]
  | clean hq hb hb' _ ih =>
    rw [emptyStrings_string hq (hb.isStringBody hq), emptyStrings_string hq (hb'.isStringBody hq), ih]

theorem quotesEscaped_cons_dropLast (h : Alike cs ds)
    (ih : ∀ escape, quotesEscaped quote escape cs.dropLast = quotesEscaped quote escape ds.dropLast)
    (c : Char) (escape : Bool) :
    quotesEscaped quote escape (c :: cs).dropLast =
      quotesEscaped quote escape (c :: ds).dropLast := by
  by_cases hcs : cs = []
  · rw [hcs, h.eq_nil_iff.mp hcs]
  · have hds : ds ≠ [] := fun he => hcs (h.eq_nil_iff.mpr he)
    rw [List.dropLast_cons_of_ne_nil hcs, List.dropLast_cons_of_ne_nil hds, quotesEscaped,
      quotesEscaped, ih]

/-- Whether the quotes before the last character follow backslashes does not depend on contents. -/
theorem quotesEscaped_dropLast (h : Alike cs ds) (hquote : Scan.isQuote quote = true)
    (escape : Bool) :
    quotesEscaped quote escape cs.dropLast = quotesEscaped quote escape ds.dropLast := by
  induction h generalizing escape with
  | nil => rfl
  | plain _ h ih => exact h.quotesEscaped_cons_dropLast ih _ escape
  | unclosed _ _ _ h ih => exact h.quotesEscaped_cons_dropLast ih _ escape
  | @same other body cs ds hq hb h ih =>
    have hlast := h.quotesEscaped_cons_dropLast ih other
    rw [← List.cons_append, ← List.cons_append, List.dropLast_append_of_ne_nil (by simp),
      List.dropLast_append_of_ne_nil (by simp)]
    exact quotesEscaped_append_congr hlast _ escape
  | @clean other body body' cs ds hq hb hb' h ih =>
    have hlast := h.quotesEscaped_cons_dropLast ih other false
    have hescape : (other == '\\') = false := beq_false_of_ne (ne_backslash_of_isQuote hq)
    rw [← List.cons_append, ← List.cons_append, List.dropLast_append_of_ne_nil (by simp),
      List.dropLast_append_of_ne_nil (by simp), List.cons_append, List.cons_append, quotesEscaped,
      quotesEscaped, hescape, hb.quotesEscaped_append hquote, hb'.quotesEscaped_append hquote,
      hlast]

theorem tail_eq_nil_iff (h : Alike (c :: cs) (quote :: ds)) : cs = [] ↔ ds = [] := by
  cases h with
  | plain _ h => exact h.eq_nil_iff
  | unclosed _ _ _ h => exact h.eq_nil_iff
  | same => simp
  | clean => simp

/-- Whether a text is taken for one string does not depend on contents. -/
theorem isSome_unquote? (h : Alike cs ds) :
    (unquote? Scan.isQuote cs).isSome = (unquote? Scan.isQuote ds).isSome := by
  cases cs with
  | nil => rw [h.eq_nil_iff.mp rfl]
  | cons quote cs =>
    obtain ⟨ds, rfl⟩ : ∃ tail, ds = quote :: tail :=
      List.head?_eq_some_iff.mp (h.head?_eq ▸ List.head?_cons)
    rw [Bool.eq_iff_iff, isSome_unquote?_iff, isSome_unquote?_iff, h.getLast?_eq]
    refine and_congr_right fun hq => ?_
    rw [h.quotesEscaped_dropLast hq, ne_eq, ne_eq, h.tail_eq_nil_iff]

theorem isSome_read? (h : Alike cs ds) :
    (Numeral.read? cs).isSome = true → cs = ds := by
  intro hr
  obtain ⟨numeral, hr⟩ := Option.isSome_iff_exists.mp hr
  exact h.eq_of_not_isQuote (isQuote_of_read? hr)

/-- The shapes that do not look inside of strings are the same. -/
theorem classifyBare_eq (h : Alike cs ds) : classifyBare cs = classifyBare ds := by
  by_cases hn : isName cs = true
  · rw [h.eq_of_not_isQuote (isQuote_of_isName hn)]
  · have hn' : ¬isName ds = true := by
      intro hd
      rw [h.symm.eq_of_not_isQuote (isQuote_of_isName hd)] at hd
      exact hn hd
    rw [Bool.not_eq_true] at hn hn'
    simp only [classifyBare, h.emptyStrings_eq, hn, hn', Bool.false_and,
      Bool.false_eq_true, if_false]

end Alike

theorem templateInterpolations_eq_nil (h : '\x60' ∉ cs) : templateInterpolations cs = [] := by
  fun_induction templateInterpolations cs with
  | case1 => rfl
  | case2 => rfl
  | case3 c tail hc => exact absurd (eq_of_beq hc ▸ List.mem_cons_self) h
  | case4 c tail _ ih => exact ih fun hm => h (List.mem_cons_of_mem c hm)

theorem hasPart_of_hasArrow (h : HasArrow cs) : Text.hasPart ['=', '>'] cs = true := by
  obtain ⟨front, rest, rfl, @⟨gap, inside, between, typed, gap', rest, _, _, _, _, _⟩⟩ := h
  have he : front ++ '(' :: (gap ++ '{' :: (inside ++ '}' :: (between ++ (typed ++ ')' ::
      (gap' ++ '=' :: '>' :: rest))))) = (front ++ '(' :: (gap ++ '{' :: (inside ++ '}' ::
        (between ++ (typed ++ ')' :: gap'))))) ++ '=' :: '>' :: rest := by
    simp
  rw [he]
  exact Text.hasPart_pair_append_pair _ rest

/-- No quote is dropped with the blanks and the marks around an expression. -/
theorem exists_unwrap_append (raw : List Char) : ∃ front back, raw = front ++ (unwrap raw ++ back) ∧
    (∀ c ∈ front, Scan.isQuote c = false) ∧ ∀ c ∈ back, Scan.isQuote c = false := by
  have htrim : ∀ cs, ∃ front back, cs = front ++ (Text.trim cs ++ back) ∧
      (∀ c ∈ front, Scan.isQuote c = false) ∧ ∀ c ∈ back, Scan.isQuote c = false := by
    intro cs
    obtain ⟨back, hback, hblank⟩ := Text.exists_trim_append cs
    refine ⟨cs.takeWhile Text.isBlank, back, ?_, fun c hc => Scan.isQuote_of_isBlank ?_,
      fun c hc => Scan.isQuote_of_isBlank (hblank c hc)⟩
    · rw [← hback, List.takeWhile_append_dropWhile]
    · exact List.all_eq_true.mp List.all_takeWhile c hc
  obtain ⟨front, back, hraw, hfront, hback⟩ := htrim raw
  by_cases hmarks : ∃ inside, Text.trim raw = '$' :: '{' :: (inside ++ ['}'])
  · obtain ⟨inside, he⟩ := hmarks
    obtain ⟨front', back', hinside, hfront', hback'⟩ := htrim inside
    have hunwrap : unwrap raw = Text.trim inside := by simp [unwrap, he, dropMarks]
    refine ⟨front ++ '$' :: '{' :: front', back' ++ '}' :: back, ?_, ?_, ?_⟩
    · rw [hunwrap]
      conv_lhs => rw [hraw, he, hinside]
      simp
    · simp only [List.forall_mem_append, List.forall_mem_cons]
      exact ⟨hfront, rfl, rfl, hfront'⟩
    · simp only [List.forall_mem_append, List.forall_mem_cons]
      exact ⟨hback', rfl, hback⟩
  · have hunwrap : unwrap raw = Text.trim raw := by
      unfold unwrap dropMarks
      split
      next inside he =>
        split
        next hlast =>
          obtain ⟨inside', rfl⟩ := List.getLast?_eq_some_iff.mp (eq_of_beq hlast)
          exact absurd ⟨inside', he⟩ hmarks
        next => rfl
      next => rfl
    exact ⟨front, back, hunwrap ▸ hraw, hfront, hback⟩

/-- An expression without template literals and arrow functions is a literal, or its shape is that of
the text outside of strings. -/
theorem classify_of_plain {raw : List Char} (ht : '\x60' ∉ raw)
    (ha : Text.hasPart ['=', '>'] raw = false) :
    classify raw =
      if isPlainLiteral (unwrap raw) then ⟨.static, []⟩ else classifyBare (unwrap raw) := by
  have hinner : templateInterpolations (unwrap raw) = [] := by
    obtain ⟨front, back, he, _⟩ := exists_unwrap_append raw
    refine templateInterpolations_eq_nil fun hm => ht ?_
    rw [he]
    simp [hm]
  have harrow : Scan.findAll arrow? raw = [] := by
    refine arrows_eq_nil_iff.mpr fun hh => ?_
    rw [hasPart_of_hasArrow hh] at ha
    cases ha
  rw [classify]
  simp [hinner, harrow]

theorem classifyBare_isStatic_iff_eq :
    (classifyBare cs).isStatic = true ↔ classifyBare cs = ⟨.static, []⟩ := by
  constructor
  · intro h
    unfold classifyBare Classification.isStatic at *
    dsimp only at *
    grind
  · intro h
    rw [h]
    rfl

theorem classifyBare_string (hq : Scan.isQuote quote = true) (hb : IsStringBody quote body) :
    classifyBare (quote :: (body ++ [quote])) = ⟨.static, []⟩ := by
  have hname : isName (quote :: (body ++ [quote])) = false := by
    rw [← Bool.not_eq_true]
    intro hn
    rw [isQuote_of_isName hn quote List.mem_cons_self] at hq
    cases hq
  have hempty : emptyStrings (quote :: (body ++ [quote])) = ['\x27', '\x27'] := by
    rw [emptyStrings_string hq hb, emptyStrings]
  rw [classifyBare, hempty, hname]
  simp only [Bool.false_and, Bool.false_eq_true, if_false]
  decide +kernel

/-- That a text is taken for one string although it is none. -/
def IsMisread (cs : List Char) : Prop :=
  (unquote? Scan.isQuote cs).isSome = true ∧
    ∀ quote body, IsStringBody quote body → cs ≠ quote :: (body ++ [quote])

/-- That every quote of a text belongs to a string with clean contents. -/
inductive IsTidy : List Char → Prop where
  | nil : IsTidy []
  | plain {c : Char} {cs : List Char} (hc : Scan.isQuote c = false) (h : IsTidy cs) : IsTidy (c :: cs)
  | string {quote : Char} {body cs : List Char} (hq : Scan.isQuote quote = true) (hb : IsClean body)
      (h : IsTidy cs) : IsTidy (quote :: (body ++ quote :: cs))

namespace IsTidy

theorem of_append (h : IsTidy (front ++ cs)) (hfront : ∀ c ∈ front, Scan.isQuote c = false) :
    IsTidy cs := by
  induction front with
  | nil => exact h
  | cons c front ih =>
    obtain ⟨hc, hfront⟩ := List.forall_mem_cons.mp hfront
    generalize he : c :: front ++ cs = text at h
    cases h with
    | nil => cases he
    | plain _ h =>
      obtain ⟨rfl, rfl⟩ := List.cons.inj he
      exact ih h hfront
    | string hq =>
      obtain ⟨rfl, _⟩ := List.cons.inj he
      rw [hc] at hq
      cases hq

theorem append (hfront : ∀ c ∈ front, Scan.isQuote c = false) (h : IsTidy cs) :
    IsTidy (front ++ cs) := by
  induction front with
  | nil => exact h
  | cons c front ih =>
    obtain ⟨hc, hfront⟩ := List.forall_mem_cons.mp hfront
    exact .plain hc (ih hfront)

/-- A quote at the front starts a string, which ends before what has no quotes. -/
theorem exists_string {tail back : List Char} (h : IsTidy (quote :: (tail ++ back)))
    (hq : Scan.isQuote quote = true) (hback : ∀ c ∈ back, Scan.isQuote c = false) :
    ∃ body rest, tail = body ++ quote :: rest ∧ IsClean body := by
  have hnot : quote ∉ back := by
    intro hm
    rw [hback quote hm] at hq
    cases hq
  generalize he : quote :: (tail ++ back) = text at h
  cases h with
  | nil => cases he
  | plain hc =>
    cases he
    rw [hq] at hc
    cases hc
  | @string quote body rest _ hb =>
    obtain ⟨rfl, he⟩ := List.cons.inj he
    rcases List.append_eq_append_iff.mp he with ⟨more, _, hmore⟩ | ⟨more, htail, hmore⟩
    · exact absurd (hmore ▸ by simp) hnot
    · cases more with
      | nil =>
        rw [List.nil_append] at hmore
        exact absurd (hmore ▸ List.mem_cons_self) hnot
      | cons d more =>
        obtain ⟨rfl, _⟩ := List.cons.inj hmore
        exact ⟨body, more, htail, hb⟩

end IsTidy

/-- An expression that starts with a string with clean contents is not misread. -/
theorem not_isMisread_of_clean {rest : List Char} (hb : IsClean body) :
    ¬IsMisread (quote :: (body ++ quote :: rest)) := by
  rintro ⟨hu, hne⟩
  obtain ⟨hq, _, _, hescaped⟩ := isSome_unquote?_iff.mp hu
  have hrest : rest = [] := by
    by_contra hrest
    have hescape : (quote == '\\') = false := beq_false_of_ne (ne_backslash_of_isQuote hq)
    rw [← List.cons_append, List.dropLast_append_of_ne_nil (by simp),
      List.dropLast_cons_of_ne_nil hrest, List.cons_append, quotesEscaped, hescape,
      hb.quotesEscaped_append hq, quotesEscaped] at hescaped
    simp at hescaped
  exact hne quote body (hb.isStringBody hq) (by rw [hrest])

theorem IsTidy.not_isMisread {raw : List Char} (h : IsTidy raw) : ¬IsMisread (unwrap raw) := by
  obtain ⟨front, back, he, hfront, hback⟩ := exists_unwrap_append raw
  rw [he] at h
  have htidy := h.of_append hfront
  intro hm
  cases hcs : unwrap raw with
  | nil =>
    rw [hcs] at hm
    cases hm.1
  | cons quote tail =>
    rw [hcs] at hm htidy
    obtain ⟨body, rest, rfl, hb⟩ := htidy.exists_string (isSome_unquote?_iff.mp hm.1).1 hback
    exact not_isMisread_of_clean hb hm

/-- What is taken for one string is static, unless it has the mark of an interpolation. -/
theorem classify_of_unquote? {raw : List Char} (ht : '\x60' ∉ raw)
    (ha : Text.hasPart ['=', '>'] raw = false)
    (hu : (unquote? Scan.isQuote (unwrap raw)).isSome = true) :
    classify raw = if Text.hasPart ['$', '{'] (unwrap raw) then classifyBare (unwrap raw)
      else ⟨.static, []⟩ := by
  rw [classify_of_plain ht ha, isPlainLiteral, hu, Bool.or_true, Bool.true_and]
  cases Text.hasPart ['$', '{'] (unwrap raw) <;> rfl

end

section

variable {raw raw' : List Char}

theorem classify_eq_of_not_unquote? (h : Alike raw raw') (ht : '\x60' ∉ raw) (ht' : '\x60' ∉ raw')
    (ha : Text.hasPart ['=', '>'] raw = false) (ha' : Text.hasPart ['=', '>'] raw' = false)
    (hu : (unquote? Scan.isQuote (unwrap raw)).isSome = false) : classify raw = classify raw' := by
  have hunwrap := h.unwrap
  rw [classify_of_plain ht ha, classify_of_plain ht' ha']
  cases hr : (Numeral.read? (unwrap raw)).isSome with
  | true => rw [hunwrap.isSome_read? hr]
  | false =>
    cases hr' : (Numeral.read? (unwrap raw')).isSome with
    | true => rw [hunwrap.symm.isSome_read? hr']
    | false =>
      have hu' : (unquote? Scan.isQuote (unwrap raw')).isSome = false :=
        hunwrap.isSome_unquote? ▸ hu
      rw [isPlainLiteral, isPlainLiteral, hr, hr', hu, hu', hunwrap.classifyBare_eq]
      rfl

theorem classify_eq_iff (h : Alike raw raw') (ht : '\x60' ∉ raw) (ht' : '\x60' ∉ raw')
    (ha : Text.hasPart ['=', '>'] raw = false) (ha' : Text.hasPart ['=', '>'] raw' = false) :
    classify raw = classify raw' ↔ ¬(IsMisread (unwrap raw) ∧
      Text.hasPart ['$', '{'] (unwrap raw) ≠ Text.hasPart ['$', '{'] (unwrap raw') ∧
      (classifyBare (unwrap raw)).isStatic = false) := by
  have hunwrap := h.unwrap
  cases hu : (unquote? Scan.isQuote (unwrap raw)).isSome with
  | false =>
    have heq := classify_eq_of_not_unquote? h ht ht' ha ha' hu
    simp [heq, IsMisread, hu]
  | true =>
    have hu' : (unquote? Scan.isQuote (unwrap raw')).isSome = true := hunwrap.isSome_unquote? ▸ hu
    rw [classify_of_unquote? ht ha hu, classify_of_unquote? ht' ha' hu', ← hunwrap.classifyBare_eq,
      ← Bool.not_eq_true, classifyBare_isStatic_iff_eq]
    by_cases hm : IsMisread (unwrap raw)
    · cases Text.hasPart ['$', '{'] (unwrap raw) <;>
        cases Text.hasPart ['$', '{'] (unwrap raw') <;> simp [hm, eq_comm]
    · obtain ⟨quote, body, hb, he⟩ : ∃ quote body, IsStringBody quote body ∧
          unwrap raw = quote :: (body ++ [quote]) := by
        by_contra hn
        exact hm ⟨hu, fun quote body hb he => hn ⟨quote, body, hb, he⟩⟩
      have hstring : classifyBare (unwrap raw) = ⟨.static, []⟩ := by
        rw [he] at hu ⊢
        exact classifyBare_string (isSome_unquote?_iff.mp hu).1 hb
      simp [hm, hstring]

end

/-- Expressions without template literals and arrow functions that differ only in the contents of
their strings have the same shape and depend on the same names, if every quote belongs to a string
with clean contents. Otherwise they differ exactly if they are taken for one string although they are
none, only one of them has the mark of an interpolation in it, and the text outside of strings is not
static. -/
theorem classify_of_alike {raw raw' : List Char} (h : Alike raw raw') (ht : '\x60' ∉ raw)
    (ht' : '\x60' ∉ raw') (ha : Text.hasPart ['=', '>'] raw = false)
    (ha' : Text.hasPart ['=', '>'] raw' = false) :
    (IsTidy raw → classify raw = classify raw') ∧
    (classify raw = classify raw' ↔ ¬(IsMisread (unwrap raw) ∧
      Text.hasPart ['$', '{'] (unwrap raw) ≠ Text.hasPart ['$', '{'] (unwrap raw') ∧
      (classifyBare (unwrap raw)).isStatic = false)) := by
  have hiff := classify_eq_iff h ht ht' ha ha'
  exact ⟨fun htidy => hiff.mpr fun hm => htidy.not_isMisread hm.1, hiff⟩

/-- A choice between two strings. -/
def choiceText (first second : List Char) : List Char :=
  "$\x7bflag ? ".toList ++ '\x27' :: (first ++ '\x27' :: (" : ".toList ++
    '\x22' :: (second ++ '\x22' :: "\x7d".toList)))

theorem classify_choiceText :
    classify (choiceText "row reverse".toList "a".toList) =
        classify (choiceText [] "$\x7bb\x7d || c".toList) ∧
      classify (choiceText [] "$\x7bb\x7d || c".toList) = ⟨.conditional, ["flag"]⟩ := by
  have h : Alike (choiceText "row reverse".toList "a".toList)
      (choiceText [] "$\x7bb\x7d || c".toList) :=
    .append (by decide) (.clean rfl (by decide) (by decide)
      (.append (by decide) (.clean rfl (by decide) (by decide) (.plain rfl .nil))))
  have htidy : IsTidy (choiceText "row reverse".toList "a".toList) :=
    .append (by decide) (.string rfl (by decide)
      (.append (by decide) (.string rfl (by decide) (.plain rfl .nil))))
  exact ⟨(classify_of_alike h (by decide) (by decide) (by decide) (by decide)).1 htidy,
    by decide +kernel⟩

/-- A quote that starts no string, with a string after it. -/
def unclosedText (contents : List Char) : List Char :=
  '\x27' :: ("a+b ".toList ++ '\x22' :: (contents ++ '\x22' :: " \\'".toList))

/-- A line break after a backslash, which no string goes across, with a string after it. -/
def continuedText (contents : List Char) : List Char :=
  '\x27' :: ("a+b\\\n".toList ++ '\x22' :: (contents ++ '\x22' :: "'".toList))

/-- The mark of an interpolation in a string is seen if the whole text is taken for one string. -/
theorem classify_of_alike_of_misread :
    (Alike (unclosedText "y".toList) (unclosedText "$\x7b".toList) ∧
      classify (unclosedText "y".toList) = ⟨.static, []⟩ ∧
      classify (unclosedText "$\x7b".toList) = ⟨.arithmetic, ["a", "b"]⟩) ∧
    Alike (continuedText "y".toList) (continuedText "$\x7b".toList) ∧
      classify (continuedText "y".toList) = ⟨.static, []⟩ ∧
      classify (continuedText "$\x7b".toList) = ⟨.arithmetic, ["a", "b"]⟩ := by
  have hunclosed : Alike (unclosedText "y".toList) (unclosedText "$\x7b".toList) :=
    .unclosed rfl (by decide) (by decide) (.append (by decide) (.clean rfl (by decide) (by decide)
      (.plain rfl (.plain rfl (.unclosed rfl (by decide) (by decide) .nil)))))
  have hcontinued : Alike (continuedText "y".toList) (continuedText "$\x7b".toList) :=
    .unclosed rfl (by decide) (by decide) (.append (by decide) (.clean rfl (by decide) (by decide)
      (.unclosed rfl (by decide) (by decide) .nil)))
  exact ⟨⟨hunclosed, by decide +kernel⟩, hcontinued, by decide +kernel⟩

end Restyle.Expression
