import Restyle.Proofs.Declarative.ObjectText
import Restyle.Proofs.Number.Numeral
import Restyle.Proofs.Scan.Boundary

namespace Restyle

/-- Whether a computation gives another result, said by a test. -/
def ChangesIff {ε α : Type} (test : Bool) (before after : Except ε α) : Prop :=
  (test = false → after = before) ∧ (test = true → ∀ a, before = .ok a → after ≠ .ok a)

namespace ChangesIff

variable {ε α β γ : Type} {test : Bool}

theorem refl {x : Except ε α} (h : test = false) : ChangesIff test x x :=
  ⟨fun _ => rfl, fun ht => by rw [h] at ht; cases ht⟩

theorem map {before after : Except ε α} (h : ChangesIff test before after) {f : α → β}
    (hf : ∀ a a', f a = f a' → a = a') : ChangesIff test (before.map f) (after.map f) := by
  refine ⟨fun ht => by rw [h.1 ht], fun ht b hb ha => ?_⟩
  obtain ⟨a, hbefore, rfl⟩ := map_eq_ok hb
  obtain ⟨a', hafter, he⟩ := map_eq_ok ha
  rw [hf a' a he] at hafter
  exact h.2 ht a hbefore hafter

/-- A change in the last entry of a list is a change of the whole. -/
theorem mapM_concat (f : γ → Except ε α) {x y : γ} (h : ChangesIff test (f x) (f y))
    (done : List γ) : ChangesIff test ((done ++ [x]).mapM f) ((done ++ [y]).mapM f) := by
  have hlast : ∀ z, (done ++ [z]).mapM f =
      (done.mapM f).bind fun found => (f z).map fun a => found ++ [a] := by
    intro z
    rw [List.mapM_append, List.mapM_cons, List.mapM_nil]
    cases done.mapM f with
    | error fault => rfl
    | ok found =>
      cases f z with
      | error fault => rfl
      | ok a => rfl
  rw [hlast x, hlast y]
  cases done.mapM f with
  | error fault => exact ⟨fun _ => rfl, fun _ _ hb => by cases hb⟩
  | ok found => exact h.map fun a a' he => List.singleton_inj.mp (List.append_cancel_left he)

end ChangesIff

end Restyle

namespace Restyle.Fields

theorem put_inj {α : Type} {fields : Fields α} {name : String} {v w : α}
    (h : fields.put name v = fields.put name w) : v = w := by
  unfold put at h
  split at h
  next hany =>
    obtain ⟨field, hm, he⟩ := List.any_eq_true.mp hany
    have hf := List.map_inj_left.mp h field hm
    rw [if_pos he, if_pos he] at hf
    exact (Prod.mk.inj hf).2
  next =>
    have hf := List.singleton_inj.mp (List.append_cancel_left h)
    exact (Prod.mk.inj hf).2

end Restyle.Fields

namespace Restyle.DeclarativePattern

/-- A type assertion as it is written after a value. -/
def assertion (name : List Char) : List Char := [' ', 'a', 's', ' '] ++ name

/-- Whether a text ends outside of strings and comments. -/
def isSettled (body : List Char) : Bool :=
  (Scan.unsettled 0 body).2 == [] || (Scan.unsettled 0 body).2 == ['/']

/-- The last entry of an object if the closing brace comes right after it. A comma in between leaves
an empty entry, and a comment that takes in the brace leaves none. -/
def closingText? (object : List Char) : Option (List Char) :=
  if isSettled (Expression.inside object) then
    match Scan.parts isComma 0 0 (Expression.inside object) with
    | .ok found => found.getLast?
    | .error _ => none
  else none

/-- The value right before the closing brace of an object. -/
def closingValue? (object : List Char) : Option (List Char) :=
  (closingText? object).bind fun entry => (splitEntry (Text.trim entry)).2

/-- Whether a style stands right before the closing brace of an object of styles. -/
def endsInStyle (object : List Char) : Bool := (closingValue? object).any (!isObjectText ·)

/-- Whether a style stands right before the closing braces of a variant and of its last value. -/
def variantEndsInStyle (raw : List Char) : Bool :=
  (closingValue? raw).any fun group => isObjectText group && endsInStyle group

def isStaticVariant (raw : List Char) : Bool := isObjectText raw && !Text.hasPart ['=', '>'] raw

/-- Whether a style stands right before the closing braces of an object of variants. -/
def variantsEndInStyle (object : List Char) : Bool :=
  (closingValue? object).any fun raw => isStaticVariant raw && variantEndsInStyle raw

/-- The text of an object whose closing brace stands at its end. -/
def ClosesAtEnd (object : List Char) : Prop :=
  ∃ inner, object = '{' :: inner ++ ['}'] ∧ isSettled inner = true

/-- The entries that have a value. -/
def valued (entries : List (List Char × Option (List Char))) : List (List Char × List Char) :=
  entries.filterMap fun entry => entry.2.map (entry.1, ·)

/-- The keys and the values of an object's text. -/
def fieldsOf (object : List Char) : Except Fault (List (List Char × List Char)) :=
  (entries object).map valued

def addStyle (styles : Fields Json) (field : List Char × List Char) :
    Except Fault (Fields Json) :=
  if isObjectText field.2 then .ok styles
  else (styleValue field.2).map (styles.put (String.ofList field.1))

theorem parseStyles_eq (object : List Char) :
    parseStyles object = (fieldsOf object).bind (·.foldlM addStyle []) := by
  rw [parseStyles, fieldsOf]
  cases entries object with
  | error fault => rfl
  | ok found =>
    show _ = (valued found).foldlM addStyle []
    rw [valued, List.foldlM_filterMap]
    refine congrArg (fun step => found.foldlM step []) ?_
    funext styles entry
    obtain ⟨key, raw⟩ := entry
    cases raw with
    | none => rfl
    | some raw =>
      simp only [addStyle, Option.map_some]
      split
      next => rfl
      next =>
        cases styleValue raw with
        | error fault => rfl
        | ok value => rfl

theorem filterMapM_eq_mapM_valued {α : Type} (f : List Char → List Char → Except Fault α)
    (found : List (List Char × Option (List Char))) :
    (found.filterMapM fun entry =>
      match entry.2 with
      | none => pure none
      | some raw => some <$> f entry.1 raw) =
      (valued found).mapM fun field => f field.1 field.2 := by
  induction found with
  | nil => rfl
  | cons entry found ih =>
    obtain ⟨key, raw⟩ := entry
    rw [List.filterMapM_cons, ih]
    cases raw with
    | none => rfl
    | some raw =>
      have hv : valued ((key, some raw) :: found) = (key, raw) :: valued found := rfl
      rw [hv, List.mapM_cons]
      dsimp only
      cases f key raw with
      | error fault => rfl
      | ok value => rfl

theorem bind_ok_eq_map {ε α β : Type} (x : Except ε α) (f : α → β) :
    (x.bind fun a => .ok (f a)) = x.map f := by
  cases x with
  | error fault => rfl
  | ok a => rfl

theorem parseVariants_eq (object : List Char) :
    parseVariants object =
      (fieldsOf object).bind (·.mapM fun field => parseVariant field.1 field.2) := by
  rw [parseVariants, fieldsOf]
  cases entries object with
  | error fault => rfl
  | ok found => exact filterMapM_eq_mapM_valued parseVariant found

theorem parseVariant_eq (name raw : List Char) : parseVariant name raw =
    if isStaticVariant raw then
      ((fieldsOf raw).bind (·.mapM fun field => parseValue field.1 field.2)).map
        (⟨String.ofList name, ·, false⟩)
    else .ok ⟨String.ofList name, [], true⟩ := by
  rw [parseVariant, isStaticVariant]
  cases isObjectText raw with
  | false => rfl
  | true =>
    cases Text.hasPart ['=', '>'] raw with
    | true => rfl
    | false =>
      rw [fieldsOf]
      cases entries raw with
      | error fault => rfl
      | ok found =>
        show Except.bind (found.filterMapM _) _ =
          ((valued found).mapM fun field => parseValue field.1 field.2).map _
        rw [← filterMapM_eq_mapM_valued parseValue found]
        exact bind_ok_eq_map _ _

/-- The fields of the parts of a body. -/
def fieldsFrom (found : List (List Char)) : List (List Char × List Char) :=
  valued (found.map fun text => splitEntry (Text.trim text))

theorem valued_append (front back : List (List Char × Option (List Char))) :
    valued (front ++ back) = valued front ++ valued back := List.filterMap_append

theorem fieldsFrom_append (front back : List (List Char)) :
    fieldsFrom (front ++ back) = fieldsFrom front ++ fieldsFrom back := by
  rw [fieldsFrom, List.map_append, valued_append]
  rfl

/-- Parts that are blank have no value, so they need not be left out. -/
theorem valued_filter (found : List (List Char)) :
    valued (((found.map Text.trim).filter (!·.isEmpty)).map splitEntry) = fieldsFrom found := by
  induction found with
  | nil => rfl
  | cons text found ih =>
    rw [← List.singleton_append, fieldsFrom_append, ← ih, List.map_append, List.filter_append,
      List.map_append, valued_append]
    refine congrArg (· ++ _) ?_
    cases ht : (Text.trim text).isEmpty with
    | false => simp [fieldsFrom, ht]
    | true =>
      have hnone : splitEntry [] = ([], none) := by simp [splitEntry, Scan.cutColon?, Scan.cutAt?]
      simp [fieldsFrom, List.isEmpty_iff.mp ht, hnone, valued]

theorem fieldsOf_body {object body : List Char} (h : Expression.inside (Text.trim object) = body) :
    fieldsOf object = (Scan.parts isComma 0 0 body).map fieldsFrom := by
  rw [fieldsOf, entries, h]
  show (((Scan.parts isComma 0 0 body).map _).map _).map valued = _
  cases Scan.parts isComma 0 0 body with
  | error fault => rfl
  | ok found => exact congrArg Except.ok (valued_filter found)

/-- The characters of assertions and of the braces and blanks before them. -/
def isFiller (c : Char) : Bool := c == '}' || Text.isBlank c || Expression.continuesName c

theorem ne_of_isFiller {c d : Char} (h : isFiller c = true) (hd : isFiller d = false) : c ≠ d := by
  rintro rfl
  rw [h] at hd
  cases hd

theorem isQuote_of_isFiller {c : Char} (h : isFiller c = true) : Scan.isQuote c = false := by
  simp [Scan.isQuote, ne_of_isFiller h (d := '\x27') (by decide),
    ne_of_isFiller h (d := '\x22') (by decide), ne_of_isFiller h (d := '\x60') (by decide)]

theorem isPlain_of_isFiller {c : Char} (h : isFiller c = true) : Scan.isPlain isComma c = true := by
  simp [Scan.isPlain, isComma, isQuote_of_isFiller h, ne_of_isFiller h (d := '/') (by decide),
    ne_of_isFiller h (d := ',') (by decide)]

/-- What can stand after a value without a change of where it starts and ends. -/
structure IsAddition (value added : List Char) : Prop where
  ne_nil : added ≠ []
  filler : ∀ c ∈ added, isFiller c = true
  trimmed : Text.trim (value ++ added) = value ++ added
  object : isObjectText (value ++ added) = isObjectText value

theorem isAddition_assertion (inner : List Char) {name : List Char}
    (hn : Expression.isName name = true) :
    IsAddition ('{' :: inner ++ ['}']) (assertion name) := by
  have hname := Expression.isName_all hn
  have hlast : ∀ c ∈ name.getLast?, Text.isBlank c = false := fun c hc =>
    Expression.isBlank_of_continuesName (hname.2 c (List.mem_of_getLast? hc))
  have htrim : Text.IsTrimmed ('{' :: inner ++ ['}'] ++ assertion name) := by
    refine ⟨by simp; decide, ?_⟩
    rw [assertion, ← List.append_assoc, List.getLast?_append_of_ne_nil _ hname.1]
    exact hlast
  refine ⟨by simp [assertion], ?_, Text.trim_of_isTrimmed htrim, rfl⟩
  intro c hc
  rcases List.mem_append.mp hc with hc | hc
  · have hfront : [' ', 'a', 's', ' '].all isFiller = true := by decide
    exact List.all_eq_true.mp hfront c hc
  · simp [isFiller, hname.2 c hc]

/-- The body of an object with something after it has the closing brace in it. -/
theorem inside_append {inner added : List Char} (h : IsAddition ('{' :: inner ++ ['}']) added) :
    Expression.inside (Text.trim ('{' :: inner ++ ['}'] ++ added)) =
      inner ++ '}' :: added.dropLast := by
  rw [h.trimmed]
  simp only [Expression.inside, List.cons_append, List.drop_succ_cons, List.drop_zero,
    List.append_assoc, List.nil_append]
  rw [List.dropLast_append_of_ne_nil (by simp), List.dropLast_cons_of_ne_nil h.ne_nil]

/-- An entry without a value keeps none. -/
theorem splitEntry_append_none {entry added : List Char} (h : (splitEntry entry).2 = none)
    (ha : ∀ c ∈ added, Scan.isQuote c = false ∧ (c == ':') = false) :
    (splitEntry (entry ++ added)).2 = none := by
  have hc : Scan.cutColon? entry = none := by
    unfold splitEntry at h
    split at h
    next hc => exact hc
    next => cases h
  simp only [splitEntry, Scan.cutColon?, Scan.cutAt?_append_none hc ha]

/-- The value of an entry takes up what follows it. -/
theorem splitEntry_append_some {entry key value : List Char}
    (h : splitEntry entry = (key, some value)) (added : List Char) :
    ∃ raw, value = Text.trim raw ∧
      splitEntry (entry ++ added) = (key, some (Text.trim (raw ++ added))) := by
  unfold splitEntry at h
  split at h
  next => cases h
  next front raw hc =>
    cases h
    refine ⟨raw, rfl, ?_⟩
    simp only [splitEntry, Scan.cutColon?, Scan.cutAt?_append_some hc]

/-- A brace and what follows it, without the blanks at the end. -/
theorem exists_dropTrailing_brace (tail : List Char) :
    ∃ back, Text.dropTrailing Text.isBlank ('}' :: tail) = '}' :: back ∧
      (∀ c ∈ '}' :: back, c ∈ '}' :: tail) ∧
      ∀ c ∈ ('}' :: back).getLast?, Text.isBlank c = false := by
  obtain ⟨blanks, happend, hblanks⟩ := Text.exists_dropTrailing_append Text.isBlank ('}' :: tail)
  have hlast := Text.getLast_dropTrailing Text.isBlank ('}' :: tail)
  cases hd : Text.dropTrailing Text.isBlank ('}' :: tail) with
  | nil =>
    rw [hd, List.nil_append] at happend
    have hb := hblanks '}' (by rw [← happend]; exact List.mem_cons_self)
    exact absurd hb (by decide)
  | cons c back =>
    rw [hd] at happend hlast
    have hc : c = '}' := (List.cons.inj happend).1.symm
    subst hc
    refine ⟨back, rfl, fun d hm => ?_, hlast⟩
    rw [happend]
    exact List.mem_append_left _ hm

/-- A text before a brace keeps some of the blanks between, and none if it is blank itself. -/
theorem exists_trim_brace (raw : List Char) {gap back : List Char}
    (hg : ∀ c ∈ gap, Text.isBlank c = true)
    (hend : ∀ c ∈ ('}' :: back).getLast?, Text.isBlank c = false) :
    ∃ blanks, Text.trim (raw ++ (gap ++ '}' :: back)) = Text.trim raw ++ (blanks ++ '}' :: back) ∧
      (∀ c ∈ blanks, Text.isBlank c = true) ∧ (Text.trim raw = [] → blanks = []) := by
  obtain ⟨blanks, hdrop, hblanks⟩ := Text.exists_trim_append (raw ++ gap)
  rw [Text.trim_append_of_blank hg] at hdrop
  have hfinal : Text.dropTrailing Text.isBlank ('}' :: back) = '}' :: back :=
    Text.dropTrailing_of_getLast hend
  refine ⟨blanks, ?_, hblanks, fun hnil => ?_⟩
  · rw [← List.append_assoc, Text.trim_append_of_head ⟨'}', rfl, by decide⟩, hdrop, hfinal,
      List.append_assoc]
  · have hfirst : ∀ c ∈ blanks.head?, Text.isBlank c = false := by
      rw [← List.nil_append blanks, ← hnil, ← hdrop]
      exact Text.head_dropWhile
    cases blanks with
    | nil => rfl
    | cons c blanks =>
      have hc := hfirst c rfl
      rw [hblanks c List.mem_cons_self] at hc
      cases hc

/-- The last entry of a body takes up the brace and what follows it if it has a value. -/
theorem splitEntry_brace (last : List Char) {tail : List Char}
    (ht : ∀ c ∈ tail, isFiller c = true) :
    ((splitEntry (Text.trim last)).2 = none ∧
      (splitEntry (Text.trim (last ++ '}' :: tail))).2 = none) ∨
    ∃ key value added, splitEntry (Text.trim last) = (key, some value) ∧
      splitEntry (Text.trim (last ++ '}' :: tail)) = (key, some (value ++ added)) ∧
      IsAddition value added ∧ '}' ∈ added := by
  obtain ⟨back, hback, hmem, hend⟩ := exists_dropTrailing_brace tail
  obtain ⟨gap, hgap, hblank⟩ := Text.exists_trim_append last
  have htrim : Text.trim (last ++ '}' :: tail) = Text.trim last ++ (gap ++ '}' :: back) := by
    rw [Text.trim_append_of_head ⟨'}', rfl, by decide⟩, hback, hgap, List.append_assoc]
  have hfiller : ∀ blanks : List Char, (∀ c ∈ blanks, Text.isBlank c = true) →
      ∀ c ∈ blanks ++ '}' :: back, isFiller c = true := by
    intro blanks hb c hc
    rcases List.mem_append.mp hc with hc | hc
    · simp [isFiller, hb c hc]
    · rcases List.mem_cons.mp (hmem c hc) with rfl | hc
      · rfl
      · exact ht c hc
  rw [htrim]
  cases hs : (splitEntry (Text.trim last)).2 with
  | none =>
    refine Or.inl ⟨rfl, splitEntry_append_none hs fun c hc => ?_⟩
    have hf := hfiller gap hblank c hc
    exact ⟨isQuote_of_isFiller hf, beq_eq_false_iff_ne.mpr (ne_of_isFiller hf (by decide))⟩
  | some value =>
    obtain ⟨raw, hraw, hsplit⟩ := splitEntry_append_some (Prod.ext rfl hs) (gap ++ '}' :: back)
    obtain ⟨blanks, hvalue, hblanks, hnil⟩ := exists_trim_brace raw hblank hend
    rw [← hraw] at hvalue hnil
    refine Or.inr ⟨_, value, blanks ++ '}' :: back, Prod.ext rfl hs,
      hsplit.trans (by rw [hvalue]), ⟨by simp, hfiller blanks hblanks, ?_, ?_⟩, by simp⟩
    · rw [← hvalue]
      exact Text.trim_of_isTrimmed (Text.isTrimmed_trim _)
    · cases value with
      | nil =>
        rw [hnil rfl]
        rfl
      | cons c value => rfl

/-- The value before the closing brace takes up what follows the object, and nothing else
changes. -/
theorem fieldsOf_append {inner added : List Char} (h : IsAddition ('{' :: inner ++ ['}']) added)
    (hl : isSettled inner = true ∨ '\n' ∉ added) :
    (closingValue? ('{' :: inner ++ ['}']) = none ∧
      fieldsOf ('{' :: inner ++ ['}'] ++ added) = fieldsOf ('{' :: inner ++ ['}'])) ∨
    ∃ done key value more, closingValue? ('{' :: inner ++ ['}']) = some value ∧
      fieldsOf ('{' :: inner ++ ['}']) = .ok (done ++ [(key, value)]) ∧
      fieldsOf ('{' :: inner ++ ['}'] ++ added) = .ok (done ++ [(key, value ++ more)]) ∧
      IsAddition value more ∧ '}' ∈ more := by
  rw [fieldsOf_body (inside_braces inner), fieldsOf_body (inside_append h)]
  have hinside : Expression.inside ('{' :: inner ++ ['}']) = inner := by simp [Expression.inside]
  have hfiller : ∀ c ∈ added.dropLast, isFiller c = true := fun c hc =>
    h.filler c ((List.dropLast_sublist _).subset hc)
  have hplain : ∀ c ∈ '}' :: added.dropLast, Scan.isPlain isComma c = true :=
    List.forall_mem_cons.mpr ⟨by decide, fun c hc => isPlain_of_isFiller (hfiller c hc)⟩
  simp only [closingValue?, closingText?, hinside]
  have hsettled : isSettled inner = true ↔
      (Scan.unsettled 0 inner).2 = [] ∨ (Scan.unsettled 0 inner).2 = ['/'] := by simp [isSettled]
  by_cases hu : isSettled inner = true
  · obtain ⟨done, last, hself, htail⟩ :=
      Scan.parts_append_plain (by decide) hplain (by simp) (hsettled.mp hu) 0
    rw [if_pos hu, hself, htail]
    simp only [Except.map, fieldsFrom_append, List.getLast?_append, List.getLast?_singleton,
      Option.some_or, Option.bind_some]
    rcases splitEntry_brace last hfiller with
      ⟨hnone, hnone'⟩ | ⟨key, value, more, hs, hs', hmore⟩
    · refine Or.inl ⟨hnone, ?_⟩
      simp [fieldsFrom, valued, hnone, hnone']
    · refine Or.inr ⟨fieldsFrom done, key, value, more, by rw [hs], ?_, ?_, hmore⟩
      · simp [fieldsFrom, valued, hs]
      · simp [fieldsFrom, valued, hs']
  · have hline : '\n' ∉ '}' :: added.dropLast := by
      have hm := hl.resolve_left hu
      simp only [List.mem_cons, not_or]
      exact ⟨by decide, fun hc => hm ((List.dropLast_sublist _).subset hc)⟩
    rw [if_neg hu, Scan.parts_append_plain_of_open hplain hline (mt hsettled.mpr hu)]
    exact Or.inl ⟨rfl, rfl⟩

theorem length_le_of_unquote? {isMark : Char → Bool} {raw inside : List Char}
    (h : Expression.unquote? isMark raw = some inside) : inside.length ≤ raw.length := by
  unfold Expression.unquote? at h
  split at h
  next => cases h
  next quote cs =>
    split at h
    next =>
      cases h
      simp only [List.length_dropLast, List.length_cons]
      omega
    next => cases h

/-- A text with a brace in it that no quote ends is no literal. -/
theorem styleValue_append {value added : List Char} (h : IsAddition value added)
    (hb : '}' ∈ added) :
    styleValue (value ++ added) = .ok (.text (String.ofList (value ++ added))) := by
  have hbrace : '}' ∈ value ++ added := List.mem_append_right value hb
  have hquote : Expression.unquote? Expression.isPlainQuote (value ++ added) = none := by
    cases hcs : value ++ added with
    | nil => rfl
    | cons quote cs =>
      have hlast : ∀ c ∈ cs.getLast?, isFiller c = true := by
        intro c hc
        have hne : cs ≠ [] := fun he => by rw [he] at hc; cases hc
        have happend : (value ++ added).getLast? = cs.getLast? := by
          rw [hcs, ← List.singleton_append, List.getLast?_append_of_ne_nil _ hne]
        rw [List.getLast?_append_of_ne_nil _ h.ne_nil] at happend
        rw [← happend] at hc
        exact h.filler c (List.mem_of_getLast? hc)
      have hmark : ¬(Expression.isPlainQuote quote = true ∧ cs.getLast? = some quote) := by
        rintro ⟨hq, hl⟩
        have hf := isQuote_of_isFiller (hlast quote hl)
        simp only [Scan.isQuote, Bool.or_eq_false_iff] at hf
        simp [Expression.isPlainQuote, hf.1] at hq
      rw [Expression.unquote?, if_neg]
      simp only [Bool.and_eq_true, beq_iff_eq]
      exact fun hq => hmark hq.1
  have hnumeral : Numeral.read? (value ++ added) = none := by
    cases hn : Numeral.read? (value ++ added) with
    | none => rfl
    | some numeral => exact absurd (Numeral.mem_of_read? hn '}' hbrace) (by decide)
  have htruth : Expression.truthWords.contains (value ++ added) = false := by
    rw [List.contains_eq_mem, decide_eq_false_iff_not]
    intro hm
    exact absurd hbrace ((by decide : ∀ word ∈ Expression.truthWords, '}' ∉ word) _ hm)
  simp only [styleValue, Expression.literal?, h.trimmed, hquote, hnumeral, htruth]
  rfl

theorem length_le_of_styleValue {raw : List Char} {text : String}
    (h : styleValue raw = .ok (.text text)) : text.toList.length ≤ raw.length := by
  have htrim := Expression.trim_length_le raw
  obtain ⟨found, hfound, hvalue⟩ := map_eq_ok h
  simp only [Expression.literal?] at hfound
  split at hfound
  next inside hq =>
    cases hfound
    cases hvalue
    have hinside := length_le_of_unquote? hq
    rw [String.toList_ofList]
    omega
  next =>
    split at hfound
    next numeral _ =>
      obtain ⟨number, _, rfl⟩ := map_eq_ok hfound
      cases number with
      | whole n => cases hvalue
      | double x => cases hvalue
    next =>
      cases hfound
      split at hvalue
      next =>
        cases hvalue
        rw [String.toList_ofList]
        exact htrim
      next =>
        cases hvalue
        exact Nat.le_of_eq (congrArg List.length String.toList_ofList)

theorem changesIff_addStyle (styles : Fields Json) (key : List Char) {value added : List Char}
    (h : IsAddition value added) (hb : '}' ∈ added) :
    ChangesIff (!isObjectText value) (addStyle styles (key, value))
      (addStyle styles (key, value ++ added)) := by
  cases ho : isObjectText value with
  | true =>
    have hsame : addStyle styles (key, value ++ added) = addStyle styles (key, value) := by
      simp [addStyle, h.object, ho]
    rw [hsame]
    exact ChangesIff.refl rfl
  | false =>
    refine ⟨fun ht => (by cases ht), fun _ result hbefore hafter => ?_⟩
    simp only [addStyle, h.object, ho, Bool.false_eq_true, if_false, styleValue_append h hb,
      Except.map] at hbefore hafter
    obtain ⟨read, hread, hput⟩ := map_eq_ok hbefore
    have hsame := hput.trans (Except.ok.inj hafter).symm
    have htext := Fields.put_inj hsame
    subst htext
    have hlength := length_le_of_styleValue hread
    have hpos := List.length_pos_iff.mpr h.ne_nil
    simp only [String.toList_ofList, List.length_append] at hlength
    omega

/-- Styles change with what follows their object exactly if one of them stands right before the
closing brace. -/
theorem changesIff_parseStyles {inner added : List Char}
    (h : IsAddition ('{' :: inner ++ ['}']) added)
    (hl : isSettled inner = true ∨ '\n' ∉ added) :
    ChangesIff (endsInStyle ('{' :: inner ++ ['}'])) (parseStyles ('{' :: inner ++ ['}']))
      (parseStyles ('{' :: inner ++ ['}'] ++ added)) := by
  rw [parseStyles_eq, parseStyles_eq, endsInStyle]
  rcases fieldsOf_append h hl with ⟨hnone, hsame⟩ | ⟨done, key, value, more, hv, hf, hf', hmore⟩
  · rw [hnone, hsame]
    exact ChangesIff.refl rfl
  · rw [hv, hf, hf']
    show ChangesIff (!isObjectText value) (List.foldlM addStyle [] (done ++ [(key, value)]))
      (List.foldlM addStyle [] (done ++ [(key, value ++ more)]))
    simp only [List.foldlM_append, List.foldlM_cons, List.foldlM_nil, bind_pure]
    cases done.foldlM addStyle [] with
    | error fault => exact ⟨fun _ => rfl, fun _ _ hb => by cases hb⟩
    | ok styles => exact changesIff_addStyle styles key hmore.1 hmore.2

theorem isStaticVariant_append {raw added : List Char} (h : IsAddition raw added) :
    isStaticVariant (raw ++ added) = isStaticVariant raw := by
  have hm : '>' ∉ added := fun hc => ne_of_isFiller (h.filler '>' hc) (by decide) rfl
  have hhead : added.head? ≠ some '>' := fun he => hm (List.mem_of_head? he)
  rw [isStaticVariant, isStaticVariant, h.object, Text.hasPart_pair_append hhead,
    Text.hasPart_pair_of_not_mem_right hm, Bool.or_false]

/-- A value of a variant changes exactly if its styles do. -/
theorem changesIff_parseValue (name : List Char) {group added : List Char}
    (h : IsAddition group added) (hc : isObjectText group = true → ClosesAtEnd group) :
    ChangesIff (isObjectText group && endsInStyle group) (parseValue name group)
      (parseValue name (group ++ added)) := by
  have heq : ∀ group, parseValue name group =
      if isObjectText group then (parseStyles group).map (⟨String.ofList name, ·⟩)
      else .ok ⟨String.ofList name, []⟩ := by
    intro group
    rw [parseValue]
    split
    next => exact bind_ok_eq_map _ _
    next => rfl
  rw [heq, heq, h.object]
  cases ho : isObjectText group with
  | false => exact ChangesIff.refl rfl
  | true =>
    obtain ⟨inner, rfl, hsettled⟩ := hc ho
    exact (changesIff_parseStyles h (Or.inl hsettled)).map fun _ _ he =>
      (VariantValue.mk.inj he).2

/-- The objects that a type assertion goes into are closed where they end. -/
def ClosesNested (raw : List Char) : Prop :=
  ClosesAtEnd raw ∧ ∀ group ∈ closingValue? raw, isObjectText group = true → ClosesAtEnd group

/-- A variant changes exactly if its last value does. -/
theorem changesIff_parseVariant (name : List Char) {raw added : List Char}
    (h : IsAddition raw added) (hc : isStaticVariant raw = true → ClosesNested raw) :
    ChangesIff (isStaticVariant raw && variantEndsInStyle raw) (parseVariant name raw)
      (parseVariant name (raw ++ added)) := by
  rw [parseVariant_eq, parseVariant_eq, isStaticVariant_append h]
  cases hs : isStaticVariant raw with
  | false => exact ChangesIff.refl rfl
  | true =>
    obtain ⟨⟨inner, rfl, hsettled⟩, hgroup⟩ := hc hs
    simp only [if_true, Bool.true_and]
    refine ChangesIff.map ?_ fun _ _ he => (Variant.mk.inj he).2.1
    rw [variantEndsInStyle]
    rcases fieldsOf_append h (Or.inl hsettled) with
      ⟨hnone, hsame⟩ | ⟨done, key, value, more, hv, hf, hf', hmore⟩
    · rw [hnone, hsame]
      exact ChangesIff.refl rfl
    · rw [hv, hf, hf']
      refine ChangesIff.mapM_concat _ ?_ done
      exact changesIff_parseValue key hmore.1 (hgroup value hv)

/-- Variants change exactly if the last one does. -/
theorem changesIff_parseVariants {inner added : List Char}
    (h : IsAddition ('{' :: inner ++ ['}']) added) (hl : isSettled inner = true ∨ '\n' ∉ added)
    (hc : ∀ raw ∈ closingValue? ('{' :: inner ++ ['}']),
      isStaticVariant raw = true → ClosesNested raw) :
    ChangesIff (variantsEndInStyle ('{' :: inner ++ ['}'])) (parseVariants ('{' :: inner ++ ['}']))
      (parseVariants ('{' :: inner ++ ['}'] ++ added)) := by
  rw [parseVariants_eq, parseVariants_eq, variantsEndInStyle]
  rcases fieldsOf_append h hl with ⟨hnone, hsame⟩ | ⟨done, key, value, more, hv, hf, hf', hmore⟩
  · rw [hnone, hsame]
    exact ChangesIff.refl rfl
  · rw [hv, hf, hf']
    refine ChangesIff.mapM_concat _ ?_ done
    exact changesIff_parseVariant key hmore.1 (hc value hv)

/-- A type assertion after a balanced object changes what is read from it exactly if a style stands
right before its closing brace. With variants these are the braces of the object, of its last
variant and of that variant's last value. -/
theorem parse_asserted (object name : List Char)
    (ho : Scan.takeBraces? object = some (object, [])) (hn : Expression.isName name = true) :
    ChangesIff (endsInStyle object) (parseStyles object) (parseStyles (object ++ assertion name)) ∧
    ((∀ raw ∈ closingValue? object, isStaticVariant raw = true → ClosesNested raw) →
      ChangesIff (variantsEndInStyle object) (parseVariants object)
        (parseVariants (object ++ assertion name)) ∧
      (variantsEndInStyle object = false → ∀ config : Config,
        config.add "variants".toList (some (object ++ assertion name)) =
          config.add "variants".toList (some object))) := by
  obtain ⟨inner, rfl⟩ := Scan.takeBraces?_eq_concat ho
  have hadd := isAddition_assertion inner hn
  have hline : '\n' ∉ assertion name := by
    intro hm
    rcases List.mem_append.mp hm with hm | hm
    · exact absurd hm (by decide)
    · exact absurd ((Expression.isName_all hn).2 _ hm) (by decide)
  refine ⟨changesIff_parseStyles hadd (Or.inr hline), fun hc => ?_⟩
  have hvariants := changesIff_parseVariants hadd (Or.inr hline) hc
  refine ⟨hvariants, fun hends config => ?_⟩
  simp only [Config.add, String.ofList_toList, beq_self_eq_true, if_true, hadd.object,
    hvariants.1 hends]

def braced (body : List Char) : List Char := '{' :: body ++ ['}']

/-- A variant's value that ends with a nested object. -/
def nestedGroup : List Char := braced (" p: 4, q: ".toList ++ braced " r: 1 ".toList ++ [' '])

def nestedVariant : List Char := braced (" sm: ".toList ++ nestedGroup ++ [' '])

def nestedVariants : List Char := braced (" size: ".toList ++ nestedVariant ++ [' '])

/-- A nested object right before the closing braces keeps the assertion away from the styles. -/
theorem parse_asserted_nested :
    Scan.takeBraces? nestedVariants = some (nestedVariants, []) ∧
      parseVariants (nestedVariants ++ " as const".toList) = parseVariants nestedVariants := by
  have hwhole : Scan.takeBraces? nestedVariants = some (nestedVariants, []) := by decide +kernel
  have hraw : closingValue? nestedVariants = some nestedVariant := by decide +kernel
  have hgroup : closingValue? nestedVariant = some nestedGroup := by decide +kernel
  have hnested : ∀ raw ∈ closingValue? nestedVariants,
      isStaticVariant raw = true → ClosesNested raw := by
    rw [hraw]
    rintro raw ⟨⟩ _
    refine ⟨⟨_, rfl, by decide +kernel⟩, ?_⟩
    rw [hgroup]
    rintro group ⟨⟩ _
    exact ⟨_, rfl, by decide +kernel⟩
  have hsame := (parse_asserted nestedVariants "const".toList hwhole (by decide +kernel)).2 hnested
  exact ⟨hwhole, hsame.1.1 (by decide +kernel)⟩

/-- The styles that the values of variants have, as texts. -/
def textStyles (variants : List Variant) : List String :=
  variants.flatMap fun variant => variant.values.flatMap fun value => value.styles.filterMap
    fun style => match style.2 with
      | .text text => some text
      | _ => none

/-- A style that is a number in a balanced object is a text with three braces in it once an
assertion follows the object. -/
theorem asserted_number_becomes_text :
    ∃ object name : List Char, Scan.takeBraces? object = some (object, []) ∧
      Expression.isName name = true ∧
      gives (textStyles · == []) (parseVariants object) = true ∧
      gives (textStyles · == ["4\x7d\x7d\x7d as co"]) (parseVariants (object ++ assertion name)) =
        true :=
  ⟨braced ("size:".toList ++ braced ("sm:".toList ++ braced "p:4".toList)), "const".toList,
    by decide +kernel, by decide +kernel, by decide +kernel, by decide +kernel⟩

end Restyle.DeclarativePattern
