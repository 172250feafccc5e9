import Restyle.Pattern.Inline
import Restyle.Proofs.Expression.Name
import Restyle.Proofs.Scan.Locality

namespace Restyle.InlinePattern

/-- Whether a whole text is the name of an attribute. -/
def isAttributeName : List Char → Bool
  | [] => false
  | c :: cs => Expression.startsName c && cs.all continuesAttribute

/-- An attribute by the parts of its text. -/
inductive AttributeText where
  | bare (name : List Char)
  | quoted (name token : List Char)
  | braced (name region : List Char)
  | spread (expression : List Char)

namespace AttributeText

def render : AttributeText → List Char
  | .bare name => name
  | .quoted name token => name ++ '=' :: token
  | .braced name region => name ++ '=' :: region
  | .spread expression => ['{', '.', '.', '.'] ++ expression ++ ['}']

/-- What is read from the text. -/
def value : AttributeText → Attribute
  | .bare name => ⟨name, "true".toList, .bare⟩
  | .quoted name token => ⟨name, token, .quoted⟩
  | .braced name region => ⟨name, region, .braced⟩
  | .spread expression => ⟨"...".toList, expression, .spread⟩

/-- Names are names, and each string or region ends with its own text. -/
def WellFormed : AttributeText → Prop
  | .bare name => isAttributeName name = true
  | .quoted name token =>
    isAttributeName name = true ∧ (∃ c ∈ token.head?, Expression.isPlainQuote c = true) ∧
      Scan.takeString? token = some (token, [])
  | .braced name region =>
    isAttributeName name = true ∧ Scan.takeBraces? region = some (region, [])
  | .spread expression =>
    expression ≠ [] ∧ Text.trim expression = expression ∧ expression.head? ≠ some '.' ∧
      Scan.takeBraces? (spread expression).render = some ((spread expression).render, [])

end AttributeText

/-- The text of a tag between its name and its closing bracket. -/
def tagText (items : List AttributeText) (selfClosing : Bool) : List Char :=
  ' ' :: [' '].intercalate (items.map (·.render)) ++ if selfClosing then [' ', '/'] else []

/-- The characters that stand for themselves between the name of a tag and its end. -/
def isTagChar (c : Char) : Bool := !Expression.isPlainQuote c && c != '{' && c != '>' && c != '<'

theorem isTagChar_of_continuesAttribute {c : Char} (h : continuesAttribute c = true) :
    isTagChar c = true := by
  have hn : ∀ d : Char, continuesAttribute d = false → c ≠ d := by
    intro d hd he
    rw [he, hd] at h
    exact Bool.false_ne_true h
  have h₁ := hn '\x27' (by decide)
  have h₂ := hn '\x22' (by decide)
  have h₃ := hn '{' (by decide)
  have h₄ := hn '>' (by decide)
  have h₅ := hn '<' (by decide)
  simp [isTagChar, Expression.isPlainQuote, h₁, h₂, h₃, h₄, h₅]

theorem continuesAttribute_of_startsName {c : Char} (h : Expression.startsName c = true) :
    continuesAttribute c = true := by
  have hn := Expression.continuesName_of_startsName h
  simp only [Expression.continuesName, Bool.or_eq_true] at hn
  simp only [continuesAttribute, Bool.or_eq_true]
  exact .inl (.inl (.inl hn))

theorem isAttributeName_all {name : List Char} (h : isAttributeName name = true) :
    ∀ c ∈ name, continuesAttribute c = true := by
  cases name with
  | nil => simp [isAttributeName] at h
  | cons c cs =>
    simp only [isAttributeName, Bool.and_eq_true, List.all_eq_true] at h
    intro d hd
    rcases List.mem_cons.mp hd with rfl | hd
    · exact continuesAttribute_of_startsName h.1
    · exact h.2 d hd

section TagEnd

variable {after body rest : List Char}

theorem takeTag?_plain_append {cs : List Char} (hc : ∀ c ∈ cs, isTagChar c = true)
    (h : takeTag? after = some (body, rest)) :
    takeTag? (cs ++ after) = some (cs ++ body, rest) := by
  induction cs with
  | nil => exact h
  | cons c cs ih =>
    have hp := hc c List.mem_cons_self
    simp only [isTagChar, Bool.and_eq_true, Bool.not_eq_true', bne_iff_ne, ne_eq] at hp
    obtain ⟨⟨⟨hq, hb⟩, hg⟩, hl⟩ := hp
    rw [List.cons_append, takeTag?]
    simp [hq, hb, hg, hl, ih fun d hd => hc d (List.mem_cons_of_mem c hd)]

theorem takeTag?_string_append {token : List Char}
    (hq : ∃ c ∈ token.head?, Expression.isPlainQuote c = true)
    (ht : Scan.takeString? token = some (token, [])) (h : takeTag? after = some (body, rest)) :
    takeTag? (token ++ after) = some (token ++ body, rest) := by
  obtain ⟨quote, hc, hq⟩ := hq
  obtain ⟨tail, rfl⟩ : ∃ tail, token = quote :: tail := List.head?_eq_some_iff.mp hc
  have hs := Scan.takeString?_read_append ht after
  rw [List.cons_append] at hs ⊢
  rw [takeTag?, if_pos hq]
  split
  next hn => rw [hs] at hn; simp at hn
  next literal rest' hl =>
    rw [hs] at hl
    cases hl
    simp [h]

theorem takeTag?_region_append {region : List Char}
    (ht : Scan.takeBraces? region = some (region, [])) (h : takeTag? after = some (body, rest)) :
    takeTag? (region ++ after) = some (region ++ body, rest) := by
  obtain ⟨read, rfl⟩ := Scan.takeBraces?_eq_cons ht
  have hs := Scan.takeBraces?_read_append ht after
  have hq : ¬Expression.isPlainQuote '{' = true := by decide
  rw [List.cons_append] at hs ⊢
  rw [takeTag?, if_neg hq, if_pos (beq_self_eq_true '{')]
  split
  next hn => rw [hs] at hn; simp at hn
  next region rest' hl =>
    rw [hs] at hl
    cases hl
    simp [h]

theorem takeTag?_named_append {name value : List Char} (hn : isAttributeName name = true)
    (hv : takeTag? (value ++ after) = some (value ++ body, rest)) :
    takeTag? (name ++ '=' :: value ++ after) = some (name ++ '=' :: value ++ body, rest) := by
  have hc : ∀ c ∈ name ++ ['='], isTagChar c = true := by
    intro c hc
    rcases List.mem_append.mp hc with hm | hm
    · exact isTagChar_of_continuesAttribute (isAttributeName_all hn c hm)
    · rw [List.mem_singleton.mp hm]
      decide
  simpa using takeTag?_plain_append hc hv

/-- An attribute does not hide or make an end of its tag. -/
theorem takeTag?_render_append {item : AttributeText} (hw : item.WellFormed)
    (h : takeTag? after = some (body, rest)) :
    takeTag? (item.render ++ after) = some (item.render ++ body, rest) := by
  cases item with
  | bare name =>
    exact takeTag?_plain_append
      (fun c hc => isTagChar_of_continuesAttribute (isAttributeName_all hw c hc)) h
  | quoted name token =>
    exact takeTag?_named_append hw.1 (takeTag?_string_append hw.2.1 hw.2.2 h)
  | braced name region =>
    exact takeTag?_named_append hw.1 (takeTag?_region_append hw.2 h)
  | spread expression =>
    exact takeTag?_region_append hw.2.2.2 h

end TagEnd

section Attributes

variable {after : List Char}

theorem readAttributes_gap {c : Char} (h : (Text.isBlank c || c == '/') = true)
    (tail : List Char) : readAttributes (c :: tail) = readAttributes tail := by
  rw [readAttributes.eq_def]
  simp only [h, if_true]

theorem readAttributes_gaps {cs : List Char} (h : ∀ c ∈ cs, (Text.isBlank c || c == '/') = true)
    (after : List Char) : readAttributes (cs ++ after) = readAttributes after := by
  induction cs with
  | nil => rfl
  | cons c cs ih =>
    rw [List.cons_append, readAttributes_gap (h c List.mem_cons_self)]
    exact ih fun d hd => h d (List.mem_cons_of_mem c hd)

theorem afterEquals?_blank {c : Char} (h : Text.isBlank c = true) (tail : List Char) :
    afterEquals? (c :: tail) = afterEquals? tail := by
  simp only [afterEquals?, Text.skipBlanks, List.dropWhile_cons_of_pos h]

theorem afterEquals?_of_ne {c : Char} (hb : Text.isBlank c = false) (he : c ≠ '=')
    (tail : List Char) : afterEquals? (c :: tail) = none := by
  simp only [afterEquals?, Text.skipBlanks, List.dropWhile_cons_of_neg (Bool.eq_false_iff.mp hb)]
  split
  next rest hr => exact absurd (List.cons.inj hr).1 he
  next => rfl

theorem afterEquals?_value {c : Char} (hb : Text.isBlank c = false) (tail : List Char) :
    afterEquals? ('=' :: c :: tail) = some (c :: tail) := by
  have he : Text.isBlank '=' = false := by decide
  simp [afterEquals?, Text.skipBlanks, he, hb]

/-- Whether a text that follows a name neither continues the name nor gives it a value. -/
def EndsName (after : List Char) : Prop :=
  (∀ c ∈ after.head?, continuesAttribute c = false) ∧ afterEquals? after = none

theorem readAttributes_named {name value : List Char} {kind : AttributeKind}
    (hn : isAttributeName name = true) {follow : List Char}
    (hf : ∀ c ∈ follow.head?, continuesAttribute c = false)
    (hv : readAttributeValue follow = (value, kind, after)) :
    readAttributes (name ++ follow) = ⟨name, value, kind⟩ :: readAttributes after := by
  cases name with
  | nil => simp [isAttributeName] at hn
  | cons c cs =>
    simp only [isAttributeName, Bool.and_eq_true, List.all_eq_true] at hn
    have hc := continuesAttribute_of_startsName hn.1
    have hslash : c ≠ '/' := by
      rintro rfl
      exact absurd hc (by decide)
    have hbrace : c ≠ '{' := by
      rintro rfl
      exact absurd hc (by decide)
    rw [List.cons_append, readAttributes.eq_def]
    simp [Expression.isBlank_of_startsName hn.1, hslash, hbrace, hn.1,
      Text.takeWhile_append_of_head hn.2 hf, Text.dropWhile_append_of_head hn.2 hf, hv]

theorem readAttributeValue_bare (h : EndsName after) :
    readAttributeValue after = ("true".toList, .bare, after) := by
  unfold readAttributeValue
  rw [h.2]

theorem readAttributeValue_string {token : List Char}
    (hq : ∃ c ∈ token.head?, Expression.isPlainQuote c = true)
    (ht : Scan.takeString? token = some (token, [])) :
    readAttributeValue ('=' :: token ++ after) = (token, .quoted, after) := by
  obtain ⟨quote, hc, hq⟩ := hq
  obtain ⟨tail, rfl⟩ : ∃ tail, token = quote :: tail := List.head?_eq_some_iff.mp hc
  have hs := Scan.takeString?_read_append ht after
  have hb : Text.isBlank quote = false := by
    simp only [Expression.isPlainQuote, Bool.or_eq_true, beq_iff_eq] at hq
    rcases hq with rfl | rfl
    · decide
    · decide
  rw [List.cons_append] at hs
  unfold readAttributeValue
  simp only [List.cons_append, afterEquals?_value hb, hq, if_true, hs, Option.getD_some]

theorem readAttributeValue_region {region : List Char}
    (ht : Scan.takeBraces? region = some (region, [])) :
    readAttributeValue ('=' :: region ++ after) = (region, .braced, after) := by
  obtain ⟨read, rfl⟩ := Scan.takeBraces?_eq_cons ht
  have hs := Scan.takeBraces?_read_append ht after
  have hb : Text.isBlank '{' = false := by decide
  have hq : Expression.isPlainQuote '{' = false := by decide
  rw [List.cons_append] at hs
  unfold readAttributeValue
  simp [afterEquals?_value hb, hq, hs]

theorem spreadName_render {expression : List Char} (hne : expression ≠ [])
    (ht : Text.trim expression = expression) (hd : expression.head? ≠ some '.') :
    spreadName (AttributeText.spread expression).render = expression := by
  have hw := Text.trim_eq_self_iff.mp ht
  have hi : Expression.inside (AttributeText.spread expression).render =
      ['.', '.', '.'] ++ expression := by
    show (['.', '.', '.'] ++ expression ++ ['}']).dropLast = _
    rw [List.dropLast_concat]
  have hdots : Text.IsTrimmed (['.', '.', '.'] ++ expression) := by
    refine ⟨by simp; decide, ?_⟩
    rw [List.getLast?_append_of_ne_nil _ hne]
    exact hw.2
  have hdrop : (['.', '.', '.'] ++ expression).dropWhile (· == '.') = expression := by
    refine Text.dropWhile_append_of_head (by simp) ?_
    intro c hc
    refine beq_eq_false_iff_ne.mpr ?_
    rintro rfl
    exact hd hc
  rw [spreadName, hi, Text.trim_of_isTrimmed hdots, hdrop, ht]

theorem readAttributes_region {region : List Char}
    (ht : Scan.takeBraces? region = some (region, [])) :
    readAttributes (region ++ after) =
      ⟨"...".toList, spreadName region, .spread⟩ :: readAttributes after := by
  obtain ⟨read, rfl⟩ := Scan.takeBraces?_eq_cons ht
  have hs := Scan.takeBraces?_read_append ht after
  have hb : ¬(Text.isBlank '{' || '{' == '/') = true := by decide
  rw [List.cons_append] at hs ⊢
  rw [readAttributes.eq_def]
  simp only [if_neg hb, beq_self_eq_true, if_true]
  split
  next hn => rw [hs] at hn; simp at hn
  next region rest hl =>
    rw [hs] at hl
    cases hl
    rfl

/-- An attribute is read from its own text, if what follows does not belong to its name. -/
theorem readAttributes_render_append {item : AttributeText} (hw : item.WellFormed)
    (ha : EndsName after) :
    readAttributes (item.render ++ after) = item.value :: readAttributes after := by
  have he : ∀ value : List Char, ∀ c ∈ ('=' :: value).head?, continuesAttribute c = false := by
    intro value c hc
    cases hc
    decide
  cases item with
  | bare name => exact readAttributes_named hw ha.1 (readAttributeValue_bare ha)
  | quoted name token =>
    have hv : readAttributeValue ('=' :: token ++ after) = (token, .quoted, after) :=
      readAttributeValue_string hw.2.1 hw.2.2
    simpa [AttributeText.render, AttributeText.value] using
      readAttributes_named hw.1 (he (token ++ after)) hv
  | braced name region =>
    have hv : readAttributeValue ('=' :: region ++ after) = (region, .braced, after) :=
      readAttributeValue_region hw.2
    simpa [AttributeText.render, AttributeText.value] using
      readAttributes_named hw.1 (he (region ++ after)) hv
  | spread expression =>
    obtain ⟨hne, ht, hd, hr⟩ := hw
    rw [readAttributes_region hr, spreadName_render hne ht hd]
    rfl

end Attributes

/-- The attributes with a space before each. -/
def spaced (items : List AttributeText) : List Char := items.flatMap fun item => ' ' :: item.render

theorem intercalate_eq_flatMap (text : List Char) (texts : List (List Char)) :
    ' ' :: [' '].intercalate (text :: texts) = (text :: texts).flatMap (' ' :: ·) := by
  induction texts generalizing text with
  | nil => simp
  | cons next texts ih =>
    rw [List.intercalate_cons_cons, List.flatMap_cons, ← ih next]
    simp

theorem intercalate_eq_spaced (item : AttributeText) (items : List AttributeText) :
    ' ' :: [' '].intercalate ((item :: items).map (·.render)) = spaced (item :: items) := by
  rw [List.map_cons, intercalate_eq_flatMap, ← List.map_cons, List.flatMap_map, spaced]

/-- A tag's text is its attributes, each after a space, and then only spaces and slashes. -/
theorem tagText_eq_spaced (items : List AttributeText) (selfClosing : Bool) :
    ∃ closing, tagText items selfClosing = spaced items ++ closing ∧
      ∀ c ∈ closing, c = ' ' ∨ c = '/' := by
  have hc : ∀ c ∈ (if selfClosing then [' ', '/'] else [] : List Char), c = ' ' ∨ c = '/' := by
    cases selfClosing <;> simp
  cases items with
  | nil =>
    refine ⟨' ' :: if selfClosing then [' ', '/'] else [], rfl, ?_⟩
    intro c hm
    rcases List.mem_cons.mp hm with rfl | hm
    · exact Or.inl rfl
    · exact hc c hm
  | cons item items => exact ⟨_, by rw [tagText, intercalate_eq_spaced], hc⟩

theorem render_eq_cons {item : AttributeText} (hw : item.WellFormed) :
    ∃ c tail, item.render = c :: tail ∧ Text.isBlank c = false ∧ c ≠ '=' := by
  have named : ∀ {name : List Char} (_ : isAttributeName name = true) (follow : List Char),
      ∃ c tail, name ++ follow = c :: tail ∧ Text.isBlank c = false ∧ c ≠ '=' := by
    intro name hn follow
    cases name with
    | nil => simp [isAttributeName] at hn
    | cons c cs =>
      have hc := isAttributeName_all hn c List.mem_cons_self
      simp only [isAttributeName, Bool.and_eq_true] at hn
      refine ⟨c, cs ++ follow, rfl, Expression.isBlank_of_startsName hn.1, ?_⟩
      rintro rfl
      exact absurd hc (by decide)
  cases item with
  | bare name => simpa [AttributeText.render] using named hw []
  | quoted name token => exact named hw.1 ('=' :: token)
  | braced name region => exact named hw.1 ('=' :: region)
  | spread expression => exact ⟨'{', _, rfl, by decide, by decide⟩

theorem endsName_closing {closing : List Char} (hc : ∀ c ∈ closing, c = ' ' ∨ c = '/') :
    EndsName closing := by
  induction closing with
  | nil => exact ⟨by simp, rfl⟩
  | cons c closing ih =>
    rcases hc c List.mem_cons_self with rfl | rfl
    · have hn := ih fun d hd => hc d (List.mem_cons_of_mem _ hd)
      exact ⟨by simp; decide, (afterEquals?_blank (by decide) closing).trans hn.2⟩
    · exact ⟨by simp; decide, afterEquals?_of_ne (by decide) (by decide) closing⟩

theorem endsName_spaced {items : List AttributeText} (hw : ∀ item ∈ items, item.WellFormed)
    {after : List Char} (ha : EndsName after) : EndsName (spaced items ++ after) := by
  cases items with
  | nil => exact ha
  | cons item items =>
    obtain ⟨c, tail, he, hb, hn⟩ := render_eq_cons (hw item List.mem_cons_self)
    refine ⟨by simp [spaced]; decide, ?_⟩
    simp only [spaced, List.flatMap_cons, List.cons_append, he]
    rw [afterEquals?_blank (by decide), afterEquals?_of_ne hb hn]

theorem takeTag?_spaced_append {items : List AttributeText} (hw : ∀ item ∈ items, item.WellFormed)
    {after body rest : List Char} (h : takeTag? after = some (body, rest)) :
    takeTag? (spaced items ++ after) = some (spaced items ++ body, rest) := by
  induction items with
  | nil => exact h
  | cons item items ih =>
    have hi := ih fun next hn => hw next (List.mem_cons_of_mem item hn)
    have hr := takeTag?_render_append (hw item List.mem_cons_self) hi
    have hspace : ∀ c ∈ [' '], isTagChar c = true := List.all_eq_true.mp (by decide)
    simpa [spaced] using takeTag?_plain_append hspace hr

theorem readAttributes_spaced_append {items : List AttributeText}
    (hw : ∀ item ∈ items, item.WellFormed) {after : List Char} (ha : EndsName after) :
    readAttributes (spaced items ++ after) = items.map (·.value) ++ readAttributes after := by
  induction items with
  | nil => rfl
  | cons item items ih =>
    have hrest : ∀ next ∈ items, next.WellFormed := fun next hn =>
      hw next (List.mem_cons_of_mem item hn)
    have hr := readAttributes_render_append (hw item List.mem_cons_self)
      (endsName_spaced hrest ha)
    have hs : spaced (item :: items) ++ after =
        ' ' :: (item.render ++ (spaced items ++ after)) := by
      simp [spaced]
    rw [hs, readAttributes_gap (by decide), hr, ih hrest]
    rfl

/-- Both scanners of a tag agree with its printer: the first finds the bracket that closes the tag,
and the second the attributes before it. -/
theorem tag_reads_back (before tag suffix : List Char) (items : List AttributeText)
    (selfClosing : Bool) (hw : ∀ item ∈ items, item.WellFormed) :
    takeTag? ((before ++ '<' :: tag ++ tagText items selfClosing ++ '>' :: suffix).drop
        (before.length + 1 + tag.length)) = some (tagText items selfClosing, suffix) ∧
      readAttributes (tagText items selfClosing) = items.map (·.value) := by
  obtain ⟨closing, he, hc⟩ := tagText_eq_spaced items selfClosing
  have hplain : ∀ c ∈ closing, isTagChar c = true := by
    intro c hm
    rcases hc c hm with rfl | rfl <;> decide
  have hgap : ∀ c ∈ closing, (Text.isBlank c || c == '/') = true := by
    intro c hm
    rcases hc c hm with rfl | rfl <;> decide
  have hend : takeTag? ('>' :: suffix) = some ([], suffix) := by
    rw [takeTag?]
    simp [show Expression.isPlainQuote '>' = false by decide]
  constructor
  · have hd : (before ++ '<' :: tag).length = before.length + 1 + tag.length := by
      simp only [List.length_append, List.length_cons]
      omega
    rw [List.append_assoc, ← hd, List.drop_left, he, List.append_assoc]
    simpa using takeTag?_spaced_append hw (takeTag?_plain_append hplain hend)
  · rw [he, readAttributes_spaced_append hw (endsName_closing hc)]
    have hnil : readAttributes closing = [] := by
      have hg := readAttributes_gaps hgap []
      rw [List.append_nil] at hg
      rw [hg, readAttributes.eq_def]
    rw [hnil, List.append_nil]

/-- Brackets in a string and in a region, and a spread between two names. -/
def mixedItems : List AttributeText := [
  .quoted "label".toList "'a > b </c \x7b'".toList,
  .braced "onPress".toList "\x7b() => go(\"\x7d\", x > y)\x7d".toList,
  .bare "disabled".toList,
  .spread "rest".toList,
  .quoted "aria-label".toList "\"it\\\"s\"".toList]

theorem mixedItems_read_back :
    (∀ item ∈ mixedItems, item.WellFormed) ∧
      takeTag? ("a <Box".toList ++ tagText mixedItems true ++ "><b>".toList |>.drop 6) =
        some (tagText mixedItems true, "<b>".toList) ∧
      readAttributes (tagText mixedItems true) = mixedItems.map (·.value) := by
  have hw : ∀ item ∈ mixedItems, item.WellFormed := by
    intro item hm
    simp only [mixedItems, List.mem_cons, List.not_mem_nil, or_false] at hm
    rcases hm with rfl | rfl | rfl | rfl | rfl
    · exact ⟨by decide, ⟨'\x27', rfl, by decide⟩, by decide⟩
    · exact ⟨by decide, by decide⟩
    · show isAttributeName _ = true
      decide
    · exact ⟨by decide, by decide, by decide, by decide⟩
    · exact ⟨by decide, ⟨'\x22', rfl, by decide⟩, by decide⟩
  exact ⟨hw, tag_reads_back "a ".toList "Box".toList "<b>".toList mixedItems true hw⟩

end Restyle.InlinePattern
