import Restyle.Proofs.Conversion.Account
import Restyle.Proofs.Scan.Keeps
import Restyle.Proofs.SelfContained

namespace Restyle.InlinePattern

open Scan (FitsBraces inBraces)

namespace Attribute

/-- The text of an attribute. -/
def render (a : Attribute) : List Char :=
  match a.kind with
  | .bare => if a.raw.isEmpty then a.name ++ ['='] else a.name
  | .quoted => a.name ++ '=' :: a.raw
  | .braced => a.name ++ '=' :: a.raw
  | .spread => inBraces ('.' :: '.' :: '.' :: a.raw)

/-- That the string or the region of an attribute ends. -/
def Ends (a : Attribute) : Prop :=
  match a.kind with
  | .bare => True
  | .quoted => Scan.takeString? a.raw = some (a.raw, [])
  | .braced => Scan.takeBraces? a.raw = some (a.raw, [])
  | .spread => FitsBraces a.raw

instance : (a : Attribute) → Decidable a.Ends
  | ⟨_, _, .bare⟩ => inferInstanceAs (Decidable True)
  | ⟨_, _, .quoted⟩ => inferInstanceAs (Decidable (_ = _))
  | ⟨_, _, .braced⟩ => inferInstanceAs (Decidable (_ = _))
  | ⟨_, raw, .spread⟩ => inferInstanceAs (Decidable (FitsBraces raw))

/-- The attributes that can be read from a tag and that end. -/
inductive IsSound : Attribute → Prop
  | bare {name : List Char} (h : isAttributeName name = true) : IsSound ⟨name, "true".toList, .bare⟩
  | unset {name : List Char} (h : isAttributeName name = true) : IsSound ⟨name, [], .bare⟩
  | quoted {name token : List Char} (h : (AttributeText.quoted name token).WellFormed) :
      IsSound ⟨name, token, .quoted⟩
  | braced {name region : List Char} (h : (AttributeText.braced name region).WellFormed) :
      IsSound ⟨name, region, .braced⟩
  | spread {raw : List Char} (ht : Text.trim raw = raw) (h : FitsBraces raw) :
      IsSound ⟨"...".toList, raw, .spread⟩

/-- That an attribute is written in full: an equals sign has a value, and a spread does not start with
a dot. -/
def IsFull (a : Attribute) : Prop :=
  (a.kind = .bare → a.raw ≠ []) ∧ (a.kind = .spread → a.raw.head? ≠ some '.')

end Attribute

section

variable {a : Attribute}

theorem isMild_of_continuesAttribute {c : Char} (h : continuesAttribute c = true) :
    Scan.isMild c = true := by
  have hn : ∀ d : Char, continuesAttribute d = false → c ≠ d := by
    rintro d hd rfl
    rw [hd] at h
    cases h
  simp [Scan.isMild, Scan.isQuote, hn '\x27' (by decide), hn '\x22' (by decide),
    hn '\x60' (by decide), hn '{' (by decide), hn '}' (by decide)]

theorem keeps_name {name : List Char} (h : isAttributeName name = true) : Scan.Keeps name :=
  Scan.keeps_of_isMild fun c hc => isMild_of_continuesAttribute (isAttributeName_all h c hc)

/-- A value is read as a string or a region from its first character on, or it is one of two texts. -/
theorem readAttributeValue_cases (cs : List Char) :
    ((readAttributeValue cs).2.1 = .bare ∧
      ((readAttributeValue cs).1 = "true".toList ∨ (readAttributeValue cs).1 = [])) ∨
    ((readAttributeValue cs).2.1 = .quoted ∧
      ∃ c ∈ (readAttributeValue cs).1.head?, Expression.isPlainQuote c = true) ∨
    (readAttributeValue cs).2.1 = .braced := by
  unfold readAttributeValue
  split
  next => exact .inl ⟨rfl, .inl rfl⟩
  next rest he =>
    split
    next => exact .inl ⟨rfl, .inr rfl⟩
    next c tail =>
      split
      next hq =>
        refine .inr (.inl ⟨rfl, c, ?_, hq⟩)
        cases hs : Scan.takeString? (c :: tail) with
        | none => rfl
        | some found =>
          obtain ⟨literal, after⟩ := found
          obtain ⟨read, rfl⟩ := Scan.takeString?_eq_cons hs
          rfl
      next =>
        split
        next => exact .inr (.inr rfl)
        next => exact .inl ⟨rfl, .inr rfl⟩

theorem isSound_of_mem_readAttributes {cs : List Char} (hm : a ∈ readAttributes cs) (h : a.Ends) :
    a.IsSound := by
  have htrim : ∀ region, Text.trim (spreadName region) = spreadName region := fun region =>
    Text.trim_of_isTrimmed (Text.isTrimmed_trim _)
  fun_induction readAttributes cs with
  | case1 => cases hm
  | case2 c tail hc ih => exact ih hm
  | case3 c tail hc hb ht =>
    rw [List.mem_singleton.mp hm] at h ⊢
    exact .spread (htrim _) h
  | case4 c tail hc hb region rest ht hl ih =>
    rcases List.mem_cons.mp hm with rfl | hm
    · exact .spread (htrim _) h
    · exact ih hm
  | case5 c tail hc hb hs hl ih =>
    rcases List.mem_cons.mp hm with rfl | hm
    · have hname : isAttributeName (c :: tail.takeWhile continuesAttribute) = true := by
        simp [isAttributeName, hs]
      rcases readAttributeValue_cases (tail.dropWhile continuesAttribute) with
        ⟨hk, hraw | hraw⟩ | ⟨hk, hq⟩ | hk
      · rw [hk, hraw]
        exact .bare hname
      · rw [hk, hraw]
        exact .unset hname
      · rw [hk] at h ⊢
        exact .quoted ⟨hname, hq, h⟩
      · rw [hk] at h ⊢
        exact .braced ⟨hname, h⟩
    · exact ih hm
  | case6 c tail hc hb hs ih => exact ih hm

theorem fitsBraces_spread {raw : List Char} (h : FitsBraces raw) :
    FitsBraces ('.' :: '.' :: '.' :: raw) := by
  have hdots : Scan.Keeps ['.', '.', '.'] := Scan.keeps_of_isMild (by decide)
  exact (hdots.append h.keeps).fitsBraces

theorem exists_eq_quoted {token : List Char}
    (hq : ∃ c ∈ token.head?, Expression.isPlainQuote c = true)
    (ht : Scan.takeString? token = some (token, [])) :
    ∃ quote inner, token = quote :: (inner ++ [quote]) ∧ Expression.isPlainQuote quote = true := by
  obtain ⟨quote, hc, hq⟩ := hq
  obtain ⟨tail, rfl⟩ := List.head?_eq_some_iff.mp hc
  obtain ⟨inner, he⟩ := Scan.takeString?_eq_concat ht
  exact ⟨quote, inner, he, hq⟩

theorem spreadName_dots {raw : List Char} (ht : Text.trim raw = raw) (hd : raw.head? ≠ some '.') :
    spreadName (inBraces ('.' :: '.' :: '.' :: raw)) = raw := by
  cases raw with
  | nil => rfl
  | cons c raw =>
    have hrender := spreadName_render (List.cons_ne_nil c raw) ht hd
    simpa [AttributeText.render, inBraces] using hrender

/-- An attribute that is no spread starts with its name. -/
theorem exists_render_eq_cons (h : a.IsSound) (hk : a.kind ≠ .spread) :
    ∃ c tail, a.render = c :: tail ∧ Expression.startsName c = true := by
  have named : ∀ {name : List Char} (_ : isAttributeName name = true) (follow : List Char),
      ∃ c tail, name ++ follow = c :: tail ∧ Expression.startsName c = true := by
    intro name hn follow
    cases name with
    | nil => cases hn
    | cons c cs =>
      simp only [isAttributeName, Bool.and_eq_true] at hn
      exact ⟨c, cs ++ follow, rfl, hn.1⟩
  cases h with
  | bare hn => simpa [Attribute.render] using named hn []
  | unset hn => exact named hn ['=']
  | quoted hw => exact named hw.1 _
  | braced hw => exact named hw.1 _
  | spread _ _ => exact absurd rfl hk

theorem render_ne_nil (h : a.IsSound) : a.render ≠ [] := by
  by_cases hk : a.kind = .spread
  · rw [Attribute.render, hk]
    exact List.cons_ne_nil _ _
  · obtain ⟨c, tail, he, -⟩ := exists_render_eq_cons h hk
    rw [he]
    exact List.cons_ne_nil _ _

/-- What starts an attribute does not start a value, and is no gap. -/
theorem not_value_of_startsName {c : Char} (h : Expression.startsName c = true) :
    Text.isBlank c = false ∧ c ≠ '=' ∧ Expression.isPlainQuote c = false ∧ c ≠ '{' := by
  have hn : ∀ d : Char, Expression.startsName d = false → c ≠ d := by
    rintro d hd rfl
    rw [hd] at h
    cases h
  refine ⟨Expression.isBlank_of_startsName h, hn '=' (by decide), ?_, hn '{' (by decide)⟩
  simp [Expression.isPlainQuote, hn '\x27' (by decide), hn '\x22' (by decide)]

/-- An attribute does not hide or make an end of its tag. -/
theorem takeTag?_attribute_append (h : a.IsSound) {after body rest : List Char}
    (ht : takeTag? after = some (body, rest)) :
    takeTag? (a.render ++ after) = some (a.render ++ body, rest) := by
  cases h with
  | bare hn =>
    exact takeTag?_plain_append
      (fun c hc => isTagChar_of_continuesAttribute (isAttributeName_all hn c hc)) ht
  | unset hn =>
    refine takeTag?_plain_append (fun c hc => ?_) ht
    rcases List.mem_append.mp hc with hm | hm
    · exact isTagChar_of_continuesAttribute (isAttributeName_all hn c hm)
    · rw [List.mem_singleton.mp hm]
      decide
  | quoted hw => exact takeTag?_render_append hw ht
  | braced hw => exact takeTag?_render_append hw ht
  | spread _ hb => exact takeTag?_region_append (fitsBraces_spread hb) ht

end

/-- The attributes with a space before each. -/
def written (attributes : List Attribute) : List Char := attributes.flatMap fun a => ' ' :: a.render

theorem intercalate_eq_written (a : Attribute) (attributes : List Attribute) :
    ' ' :: [' '].intercalate ((a :: attributes).map (·.render)) = written (a :: attributes) := by
  rw [List.map_cons, intercalate_eq_flatMap, ← List.map_cons, List.flatMap_map, written]

/-- What is read from attributes that are written one after the other. -/
def joined : List Attribute → List Attribute
  | ⟨name, [], .bare⟩ :: ⟨_, raw, .spread⟩ :: rest =>
    ⟨name, inBraces ('.' :: '.' :: '.' :: raw), .braced⟩ :: joined rest
  | ⟨_, raw, .spread⟩ :: rest =>
    ⟨"...".toList, spreadName (inBraces ('.' :: '.' :: '.' :: raw)), .spread⟩ :: joined rest
  | a :: rest => a :: joined rest
  | [] => []

theorem takeTag?_written_append {attributes : List Attribute} (hs : ∀ a ∈ attributes, a.IsSound)
    {after body rest : List Char} (h : takeTag? after = some (body, rest)) :
    takeTag? (written attributes ++ after) = some (written attributes ++ body, rest) := by
  induction attributes with
  | nil => exact h
  | cons a attributes ih =>
    obtain ⟨ha, hrest⟩ := List.forall_mem_cons.mp hs
    have hspace : ∀ c ∈ [' '], isTagChar c = true := List.all_eq_true.mp (by decide)
    simpa [written] using takeTag?_plain_append hspace (takeTag?_attribute_append ha (ih hrest))

theorem endsName_written {attributes : List Attribute} (hs : ∀ a ∈ attributes, a.IsSound) :
    EndsName (written attributes) := by
  cases attributes with
  | nil => exact endsName_closing fun _ hc => nomatch hc
  | cons a attributes =>
    have hcons : ∃ c tail, a.render = c :: tail ∧ Text.isBlank c = false ∧ c ≠ '=' := by
      by_cases hk : a.kind = .spread
      · exact ⟨'{', _, by rw [Attribute.render, hk]; rfl, by decide, by decide⟩
      · obtain ⟨c, tail, he, hc⟩ := exists_render_eq_cons (hs a List.mem_cons_self) hk
        obtain ⟨hb, hn, -⟩ := not_value_of_startsName hc
        exact ⟨c, tail, he, hb, hn⟩
    obtain ⟨c, tail, he, hb, hn⟩ := hcons
    refine ⟨by simp [written]; decide, ?_⟩
    simp only [written, List.flatMap_cons, List.cons_append, he]
    rw [afterEquals?_blank (by decide), afterEquals?_of_ne hb hn]

theorem afterEquals?_equals (rest : List Char) :
    afterEquals? ('=' :: rest) = some (Text.skipBlanks rest) := by
  have he : Text.isBlank '=' = false := by decide
  simp [afterEquals?, Text.skipBlanks, he]

/-- An equals sign has no value before the name of another attribute. -/
theorem readAttributeValue_unset {attributes : List Attribute} (hs : ∀ a ∈ attributes, a.IsSound)
    (hk : ∀ a ∈ attributes.head?, a.kind ≠ .spread) :
    ∃ after, readAttributeValue ('=' :: written attributes) = ([], .bare, after) ∧
      readAttributes after = readAttributes (written attributes) := by
  cases attributes with
  | nil => exact ⟨[], rfl, rfl⟩
  | cons a attributes =>
    obtain ⟨c, tail, he, hc⟩ := exists_render_eq_cons (hs a List.mem_cons_self) (hk a rfl)
    obtain ⟨hb, -, hq, hbrace⟩ := not_value_of_startsName hc
    have hwritten : written (a :: attributes) = ' ' :: c :: (tail ++ written attributes) := by
      simp [written, he]
    have hblank : Text.isBlank ' ' = true := by decide
    have hskip : Text.skipBlanks (written (a :: attributes)) = c :: (tail ++ written attributes) := by
      rw [hwritten]
      simp [Text.skipBlanks, hblank, hb]
    refine ⟨c :: (tail ++ written attributes), ?_, ?_⟩
    · unfold readAttributeValue
      simp [afterEquals?_equals, hskip, hq, hbrace]
    · have hgap : (Text.isBlank ' ' || ' ' == '/') = true := by decide
      rw [hwritten, readAttributes_gap hgap]

/-- An equals sign takes a region that follows for its value. -/
theorem readAttributeValue_blank_region {region : List Char}
    (h : Scan.takeBraces? region = some (region, [])) (after : List Char) :
    readAttributeValue ('=' :: ' ' :: (region ++ after)) = (region, .braced, after) := by
  have hspace : Text.isBlank ' ' = true := by decide
  have hskip : Text.skipBlanks (' ' :: (region ++ after)) = Text.skipBlanks (region ++ after) := by
    simp [Text.skipBlanks, hspace]
  have hsame : readAttributeValue ('=' :: ' ' :: (region ++ after)) =
      readAttributeValue ('=' :: region ++ after) := by
    unfold readAttributeValue
    rw [List.cons_append, afterEquals?_equals, afterEquals?_equals, hskip]
  rw [hsame]
  exact readAttributeValue_region h

theorem readAttributes_written {attributes : List Attribute} (hs : ∀ a ∈ attributes, a.IsSound) :
    readAttributes (written attributes) = joined attributes := by
  have hgap : (Text.isBlank ' ' || ' ' == '/') = true := by decide
  have hequals : ∀ value : List Char, ∀ c ∈ ('=' :: value).head?, continuesAttribute c = false := by
    intro value c hc
    cases hc
    decide
  have hcons : ∀ a rest, written (a :: rest) = ' ' :: (a.render ++ written rest) := by
    intro a rest
    simp [written]
  fun_induction joined attributes with
  | case1 name _ raw rest ih =>
    obtain ⟨ha, hs⟩ := List.forall_mem_cons.mp hs
    obtain ⟨hb, hrest⟩ := List.forall_mem_cons.mp hs
    cases ha with
    | unset hn =>
      cases hb with
      | spread _ hb =>
        -- the blank before the spread does not part it from the equals sign
        have hvalue := readAttributeValue_blank_region (fitsBraces_spread hb) (written rest)
        rw [hcons, hcons, readAttributes_gap hgap, ← ih hrest]
        simpa [Attribute.render] using readAttributes_named hn (hequals _) hvalue
  | case2 _ raw rest ih =>
    obtain ⟨ha, hrest⟩ := List.forall_mem_cons.mp hs
    cases ha with
    | spread _ hb =>
      rw [hcons, readAttributes_gap hgap, ← ih hrest]
      exact readAttributes_region (fitsBraces_spread hb)
  | case3 a rest hunset hspread ih =>
    obtain ⟨ha, hrest⟩ := List.forall_mem_cons.mp hs
    rw [hcons, readAttributes_gap hgap, ← ih hrest]
    have hends := endsName_written hrest
    cases ha with
    | bare hn => exact readAttributes_named hn hends.1 (readAttributeValue_bare hends)
    | unset hn =>
      -- what follows is a name, so that the equals sign keeps no value
      have hk : ∀ b ∈ rest.head?, b.kind ≠ .spread := by
        rintro ⟨name, raw, kind⟩ hb rfl
        obtain ⟨rest', rfl⟩ := List.head?_eq_some_iff.mp hb
        exact hunset _ _ _ _ rfl rfl
      obtain ⟨after, hvalue, hread⟩ := readAttributeValue_unset hrest hk
      rw [← hread]
      simpa [Attribute.render] using readAttributes_named hn (hequals _) hvalue
    | quoted hw => exact readAttributes_render_append hw hends
    | braced hw => exact readAttributes_render_append hw hends
    | spread _ _ => exact absurd rfl (hspread _ _)
  | case4 => rw [written, List.flatMap_nil, readAttributes.eq_def]

/-- Nothing gets a new name. -/
theorem names_joined_sublist {attributes : List Attribute} (hs : ∀ a ∈ attributes, a.IsSound) :
    List.Sublist ((joined attributes).map (·.name)) (attributes.map (·.name)) := by
  fun_induction joined attributes with
  | case1 name _ raw rest ih =>
    have hrest := ih fun a ha => hs a (List.mem_cons_of_mem _ (List.mem_cons_of_mem _ ha))
    exact (hrest.cons _).cons_cons _
  | case2 name raw rest ih =>
    obtain ⟨ha, hrest⟩ := List.forall_mem_cons.mp hs
    cases ha with
    | spread _ _ => exact (ih hrest).cons_cons _
  | case3 a rest _ _ ih => exact (ih fun b hb => hs b (List.mem_cons_of_mem _ hb)).cons_cons _
  | case4 => exact .slnil

/-- Attributes that are written in full are read as they are. -/
theorem joined_eq_self {attributes : List Attribute} (hs : ∀ a ∈ attributes, a.IsSound)
    (hf : ∀ a ∈ attributes, a.IsFull) : joined attributes = attributes := by
  fun_induction joined attributes with
  | case1 name _ raw rest ih => exact absurd rfl ((hf _ List.mem_cons_self).1 rfl)
  | case2 name raw rest ih =>
    obtain ⟨ha, hrest⟩ := List.forall_mem_cons.mp hs
    obtain ⟨hfull, hfrest⟩ := List.forall_mem_cons.mp hf
    cases ha with
    | spread ht _ =>
      rw [ih hrest hfrest, spreadName_dots ht (hfull.2 rfl)]
  | case3 a rest _ _ ih =>
    rw [ih (fun b hb => hs b (List.mem_cons_of_mem _ hb)) fun b hb => hf b (List.mem_cons_of_mem _ hb)]
  | case4 => rfl

section

variable {a : Attribute}

theorem getLast?_attribute (h : a.IsSound) : a.render.getLast? ≠ some '/' := by
  cases h with
  | @bare name hn =>
    intro hl
    have hrender : (⟨name, "true".toList, .bare⟩ : Attribute).render = name := rfl
    rw [hrender] at hl
    have hc := isAttributeName_all hn _ (List.mem_of_getLast? hl)
    cases hc
  | @unset name hn =>
    have hrender : (⟨name, [], .bare⟩ : Attribute).render = name ++ ['='] := rfl
    rw [hrender, List.getLast?_concat]
    decide
  | @quoted name token hw =>
    obtain ⟨quote, inner, rfl, hq⟩ := exists_eq_quoted hw.2.1 hw.2.2
    have hrender : (⟨name, quote :: (inner ++ [quote]), .quoted⟩ : Attribute).render =
        name ++ '=' :: quote :: inner ++ [quote] := by
      simp [Attribute.render]
    rw [hrender, List.getLast?_concat]
    rintro ⟨⟩
    cases hq
  | @braced name region hw =>
    obtain ⟨inner, rfl⟩ := Scan.takeBraces?_eq_concat hw.2
    have hrender : (⟨name, '{' :: inner ++ ['}'], .braced⟩ : Attribute).render =
        name ++ '=' :: '{' :: inner ++ ['}'] := by
      simp [Attribute.render]
    rw [hrender, List.getLast?_concat]
    decide
  | @spread raw _ _ =>
    have hrender : (⟨"...".toList, raw, .spread⟩ : Attribute).render =
        '{' :: '.' :: '.' :: '.' :: raw ++ ['}'] := rfl
    rw [hrender, List.getLast?_concat]
    decide

/-- The value of a style is a text or a number, and the expression between the braces if it is known
at run time only. -/
structure Attribute.Gives (a : Attribute) (q : StyleProperty) : Prop where
  name : q.name.toList = a.name
  value : (∃ text, q.value = .text text) ∨ ∃ number : Number, q.value = number.toJson
  dynamic : q.isStatic = false → (a.kind = .braced ∨ a.kind = .spread) ∧
    q.value = .text (String.ofList (Text.trim (Expression.inside a.raw)))

theorem gives_of_bracedProperty {expression : List Char} {q : StyleProperty}
    (h : bracedProperty (String.ofList a.name) expression = .ok q) :
    q.name.toList = a.name ∧
      ((∃ text, q.value = .text text) ∨ ∃ number : Number, q.value = number.toJson) ∧
      (q.isStatic = false → q.value = .text (String.ofList expression)) := by
  have hname : (String.ofList a.name).toList = a.name := String.toList_ofList
  unfold bracedProperty at h
  split at h
  next =>
    obtain ⟨number, -, rfl⟩ := map_eq_ok h
    exact ⟨hname, .inr ⟨number, rfl⟩, fun hs => nomatch hs⟩
  next =>
    split at h
    next =>
      cases h
      exact ⟨hname, .inl ⟨_, rfl⟩, fun hs => nomatch hs⟩
    next =>
      cases h
      split
      next => exact ⟨hname, .inl ⟨_, rfl⟩, fun hs => nomatch hs⟩
      next => exact ⟨hname, .inl ⟨_, rfl⟩, fun _ => rfl⟩

theorem gives_of_toProperty {q : StyleProperty} (h : a.toProperty = .ok q) : a.Gives q := by
  have hname : (String.ofList a.name).toList = a.name := String.toList_ofList
  unfold Attribute.toProperty at h
  dsimp only at h
  split at h
  next =>
    cases h
    exact ⟨hname, .inl ⟨_, rfl⟩, fun hs => nomatch hs⟩
  next =>
    cases h
    exact ⟨hname, .inl ⟨_, rfl⟩, fun hs => nomatch hs⟩
  next hquoted hbare =>
    obtain ⟨hn, hv, hd⟩ := gives_of_bracedProperty h
    refine ⟨hn, hv, fun hs => ⟨?_, hd hs⟩⟩
    cases hk : a.kind with
    | quoted => exact absurd hk hquoted
    | bare => exact absurd hk hbare
    | braced => exact .inl rfl
    | spread => exact .inr rfl

/-- An attribute that is not passed through has a name. -/
theorem Attribute.IsSound.named (h : a.IsSound) (hp : a.isPassthrough = false) :
    isAttributeName a.name = true := by
  cases h with
  | bare hn => exact hn
  | unset hn => exact hn
  | quoted hw => exact hw.1
  | braced hw => exact hw.1
  | spread _ _ => cases hp

/-- The text of a style that is known at run time only can stand in a region. -/
theorem Attribute.IsSound.keeps_display (h : a.IsSound) (hp : a.isPassthrough = false)
    {q : StyleProperty} (hg : a.Gives q) (hs : q.isStatic = false) :
    Scan.Keeps q.value.display.toList := by
  obtain ⟨hkind, hvalue⟩ := hg.dynamic hs
  cases h with
  | bare _ => rcases hkind with hk | hk <;> cases hk
  | unset _ => rcases hkind with hk | hk <;> cases hk
  | quoted _ => rcases hkind with hk | hk <;> cases hk
  | @braced name region hw =>
    rw [hvalue]
    show Scan.Keeps (String.ofList (Text.trim (Expression.inside region))).toList
    rw [String.toList_ofList]
    exact Scan.keeps_trim (Scan.keeps_inside hw.2)
  | spread _ _ => cases hp

end

/-- The text of a tag between its name and its bracket. -/
def body (p : InlinePattern) : List Char :=
  (p.source.toList.drop (p.tag.toList.length + 1)).dropLast

/-- The attributes of a tag. -/
def attributes (p : InlinePattern) : List Attribute := readAttributes p.body

/-- That the styles of a tag and what is passed through are read from its own text. -/
structure IsRead (p : InlinePattern) : Prop where
  styles : stylesOf p.body = .ok p.styles
  passthrough : p.passthrough = (p.attributes.filter (·.isPassthrough)).map fun a =>
    ⟨String.ofList a.name, String.ofList a.raw⟩

theorem isRead_of_parse {names : List String} {source : List Char} {patterns : List InlinePattern}
    (h : parse names source = .ok patterns) {p : InlinePattern} (hp : p ∈ patterns)
    (hf : p.failed = false) : p.IsRead := by
  obtain ⟨hit, hhit, hp⟩ := exists_of_mem_mapM h hp
  obtain ⟨-, -, -, -, hfound⟩ := Scan.of_mem_findFrom (Header.consumes_tag names) hhit
  obtain ⟨body, rest, styles, -, hstyles, rfl⟩ := ofHit_eq_ok hp hf
  have htext : hit.text = '<' :: hit.value.toList :=
    List.append_cancel_right (Header.tag?_eq_some hfound).1
  have hbody : (ofBody source hit body styles).body = body := by
    simp [InlinePattern.body, ofBody, htext]
  constructor
  · rw [hbody]
    exact hstyles
  · rw [attributes, hbody]
    rfl

/-- Each style of a tag comes from an attribute that is not passed through. -/
theorem IsRead.exists_gives {p : InlinePattern} (h : p.IsRead) {q : StyleProperty}
    (hq : q ∈ p.styles) : ∃ a ∈ p.attributes, a.isPassthrough = false ∧ a.Gives q := by
  obtain ⟨a, hm, ha⟩ := exists_of_mem_mapM h.styles hq
  obtain ⟨hm, hp⟩ := List.mem_filter.mp hm
  exact ⟨a, hm, by simpa using hp, gives_of_toProperty ha⟩

theorem IsRead.names_styles {p : InlinePattern} (h : p.IsRead) :
    p.styles.map (·.name.toList) = (p.attributes.filter (!·.isPassthrough)).map (·.name) :=
  map_eq_map_of_mapM (fun _ _ ha => (gives_of_toProperty ha).name) h.styles

end Restyle.InlinePattern
