import Restyle.Proofs.Conversion.Tag
import Restyle.Proofs.Text.Search

namespace Restyle

namespace InlinePattern

open Scan (inBraces)

namespace Attribute

/-- That an attribute has an equals sign and no value. -/
def IsUnset (a : Attribute) : Prop := a.kind = .bare ∧ a.raw = []

/-- That an attribute is read as it is after some others: an equals sign without a value would take a
spread for it, and a spread loses the dots at its front. -/
structure Stays (a : Attribute) (others : List Attribute) : Prop where
  spread : a.kind = .spread → a.raw.head? ≠ some '.' ∧ ∀ b ∈ others, ¬ b.IsUnset
  unset : a.IsUnset → ∀ b ∈ others, b.kind ≠ .spread

theorem Stays.mono {a : Attribute} {others others' : List Attribute} (h : a.Stays others)
    (hs : ∀ b ∈ others', b ∈ others ∨ b.kind = .quoted ∨ b.kind = .braced) : a.Stays others' := by
  constructor
  · intro hk
    refine ⟨(h.spread hk).1, fun b hb hu => ?_⟩
    rcases hs b hb with hm | hq | hq
    · exact (h.spread hk).2 b hm hu
    · cases hq.symm.trans hu.1
    · cases hq.symm.trans hu.1
  · intro hu b hb hk
    rcases hs b hb with hm | hq | hq
    · exact h.unset hu b hm hk
    · cases hq.symm.trans hk
    · cases hq.symm.trans hk

theorem stays_of_kind {a : Attribute} (h : a.kind = .quoted ∨ a.kind = .braced)
    (others : List Attribute) : a.Stays others := by
  constructor
  · intro hk
    rcases h with hq | hq <;> cases hq.symm.trans hk
  · intro hu
    rcases h with hq | hq <;> cases hq.symm.trans hu.1

end Attribute

theorem mem_joined {attributes : List Attribute} (hs : ∀ a ∈ attributes, a.IsSound) {a : Attribute}
    (hm : a ∈ attributes) (h : a.Stays attributes) : a ∈ joined attributes := by
  fun_induction joined attributes with
  | case1 name other raw rest ih =>
    -- the two attributes at the front are read as one, and neither of them stays
    rcases List.mem_cons.mp hm with rfl | hm
    · exact absurd rfl (h.unset ⟨rfl, rfl⟩ ⟨other, raw, .spread⟩ (by simp))
    · rcases List.mem_cons.mp hm with rfl | hm
      · exact absurd ⟨rfl, rfl⟩ ((h.spread rfl).2 ⟨name, [], .bare⟩ (by simp))
      · have hstays := h.mono fun b hb => .inl (List.mem_cons_of_mem _ (List.mem_cons_of_mem _ hb))
        exact List.mem_cons_of_mem _ (ih (fun b hb => hs b (by simp [hb])) hm hstays)
  | case2 name raw rest ih =>
    obtain ⟨hspread, hrest⟩ := List.forall_mem_cons.mp hs
    rcases List.mem_cons.mp hm with rfl | hm
    · cases hspread with
      | spread ht _ =>
        rw [spreadName_dots ht (h.spread rfl).1]
        exact List.mem_cons_self
    · have hstays := h.mono fun b hb => .inl (List.mem_cons_of_mem _ hb)
      exact List.mem_cons_of_mem _ (ih hrest hm hstays)
  | case3 b rest _ _ ih =>
    rcases List.mem_cons.mp hm with rfl | hm
    · exact List.mem_cons_self
    · have hstays := h.mono fun b hb => .inl (List.mem_cons_of_mem _ hb)
      exact List.mem_cons_of_mem _ (ih (fun b hb => hs b (List.mem_cons_of_mem _ hb)) hm hstays)
  | case4 => cases hm

/-- What is read from a style attribute without a value that is written with the word for one. -/
def bareStyle : List Attribute :=
  [⟨"style".toList, [], .bare⟩, ⟨"true".toList, "true".toList, .bare⟩]

theorem readAttributes_bareStyle {rest : List Attribute} (hs : ∀ a ∈ rest, a.IsSound) :
    readAttributes (" style=true".toList ++ written rest) = bareStyle ++ joined rest := by
  have hgap : (Text.isBlank ' ' || ' ' == '/') = true := by decide
  have hends := endsName_written hs
  have hskip : Text.skipBlanks ("true".toList ++ written rest) = "true".toList ++ written rest :=
    rfl
  have hvalue : readAttributeValue ("=true".toList ++ written rest) =
      ([], .bare, "true".toList ++ written rest) := by
    have hafter : afterEquals? ("=true".toList ++ written rest) =
        some ("true".toList ++ written rest) :=
      (afterEquals?_equals _).trans (congrArg some hskip)
    rw [readAttributeValue, hafter]
    rfl
  have hequals : ∀ c ∈ ("=true".toList ++ written rest).head?, continuesAttribute c = false := by
    intro c hc
    cases hc
    decide
  have hstyle : readAttributes ("style".toList ++ ("=true".toList ++ written rest)) =
      ⟨"style".toList, [], .bare⟩ :: readAttributes ("true".toList ++ written rest) :=
    readAttributes_named (by decide) hequals hvalue
  have htrue : readAttributes ("true".toList ++ written rest) =
      ⟨"true".toList, "true".toList, .bare⟩ :: readAttributes (written rest) :=
    readAttributes_named (by decide) hends.1 (readAttributeValue_bare hends)
  have hsplit : " style=true".toList ++ written rest =
      ' ' :: ("style".toList ++ ("=true".toList ++ written rest)) := rfl
  rw [hsplit, readAttributes_gap hgap, hstyle, htrue, readAttributes_written hs]
  rfl

/-- What an attribute writes: a text in quotes, or a number or a text without escapes and
interpolations in braces. -/
inductive Attribute.Writes : Attribute → Json → Prop
  | quoted {name inner : List Char} {quote : Char} (hq : Expression.isPlainQuote quote = true) :
      Writes ⟨name, quote :: (inner ++ [quote]), .quoted⟩ (.text (String.ofList inner))
  | number {name raw : List Char} {numeral : Numeral} {x : Number}
      (hn : Numeral.read? (Text.trim (Expression.inside raw)) = some numeral)
      (hv : numeral.value = .ok x) (hf : ∀ negative, x ≠ .double (.infinite negative)) :
      Writes ⟨name, raw, .braced⟩ x.toJson
  | string {name raw inner : List Char} {quote : Char} (hq : Scan.isQuote quote = true)
      (hr : Text.trim (Expression.inside raw) = quote :: inner ++ [quote]) (hi : quote ∉ inner)
      (he : '\\' ∉ inner) (hp : Text.hasPart ['$', '{'] inner = false) :
      Writes ⟨name, raw, .braced⟩ (.text (String.ofList inner))

theorem read?_of_isQuote {quote : Char} (h : Scan.isQuote quote = true) (rest : List Char) :
    Numeral.read? (quote :: rest) = none := by
  have hquote : quote = '\x27' ∨ quote = '\x22' ∨ quote = '\x60' := by
    simpa [Scan.isQuote, or_assoc] using h
  rcases hquote with rfl | rfl | rfl <;> rfl

theorem hasPart_quoted {quote : Char} (h : Scan.isQuote quote = true) {inner : List Char}
    (hp : Text.hasPart ['$', '{'] inner = false) :
    Text.hasPart ['$', '{'] (quote :: inner ++ [quote]) = false := by
  have hne : ∀ d : Char, Scan.isQuote d = false → quote ≠ d := by
    rintro d hd rfl
    cases h.symm.trans hd
  have hlast : Text.hasPart ['$', '{'] [quote] = false :=
    Text.hasPart_pair_of_not_mem (by simpa using (hne '$' (by decide)).symm)
  have hbody : Text.hasPart ['$', '{'] (inner ++ [quote]) = false := by
    rw [Text.hasPart_pair_append (by simpa using hne '{' (by decide)), hp, hlast]
    rfl
  rw [List.cons_append, Text.hasPart_pair_cons, hbody, beq_false_of_ne (hne '$' (by decide)).symm]
  rfl

/-- The style of an attribute has the value that the attribute writes. -/
theorem exists_toProperty_of_writes {a : Attribute} {value : Json} (h : a.Writes value) :
    ∃ q, a.toProperty = .ok q ∧ q.name = String.ofList a.name ∧ q.value = value ∧
      q.isStatic = true ∧ StyleConverter.styleValue q = value := by
  have htext : ∀ (name : String) (inner : List Char),
      StyleConverter.styleValue (textProperty name inner) = .text (String.ofList inner) := by
    intro name inner
    unfold StyleConverter.styleValue textProperty
    dsimp only
    split
    next token ht =>
      split at ht
      next =>
        cases ht
        split <;> rfl
      next => cases ht
    next => rfl
  cases h with
  | @quoted name inner quote hq =>
    have hinside : Expression.inside (quote :: (inner ++ [quote])) = inner := by
      simp [Expression.inside]
    refine ⟨textProperty (String.ofList name) inner, ?_, rfl, rfl, rfl, htext _ _⟩
    simp only [Attribute.toProperty, hinside]
  | @number name raw numeral x hn hv hf =>
    refine ⟨{ name := String.ofList name, value := x.toJson, isStatic := true }, ?_, rfl, rfl, rfl,
      rfl⟩
    simp only [Attribute.toProperty, bracedProperty, hn, hv]
    rfl
  | @string name raw inner quote hq hr hi he hp =>
    refine ⟨textProperty (String.ofList name) inner, ?_, rfl, rfl, rfl, htext _ _⟩
    have hread : Numeral.read? (quote :: inner ++ [quote]) = none := read?_of_isQuote hq _
    simp only [Attribute.toProperty, bracedProperty, hr, hread, Expression.unquote?_quoted hq hi,
      hasPart_quoted hq hp]

end InlinePattern

namespace StyleConverter

open InlinePattern (Attribute joined written)
open Scan (FitsQuotes inBraces inQuotes)

/-- The attribute that writes a value: a text in double quotes, and anything else in braces. -/
def writtenAs (name : List Char) : Json → Attribute
  | .text text => ⟨name, inQuotes text.toList, .quoted⟩
  | value => ⟨name, inBraces value.display.toList, .braced⟩

theorem toAttribute_eq_writtenAs (q : StyleProperty) :
    toAttribute q = writtenAs q.name.toList q.value := by
  unfold toAttribute writtenAs
  cases q.value <;> rfl

theorem kind_writtenAs (name : List Char) (value : Json) :
    (writtenAs name value).kind = .quoted ∨ (writtenAs name value).kind = .braced := by
  cases value <;> simp [writtenAs]

section

variable {c : StyleConverter} {p : InlinePattern} {found : List (StyleProperty × List String)}

/-- The attributes that follow the class and the style in a converted tag. -/
def restAttributes (p : InlinePattern) (found : List (StyleProperty × List String)) :
    List Attribute :=
  (keptStyles found).map toAttribute ++ otherAttributes p

theorem isSound_restAttributes (h : c.HasPlainParts p) (hp : p.IsRead)
    (hc : c.staticClasses p.styles = .ok found) : ∀ a ∈ restAttributes p found, a.IsSound := by
  simp only [restAttributes, List.forall_mem_append, List.forall_mem_map]
  exact ⟨h.isSound_kept hp hc, h.isSound_other⟩

theorem mem_of_mem_restAttributes {b : Attribute} (hb : b ∈ restAttributes p found) :
    b ∈ p.attributes ∨ b.kind = .quoted ∨ b.kind = .braced := by
  rcases List.mem_append.mp hb with hm | hm
  · obtain ⟨q, -, rfl⟩ := List.mem_map.mp hm
    rw [toAttribute_eq_writtenAs]
    exact .inr (kind_writtenAs _ _)
  · exact .inl (List.mem_filter.mp hm).1

theorem mem_of_mem_convertedAttributes {b : Attribute} (hb : b ∈ convertedAttributes p found) :
    b ∈ p.attributes ∨ b.kind = .quoted ∨ b.kind = .braced := by
  rcases List.mem_append.mp hb with hclass | hb
  · unfold classAttributes at hclass
    split at hclass
    next => cases hclass
    next =>
      rw [List.mem_singleton.mp hclass]
      exact .inr (.inl rfl)
  · rcases List.mem_append.mp hb with hstyle | hrest
    · unfold styleAttributes at hstyle
      split at hstyle
      next => cases hstyle
      next a he =>
        rw [List.mem_singleton.mp hstyle]
        exact .inl (List.mem_of_find?_eq_some he)
      next =>
        rw [List.mem_singleton.mp hstyle]
        exact .inr (.inr rfl)
      next =>
        rw [List.mem_singleton.mp hstyle]
        exact .inr (.inr rfl)
    · exact mem_of_mem_restAttributes hrest

/-- A style attribute without a value, as it is written. -/
def shownBareStyle : List Attribute := [⟨"style".toList, "true".toList, .quoted⟩]

theorem isTag_bareStyle {classes : List String} (hq : ∀ name ∈ classes, FitsQuotes name.toList)
    {rest : List Attribute} (hs : ∀ a ∈ rest, a.IsSound) (element : List Char) :
    IsTag ('<' :: (element ++
        (written (classAttributes classes ++ (shownBareStyle ++ rest)) ++ ['>']))) element
      (classAttributes classes ++ (InlinePattern.bareStyle ++ joined rest)) := by
  have hclass := isSound_classAttributes hq
  have hwritten : written (classAttributes classes ++ (shownBareStyle ++ rest)) =
      written (classAttributes classes) ++ (" style=true".toList ++ written rest) := by
    rw [written, List.flatMap_append, List.flatMap_append]
    rfl
  refine ⟨_, rfl, ?_, ?_⟩
  · have hend : InlinePattern.takeTag? ['>'] = some ([], []) := by
      rw [InlinePattern.takeTag?]
      simp [show Expression.isPlainQuote '>' = false by decide]
    have hplain : ∀ c ∈ " style=true".toList, InlinePattern.isTagChar c = true :=
      List.all_eq_true.mp (by decide)
    have htag := InlinePattern.takeTag?_written_append hclass
      (InlinePattern.takeTag?_plain_append hplain (InlinePattern.takeTag?_written_append hs hend))
    rw [hwritten]
    simpa using htag
  · have hbare := InlinePattern.readAttributes_bareStyle hs
    have hends : InlinePattern.EndsName (" style=true".toList ++ written rest) := by
      refine ⟨fun c hc => ?_, rfl⟩
      cases hc
      decide
    rw [hwritten]
    unfold classAttributes at hclass ⊢
    split
    next => exact hbare
    next hne =>
      rw [if_neg hne, List.forall_mem_singleton] at hclass
      cases hclass with
      | quoted hw =>
        have hgap : (Text.isBlank ' ' || ' ' == '/') = true := by decide
        have hread := InlinePattern.readAttributes_render_append hw hends
        rw [hbare] at hread
        have hcons : ∀ a : Attribute, written [a] ++ (" style=true".toList ++ written rest) =
            ' ' :: (a.render ++ (" style=true".toList ++ written rest)) := by
          intro a
          simp [written]
        rw [hcons, InlinePattern.readAttributes_gap hgap]
        exact hread

theorem shows_bareStyle :
    Shows [styleAttribute [] (some ⟨"style", "true"⟩)] shownBareStyle := by
  rw [Shows]
  decide

/-- Whatever the style of a tag is, the attributes after it are found in the converted tag. -/
theorem HasPlainParts.exists_shown (h : c.HasPlainParts p) (hp : p.IsRead)
    (hc : c.staticClasses p.styles = .ok found) :
    ∃ shown attributes, Shows ([classAttribute (found.flatMap (·.2)),
        styleAttribute (p.dynamicStyles.map styleEntry) (p.passthrough.find? (·.name == "style"))] ++
        (found.filter (·.2.isEmpty)).map (fun (property, _) => keptAttribute property) ++
        (p.passthrough.filter (·.name != "style")).map passthroughText) shown ∧
      (∀ a ∈ shown, a.render ≠ []) ∧
      (∀ element, IsTag ('<' :: (element ++ (written shown ++ ['>']))) element attributes) ∧
      ∀ a ∈ restAttributes p found, a.Stays p.attributes → a ∈ attributes := by
  have hrest := isSound_restAttributes h hp hc
  by_cases hbare : p.dynamicStyles = [] ∧
      p.attributes.find? (·.name == "style".toList) = some ⟨"style".toList, "true".toList, .bare⟩
  · -- the word for the value is read as another attribute
    have hstyle : Shows [styleAttribute (p.dynamicStyles.map styleEntry)
        ((p.attributes.find? (·.name == "style".toList)).map fun a =>
          ⟨String.ofList a.name, String.ofList a.raw⟩)] shownBareStyle := by
      rw [hbare.1, hbare.2]
      exact shows_bareStyle
    refine ⟨_, _, h.shows hp hc hstyle, ?_, isTag_bareStyle (h.fitsQuotes hc) hrest, ?_⟩
    · rw [List.forall_mem_append, List.forall_mem_append]
      refine ⟨fun a ha => ?_, by decide, fun a ha => InlinePattern.render_ne_nil (hrest a ha)⟩
      exact InlinePattern.render_ne_nil (isSound_classAttributes (h.fitsQuotes hc) a ha)
    · intro a ha hstays
      have hmem := InlinePattern.mem_joined hrest ha
        (hstays.mono fun b hb => mem_of_mem_restAttributes hb)
      exact List.mem_append_right _ (List.mem_append_right _ hmem)
  · have hs := h.isSound_converted hp hc
    have hstyle := h.fitsStyle hp
    refine ⟨_, _, h.shows hp hc (hstyle.shows fun hnil a ha hvalued => hbare ⟨hnil, ?_⟩),
      fun a ha => InlinePattern.render_ne_nil (hs a ha), isTag_written hs, ?_⟩
    · have ha : p.attributes.find? (·.name == "style".toList) = some a := ha
      have hname := hstyle.named a ha
      rw [ha, ← hname, ← hvalued.1, ← hvalued.2]
    · intro a ha hstays
      refine InlinePattern.mem_joined hs ?_
        (hstays.mono fun b hb => mem_of_mem_convertedAttributes hb)
      exact List.mem_append_right _ (List.mem_append_right _ ha)

end

/-- That the replacement of a tag is one tag, with the attributes that were passed through as they
were, and with the values of the styles that have no class. -/
def KeepsValues (c : StyleConverter) (p : InlinePattern) (output : ConversionOutput) : Prop :=
  ∃ record attributes, output = { conversions := [record] } ∧
    IsTag record.converted.toList (elementFor p.tag).toList attributes ∧
    (∀ a ∈ p.attributes, a.isPassthrough = true → a.name ≠ "style".toList →
      a.Stays p.attributes → a ∈ attributes) ∧
    ∀ a ∈ p.attributes, a.isPassthrough = false → ∀ value, a.Writes value →
      c.classesFor (String.ofList a.name) value = .ok [] → writtenAs a.name value ∈ attributes

theorem mem_restAttributes_of_writes {c : StyleConverter} {p : InlinePattern}
    {found : List (StyleProperty × List String)} (hp : p.IsRead)
    (hc : c.staticClasses p.styles = .ok found) {a : Attribute} (ha : a ∈ p.attributes)
    (hnot : a.isPassthrough = false) {value : Json} (hw : a.Writes value)
    (hnone : c.classesFor (String.ofList a.name) value = .ok []) :
    writtenAs a.name value ∈ restAttributes p found := by
  obtain ⟨q, hq, hname, hvalue, hstatic, hstyle⟩ := InlinePattern.exists_toProperty_of_writes hw
  have hfilter : a ∈ p.attributes.filter (!·.isPassthrough) :=
    List.mem_filter.mpr ⟨ha, by simp [hnot]⟩
  obtain ⟨q', hq', hread⟩ := exists_mem_of_mapM hp.styles hfilter
  cases hq.symm.trans hread
  obtain ⟨entry, hentry, hclasses⟩ :=
    exists_mem_of_mapM hc (List.mem_filter.mpr ⟨hq', hstatic⟩)
  rw [hname, hstyle, hnone] at hclasses
  cases hclasses
  refine List.mem_append_left _ (List.mem_map.mpr ⟨q, ?_, ?_⟩)
  · exact List.mem_map.mpr ⟨(q, []), List.mem_filter.mpr ⟨hentry, rfl⟩, rfl⟩
  · rw [toAttribute_eq_writtenAs, hname, hvalue, String.toList_ofList]

/-- What is neither turned into classes nor moved into the style is kept. -/
theorem unconverted_attributes_are_kept (c : StyleConverter) {names : List String}
    {source : List Char} {patterns : List InlinePattern}
    (h : InlinePattern.parse names source = .ok patterns) {p : InlinePattern} (hp : p ∈ patterns)
    (hf : p.failed = false) (hplain : c.HasPlainParts p) :
    ReturnsIff (∀ style ∈ staticStyles p.styles, c.CanLookUp style) (KeepsValues c p)
      (c.FailsOn (staticStyles p.styles)) (c.convertInline p) := by
  have hread := InlinePattern.isRead_of_parse h hp hf
  have hfound := (c.staticClasses_returns p.styles).eq_ok
  rw [convertInline, if_neg (by simp [hf])]
  refine ReturnsIff.of_iff (hfound.bind fun found hc => .pure _ ?_) (iff_of_eq (and_true _))
  obtain ⟨shown, attributes, hshows, hne, htag, hmem⟩ := hplain.exists_shown hread hc
  have htext := hshows.toList_text_of_ne_nil hne
  refine ⟨_, attributes, rfl, ?_, ?_, ?_⟩
  · simp only [String.toList_append, htext]
    simpa using htag (elementFor p.tag).toList
  · intro a ha hpass hname hstays
    have hother : a ∈ otherAttributes p :=
      List.mem_filter.mpr ⟨ha, Bool.and_eq_true_iff.mpr ⟨hpass, bne_iff_ne.mpr hname⟩⟩
    exact hmem a (List.mem_append_right _ hother) hstays
  · intro a ha hnot value hw hnone
    have hkept := mem_restAttributes_of_writes hread hc ha hnot hw hnone
    exact hmem _ hkept (InlinePattern.Attribute.stays_of_kind (kind_writtenAs _ _) _)

/-- A tag with a style that has no value, and with styles without a class in all their forms. -/
def variedTag : List Char :=
  "<XStack zz='q' yy=\x7b'r'\x7d gap=\x7b4\x7d xx=\x7b1.50\x7d style \x7b...rest\x7d ".toList ++
    "onPress=\x7bgo\x7d disabled zz=\"t\">".toList

/-- What takes the place of the tag. -/
def variedText : String :=
  "<View className=\"gap-1\" style=true zz=\"q\" yy=\"r\" xx=\x7b1.5\x7d zz=\"t\" " ++
    "\x7b...rest\x7d onPress=\x7bgo\x7d disabled>"

theorem variedTag_keeps_values :
    ∃ p output, InlinePattern.parse InlinePattern.defaultTags variedTag = .ok [p] ∧
      p.failed = false ∧ HasPlainParts {} p ∧ convertInline {} p = .ok output ∧
      KeepsValues {} p output ∧ output.conversions.map (·.converted) = [variedText] := by
  have hfound : gives (isReplaced (convertInline {})
      (fun p => !p.failed && decide (HasPlainParts {} p)) variedText)
      (InlinePattern.parse InlinePattern.defaultTags variedTag) = true := by
    decide +kernel
  obtain ⟨p, output, hp, hq, hc, ht⟩ := exists_of_isReplaced hfound
  simp only [Bool.and_eq_true, Bool.not_eq_true', decide_eq_true_eq] at hq
  obtain ⟨hf, hplain⟩ := hq
  have hreturns := unconverted_attributes_are_kept {} hp List.mem_cons_self hf hplain
  obtain ⟨output', hc', hkeeps⟩ := hreturns.ok (hreturns.exists_ok_iff.mp ⟨output, hc⟩)
  cases hc.symm.trans hc'
  exact ⟨p, output, hp, hf, hplain, hc, hkeeps, ht⟩

/-- A tag with a text in braces that has no class. -/
def bracedTag : List Char := "<XStack zz=\x7b'q'\x7d>".toList

/-- A text in braces is found in quotes. -/
theorem bracedTag_is_quoted :
    ∃ p output, InlinePattern.parse InlinePattern.defaultTags bracedTag = .ok [p] ∧
      p.failed = false ∧ p.attributes = [⟨"zz".toList, "\x7b'q'\x7d".toList, .braced⟩] ∧
      classesFor {} "zz" (.text "q") = .ok [] ∧ convertInline {} p = .ok output ∧
      output.conversions.map (·.converted) = ["<View zz=\"q\">"] ∧
      IsTag "<View zz=\"q\">".toList "View".toList [⟨"zz".toList, "\"q\"".toList, .quoted⟩] := by
  have hfound : gives (isReplaced (convertInline {})
      (fun p => !p.failed && p.attributes == [⟨"zz".toList, "\x7b'q'\x7d".toList, .braced⟩])
      "<View zz=\"q\">")
      (InlinePattern.parse InlinePattern.defaultTags bracedTag) = true := by
    decide +kernel
  have hclasses : classesFor {} "zz" (.text "q") = .ok [] := eq_ok_of_gives (by decide +kernel)
  have htag : InlinePattern.takeTag? (" zz=\"q\"".toList ++ ['>']) = some (" zz=\"q\"".toList, []) := by
    decide +kernel
  obtain ⟨p, output, hp, hq, hc, ht⟩ := exists_of_isReplaced hfound
  simp only [Bool.and_eq_true, Bool.not_eq_true', beq_iff_eq] at hq
  exact ⟨p, output, hp, hq.1, hq.2, hclasses, hc, ht, " zz=\"q\"".toList, rfl, htag,
    by decide +kernel⟩

end StyleConverter

end Restyle
