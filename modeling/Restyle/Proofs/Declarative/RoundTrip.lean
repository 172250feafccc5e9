import Restyle.Proofs.Declarative.ObjectText
import Restyle.Proofs.Fields
import Restyle.Proofs.Traverse

namespace Restyle.DeclarativePattern

/-- A style value that is written as a literal. -/
inductive StyleLiteral where
  | whole (n : Int)
  | text (s : String)

namespace StyleLiteral

def render : StyleLiteral → List Char
  | .whole n => (toString n).toList
  | .text s => '\x27' :: s.toList ++ ['\x27']

def value : StyleLiteral → Json
  | .whole n => .whole n
  | .text s => .text s

/-- Numbers are short enough to be read, and texts need no escapes. -/
def WellFormed : StyleLiteral → Prop
  | .whole n => (Nat.toDigits 10 n.natAbs).length ≤ 4300
  | .text s => '\x27' ∉ s.toList ∧ '\\' ∉ s.toList

/-- A text with an arrow in it makes a variant look like a function. -/
def HasNoArrow : StyleLiteral → Prop
  | .whole _ => True
  | .text s => Text.hasPart ['=', '>'] s.toList = false

end StyleLiteral

/-- Names are names, each stands once, and the values are well-formed. -/
structure WellFormedStyles (styles : Fields StyleLiteral) : Prop where
  names : ∀ field ∈ styles, Expression.isName field.1.toList = true
  distinct : (Fields.names styles).Nodup
  values : ∀ field ∈ styles, field.2.WellFormed

/-- A variant with the styles of each of its values. -/
structure StaticVariant where
  name : String
  values : List (String × Fields StyleLiteral)

def stylesText (styles : Fields StyleLiteral) : List Char :=
  objectText (styles.map fun field => (field.1.toList, field.2.render))

def stylesValue (styles : Fields StyleLiteral) : Fields Json :=
  styles.map fun field => (field.1, field.2.value)

namespace StaticVariant

def render (variant : StaticVariant) : List Char :=
  objectText (variant.values.map fun value => (value.1.toList, stylesText value.2))

/-- What is read from the text of a variant. -/
def toVariant (variant : StaticVariant) : Variant :=
  ⟨variant.name, variant.values.map fun value => ⟨value.1, stylesValue value.2⟩, false⟩

structure WellFormed (variant : StaticVariant) : Prop where
  name : Expression.isName variant.name.toList = true
  names : ∀ value ∈ variant.values, Expression.isName value.1.toList = true
  styles : ∀ value ∈ variant.values, WellFormedStyles value.2
  noArrow : ∀ value ∈ variant.values, ∀ field ∈ value.2, field.2.HasNoArrow

end StaticVariant

/-- The text of all variants. -/
def variantsText (variants : List StaticVariant) : List Char :=
  objectText (variants.map fun variant => (variant.name.toList, variant.render))

/-- The text of an object of styles and variants. -/
def configText (styles : Fields StyleLiteral) (variants : List StaticVariant) : List Char :=
  objectText ((styles.map fun field => (field.1.toList, field.2.render)) ++
    [("variants".toList, variantsText variants)])

theorem continuesName_of_isDigit {c : Char} (h : c.isDigit = true) :
    Expression.continuesName c = true := by
  have hr : c.toNat < 128 := by have := Text.isDigit_range h; omega
  simp [Expression.continuesName, Text.isWord, hr, Char.isAlphanum, h]

theorem isClosed_render {literal : StyleLiteral} (h : literal.WellFormed) :
    IsClosed literal.render := by
  cases literal with
  | whole n =>
    have hc : ∀ c ∈ (toString n).toList,
        Scan.isInert isComma c = true ∧ Text.isBlank c = false := by
      intro c hm
      rcases mem_toString_int hm with rfl | hd
      · decide
      · have hn := continuesName_of_isDigit hd
        exact ⟨inert_of_continuesName hn, Expression.isBlank_of_continuesName hn⟩
    refine ⟨?_, Text.isTrimmed_of_all fun c hm => (hc c hm).2, fun depth _ =>
      Scan.crosses_inert fun c hm => (hc c hm).1⟩
    show (toString n).toList ≠ []
    rw [toList_toString_int]
    split
    next => simp
    next => exact Nat.toDigits_ne_nil
  | text s => exact isClosed_quoted (by decide) h.1 h.2

theorem literal?_render {literal : StyleLiteral} (h : literal.WellFormed) :
    Expression.literal? literal.render = .ok (some literal.value) := by
  cases literal with
  | whole n => exact Expression.literal?_toString_int h
  | text s =>
    have hl := Expression.literal?_quoted (by decide) h.1
    rwa [String.ofList_toList] at hl

/-- The text of a literal is no object. -/
theorem isObjectText_render {literal : StyleLiteral} (h : literal.WellFormed) :
    isObjectText literal.render = false := by
  have hc : ∀ c ∈ literal.render.head?, c ≠ '{' := by
    intro c hm
    cases literal with
    | whole n =>
      rcases mem_toString_int (List.mem_of_head? hm) with rfl | hd
      · decide
      · rintro rfl
        exact absurd hd (by decide)
    | text s =>
      cases hm
      decide
  unfold isObjectText
  cases hh : literal.render.head? with
  | none => rfl
  | some c =>
    have hne := hc c hh
    simp [hne]

theorem isObjectText_objectText (fields : List (List Char × List Char)) :
    isObjectText (objectText fields) = true := by
  simp [isObjectText, objectText]

theorem isEntry_style {styles : Fields StyleLiteral} (h : WellFormedStyles styles) :
    ∀ field ∈ styles.map (fun field => (field.1.toList, field.2.render)), IsEntry field := by
  intro entry hm
  obtain ⟨field, hf, rfl⟩ := List.mem_map.mp hm
  exact ⟨h.names field hf, isClosed_render (h.values field hf)⟩

/-- Styles with names of their own are put one after the other. -/
theorem foldl_put_of_nodup {styles : Fields StyleLiteral} {fields : Fields Json}
    (h : (fields.names ++ Fields.names styles).Nodup) :
    styles.foldl (fun acc field => acc.put field.1 field.2.value) fields =
      fields ++ stylesValue styles := by
  induction styles generalizing fields with
  | nil => simp [stylesValue]
  | cons field styles ih =>
    have hn : field.1 ∉ fields.names := by
      intro hm
      exact (List.nodup_append.mp h).2.2 field.1 hm field.1 List.mem_cons_self rfl
    have hnext : (Fields.names (fields ++ [(field.1, field.2.value)]) ++
        Fields.names styles).Nodup := by
      simpa [Fields.names] using h
    rw [List.foldl_cons, Fields.put_of_not_mem hn, ih hnext]
    simp [stylesValue]

/-- The styles of a value read back. -/
theorem parseStyles_stylesText {styles : Fields StyleLiteral} (h : WellFormedStyles styles) :
    parseStyles (stylesText styles) = .ok (stylesValue styles) := by
  have hv : ∀ field ∈ styles, styleValue field.2.render = .ok field.2.value := by
    intro field hm
    rw [styleValue, literal?_render (h.values field hm)]
    rfl
  have hput := foldl_put_of_nodup (by simpa [Fields.names] using h.distinct :
    (Fields.names ([] : Fields Json) ++ Fields.names styles).Nodup)
  rw [parseStyles, stylesText, entries_objectText (isEntry_style h)]
  simp only [bind, Except.bind, List.map_map, List.foldlM_map]
  refine (foldlM_eq_ok ?_ []).trans (congrArg Except.ok hput)
  intro acc field hm
  simp [isObjectText_render (h.values field hm), hv field hm, pure, Except.pure,
    String.ofList_toList]

/-- A text without an arrow that also does not end one. -/
def NoArrow (cs : List Char) : Prop :=
  Text.hasPart ['=', '>'] cs = false ∧ cs.head? ≠ some '>'

theorem NoArrow.append {cs ds : List Char} (hc : NoArrow cs) (hd : NoArrow ds) :
    NoArrow (cs ++ ds) := by
  refine ⟨by rw [Text.hasPart_pair_append hd.2, hc.1, hd.1, Bool.or_false], ?_⟩
  cases cs with
  | nil => exact hd.2
  | cons c cs => exact hc.2

theorem noArrow_of_not_mem {cs : List Char} (he : '=' ∉ cs) (hg : '>' ∉ cs) : NoArrow cs :=
  ⟨Text.hasPart_pair_of_not_mem he, fun h => hg (List.mem_of_head? h)⟩

theorem noArrow_name {name : List Char} (h : Expression.isName name = true) : NoArrow name := by
  have hc := (Expression.isName_all h).2
  exact noArrow_of_not_mem (fun hm => absurd (hc '=' hm) (by decide))
    (fun hm => absurd (hc '>' hm) (by decide))

theorem noArrow_render {literal : StyleLiteral} (h : literal.HasNoArrow) :
    NoArrow literal.render := by
  cases literal with
  | whole n =>
    refine noArrow_of_not_mem ?_ ?_
    · intro hm
      rcases mem_toString_int hm with he | hd
      · exact absurd he (by decide)
      · exact absurd hd (by decide)
    · intro hm
      rcases mem_toString_int hm with he | hd
      · exact absurd he (by decide)
      · exact absurd hd (by decide)
  | text s =>
    have hopen : Text.hasPart ['=', '>'] ('\x27' :: s.toList) = false := by
      rw [Text.hasPart_pair_cons, h]
      rfl
    exact NoArrow.append ⟨hopen, by simp⟩ (noArrow_of_not_mem (by decide) (by decide))

theorem noArrow_objectText {fields : List (List Char × List Char)}
    (h : ∀ field ∈ fields, NoArrow field.1 ∧ NoArrow field.2) : NoArrow (objectText fields) := by
  have hentry : ∀ text ∈ fields.map entryText, NoArrow text := by
    intro text hm
    obtain ⟨field, hf, rfl⟩ := List.mem_map.mp hm
    obtain ⟨hk, hv⟩ := h field hf
    exact (hk.append (noArrow_of_not_mem (by decide) (by decide))).append hv
  have hlist : ∀ texts : List (List Char), (∀ text ∈ texts, NoArrow text) →
      NoArrow ([',', ' '].intercalate texts) := by
    intro texts ht
    induction texts with
    | nil => exact noArrow_of_not_mem (by simp) (by simp)
    | cons text texts ih =>
      have hi := ih fun t hm => ht t (List.mem_cons_of_mem text hm)
      have hfirst := ht text List.mem_cons_self
      cases texts with
      | nil => simpa using hfirst
      | cons next texts =>
        rw [List.intercalate_cons_cons]
        exact (hfirst.append (noArrow_of_not_mem (by decide) (by decide))).append hi
  exact ((noArrow_of_not_mem (by decide) (by decide)).append (hlist _ hentry)).append
    (noArrow_of_not_mem (by decide) (by decide))

theorem noArrow_stylesText {styles : Fields StyleLiteral} (h : WellFormedStyles styles)
    (ha : ∀ field ∈ styles, field.2.HasNoArrow) : NoArrow (stylesText styles) := by
  refine noArrow_objectText ?_
  intro entry hm
  obtain ⟨field, hf, rfl⟩ := List.mem_map.mp hm
  exact ⟨noArrow_name (h.names field hf), noArrow_render (ha field hf)⟩

namespace StaticVariant

variable {variant : StaticVariant}

theorem isEntry_value (h : variant.WellFormed) :
    ∀ entry ∈ variant.values.map (fun value => (value.1.toList, stylesText value.2)),
      IsEntry entry := by
  intro entry hm
  obtain ⟨value, hv, rfl⟩ := List.mem_map.mp hm
  exact ⟨h.names value hv, isClosed_objectText (isEntry_style (h.styles value hv))⟩

theorem noArrow_render (h : variant.WellFormed) : NoArrow variant.render := by
  refine noArrow_objectText ?_
  intro entry hm
  obtain ⟨value, hv, rfl⟩ := List.mem_map.mp hm
  exact ⟨noArrow_name (h.names value hv),
    noArrow_stylesText (h.styles value hv) (h.noArrow value hv)⟩

end StaticVariant

/-- A static variant reads back. -/
theorem parseVariant_render {variant : StaticVariant} (h : variant.WellFormed) :
    parseVariant variant.name.toList variant.render = .ok variant.toVariant := by
  have hobject : isObjectText variant.render = true := isObjectText_objectText _
  have harrow := (StaticVariant.noArrow_render h).1
  have hvalue : ∀ value ∈ variant.values, parseValue value.1.toList (stylesText value.2) =
      .ok ⟨value.1, stylesValue value.2⟩ := by
    intro value hm
    have ho : isObjectText (stylesText value.2) = true := isObjectText_objectText _
    simp only [parseValue, ho, if_true, parseStyles_stylesText (h.styles value hm), bind,
      Except.bind, pure, Except.pure, String.ofList_toList]
  unfold parseVariant
  simp only [hobject, harrow, Bool.not_true, Bool.or_false, Bool.false_eq_true, if_false]
  rw [StaticVariant.render, entries_objectText (StaticVariant.isEntry_value h), List.map_map]
  simp only [bind, Except.bind]
  rw [filterMapM_eq_ok (g := fun value => ⟨value.1, stylesValue value.2⟩)]
  · simp only [pure, Except.pure, String.ofList_toList]
    rfl
  · intro value hm
    simp only [Function.comp, hvalue value hm]
    rfl

theorem isEntry_variant {variants : List StaticVariant}
    (h : ∀ variant ∈ variants, variant.WellFormed) :
    ∀ entry ∈ variants.map (fun variant => (variant.name.toList, variant.render)),
      IsEntry entry := by
  intro entry hm
  obtain ⟨variant, hv, rfl⟩ := List.mem_map.mp hm
  have hw := h variant hv
  exact ⟨hw.name, isClosed_objectText (StaticVariant.isEntry_value hw)⟩

/-- The variants of an object read back, in order. -/
theorem parseVariants_variantsText {variants : List StaticVariant}
    (h : ∀ variant ∈ variants, variant.WellFormed) :
    parseVariants (variantsText variants) = .ok (variants.map (·.toVariant)) := by
  rw [parseVariants, variantsText, entries_objectText (isEntry_variant h), List.map_map]
  refine filterMapM_eq_ok ?_
  intro variant hm
  simp only [Function.comp, parseVariant_render (h variant hm)]
  rfl

theorem add_style {field : String × StyleLiteral} (hs : field.1 ∉ settingKeys)
    (hw : field.2.WellFormed) (config : Config) :
    config.add field.1.toList (some field.2.render) =
      .ok { config with styles := config.styles.put field.1 field.2.value } := by
  have hv : (field.1 == "variants") = false := by
    refine beq_eq_false_iff_ne.mpr ?_
    intro he
    exact hs (by rw [he]; decide)
  simp [Config.add, String.ofList_toList, hv, hs, isObjectText_render hw, literal?_render hw, bind,
    Except.bind, pure, Except.pure]

theorem add_variants {variants : List StaticVariant} (h : ∀ variant ∈ variants, variant.WellFormed)
    (config : Config) : config.add "variants".toList (some (variantsText variants)) =
      .ok { config with variants := variants.map (·.toVariant) } := by
  have ho : isObjectText (variantsText variants) = true := isObjectText_objectText _
  simp [Config.add, ho, parseVariants_variantsText h, bind, Except.bind, pure, Except.pure]

theorem foldl_styles (styles : Fields StyleLiteral) (config : Config) :
    styles.foldl (fun config field =>
      { config with styles := config.styles.put field.1 field.2.value }) config =
    { config with
      styles := styles.foldl (fun acc field => acc.put field.1 field.2.value) config.styles } := by
  induction styles generalizing config with
  | nil => rfl
  | cons field styles ih => rw [List.foldl_cons, ih, List.foldl_cons]

/-- An object of literal styles and static variants reads back: its styles and its variants in
order, and nothing else. -/
theorem parseConfig_configText {styles : Fields StyleLiteral} {variants : List StaticVariant}
    (hs : WellFormedStyles styles) (hk : ∀ name ∈ Fields.names styles, name ∉ settingKeys)
    (hv : ∀ variant ∈ variants, variant.WellFormed) :
    parseConfig (configText styles variants) =
      .ok { styles := stylesValue styles, variants := variants.map (·.toVariant),
            bindings := [], dynamicStyles := [] } := by
  have hentry : ∀ entry ∈ styles.map (fun field => (field.1.toList, field.2.render)) ++
      [("variants".toList, variantsText variants)], IsEntry entry := by
    intro entry hm
    have hname : Expression.isName "variants".toList = true := by decide
    rcases List.mem_append.mp hm with hm | hm
    · exact isEntry_style hs entry hm
    · rw [List.mem_singleton.mp hm]
      exact ⟨hname, isClosed_objectText (isEntry_variant hv)⟩
  have hadd : ∀ (config : Config), ∀ field ∈ styles,
      config.add field.1.toList (some field.2.render) =
        .ok { config with styles := config.styles.put field.1 field.2.value } := by
    intro config field hm
    exact add_style (hk field.1 (List.mem_map_of_mem hm)) (hs.values field hm) config
  have hput := foldl_put_of_nodup (by simpa [Fields.names] using hs.distinct :
    (Fields.names ([] : Fields Json) ++ Fields.names styles).Nodup)
  rw [parseConfig, configText, entries_objectText hentry]
  simp only [bind, Except.bind, List.map_append, List.map_map, List.foldlM_append,
    List.foldlM_map, List.map_cons, List.map_nil, List.foldlM_cons, List.foldlM_nil,
    Function.comp]
  rw [foldlM_eq_ok hadd, foldl_styles, hput]
  simp only [add_variants hv]
  rfl

/-- Every mark of the notation inside of a text. -/
def noisyStyles : Fields StyleLiteral := [
  ("flex", .whole (-12)),
  ("_label$", .text "a, b: \x7b [( `$\x7b // /* \" => \x7d"),
  ("name2", .text "")]

def noisyVariant : StaticVariant where
  name := "size"
  values := [
    ("small", [("p", .text ",:\x7b\x7d`$\x7b"), ("m", .whole 3)]),
    ("large", [])]

theorem parseConfig_noisy :
    (WellFormedStyles noisyStyles ∧ noisyVariant.WellFormed) ∧
      parseConfig (configText noisyStyles [noisyVariant]) =
        .ok { styles := stylesValue noisyStyles, variants := [noisyVariant.toVariant],
              bindings := [], dynamicStyles := [] } := by
  have hs : WellFormedStyles noisyStyles := by
    refine ⟨by decide, by decide, ?_⟩
    intro field hm
    simp only [noisyStyles, List.mem_cons, List.not_mem_nil, or_false] at hm
    rcases hm with rfl | rfl | rfl
    · show (Nat.toDigits 10 12).length ≤ 4300
      decide
    · exact ⟨by decide, by decide⟩
    · exact ⟨by decide, by decide⟩
  have hsmall : WellFormedStyles [("p", .text ",:\x7b\x7d`$\x7b"), ("m", .whole 3)] := by
    refine ⟨by decide, by decide, ?_⟩
    intro field hm
    simp only [List.mem_cons, List.not_mem_nil, or_false] at hm
    rcases hm with rfl | rfl
    · exact ⟨by decide, by decide⟩
    · show (Nat.toDigits 10 3).length ≤ 4300
      decide
  have hv : noisyVariant.WellFormed := by
    refine ⟨by decide, by decide, ?_, ?_⟩
    · intro value hm
      simp only [noisyVariant, List.mem_cons, List.not_mem_nil, or_false] at hm
      rcases hm with rfl | rfl
      · exact hsmall
      · exact ⟨by simp, by simp [Fields.names], by simp⟩
    · intro value hm field hf
      simp only [noisyVariant, List.mem_cons, List.not_mem_nil, or_false] at hm
      rcases hm with rfl | rfl
      · simp only [List.mem_cons, List.not_mem_nil, or_false] at hf
        rcases hf with rfl | rfl
        · show Text.hasPart _ _ = false
          decide
        · trivial
      · simp at hf
  refine ⟨⟨hs, hv⟩, parseConfig_configText hs (by decide) ?_⟩
  intro variant hm
  rw [List.mem_singleton.mp hm]
  exact hv

end Restyle.DeclarativePattern
