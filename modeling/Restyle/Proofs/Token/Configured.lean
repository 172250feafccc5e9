import Restyle.Proofs.Fields
import Restyle.Proofs.Traverse
import Restyle.Tailwind
import Restyle.Token.Resolver

namespace Restyle

theorem Color.mem_classes_of_find? {colors : Json} {token name : String} {value : Json}
    {classes : List (String × Json)} (hc : Color.classes colors = .ok classes)
    (h : Color.find? colors token = .ok (some (name, value))) : (name, value) ∈ classes := by
  obtain ⟨fields, hf, rfl⟩ := map_eq_ok hc
  apply List.mem_flatMap.mpr
  simp only [Color.find?, hf, bind, Except.bind, pure, Except.pure] at h
  split at h
  next color hget =>
    cases h
    exact ⟨_, Fields.mem_of_get? hget, List.mem_cons_self⟩
  next =>
    split at h
    next => cases h
    next family shade _ =>
      split at h
      next shades hget =>
        obtain ⟨color, hshade, he⟩ := Option.map_eq_some_iff.mp (Except.ok.inj h)
        cases he
        exact ⟨_, Fields.mem_of_get? hget,
          List.mem_map.mpr ⟨(shade, value), Fields.mem_of_get? hshade, rfl⟩⟩
      next => cases h

namespace Typeface

/-- The name under which a font stands in the configuration. -/
def family (name : String) : String := String.ofList (name.toList.drop 5)

theorem eq_font_family {font name : String} (h : fontClasses.lookup font = some name) :
    name = "font-" ++ family name := by
  have hall : ∀ pair ∈ fontClasses, pair.2 = "font-" ++ family pair.2 := by decide +kernel
  exact hall _ (Fields.mem_of_get? h)

theorem isSome_fontClass_of_fontForWeight {weight : Json} {locale : Locale} {font : String}
    (h : fontForWeight weight locale = .ok font) : (fontClasses.lookup font).isSome := by
  have hall : ∀ pair ∈ localeFonts,
      (fontClasses.lookup pair.2.regular).isSome ∧ (fontClasses.lookup pair.2.bold).isSome := by
    decide +kernel
  obtain ⟨fonts, hf, rfl⟩ := map_eq_ok h
  have hfonts : ∃ name, (name, fonts) ∈ localeFonts := by
    cases locale with
    | unusable => cases hf
    | named name =>
      cases hf
      cases hl : localeFonts.lookup name with
      | none => exact ⟨"ko", List.mem_cons_self⟩
      | some fonts => exact ⟨name, Fields.mem_of_get? hl⟩
  obtain ⟨name, hm⟩ := hfonts
  split
  next => exact (hall _ hm).2
  next => exact (hall _ hm).1

theorem isSome_fontClass_of_localFont {name : String} {style : FormerStyle} {locale : Locale}
    {font : String} (hs : former.lookup name = some style)
    (h : localFont style.font locale = .ok font) : (fontClasses.lookup font).isSome := by
  have hall : ∀ pair ∈ former, (fontClasses.lookup pair.2.font).isSome := by decide +kernel
  unfold localFont at h
  split at h
  next => exact isSome_fontClass_of_fontForWeight h
  next =>
    split at h
    next => exact isSome_fontClass_of_fontForWeight h
    next =>
      cases h
      exact hall _ (Fields.mem_of_get? hs)

end Typeface

theorem Tailwind.exists_fontFamilies {font name : String}
    (h : Typeface.fontClasses.lookup font = some name) (locale : String) :
    ∃ families, fontFamilies (.named locale) = .ok families ∧
      families.get? (Typeface.family name) = some (Json.texts [font]) := by
  refine ⟨_, rfl, Fields.get?_ofPairs_of_mem ?_ ?_⟩
  · simp only [List.map_append, List.map_map, List.map_cons, List.map_nil]
    decide +kernel
  · exact List.mem_append_left _ (List.mem_map.mpr ⟨_, Fields.mem_of_get? h, rfl⟩)

namespace Palette

/-- The font that the text style of a token has in a locale: a text style of the palette comes
before one of the former theme. -/
inductive HasFont (palette : Palette) (token : String) (locale : Locale) (font : String) : Prop where
  | style (entry weight : Option Json) (he : palette.typography.field? token = .ok entry)
      (hn : entry.getD .null ≠ .null) (hw : (entry.getD .null).field? "weight" = .ok weight)
      (hf : Typeface.fontForWeight (weight.getD (.text "regular")) locale = .ok font)
  | former (entry : Option Json) (style : Typeface.FormerStyle)
      (he : palette.typography.field? token = .ok entry) (hn : entry.getD .null = .null)
      (hs : Typeface.former.lookup ((Legacy.fontRef? token.toList).getD token) = some style)
      (hf : Typeface.localFont style.font locale = .ok font)

/-- That the configuration knows what a token stands for. -/
structure Configures (palette : Palette) (locale : Locale) (mapping : TokenMapping) : Prop where
  color : mapping.category = some .color →
    ∃ colors name, Tailwind.colors palette true = .ok colors ∧ mapping.className = some name ∧
      colors.get? name = some mapping.value
  typography : mapping.category = some .typography →
    ∃ key rest font, mapping.classes = some (("font-" ++ key) :: rest) ∧
      mapping.className = some (" ".intercalate (("font-" ++ key) :: rest)) ∧
      palette.HasFont mapping.token locale font ∧
      ∀ name, ∃ families, Tailwind.fontFamilies (.named name) = .ok families ∧
        families.get? key = some (Json.texts [font])

variable {palette : Palette} {locale : Locale} {token : String} {mapping : TokenMapping}

/-- That a mapping has a category and is none of the former theme. -/
structure IsOfDesign (mapping : TokenMapping) (category : Category) : Prop where
  category_eq : mapping.category = some category
  not_legacy : mapping.isLegacy = false

theorem isOfDesign_of_resolveSpacing (h : resolveSpacing token = .ok mapping) :
    IsOfDesign mapping .spacing := by
  unfold resolveSpacing at h
  split at h
  next =>
    cases h
    exact ⟨rfl, rfl⟩
  next numeral _ =>
    obtain ⟨px, _, h⟩ := bind_eq_ok h
    cases h
    exact ⟨rfl, rfl⟩

theorem isOfDesign_of_resolveRadius (h : resolveRadius token = .ok mapping) :
    IsOfDesign mapping .radius := by
  unfold resolveRadius at h
  split at h
  next =>
    cases h
    exact ⟨rfl, rfl⟩
  next =>
    split at h
    next =>
      cases h
      exact ⟨rfl, rfl⟩
    next numeral _ =>
      obtain ⟨px, _, h⟩ := bind_eq_ok h
      cases h
      exact ⟨rfl, rfl⟩

/-- That a mapping is one of a text style: the class of its font comes first. -/
structure IsStyled (mapping : TokenMapping) (font : String) : Prop where
  category_eq : mapping.category = some .typography
  isSome_class : (Typeface.fontClasses.lookup font).isSome
  classes_eq : ∃ rest, mapping.classes = some (Typeface.fontClass font :: rest) ∧
    mapping.className = some (" ".intercalate (Typeface.fontClass font :: rest))

theorem isStyled_of_utilities {font : String} {size height weight spacing : Json}
    {classes : List String} (hcategory : mapping.category = some .typography)
    (hclass : (Typeface.fontClasses.lookup font).isSome)
    (hu : Typeface.utilities font size height weight spacing = .ok classes)
    (hclasses : mapping.classes = some classes)
    (hname : mapping.className = some (" ".intercalate classes)) : IsStyled mapping font := by
  obtain ⟨rest, _, rfl⟩ := map_eq_ok hu
  exact ⟨hcategory, hclass, rest, hclasses, hname⟩

/-- A text style is one of the palette or one of the former theme. -/
theorem resolveTypography_cases (h : palette.resolveTypography token locale = .ok mapping)
    (hf : mapping.found = true) :
    mapping.token = token ∧ ∃ font, IsStyled mapping font ∧ palette.HasFont token locale font ∧
      (mapping.isLegacy = true →
        (Typeface.former.lookup ((Legacy.fontRef? token.toList).getD token)).isSome) := by
  obtain ⟨entry, he, h⟩ := bind_eq_ok h
  split at h
  next hn =>
    split at h
    next style hs =>
      obtain ⟨font, hfont, h⟩ := bind_eq_ok h
      obtain ⟨classes, hu, h⟩ := bind_eq_ok h
      cases h
      have hclass := Typeface.isSome_fontClass_of_localFont hs hfont
      exact ⟨rfl, font, isStyled_of_utilities rfl hclass hu rfl rfl,
        .former entry style he hn hs hfont, fun _ => by rw [hs]; rfl⟩
    next =>
      cases h
      cases hf
  next hn =>
    obtain ⟨weight, hw, h⟩ := bind_eq_ok h
    obtain ⟨font, hfont, h⟩ := bind_eq_ok h
    obtain ⟨size, _, h⟩ := bind_eq_ok h
    obtain ⟨height, _, h⟩ := bind_eq_ok h
    obtain ⟨spacing, _, h⟩ := bind_eq_ok h
    obtain ⟨classes, hu, h⟩ := bind_eq_ok h
    cases h
    have hclass := Typeface.isSome_fontClass_of_fontForWeight hfont
    exact ⟨rfl, font, isStyled_of_utilities rfl hclass hu rfl rfl,
      .style entry weight he hn hw hfont, fun h => nomatch h⟩

theorem configures_of_category (hc : mapping.category ≠ some .color)
    (ht : mapping.category ≠ some .typography) : palette.Configures locale mapping :=
  ⟨fun h => absurd h hc, fun h => absurd h ht⟩

theorem configures_of_resolveSpacing (h : resolveSpacing token = .ok mapping) :
    palette.Configures locale mapping := by
  have hcategory := (isOfDesign_of_resolveSpacing h).category_eq
  apply configures_of_category <;> simp [hcategory]

theorem configures_of_resolveRadius (h : resolveRadius token = .ok mapping) :
    palette.Configures locale mapping := by
  have hcategory := (isOfDesign_of_resolveRadius h).category_eq
  apply configures_of_category <;> simp [hcategory]

theorem configures_of_resolveTypography (h : palette.resolveTypography token locale = .ok mapping)
    (hf : mapping.found = true) : palette.Configures locale mapping := by
  obtain ⟨rfl, font, hstyled, hfont, _⟩ := resolveTypography_cases h hf
  obtain ⟨rest, hclasses, hname⟩ := hstyled.classes_eq
  obtain ⟨name, hl⟩ := Option.isSome_iff_exists.mp hstyled.isSome_class
  have hhead : Typeface.fontClass font = "font-" ++ Typeface.family name := by
    rw [Typeface.fontClass, hl, Option.getD_some, ← Typeface.eq_font_family hl]
  rw [hhead] at hclasses hname
  refine ⟨fun h => absurd h (by simp [hstyled.category_eq]), fun _ => ?_⟩
  exact ⟨_, rest, font, hclasses, hname, hfont, Tailwind.exists_fontFamilies hl⟩

section

/-- That the classes of a palette are told apart, also from those of the former colours. -/
structure IsDistinct (palette : Palette) (classes : List (String × Json)) : Prop where
  classes_eq : Color.classes palette.colors = .ok classes
  nodup : (classes.map (·.1)).Nodup
  not_legacy : ∀ pair ∈ classes, ¬ "legacy-".toList <+: pair.1.toList

variable {classes : List (String × Json)}

theorem IsDistinct.get?_colors (h : palette.IsDistinct classes) {name : String} {value : Json}
    (hm : (name, value) ∈ classes ++
      Legacy.colors.map fun (key, value) => (Legacy.className key, Json.text value)) :
    ∃ colors, Tailwind.colors palette true = .ok colors ∧ colors.get? name = some value := by
  have hlegacy : (Legacy.colors.map fun pair => Legacy.className pair.1).Nodup := by
    decide +kernel
  refine ⟨_, by rw [Tailwind.colors, h.classes_eq]; rfl, Fields.get?_ofPairs_of_mem ?_ hm⟩
  rw [List.map_append, List.map_map]
  refine List.nodup_append.mpr ⟨h.nodup, hlegacy, ?_⟩
  rintro name hname other hother rfl
  obtain ⟨pair, hpair, rfl⟩ := List.mem_map.mp hname
  obtain ⟨former, _, hformer⟩ := List.mem_map.mp hother
  apply h.not_legacy pair hpair
  rw [← hformer]
  exact ⟨former.1.toList, by simp [Legacy.className]⟩

theorem configures_of_resolveColor (hd : palette.IsDistinct classes)
    (h : palette.resolveColor token = .ok mapping) (hf : mapping.found = true) :
    palette.Configures locale mapping := by
  obtain ⟨found, hfind, h⟩ := bind_eq_ok h
  cases found with
  | none =>
    cases h
    cases hf
  | some pair =>
    obtain ⟨name, value⟩ := pair
    cases h
    obtain ⟨colors, hcolors, hget⟩ := hd.get?_colors
      (List.mem_append_left _ (Color.mem_classes_of_find? hd.classes_eq hfind))
    exact ⟨fun _ => ⟨colors, name, hcolors, rfl, hget⟩, fun h => nomatch h⟩

theorem configures_resolveFormerColor (hd : palette.IsDistinct classes)
    (hf : (resolveFormerColor token).found = true) :
    palette.Configures locale (resolveFormerColor token) := by
  unfold resolveFormerColor at hf ⊢
  split
  next hk =>
    rw [hk] at hf
    cases hf
  next key hk =>
    have hkey : (Legacy.colors.lookup key).isSome := by
      unfold Legacy.colorKey? at hk
      grind
    obtain ⟨value, hl⟩ := Option.isSome_iff_exists.mp hkey
    obtain ⟨colors, hcolors, hget⟩ := hd.get?_colors
      (List.mem_append_right _ (List.mem_map.mpr ⟨(key, value), Fields.mem_of_get? hl, rfl⟩))
    refine ⟨fun _ => ⟨colors, _, hcolors, rfl, ?_⟩, fun h => nomatch h⟩
    rw [hget, hl, Option.getD_some]

theorem configures_of_resolveColorOrSpacing (hd : palette.IsDistinct classes)
    (h : palette.resolveColorOrSpacing token = .ok mapping) (hf : mapping.found = true) :
    palette.Configures locale mapping := by
  obtain ⟨color, hc, h⟩ := bind_eq_ok h
  split at h
  next hfound =>
    cases h
    exact configures_of_resolveColor hd hc hfound
  next =>
    obtain ⟨spacing, hs, h⟩ := bind_eq_ok h
    split at h
    next =>
      cases h
      exact configures_of_resolveSpacing hs
    next =>
      cases h
      cases hf

theorem configures_of_resolveFormer (hd : palette.IsDistinct classes)
    (h : palette.resolveFormer token locale = .ok mapping) (hf : mapping.found = true) :
    palette.Configures locale mapping := by
  unfold resolveFormer at h
  split at h
  next =>
    cases h
    exact configures_resolveFormerColor hd hf
  next =>
    split at h
    next => exact configures_of_resolveTypography h hf
    next =>
      cases h
      cases hf

theorem configures_of_resolveForm (hd : palette.IsDistinct classes) {form : Form}
    (h : palette.resolveForm form token locale = .ok mapping) (hf : mapping.found = true) :
    palette.Configures locale mapping := by
  cases form with
  | formerColor =>
    cases h
    exact configures_resolveFormerColor hd hf
  | typography => exact configures_of_resolveTypography h hf
  | colorOrSpacing => exact configures_of_resolveColorOrSpacing hd h hf
  | spacing => exact configures_of_resolveSpacing h
  | radius => exact configures_of_resolveRadius h
  | color => exact configures_of_resolveColor hd h hf
  | former => exact configures_of_resolveFormer hd h hf

theorem configures_of_resolveAs (hd : palette.IsDistinct classes) {category : Category}
    (h : palette.resolveAs category token locale = .ok mapping) (hf : mapping.found = true) :
    palette.Configures locale mapping := by
  cases category with
  | color => exact configures_of_resolveColor hd h hf
  | spacing => exact configures_of_resolveSpacing h
  | typography => exact configures_of_resolveTypography h hf
  | radius => exact configures_of_resolveRadius h
  | legacy => exact configures_of_resolveFormer hd h hf

theorem configures_of_resolve (hd : palette.IsDistinct classes) {category : Option Category}
    (h : palette.resolve category token locale = .ok mapping) (hf : mapping.found = true) :
    palette.Configures locale mapping := by
  unfold resolve at h
  split at h
  next => exact configures_of_resolveAs hd h hf
  next =>
    -- the forms of a token are not to be evaluated here
    dsimp -iota only at h
    split at h
    next => exact configures_of_resolveForm hd h hf
    next =>
      cases h
      cases hf

/-- A token that is found in a palette whose classes are told apart stands for something that the
configuration of the palette knows. -/
theorem configures_of_resolveNamed (hd : palette.IsDistinct classes) {category : String}
    (h : palette.resolveNamed category token locale = .ok mapping) (hf : mapping.found = true) :
    palette.Configures locale mapping := by
  unfold resolveNamed at h
  split at h
  next => exact configures_of_resolve hd h hf
  next =>
    split at h
    next => exact configures_of_resolve hd h hf
    next =>
      cases h
      cases hf

/-- A family of shades, two single colours with names close to its classes, and a bold text
style. -/
def marine : Palette where
  colors := .object [("sea", Color.shades [("100", "#aabbcc"), ("x", "#000001")]),
    ("sea-9", .text "#123456"), ("sea100x", .text "#654321")]
  typography := .object [("$body7B", .object [("fontSize", .whole 17), ("lineHeight", .whole 25),
    ("weight", .text "bold"), ("letterSpacing", .whole 1)])]

theorem marine_configures :
    (∃ mapping, marine.resolveNamed "" " $sea100 " (.named "ja") = .ok mapping ∧
      (mapping.className = some "sea-100" ∧ mapping.category = some .color) ∧
      marine.Configures (.named "ja") mapping) ∧
    (∃ mapping, marine.resolveNamed "legacy" "colors.mono900" (.named "ja") = .ok mapping ∧
      (mapping.className = some "legacy-mono900" ∧ mapping.category = some .color) ∧
      marine.Configures (.named "ja") mapping) ∧
    ∃ mapping, marine.resolveNamed "" "$body7B" (.named "ja") = .ok mapping ∧
      (mapping.className =
          some "font-body-ja-bold text-[17px] leading-[25px] tracking-[1px]" ∧
        mapping.category = some .typography) ∧
      marine.Configures (.named "ja") mapping := by
  have hd : marine.IsDistinct [("sea-100", .text "#aabbcc"), ("sea-x", .text "#000001"),
      ("sea-9", .text "#123456"), ("sea100x", .text "#654321")] :=
    ⟨rfl, by decide +kernel, by decide +kernel⟩
  have hresolve : ∀ {category token name : String} {kind : Category},
      gives (fun m => m.className == some name && m.category == some kind)
        (marine.resolveNamed category token (.named "ja")) = true →
      ∃ mapping, marine.resolveNamed category token (.named "ja") = .ok mapping ∧
        (mapping.className = some name ∧ mapping.category = some kind) ∧
        marine.Configures (.named "ja") mapping := by
    intro category token name kind h
    obtain ⟨mapping, hr, hm⟩ := exists_of_gives h
    simp only [Bool.and_eq_true, beq_iff_eq] at hm
    exact ⟨mapping, hr, hm, configures_of_resolveNamed hd hr (by simp [TokenMapping.found, hm.1])⟩
  exact ⟨hresolve (by decide +kernel), hresolve (by decide +kernel), hresolve (by decide +kernel)⟩

end

end Palette

end Restyle
