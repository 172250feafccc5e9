import Restyle.Proofs.Conversion.Theme
import Restyle.Proofs.Expression.Literal
import Restyle.Proofs.Text.Search
import Restyle.Proofs.Token.Table

namespace Restyle

namespace Text

/-- One or more characters of one class. -/
structure IsRun (p : Char → Bool) (cs : List Char) : Prop where
  ne_nil : cs ≠ []
  all : ∀ c ∈ cs, p c = true

theorem isRun_of_all {p : Char → Bool} {cs : List Char}
    (h : (!cs.isEmpty && cs.all p) = true) : IsRun p cs := by
  obtain ⟨hne, hall⟩ := Bool.and_eq_true_iff.mp h
  refine ⟨?_, List.all_eq_true.mp hall⟩
  rintro rfl
  cases hne

theorem chomp_of_isTrimmed {cs : List Char} (h : IsTrimmed cs) : chomp cs = cs := by
  unfold chomp
  split
  next hl =>
    have hblank := h.2 '\n' (eq_of_beq hl)
    cases hblank
  next => rfl

theorem isLower_of_isDigit {c : Char} (h : isDigit c = true) : c.isLower = false := by
  cases hl : c.isLower with
  | false => rfl
  | true =>
    have hr := isAlpha_range (c := c) (Bool.or_eq_true_iff.mpr (.inr hl))
    have := isDigit_range (isDigit_of_low h (by omega))
    omega

theorem IsRun.head_not_lower {digits : List Char} (h : IsRun isDigit digits) :
    ∀ c ∈ digits.head?, c.isLower = false :=
  fun c hc => isLower_of_isDigit (h.all c (List.mem_of_head? hc))

end Text

namespace Legacy

theorem refs_dollar {cs : List Char} (ht : Text.IsTrimmed ('$' :: cs)) :
    colorRef? ('$' :: cs) = none ∧ fontRef? ('$' :: cs) = none := by
  unfold colorRef? fontRef? member?
  rw [Text.chomp_of_isTrimmed ht]
  exact ⟨rfl, rfl⟩

theorem colorRef?_of_fontRef? {cs : List Char} (h : (fontRef? cs).isSome) :
    colorRef? cs = none := by
  obtain ⟨word, hw⟩ := Option.isSome_iff_exists.mp h
  obtain ⟨path, hp, hm⟩ := List.exists_of_findSome?_eq_some hw
  obtain rfl := List.mem_singleton.mp hp
  obtain ⟨rest, hrest, _⟩ := Option.bind_eq_some_iff.mp hm
  unfold colorRef? member?
  rw [← List.append_eq_of_isPrefixOf?_eq_some hrest]
  rfl

theorem fontRef?_word {word : List Char} (hw : Text.IsRun Text.isWord word)
    (ht : Text.IsTrimmed ("theme.fonts.".toList ++ word)) :
    fontRef? ("theme.fonts.".toList ++ word) = some (String.ofList word) := by
  have hprefix : ("theme.fonts" ++ ".").toList.isPrefixOf? ("theme.fonts.".toList ++ word) =
      some word := List.isPrefixOf?_eq_some_iff_append_eq.mpr rfl
  have hword : (!word.isEmpty && word.all Text.isWord) = true := by
    simpa using ⟨hw.ne_nil, hw.all⟩
  unfold fontRef? member?
  rw [Text.chomp_of_isTrimmed ht, List.findSome?_cons, hprefix]
  simp only [Option.bind_eq_bind, Option.bind_some, hword, if_true]

end Legacy

namespace Palette

namespace Form

variable {family rest digits : List Char} {token : String}

theorem isShade_append (hf : ∀ c ∈ family, c.isLower = true)
    (hr : ∀ c ∈ rest.head?, c.isLower = false) (ht : Text.IsTrimmed ('$' :: (family ++ rest))) :
    isShade ('$' :: (family ++ rest)) =
      (!family.isEmpty && !rest.isEmpty && rest.all Text.isDigit) := by
  unfold isShade Color.shadeToken?
  rw [Text.chomp_of_isTrimmed ht]
  simp only [Text.takeWhile_append_of_head hf hr, Text.dropWhile_append_of_head hf hr]
  split
  next h => rw [h, Option.isSome_some]
  next h => rw [eq_false_of_ne_true h, Option.isSome_none]

theorem isPlainNumber_dollar {cs : List Char} (ht : Text.IsTrimmed ('$' :: cs)) :
    isPlainNumber ('$' :: cs) = (!cs.isEmpty && cs.all Text.isDigit) := by
  unfold isPlainNumber
  rw [Text.chomp_of_isTrimmed ht]
  rfl

theorem detect?_shade (hf : Text.IsRun Char.isLower family) (hd : Text.IsRun Text.isDigit digits)
    (ht : Text.IsTrimmed token.toList) (h : token.toList = '$' :: (family ++ digits)) :
    detect? token = some .colorOrSpacing := by
  rw [h] at ht
  obtain ⟨hcolor, hfont⟩ := Legacy.refs_dollar ht
  have hshade : isShade ('$' :: (family ++ digits)) = true := by
    rw [isShade_append hf.all hd.head_not_lower ht]
    simpa using ⟨⟨hf.ne_nil, hd.ne_nil⟩, hd.all⟩
  simp only [detect?, h, hcolor, hfont, Option.isSome_none, Bool.false_eq_true, if_false, hshade,
    if_true]

theorem detect?_number (hd : Text.IsRun Text.isDigit digits) (ht : Text.IsTrimmed token.toList)
    (h : token.toList = '$' :: digits) : detect? token = some .spacing := by
  rw [h] at ht
  obtain ⟨hcolor, hfont⟩ := Legacy.refs_dollar ht
  have hshade : isShade ('$' :: ([] ++ digits)) = false :=
    isShade_append (fun _ hc => nomatch hc) hd.head_not_lower ht
  rw [List.nil_append] at hshade
  have hnumber : isPlainNumber ('$' :: digits) = true := by
    rw [isPlainNumber_dollar ht]
    simpa using ⟨hd.ne_nil, hd.all⟩
  simp only [detect?, h, hcolor, hfont, Option.isSome_none, Bool.false_eq_true, if_false, hshade,
    hnumber, if_true]

theorem detect?_style {name : String} {digit : Char} (hn : name ∈ Typeface.styleNames)
    (hd : Text.isDigit digit = true) (hr : rest.all Text.isDigit = false)
    (ht : Text.IsTrimmed token.toList) (h : token.toList = '$' :: (name.toList ++ digit :: rest)) :
    detect? token = some .typography := by
  have hnames : ∀ name ∈ Typeface.styleNames, Text.IsRun Char.isLower name.toList := by
    have hall : ∀ name ∈ Typeface.styleNames,
        (!name.toList.isEmpty && name.toList.all Char.isLower) = true := by decide +kernel
    exact fun name hm => Text.isRun_of_all (hall name hm)
  have hletters := hnames name hn
  rw [h] at ht
  obtain ⟨hcolor, hfont⟩ := Legacy.refs_dollar ht
  have hshade : isShade ('$' :: (name.toList ++ digit :: rest)) = false := by
    have hhead : ∀ c ∈ (digit :: rest).head?, c.isLower = false := by
      intro c hc
      cases hc
      exact Text.isLower_of_isDigit hd
    rw [isShade_append hletters.all hhead ht, List.all_cons, hr, Bool.and_false, Bool.and_false]
  have hnumber : isPlainNumber ('$' :: (name.toList ++ digit :: rest)) = false := by
    -- a name starts with a letter
    obtain ⟨c, cs, hcs⟩ := List.exists_cons_of_ne_nil hletters.ne_nil
    have hlower : c.isLower = true := hletters.all c (by simp [hcs])
    have hc : Text.isDigit c = false := by
      cases hc : Text.isDigit c with
      | false => rfl
      | true =>
        have hl := Text.isLower_of_isDigit hc
        rw [hlower] at hl
        cases hl
    rw [isPlainNumber_dollar ht, hcs, List.cons_append, List.all_cons, hc, Bool.false_and,
      Bool.and_false]
  have hstyle : isTextStyle ('$' :: (name.toList ++ digit :: rest)) = true := by
    unfold isTextStyle
    apply List.any_eq_true.mpr
    exact ⟨name, hn, by rw [List.isPrefixOf?_eq_some_iff_append_eq.mpr rfl]; exact hd⟩
  simp only [detect?, h, hcolor, hfont, Option.isSome_none, Bool.false_eq_true, if_false, hshade,
    hnumber, hstyle, if_true]

theorem detect?_fontRef (h : (Legacy.fontRef? token.toList).isSome) :
    detect? token = some .typography := by
  have hcolor := Legacy.colorRef?_of_fontRef? h
  simp only [detect?, hcolor, h, Option.isSome_none, Bool.false_eq_true, if_false, if_true]

theorem detect?_colorRef (h : (Legacy.colorRef? token.toList).isSome) :
    detect? token = some .formerColor := by
  simp only [detect?, h, if_true]

/-- A bare name of the former theme has no other form. -/
theorem detect?_bare (h : (Legacy.colors.lookup token).isSome ∨
    (Typeface.former.lookup token).isSome) : detect? token = some .former := by
  have hcolors : ∀ pair ∈ Legacy.colors, detect? pair.1 = some .former := by decide +kernel
  have hstyles : ∀ pair ∈ Typeface.former, detect? pair.1 = some .former := by decide +kernel
  rcases h with h | h
  · obtain ⟨value, hl⟩ := Option.isSome_iff_exists.mp h
    exact hcolors (token, value) (Fields.mem_of_get? hl)
  · obtain ⟨style, hl⟩ := Option.isSome_iff_exists.mp h
    exact hstyles (token, style) (Fields.mem_of_get? hl)

end Form

end Palette

/-- The forms of tokens that show the table of a category, whatever the palette: shades and the two
plain colours, whole numbers, the full radius, and the text styles that no shade looks like. Former
tokens are shown by every form that they have. -/
inductive Category.ShownBy : Category → List Char → Prop where
  | shade {family digits : List Char} (hf : Text.IsRun Char.isLower family)
      (hd : Text.IsRun Text.isDigit digits) : ShownBy .color ('$' :: (family ++ digits))
  | keyword {word : String} (h : word ∈ ["$white", "$black"]) : ShownBy .color word.toList
  | spacing {word : String} {digits : List Char} (hw : word ∈ ["", "space", "size"])
      (hd : Text.IsRun Text.isDigit digits) : ShownBy .spacing ('$' :: (word.toList ++ digits))
  | radius {digits : List Char} (hd : Text.IsRun Text.isDigit digits) :
      ShownBy .radius ('$' :: digits)
  | fullRadius : ShownBy .radius Scale.fullRadiusToken.toList
  | style {name : String} {digit : Char} {rest : List Char} (hn : name ∈ Typeface.styleNames)
      (hd : Text.isDigit digit = true) (hr : rest.all Text.isDigit = false) :
      ShownBy .typography ('$' :: (name.toList ++ digit :: rest))
  | reference {word : List Char} (hw : Text.IsRun Text.isWord word) :
      ShownBy .typography ("theme.fonts.".toList ++ word)
  | formerStyle {name : String} (h : (Typeface.former.lookup name).isSome) :
      ShownBy .typography name.toList
  | former (token : List Char) : ShownBy .legacy token

theorem Scale.token?_digits {words : List String} {digits : List Char}
    (hw : ∀ word ∈ words, word.toList.head?.any Text.isDigit = false)
    (hne : ∀ word ∈ words, word ≠ "") (hd : Text.IsRun Text.isDigit digits) :
    token? words ('$' :: digits) = Numeral.readUnsigned? false digits := by
  have hnone : ∀ word ∈ words, word.toList.isPrefixOf? digits = none := by
    intro word hm
    obtain ⟨d, ds, rfl⟩ := List.exists_cons_of_ne_nil hd.ne_nil
    cases hcs : word.toList with
    | nil => exact absurd (String.toList_injective hcs) (hne word hm)
    | cons c cs =>
      have hc : Text.isDigit c = false := by
        have hhead := hw word hm
        rw [hcs] at hhead
        exact hhead
      have hdc : (c == d) = false := by
        refine beq_false_of_ne ?_
        rintro rfl
        rw [hd.all c List.mem_cons_self] at hc
        cases hc
      rw [List.isPrefixOf?, hdc, if_neg Bool.false_ne_true]
  rw [token?, List.findSome?_eq_none_iff.mpr hnone, Option.getD_none]

namespace Palette

variable {palette : Palette} {token : String} {locale : Locale} {m : TokenMapping}

theorem exists_resolveColor {fields : Fields Json} (hc : palette.colors = .object fields)
    (token : String) : ∃ m, palette.resolveColor token = .ok m := by
  obtain ⟨found, hf⟩ := Color.exists_find? fields token
  rw [resolveColor, hc, hf]
  cases found with
  | none => exact ⟨_, rfl⟩
  | some pair => exact ⟨_, rfl⟩

theorem resolveColorOrSpacing_of_color (h : palette.resolveColor token = .ok m)
    (hf : m.found = true) : palette.resolveColorOrSpacing token = .ok m := by
  rw [resolveColorOrSpacing, h]
  exact if_pos hf

theorem found_resolveColorOrSpacing {color : TokenMapping}
    (hc : palette.resolveColor token = .ok color) (h : resolveSpacing token = .ok m)
    (hf : m.found = true) :
    ∃ found, palette.resolveColorOrSpacing token = .ok found ∧ found.found = true := by
  cases hfound : color.found with
  | true => exact ⟨color, resolveColorOrSpacing_of_color hc hfound, hfound⟩
  | false =>
    refine ⟨m, ?_, hf⟩
    rw [resolveColorOrSpacing, hc]
    simp only [bind, Except.bind, hfound, h, hf, Bool.false_eq_true, if_false, if_true]
    rfl

/-- A plain number is a spacing as much as a radius. -/
theorem found_resolveSpacing_of_radius {digits : List Char} (hd : Text.IsRun Text.isDigit digits)
    (ht : token.toList = '$' :: digits) (h : resolveRadius token = .ok m) (hf : m.found = true) :
    ∃ found, resolveSpacing token = .ok found ∧ found.found = true := by
  have hradius : Scale.radiusToken? token.toList = Numeral.readUnsigned? false digits := by
    rw [ht]
    exact Scale.token?_digits (by decide +kernel) (by decide) hd
  have hspacing : Scale.spacingToken? token.toList = Numeral.readUnsigned? false digits := by
    rw [ht]
    exact Scale.token?_digits (by decide +kernel) (by decide) hd
  have hfull : (token == Scale.fullRadiusToken) = false := by
    refine beq_false_of_ne ?_
    rintro rfl
    cases ht
    cases hd.all 'f' List.mem_cons_self
  rw [resolveRadius, hfull, if_neg Bool.false_ne_true, hradius] at h
  rw [resolveSpacing, hspacing]
  cases hn : Numeral.readUnsigned? false digits with
  | none =>
    rw [hn] at h
    cases h
    cases hf
  | some numeral =>
    rw [hn] at h
    obtain ⟨px, hpx, _⟩ := bind_eq_ok h
    dsimp only
    rw [hpx]
    exact ⟨_, rfl, rfl⟩

/-- That a token is found, in the table of a category or without the name of one. -/
def Finds (palette : Palette) (category : Option Category) (token : String) (locale : Locale) :
    Prop :=
  ∃ m, palette.resolve category token locale = .ok m ∧ m.found = true

theorem finds_of_gives {category : Option Category}
    (h : gives TokenMapping.found (palette.resolve category token locale) = true) :
    palette.Finds category token locale :=
  exists_of_gives h

theorem not_finds_of_gives {category : Option Category}
    (h : gives (!·.found) (palette.resolve category token locale) = true) :
    ¬ palette.Finds category token locale := by
  rintro ⟨m, hm, hf⟩
  rw [hm, gives, hf] at h
  cases h

/-- That the form of a token leads to a mapping. -/
def Detects (palette : Palette) (token : String) (locale : Locale) : Prop :=
  ∃ form m, Form.detect? token = some form ∧ palette.resolveForm form token locale = .ok m ∧
    m.found = true

theorem detects_former (h : palette.resolveFormer token locale = .ok m) (hf : m.found = true) :
    palette.Detects token locale := by
  have hbare : (Legacy.colors.lookup token).isSome ∨ (Typeface.former.lookup token).isSome →
      palette.Detects token locale := fun hname => ⟨.former, m, Form.detect?_bare hname, h, hf⟩
  by_cases hk : (Legacy.colorKey? token).isSome
  · cases hr : Legacy.colorRef? token.toList with
    | some word =>
      have hm := (resolveFormer_of_colorKey hk).symm.trans h
      exact ⟨.formerColor, m, Form.detect?_colorRef (by rw [hr]; rfl), hm, hf⟩
    | none =>
      refine hbare (.inl ?_)
      unfold Legacy.colorKey? at hk
      rw [hr, Option.getD_none] at hk
      dsimp only at hk
      split at hk
      next hl => exact hl
      next => cases hk
  · rw [resolveFormer, if_neg hk] at h
    split at h
    next hs =>
      cases hr : Legacy.fontRef? token.toList with
      | some word => exact ⟨.typography, m, Form.detect?_fontRef (by rw [hr]; rfl), h, hf⟩
      | none =>
        rw [hr] at hs
        exact hbare (.inr hs)
    next =>
      cases h
      cases hf

theorem detects_of_shownBy {category : Category} {fields : Fields Json}
    (hc : palette.colors = .object fields) (ht : Text.IsTrimmed token.toList)
    (hs : category.ShownBy token.toList) (h : palette.resolveAs category token locale = .ok m)
    (hf : m.found = true) : palette.Detects token locale := by
  generalize hcs : token.toList = cs at hs
  cases hs with
  | shade hletters hd =>
    exact ⟨.colorOrSpacing, m, Form.detect?_shade hletters hd ht hcs,
      resolveColorOrSpacing_of_color h hf, hf⟩
  | keyword hw =>
    have hform : ∀ word ∈ ["$white", "$black"], Form.detect? word = some .color := by
      decide +kernel
    obtain rfl := String.toList_injective hcs
    exact ⟨.color, m, hform token hw, h, hf⟩
  | @spacing word digits hw hd =>
    by_cases hword : word = ""
    · rw [hword] at hcs
      exact ⟨.spacing, m, Form.detect?_number hd ht hcs, h, hf⟩
    · -- a word before the number makes it look like a shade
      have hwords : ∀ word ∈ ["", "space", "size"], word ≠ "" →
          (!word.toList.isEmpty && word.toList.all Char.isLower) = true := by decide +kernel
      have hrun := Text.isRun_of_all (hwords word hw hword)
      obtain ⟨color, hcolor⟩ := exists_resolveColor hc token
      obtain ⟨found, hfound, hff⟩ := found_resolveColorOrSpacing hcolor h hf
      exact ⟨.colorOrSpacing, found, Form.detect?_shade hrun hd ht hcs, hfound, hff⟩
  | radius hd =>
    obtain ⟨found, hfound, hff⟩ := found_resolveSpacing_of_radius hd hcs h hf
    exact ⟨.spacing, found, Form.detect?_number hd ht hcs, hfound, hff⟩
  | fullRadius =>
    have hform : Form.detect? Scale.fullRadiusToken = some .radius := by decide +kernel
    obtain rfl := String.toList_injective hcs
    exact ⟨.radius, m, hform, h, hf⟩
  | style hn hd hr => exact ⟨.typography, m, Form.detect?_style hn hd hr ht hcs, h, hf⟩
  | reference hw =>
    have href : (Legacy.fontRef? token.toList).isSome := by
      rw [hcs] at ht ⊢
      rw [Legacy.fontRef?_word hw ht]
      rfl
    exact ⟨.typography, m, Form.detect?_fontRef href, h, hf⟩
  | formerStyle hstyle =>
    obtain rfl := String.toList_injective hcs
    have hrefs : ∀ pair ∈ Typeface.former, Legacy.colorRef? pair.1.toList = none ∧
        Legacy.fontRef? pair.1.toList = none := by decide +kernel
    obtain ⟨style, hl⟩ := Option.isSome_iff_exists.mp hstyle
    obtain ⟨hcolor, hfont⟩ := hrefs (token, style) (Fields.mem_of_get? hl)
    dsimp only at hcolor hfont
    have hnamed : (Typeface.former.lookup ((Legacy.fontRef? token.toList).getD token)).isSome := by
      rw [hfont]
      exact hstyle
    have hkey := colorKey?_of_style hcolor hnamed
    exact ⟨.former, m, Form.detect?_bare (.inr hstyle), (resolveFormer_of_style hkey hnamed).trans h,
      hf⟩
  | former => exact detects_former h hf

/-- A token that is found in the table of a category is found without the name of one, if its form
shows the category. -/
theorem finds_of_shownBy {category : Category} {fields : Fields Json}
    (hc : palette.colors = .object fields)
    (hs : category.ShownBy (Text.trim token.toList))
    (h : palette.Finds (some category) token locale) : palette.Finds none token locale := by
  obtain ⟨m, hm, hf⟩ := h
  have ht : Text.IsTrimmed (String.ofList (Text.trim token.toList)).toList := by
    rw [String.toList_ofList]
    exact Text.isTrimmed_trim token.toList
  rw [← String.toList_ofList (l := Text.trim token.toList)] at hs
  obtain ⟨form, found, hd, hfound, hff⟩ := detects_of_shownBy hc ht hs hm hf
  exact ⟨found, (resolve_of_detect? hd).trans hfound, hff⟩

/-- A spacing that looks like a shade of a family in the palette, and a text style. -/
theorem finds_crossed_and_marine :
    (crossed.Finds (some .spacing) " $space8 " (.named "ja") ∧
      crossed.Finds none " $space8 " (.named "ja")) ∧
    marine.Finds (some .typography) "$body7B" (.named "ja") ∧
      marine.Finds none "$body7B" (.named "ja") := by
  have hspacing : crossed.Finds (some .spacing) " $space8 " (.named "ja") :=
    finds_of_gives (by decide +kernel)
  have hstyle : marine.Finds (some .typography) "$body7B" (.named "ja") :=
    finds_of_gives (by decide +kernel)
  have hword : "space" ∈ ["", "space", "size"] := by decide
  have hdigits : Text.IsRun Text.isDigit ['8'] := Text.isRun_of_all (by decide +kernel)
  have hspace : Category.ShownBy .spacing (Text.trim " $space8 ".toList) := .spacing hword hdigits
  have hname : "body" ∈ Typeface.styleNames := by decide
  have hdigit : Text.isDigit '7' = true := by decide
  have hrest : ['B'].all Text.isDigit = false := by decide
  have hbody : Category.ShownBy .typography (Text.trim "$body7B".toList) :=
    .style hname hdigit hrest
  exact ⟨⟨hspacing, finds_of_shownBy rfl hspace hspacing⟩, hstyle,
    finds_of_shownBy rfl hbody hstyle⟩

/-- A palette with one plain colour. -/
def branded : Palette := ⟨.object [("brand", .text "#123456")], design.typography⟩

/-- The name of a colour that only the palette knows shows no table, nor does one without a dollar
sign. -/
theorem names_show_no_table :
    (branded.Finds (some .color) "$brand" (.named "ko") ∧
      ¬ branded.Finds none "$brand" (.named "ko")) ∧
    design.Finds (some .color) "white" (.named "ko") ∧
      ¬ design.Finds none "white" (.named "ko") := by
  exact ⟨⟨finds_of_gives (by decide +kernel), not_finds_of_gives (by decide +kernel)⟩,
    finds_of_gives (by decide +kernel), not_finds_of_gives (by decide +kernel)⟩

end Palette

end Restyle
