import Restyle.Proofs.Token.Configured

namespace Restyle

/-- The table in which a token that is found stands. -/
def TokenMapping.table (m : TokenMapping) : Option Category :=
  if m.isLegacy then some .legacy else m.category

namespace Palette

variable {palette : Palette} {token : String} {locale : Locale} {m : TokenMapping}

theorem table_of_resolveColor (h : palette.resolveColor token = .ok m) :
    m.table = some .color := by
  obtain ⟨found, _, h⟩ := bind_eq_ok h
  cases found with
  | none =>
    cases h
    rfl
  | some pair =>
    cases h
    rfl

theorem IsOfDesign.table_eq {category : Category} (h : IsOfDesign m category) :
    m.table = some category := by
  rw [TokenMapping.table, h.not_legacy, if_neg Bool.false_ne_true, h.category_eq]

theorem table_resolveFormerColor (h : (resolveFormerColor token).found = true) :
    (resolveFormerColor token).table = some .legacy ∧ (Legacy.colorKey? token).isSome := by
  unfold resolveFormerColor at h ⊢
  split
  next hk =>
    rw [hk] at h
    cases h
  next key hk => exact ⟨if_pos rfl, by rw [hk]; rfl⟩

/-- A text style of the palette stands in the table of its own, and one of the former theme also
goes by its bare name. -/
theorem table_of_resolveTypography (h : palette.resolveTypography token locale = .ok m)
    (hf : m.found = true) :
    m.table = some .typography ∨ m.table = some .legacy ∧
      (Typeface.former.lookup ((Legacy.fontRef? token.toList).getD token)).isSome := by
  obtain ⟨_, font, hstyled, _, hformer⟩ := resolveTypography_cases h hf
  cases hl : m.isLegacy with
  | true => exact .inr ⟨by rw [TokenMapping.table, if_pos hl], hformer hl⟩
  | false => exact .inl (IsOfDesign.table_eq ⟨hstyled.category_eq, hl⟩)

theorem resolveFormer_of_colorKey (h : (Legacy.colorKey? token).isSome) :
    palette.resolveFormer token locale = .ok (resolveFormerColor token) :=
  if_pos h

theorem resolveFormer_of_style (hc : Legacy.colorKey? token = none)
    (hs : (Typeface.former.lookup ((Legacy.fontRef? token.toList).getD token)).isSome) :
    palette.resolveFormer token locale = palette.resolveTypography token locale := by
  have hor : ((Legacy.fontRef? token.toList).isSome ||
      (Typeface.former.lookup token).isSome) = true := by
    cases hr : Legacy.fontRef? token.toList with
    | some word => rfl
    | none =>
      rw [hr] at hs
      exact hs
  rw [resolveFormer, hc, Option.isSome_none, if_neg Bool.false_ne_true, if_pos hor]

/-- No former text style has the name of a former colour. -/
theorem colorKey?_of_style (hr : Legacy.colorRef? token.toList = none)
    (hs : (Typeface.former.lookup ((Legacy.fontRef? token.toList).getD token)).isSome) :
    Legacy.colorKey? token = none := by
  have hall : ∀ pair ∈ Legacy.colors, Legacy.fontRef? pair.1.toList = none ∧
      Typeface.former.lookup pair.1 = none := by decide +kernel
  have hnone : Legacy.colors.lookup token = none := by
    cases hl : Legacy.colors.lookup token with
    | none => rfl
    | some value =>
      obtain ⟨hfont, hstyle⟩ := hall _ (Fields.mem_of_get? hl)
      dsimp only at hfont hstyle
      rw [hfont, Option.getD_none, hstyle] at hs
      cases hs
  simp only [Legacy.colorKey?, hr, Option.getD_none, hnone, Option.isSome_none]
  rfl

theorem colorRef?_of_detect? {form : Form} (h : Form.detect? token = some form)
    (hne : form ≠ .formerColor) : Legacy.colorRef? token.toList = none := by
  cases hr : Legacy.colorRef? token.toList with
  | none => rfl
  | some word =>
    simp only [Form.detect?, hr, Option.isSome_some, if_true, Option.some.injEq] at h
    exact absurd h.symm hne

/-- That a mapping is the one that its own table gives for the token. -/
def IsTabled (palette : Palette) (token : String) (locale : Locale) (m : TokenMapping) : Prop :=
  ∃ category, m.table = some category ∧ palette.resolveAs category token locale = .ok m

theorem isTabled_of_resolveTypography (h : palette.resolveTypography token locale = .ok m)
    (hf : m.found = true) (hr : Legacy.colorRef? token.toList = none) :
    palette.IsTabled token locale m := by
  rcases table_of_resolveTypography h hf with ht | ⟨ht, hs⟩
  · exact ⟨.typography, ht, h⟩
  · have hc := colorKey?_of_style hr hs
    exact ⟨.legacy, ht, (resolveFormer_of_style hc hs).trans h⟩

theorem isTabled_of_resolveColorOrSpacing (h : palette.resolveColorOrSpacing token = .ok m)
    (hf : m.found = true) : palette.IsTabled token locale m := by
  obtain ⟨color, hc, h⟩ := bind_eq_ok h
  split at h
  next =>
    cases h
    exact ⟨.color, table_of_resolveColor hc, hc⟩
  next =>
    obtain ⟨spacing, hs, h⟩ := bind_eq_ok h
    split at h
    next =>
      cases h
      exact ⟨.spacing, (isOfDesign_of_resolveSpacing hs).table_eq, hs⟩
    next =>
      cases h
      cases hf

theorem isTabled_of_resolveFormer (h : palette.resolveFormer token locale = .ok m)
    (hf : m.found = true) : palette.IsTabled token locale m := by
  have hlegacy : palette.resolveAs .legacy token locale = .ok m := h
  unfold resolveFormer at h
  split at h
  next =>
    have hm : resolveFormerColor token = m := Except.ok.inj h
    subst hm
    exact ⟨.legacy, (table_resolveFormerColor hf).1, hlegacy⟩
  next =>
    split at h
    next =>
      -- a style of the palette with a former name is in the palette's own table
      rcases table_of_resolveTypography h hf with ht | ⟨ht, _⟩
      · exact ⟨.typography, ht, h⟩
      · exact ⟨.legacy, ht, hlegacy⟩
    next =>
      cases h
      cases hf

theorem isTabled_of_resolveForm {form : Form} (hd : Form.detect? token = some form)
    (h : palette.resolveForm form token locale = .ok m) (hf : m.found = true) :
    palette.IsTabled token locale m := by
  cases form with
  | formerColor =>
    have hm : resolveFormerColor token = m := Except.ok.inj h
    subst hm
    obtain ⟨ht, hk⟩ := table_resolveFormerColor hf
    exact ⟨.legacy, ht, resolveFormer_of_colorKey hk⟩
  | typography =>
    have hr := colorRef?_of_detect? hd (by decide)
    exact isTabled_of_resolveTypography h hf hr
  | colorOrSpacing => exact isTabled_of_resolveColorOrSpacing h hf
  | spacing => exact ⟨.spacing, (isOfDesign_of_resolveSpacing h).table_eq, h⟩
  | radius => exact ⟨.radius, (isOfDesign_of_resolveRadius h).table_eq, h⟩
  | color => exact ⟨.color, table_of_resolveColor h, h⟩
  | former => exact isTabled_of_resolveFormer h hf

theorem resolve_of_detect? {form : Form}
    (hd : Form.detect? (String.ofList (Text.trim token.toList)) = some form) :
    palette.resolve none token locale =
      palette.resolveForm form (String.ofList (Text.trim token.toList)) locale := by
  unfold resolve
  -- the forms of a token are not to be evaluated here
  simp -iota only [hd]
  rfl

theorem resolve_of_detect?_eq_none (palette : Palette) (locale : Locale)
    (hd : Form.detect? (String.ofList (Text.trim token.toList)) = none) :
    ∃ note, palette.resolve none token locale =
      .ok (.unknown (String.ofList (Text.trim token.toList)) none note) := by
  unfold resolve
  simp -iota only [hd]
  exact ⟨_, rfl⟩

theorem isTabled_of_resolve (h : palette.resolve none token locale = .ok m)
    (hf : m.found = true) :
    palette.IsTabled (String.ofList (Text.trim token.toList)) locale m := by
  cases hd : Form.detect? (String.ofList (Text.trim token.toList)) with
  | some form =>
    rw [resolve_of_detect? hd] at h
    exact isTabled_of_resolveForm hd h hf
  | none =>
    obtain ⟨note, hu⟩ := resolve_of_detect?_eq_none palette locale hd
    cases hu.symm.trans h
    cases hf

theorem resolveNamed_name (category : Category) :
    palette.resolveNamed category.name token locale =
      palette.resolveAs category (String.ofList (Text.trim token.toList)) locale := by
  have hne : (category.name == "") = false := by cases category <;> rfl
  rw [resolveNamed, hne, if_neg Bool.false_ne_true, Category.named?_name]
  rfl

/-- A token that is found without the name of a table has the same mapping in its own table, which
is the one of former tokens if it is such a token, and else the one of its category. -/
theorem resolveNamed_own_table (h : palette.resolveNamed "" token locale = .ok m)
    (hf : m.found = true) :
    palette.resolveNamed (if m.isLegacy then Category.legacy.name else m.categoryName) token locale =
      .ok m := by
  rw [resolveNamed, if_pos (beq_self_eq_true "")] at h
  obtain ⟨category, ht, ha⟩ := isTabled_of_resolve h hf
  have hname : (if m.isLegacy then Category.legacy.name else m.categoryName) = category.name := by
    unfold TokenMapping.table at ht
    split at ht
    next hl =>
      cases ht
      exact if_pos hl
    next hl =>
      rw [if_neg hl, TokenMapping.categoryName, ht]
      rfl
  rw [hname, resolveNamed_name]
  exact ha

/-- A palette that gives names of other tables a meaning of its own. -/
def crossed : Palette where
  colors := .object [("space", Color.shades [("4", "#111111")]), ("mono900", .text "#222222")]
  typography := .object [("heading1", Typeface.style 18 26 "bold")]

/-- That a token is found without the name of a table and has the same mapping in a table. -/
def IsOwnTable (palette : Palette) (token table : String) (locale : Locale) : Prop :=
  ∃ m, palette.resolveNamed "" token locale = .ok m ∧ m.found = true ∧
    palette.resolveNamed table token locale = .ok m

theorem crossed_own_tables :
    crossed.IsOwnTable " $space4 " "color" (.named "ja") ∧
    crossed.IsOwnTable "$space8" "spacing" (.named "ja") ∧
    crossed.IsOwnTable "heading1" "typography" (.named "ja") ∧
    crossed.IsOwnTable "mono900" "legacy" (.named "ja") ∧
    crossed.IsOwnTable "theme.fonts.heading1" "legacy" (.named "ja") := by
  have hown : ∀ token table, gives
      (fun m => m.found && (if m.isLegacy then "legacy" else m.categoryName) == table)
      (crossed.resolveNamed "" token (.named "ja")) = true →
      crossed.IsOwnTable token table (.named "ja") := by
    intro token table h
    obtain ⟨m, hm, hq⟩ := exists_of_gives h
    rw [Bool.and_eq_true, beq_iff_eq] at hq
    have htable := resolveNamed_own_table hm hq.1
    exact ⟨m, hm, hq.1, hq.2 ▸ htable⟩
  exact ⟨hown _ _ (by decide +kernel), hown _ _ (by decide +kernel), hown _ _ (by decide +kernel),
    hown _ _ (by decide +kernel), hown _ _ (by decide +kernel)⟩

end Palette

end Restyle
