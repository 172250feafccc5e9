import Restyle.Proofs.Token.Table

namespace Restyle

namespace Typeface

/-- The fonts of the locale with a name. -/
def fontsOf (name : String) : FontPair := (localeFonts.lookup name).getD korean

theorem fontsOf_of_not_mem {name : String} (h : name ∉ locales) :
    fontsOf name = fontsOf defaultLocale := by
  have hkeys : ∀ pair ∈ localeFonts, pair.1 ∈ locales := by decide
  have hnone : localeFonts.lookup name = none := by
    cases hl : localeFonts.lookup name with
    | none => rfl
    | some fonts => exact absurd (hkeys _ (Fields.mem_of_get? hl)) h
  rw [fontsOf, hnone]
  rfl

/-- How a text style comes to its font: by its weight from those of the locale, or in the same way
everywhere. -/
inductive FontChoice where
  | regular
  | bold
  | fixed (font : String)

namespace FontChoice

def font (fonts : FontPair) : FontChoice → String
  | .regular => fonts.regular
  | .bold => fonts.bold
  | .fixed font => font

def ofWeight : Json → FontChoice
  | .text "bold" => .bold
  | _ => .regular

def ofFormer (font : String) : FontChoice :=
  if font == regularFont then .regular
  else if font == boldFont then .bold
  else .fixed font

end FontChoice

theorem fontForWeight_named (weight : Json) (name : String) :
    fontForWeight weight (.named name) = .ok ((FontChoice.ofWeight weight).font (fontsOf name)) := by
  fun_cases FontChoice.ofWeight weight with
  | case1 => rfl
  | case2 =>
    refine congrArg Except.ok ?_
    split
    next hbold => exact (hbold rfl).elim
    next => rfl

theorem localFont_named (font name : String) :
    localFont font (.named name) = .ok ((FontChoice.ofFormer font).font (fontsOf name)) := by
  unfold localFont FontChoice.ofFormer
  split
  next => rfl
  next =>
    split
    next => rfl
    next => rfl

end Typeface

/-- That two mappings of a token differ at most in the font of a text style. -/
structure TokenMapping.SameButFont (m m' : TokenMapping) : Prop where
  found : m.found = m'.found
  token : m.token = m'.token
  value : m.value = m'.value
  category : m.category = m'.category
  isLegacy : m.isLegacy = m'.isLegacy
  needsConfig : m.needsConfig = m'.needsConfig
  note : m.note = m'.note
  suggestion : m.suggestion = m'.suggestion
  classes : m.classes.map List.tail = m'.classes.map List.tail
  same : m.category ≠ some .typography → m = m'

/-- A mapping for all locales: one that is the same everywhere, or that of a text style, whose classes
start with that of its font. -/
inductive LocalMapping where
  | everywhere (m : TokenMapping)
  | style (m : TokenMapping) (h : m.category = some .typography) (choice : Typeface.FontChoice)
      (others : List String)

namespace LocalMapping

open Typeface

def mapping (fonts : FontPair) : LocalMapping → TokenMapping
  | .everywhere m => m
  | .style m _ choice others =>
    { m with
      className := some (" ".intercalate (fontClass (choice.font fonts) :: others))
      classes := some (fontClass (choice.font fonts) :: others) }

theorem sameButFont_mapping (l : LocalMapping) (fonts fonts' : FontPair) :
    (l.mapping fonts).SameButFont (l.mapping fonts') := by
  cases l with
  | everywhere m => exact ⟨rfl, rfl, rfl, rfl, rfl, rfl, rfl, rfl, rfl, fun _ => rfl⟩
  | style m h choice others =>
    exact ⟨rfl, rfl, rfl, rfl, rfl, rfl, rfl, rfl, rfl, fun hn => absurd h hn⟩

/-- That an outcome in the locale of each name depends on the fonts of the locale only, and that the
fonts only decide about the font of a text style. -/
def Describes (outcome : Except Fault LocalMapping) (f : String → Except Fault TokenMapping) : Prop :=
  ∀ name, f name = outcome.map (·.mapping (fontsOf name))

theorem exists_describes_const (x : Except Fault TokenMapping) :
    ∃ outcome, Describes outcome fun _ => x := by
  refine ⟨x.map .everywhere, fun name => ?_⟩
  cases x with
  | error fault => rfl
  | ok m => rfl

theorem exists_describes_utilities (m : TokenMapping) (h : m.category = some .typography)
    (choice : FontChoice) (size height weight spacing : Json) :
    ∃ outcome, Describes outcome fun name =>
      (utilities (choice.font (fontsOf name)) size height weight spacing).bind fun classes =>
        .ok { m with className := some (" ".intercalate classes), classes := some classes } := by
  refine ⟨(measureClasses size height weight spacing).map (.style m h choice), fun name => ?_⟩
  simp only [utilities]
  cases measureClasses size height weight spacing with
  | error fault => rfl
  | ok others => rfl

theorem exists_describes_bind {α : Type} {f : α → String → Except Fault TokenMapping}
    (h : ∀ a, ∃ outcome, Describes outcome (f a)) (x : Except Fault α) :
    ∃ outcome, Describes outcome fun name => x.bind (f · name) := by
  cases x with
  | error fault => exact ⟨.error fault, fun _ => rfl⟩
  | ok a => exact h a

end LocalMapping

namespace Palette

open LocalMapping Typeface

variable (palette : Palette) (token : String)

theorem exists_describes_styleMapping (entry : Json) :
    ∃ outcome, Describes outcome fun name => styleMapping token entry (.named name) := by
  refine exists_describes_bind (fun weight => ?_) (entry.field? "weight")
  simp only [fontForWeight_named]
  refine exists_describes_bind (fun size => ?_) (entry.field "fontSize")
  refine exists_describes_bind (fun height => ?_) (entry.field "lineHeight")
  refine exists_describes_bind (fun spacing => ?_) (entry.field? "letterSpacing")
  exact exists_describes_utilities
    { token
      value := .text (size.display ++ "px/" ++ height.display ++ "px")
      category := some .typography
      needsConfig := true } rfl _ size height _ _

theorem exists_describes_formerStyleMapping (style : FormerStyle) :
    ∃ outcome, Describes outcome fun name => formerStyleMapping token style (.named name) := by
  simp only [formerStyleMapping, localFont_named]
  exact exists_describes_utilities
    { token
      value := .text (toString style.size ++ "px/" ++ toString style.height ++ "px")
      category := some .typography
      isLegacy := true
      needsConfig := true
      note := some "Legacy typography token; prefer a design-system typography token" } rfl _ _ _ _ _

theorem exists_describes_resolveTypography :
    ∃ outcome, Describes outcome fun name => palette.resolveTypography token (.named name) := by
  refine exists_describes_bind (fun entry => ?_) (palette.typography.field? token)
  generalize entry.getD .null = entry
  cases entry with
  | null =>
    cases former.lookup ((Legacy.fontRef? token.toList).getD token) with
    | none => exact exists_describes_const _
    | some style => exact exists_describes_formerStyleMapping token style
  | _ => exact exists_describes_styleMapping token _

theorem exists_describes_resolveFormer :
    ∃ outcome, Describes outcome fun name => palette.resolveFormer token (.named name) := by
  unfold resolveFormer
  split
  next => exact exists_describes_const _
  next =>
    split
    next => exact palette.exists_describes_resolveTypography token
    next => exact exists_describes_const _

theorem exists_describes_resolveAs (category : Category) :
    ∃ outcome, Describes outcome fun name => palette.resolveAs category token (.named name) := by
  cases category with
  | typography => exact palette.exists_describes_resolveTypography token
  | legacy => exact palette.exists_describes_resolveFormer token
  | _ => exact exists_describes_const _

theorem exists_describes_resolveForm (form : Form) :
    ∃ outcome, Describes outcome fun name => palette.resolveForm form token (.named name) := by
  cases form with
  | typography => exact palette.exists_describes_resolveTypography token
  | former => exact palette.exists_describes_resolveFormer token
  | _ => exact exists_describes_const _

theorem exists_describes_detected :
    ∃ outcome, Describes outcome fun name => palette.resolve none token (.named name) := by
  cases hd : Form.detect? (String.ofList (Text.trim token.toList)) with
  | some form =>
    simp only [resolve_of_detect? hd]
    exact palette.exists_describes_resolveForm _ form
  | none =>
    unfold resolve
    simp -iota only [hd]
    exact exists_describes_const _

theorem exists_describes_resolveNamed (category : String) :
    ∃ outcome, Describes outcome fun name =>
      palette.resolveNamed category token (.named name) := by
  unfold resolveNamed
  split
  next => exact palette.exists_describes_detected token
  next =>
    split
    next category _ => exact palette.exists_describes_resolveAs _ category
    next => exact exists_describes_const _

/-- That two outcomes are the same fault, or mappings that differ at most in a font. -/
def SameButFont : Except Fault TokenMapping → Except Fault TokenMapping → Prop
  | .ok m, .ok m' => m.SameButFont m'
  | .error fault, .error fault' => fault = fault'
  | _, _ => False

/-- In two locales a token has the same mapping up to the font of a text style, or the same fault. A
locale that is not known is as good as the default. -/
theorem resolveNamed_in_locales (category : String) :
    (∀ name name', SameButFont (palette.resolveNamed category token (.named name))
      (palette.resolveNamed category token (.named name'))) ∧
    ∀ name, name ∉ locales → palette.resolveNamed category token (.named name) =
      palette.resolveNamed category token (.named defaultLocale) := by
  obtain ⟨outcome, h⟩ := palette.exists_describes_resolveNamed token category
  have h : ∀ name, palette.resolveNamed category token (.named name) =
      outcome.map (·.mapping (fontsOf name)) := h
  constructor
  · intro name name'
    rw [h name, h name']
    cases outcome with
    | error fault => rfl
    | ok l => exact l.sameButFont_mapping _ _
  · intro name hn
    rw [h name, h defaultLocale, fontsOf_of_not_mem hn]

/-- A former text style is bold in both locales, each with a font of its own, and `xx` is no
locale. -/
theorem heading1_in_locales :
    ∃ m m', design.resolveNamed "" "theme.fonts.heading1" (.named "ja") = .ok m ∧
      design.resolveNamed "" "theme.fonts.heading1" (.named "xx") = .ok m' ∧
      m.category = some .typography ∧ m.classes ≠ m'.classes ∧ m.SameButFont m' ∧
      "xx" ∉ locales ∧ design.resolveNamed "" "theme.fonts.heading1" (.named "ko") = .ok m' := by
  obtain ⟨hsame, hunknown⟩ := design.resolveNamed_in_locales "theme.fonts.heading1" ""
  have hja : gives (fun m => m.category == some .typography &&
      (m.classes.bind List.head?) == some "font-body-ja-bold")
      (design.resolveNamed "" "theme.fonts.heading1" (.named "ja")) = true := by decide +kernel
  have hxx : gives (fun m => (m.classes.bind List.head?) == some "font-body-ko-bold")
      (design.resolveNamed "" "theme.fonts.heading1" (.named "xx")) = true := by decide +kernel
  have hnot : "xx" ∉ locales := by decide
  obtain ⟨m, hm, hq⟩ := exists_of_gives hja
  obtain ⟨m', hm', hq'⟩ := exists_of_gives hxx
  rw [Bool.and_eq_true, beq_iff_eq, beq_iff_eq] at hq
  rw [beq_iff_eq] at hq'
  have hpair := hsame "ja" "xx"
  rw [hm, hm'] at hpair
  refine ⟨m, m', hm, hm', hq.1, ?_, hpair, hnot, (hunknown "xx" hnot).symm.trans hm'⟩
  intro he
  rw [he, hq'] at hq
  exact absurd hq.2 (by decide)

end Palette

end Restyle
