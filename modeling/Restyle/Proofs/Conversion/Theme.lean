import Restyle.Program.Run
import Restyle.Proofs.Job
import Restyle.Proofs.Text.Trim
import Restyle.Proofs.Token.Configured

namespace Restyle

/-- That a token has a class among some colours. Blanks around the token do not count. -/
def Color.Names (colors : Json) (token name : String) : Prop :=
  ∃ value, Color.find? colors (String.ofList (Text.trim token.toList)) = .ok (some (name, value))

theorem Color.exists_find? (fields : Fields Json) (token : String) :
    ∃ found, Color.find? (.object fields) token = .ok found := by
  simp only [Color.find?, Json.fields, bind, Except.bind, pure, Except.pure]
  split
  next => exact ⟨_, rfl⟩
  next =>
    split
    next => exact ⟨_, rfl⟩
    next =>
      split
      next => exact ⟨_, rfl⟩
      next => exact ⟨_, rfl⟩

/-- The configuration defines every class that its palette has. -/
theorem Tailwind.exists_colors {palette : Palette} {fields : Fields Json}
    (hf : palette.colors = .object fields) (withLegacy : Bool) :
    ∃ colors, Tailwind.colors palette withLegacy = .ok colors ∧
      ∀ token name, Color.Names palette.colors token name → name ∈ colors.names := by
  have hclasses : Color.classes palette.colors =
      .ok (fields.flatMap fun field => Color.classesOf field.1 field.2) := by
    rw [hf]
    rfl
  refine ⟨_, by rw [Tailwind.colors, hclasses]; rfl, fun token name hname => ?_⟩
  obtain ⟨value, hfind⟩ := hname
  rw [Fields.mem_names_ofPairs, List.map_append]
  exact List.mem_append_left _
    (List.mem_map.mpr ⟨_, Color.mem_classes_of_find? hclasses hfind, rfl⟩)

namespace Palette

theorem exists_colors_of_accept {source : String} {data theme : Json} {palette : Palette}
    (ha : Theme.accept source data = .ok theme) (hp : ofJson theme = .ok palette) :
    ∃ fields, palette.colors = .object fields := by
  have hcolors : ∀ fields, ∃ fields', colorsOr (some (.object fields)) = .object fields' := by
    intro fields
    simp only [colorsOr, orElse]
    split
    next => exact ⟨fields, rfl⟩
    next => exact ⟨Color.design, rfl⟩
  unfold Theme.accept at ha
  split at ha
  next =>
    split at ha
    next colors styles _ _ =>
      cases ha
      cases hp
      exact hcolors colors
    next colors _ _ =>
      cases ha
      cases hp
      exact hcolors colors
    next => cases ha
  next => cases ha

end Palette

namespace Program

variable {memory after : Memory} {common : CommonOptions} {locale : Option String}
  {config : Fields Json}

theorem exists_accept_of_load {source : String} {theme : Json}
    (h : (Theme.load source : Job (StateM Memory) Json) memory = (.ok theme, after)) :
    ∃ data, Theme.accept source data = .ok theme := by
  unfold Theme.load at h
  by_cases ha : Settings.isAddress source = true
  · rw [if_pos ha] at h
    obtain ⟨response, between, _, h⟩ := Job.bind_memory_eq_ok h
    obtain ⟨data, between, _, h⟩ := Job.bind_memory_eq_ok h
    exact ⟨data, (Prod.mk.inj h).1⟩
  · rw [if_neg ha] at h
    obtain ⟨data, between, _, h⟩ := Job.bind_memory_eq_ok h
    exact ⟨data, (Prod.mk.inj h).1⟩

theorem exists_colors_of_load {source : String} {palette : Palette}
    (h : (Theme.load source >>= fun theme => Job.lift (Palette.ofJson theme) :
      Job (StateM Memory) Palette) memory = (.ok palette, after)) :
    ∃ fields, palette.colors = .object fields := by
  obtain ⟨theme, between, hl, hp⟩ := Job.bind_memory_eq_ok h
  obtain ⟨data, ha⟩ := exists_accept_of_load hl
  exact Palette.exists_colors_of_accept ha (Prod.mk.inj hp).1

theorem exists_colors_of_paletteOf {theme : Option String} {palette : Palette}
    (h : (paletteOf theme config : Job (StateM Memory) Palette) memory = (.ok palette, after)) :
    ∃ fields, palette.colors = .object fields := by
  unfold paletteOf at h
  cases hfilled : filled theme with
  | some source =>
    rw [hfilled] at h
    exact exists_colors_of_load h
  | none =>
    rw [hfilled] at h
    obtain ⟨value, between, _, h⟩ := Job.bind_memory_eq_ok h
    by_cases hg : value.given = true
    · simp only [hg, Bool.not_true, Bool.false_eq_true, if_false] at h
      cases value with
      | text source => exact exists_colors_of_load h
      | null | bool _ | whole _ | double _ | list _ | object _ => cases h
    · simp only [hg] at h
      cases h
      exact ⟨Color.design, rfl⟩

/-- Whatever the theme, the rules keep the colours of the design system. -/
theorem converterFor_colors {c : StyleConverter}
    (h : (converterFor common locale config : Job (StateM Memory) StyleConverter) memory =
      (.ok c, after)) :
    (∃ fields, c.palette.colors = .object fields) ∧ c.ruleColors = .object Color.design := by
  obtain ⟨palette, between, hp, h⟩ := Job.bind_memory_eq_ok h
  obtain ⟨locale, between, _, h⟩ := Job.bind_memory_eq_ok h
  cases h
  exact ⟨exists_colors_of_paletteOf hp, rfl⟩

end Program

theorem Text.head?_trim {c : Char} {cs : List Char} (h : cs.head? = some c)
    (hc : isBlank c = false) : (trim cs).head? = some c := by
  obtain ⟨tail, rfl⟩ := List.head?_eq_some_iff.mp h
  have hdrop : (c :: tail).dropWhile isBlank = c :: tail := by simp [hc]
  rw [trim, trimBy, hdrop, dropTrailing, List.head?_reverse, List.reverse_cons,
    List.dropWhile_append]
  split
  next => simp [hc]
  next => simp

theorem Utility.join_injective {stem name other : String} (h : join stem name = join stem other) :
    name = other := by
  have hlist := congrArg String.toList h
  unfold join at hlist
  split at hlist
  next hn =>
    split at hlist
    next ho => rw [eq_of_beq hn, eq_of_beq ho]
    next => simp at hlist
  next =>
    split at hlist
    next => simp at hlist
    next => exact String.toList_injective (by simpa using hlist)

namespace StyleConverter

variable {c : StyleConverter} {property stem token : String}

theorem tokenClasses?_color (hp : Utility.colorStems.lookup property = some stem)
    (ht : token.toList.head? = some '$') {found : Option (String × Json)}
    (hf : Color.find? c.palette.colors (String.ofList (Text.trim token.toList)) = .ok found) :
    c.tokenClasses? property (.text token) =
      .ok (found.map fun (name, _) => [Utility.join stem name]) := by
  have htable : tokenTable? property = some (.color, stem) := by
    have hall : ∀ pair ∈ Utility.colorStems, tokenTable? pair.1 = some (.color, pair.2) := by
      decide +kernel
    exact hall _ (Fields.mem_of_get? hp)
  have hresolve : c.palette.resolve (some .color) token c.locale =
      c.palette.resolveColor (String.ofList (Text.trim token.toList)) := rfl
  unfold tokenClasses?
  rw [htable]
  simp only [ht, beq_self_eq_true, if_true]
  rw [hresolve, Palette.resolveColor, hf]
  cases found with
  | none => rfl
  | some pair => rfl

theorem convert_color (colors : Json) (hp : Utility.colorStems.lookup property = some stem)
    (ht : token.toList.head? = some '$') :
    Rule.convert colors property (.text token) =
      (Color.find? colors (String.ofList (Text.trim token.toList))).map fun found =>
        found.map fun (name, _) => Utility.join stem name := by
  have hrule : Rule.find? property = some (.color stem) := by
    have hall : ∀ pair ∈ Utility.colorStems, Rule.find? pair.1 = some (.color pair.2) := by
      decide +kernel
    exact hall _ (Fields.mem_of_get? hp)
  have hhead : (Text.trim token.toList).head? = some '$' := Text.head?_trim ht rfl
  simp only [Rule.convert, hrule, Json.isShowable, Rule.classOf, Rule.colorClass, Json.display,
    hhead, beq_self_eq_true, if_true]

theorem classesFor_color (hp : Utility.colorStems.lookup property = some stem)
    (ht : token.toList.head? = some '$') {found ruled : Option (String × Json)}
    (hf : Color.find? c.palette.colors (String.ofList (Text.trim token.toList)) = .ok found)
    (hr : Color.find? c.ruleColors (String.ofList (Text.trim token.toList)) = .ok ruled) :
    c.classesFor property (.text token) =
      .ok ((found.or ruled).map fun (name, _) => Utility.join stem name).toList := by
  rw [classesFor, tokenClasses?_color hp ht hf]
  cases found with
  | some pair => rfl
  | none =>
    have hconvert : Rule.convert c.ruleColors property (.text token) =
        .ok (ruled.map fun (name, _) => Utility.join stem name) := by
      rw [convert_color c.ruleColors hp ht, hr]
      rfl
    change (Rule.convert c.ruleColors property (.text token)).bind
      (fun found => .ok found.toList) = _
    rw [hconvert]
    rfl

/-- A token has the class that the palette gives it, else the one of the rules. -/
theorem classesFor_color_iff (hp : Utility.colorStems.lookup property = some stem)
    (ht : token.toList.head? = some '$') {fields rules : Fields Json}
    (hc : c.palette.colors = .object fields) (hr : c.ruleColors = .object rules) {name : String} :
    c.classesFor property (.text token) = .ok [Utility.join stem name] ↔
      Color.Names c.palette.colors token name ∨
        (∀ other, ¬ Color.Names c.palette.colors token other) ∧
          Color.Names c.ruleColors token name := by
  have hsame : ∀ other, Utility.join stem other = Utility.join stem name ↔ other = name :=
    fun other => ⟨Utility.join_injective, fun h => by rw [h]⟩
  obtain ⟨found, hf⟩ := Color.exists_find? fields (String.ofList (Text.trim token.toList))
  obtain ⟨ruled, hrule⟩ := Color.exists_find? rules (String.ofList (Text.trim token.toList))
  rw [← hc] at hf
  rw [← hr] at hrule
  rw [classesFor_color hp ht hf hrule]
  cases found with
  | some pair => simp [Color.Names, hf, hsame, Prod.ext_iff]
  | none =>
    cases ruled with
    | some pair => simp [Color.Names, hf, hrule, hsame, Prod.ext_iff]
    | none => simp [Color.Names, hf, hrule]

/-- Under a theme, a colour token has the class that the theme gives it, and the configuration
defines that class. A token that the theme does not know still has the class of the design system,
if it has one there. With the theme's colours for the rules, every class would be defined. -/
theorem classesFor_themed_color {memory after : Memory} {common : CommonOptions}
    {locale : Option String} {config : Fields Json}
    (h : (Program.converterFor common locale config : Job (StateM Memory) StyleConverter) memory =
      (.ok c, after))
    (hp : Utility.colorStems.lookup property = some stem) (ht : token.toList.head? = some '$')
    (withLegacy : Bool) :
    ∃ colors, Tailwind.colors c.palette withLegacy = .ok colors ∧
      (∀ name, c.classesFor property (.text token) = .ok [Utility.join stem name] ↔
        Color.Names c.palette.colors token name ∨
          (∀ other, ¬ Color.Names c.palette.colors token other) ∧
            Color.Names Palette.design.colors token name) ∧
      (∀ name, Color.Names c.palette.colors token name → name ∈ colors.names) ∧
      ∀ name, { c with ruleColors := c.palette.colors }.classesFor property (.text token) =
        .ok [Utility.join stem name] → name ∈ colors.names := by
  obtain ⟨⟨fields, hfields⟩, hrules⟩ := Program.converterFor_colors h
  obtain ⟨colors, hcolors, hnames⟩ := Tailwind.exists_colors hfields withLegacy
  refine ⟨colors, hcolors, fun name => ?_, fun name => hnames token name, fun name hclass => ?_⟩
  · rw [classesFor_color_iff hp ht hfields hrules, hrules]
    rfl
  · rcases (classesFor_color_iff (c := { c with ruleColors := c.palette.colors }) hp ht
      hfields hfields).mp hclass with hname | ⟨_, hname⟩
    · exact hnames token name hname
    · exact hnames token name hname

/-- A theme with one colour, in a file. -/
def brandMemory : Memory where
  files := .folder [("brand.json",
    .file "\x7b\"colors\": \x7b\"brand\": \"#123456\"\x7d\x7d".toUTF8.toList)]

/-- What the converter of the theme in `brandMemory` is. -/
def brandConverter : Except Fault StyleConverter × Memory :=
  (Program.converterFor ⟨"", some "brand.json", false⟩ none [] :
    Job (StateM Memory) StyleConverter) brandMemory

theorem exists_of_gives_brandConverter {p : StyleConverter → Bool}
    (h : gives p brandConverter.1 = true) :
    ∃ c after, brandConverter = (.ok c, after) ∧ p c = true := by
  obtain ⟨c, hc, hp⟩ := exists_of_gives h
  exact ⟨c, brandConverter.2, Prod.ext hc rfl, hp⟩

/-- A token of the theme, with a blank after it. -/
theorem classesFor_themed_brand :
    ∃ c after, brandConverter = (.ok c, after) ∧
      c.classesFor "borderTopColor" (.text "$brand ") = .ok ["border-t-brand"] ∧
      ∃ colors, Tailwind.colors c.palette true = .ok colors ∧ "brand" ∈ colors.names := by
  obtain ⟨c, after, hc, hp⟩ := exists_of_gives_brandConverter
    (p := fun c => gives (fun found => found.map (·.1) == some "brand")
      (Color.find? c.palette.colors (String.ofList (Text.trim "$brand ".toList))))
    (by decide +kernel)
  obtain ⟨found, hfind, hbrand⟩ := exists_of_gives hp
  obtain ⟨⟨name, value⟩, rfl, rfl⟩ := Option.map_eq_some_iff.mp (eq_of_beq hbrand)
  have hstem : Utility.colorStems.lookup "borderTopColor" = some "border-t" := rfl
  have hdollar : "$brand ".toList.head? = some '$' := rfl
  obtain ⟨colors, hcolors, hiff, hnames, _⟩ := classesFor_themed_color hc hstem hdollar true
  exact ⟨c, after, hc, (hiff _).mpr (.inl ⟨value, hfind⟩), colors, hcolors, hnames _ ⟨value, hfind⟩⟩

/-- The theme does not define the class that a token of the design system has under it. -/
theorem design_color_under_theme :
    ∃ c after, brandConverter = (.ok c, after) ∧
      c.classesFor "backgroundColor" (.text "$coral100") = .ok ["bg-coral-100"] ∧
      ∃ colors, Tailwind.colors c.palette true = .ok colors ∧ "coral-100" ∉ colors.names := by
  obtain ⟨c, after, hc, hp⟩ := exists_of_gives_brandConverter
    (p := fun c =>
      gives (· == ["bg-coral-100"]) (c.classesFor "backgroundColor" (.text "$coral100")) &&
      gives (fun colors => !colors.names.contains "coral-100") (Tailwind.colors c.palette true))
    (by decide +kernel)
  obtain ⟨hclasses, hcolors⟩ := Bool.and_eq_true_iff.mp hp
  obtain ⟨classes, hclass, hsame⟩ := exists_of_gives hclasses
  obtain ⟨colors, hcolors, hname⟩ := exists_of_gives hcolors
  exact ⟨c, after, hc, eq_of_beq hsame ▸ hclass, colors, hcolors, by simpa using hname⟩

end StyleConverter

end Restyle
