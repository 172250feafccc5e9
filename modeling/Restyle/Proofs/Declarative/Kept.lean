import Restyle.Proofs.Declarative.Hit
import Restyle.Proofs.Expression.Nameless
import Restyle.Proofs.Fields
import Restyle.Proofs.Migration.Lookup

namespace Restyle

namespace DeclarativePattern

/-- An entry of an object as a style, unless it has no value, an object as its value, or the key of a
setting. -/
def styleText? (entry : List Char × Option (List Char)) : Option (String × List Char) :=
  match entry with
  | (_, none) => none
  | (key, some raw) =>
    if settingKeys.contains (String.ofList key) || isObjectText raw then none
    else some (String.ofList key, raw)

/-- The value of a style that is a literal or a static expression. -/
def staticValue? (raw : List Char) : Option Json :=
  match Expression.literal? raw with
  | .ok (some value) => some value
  | _ => if (Expression.classify raw).isStatic then some (.text (String.ofList raw)) else none

/-- The static styles among the entries of an object. -/
def staticStyles (found : List (List Char × Option (List Char))) : List (String × Json) :=
  (found.filterMap styleText?).filterMap fun style => (staticValue? style.2).map (style.1, ·)

/-- The styles among the entries of an object that are known at run time only. -/
def runtimeStyles (found : List (List Char × Option (List Char))) : List (String × List Char) :=
  (found.filterMap styleText?).filter fun style => (staticValue? style.2).isNone

/-- The names that an entry of an object refers to. -/
def entryBindings (entry : List Char × Option (List Char)) : List String :=
  match entry.2 with
  | none => [bindingName entry.1]
  | some _ =>
    (runtimeStyles [entry]).flatMap fun style => (Expression.classify style.2).dependencies

variable {key raw : List Char}

theorem styleText?_of_setting
    (h : (settingKeys.contains (String.ofList key) || isObjectText raw) = true) :
    styleText? (key, some raw) = none := by
  rw [styleText?, if_pos h]

theorem styleText?_of_style
    (h : (settingKeys.contains (String.ofList key) || isObjectText raw) = false) :
    styleText? (key, some raw) = some (String.ofList key, raw) := by
  rw [styleText?, if_neg (by rw [h]; exact Bool.false_ne_true)]

/-- That what is read from an object has grown by some static styles, by some styles that are known at
run time only, and by some names. -/
structure Config.Grows (config next : Config) (styles : List (String × Json))
    (runtime : List (String × List Char)) (bindings : List String) : Prop where
  styles : next.styles = styles.foldl (fun fields (name, value) => fields.put name value)
    config.styles
  dynamicStyles : next.dynamicStyles =
    (runtime.map fun style => (style.1, String.ofList style.2)).foldl
      (fun fields (name, value) => fields.put name value) config.dynamicStyles
  bindings : next.bindings = config.bindings ++ bindings

theorem Config.Grows.append {config next last : Config} {styles styles' : List (String × Json)}
    {runtime runtime' : List (String × List Char)} {bindings bindings' : List String}
    (h : config.Grows next styles runtime bindings)
    (h' : next.Grows last styles' runtime' bindings') :
    config.Grows last (styles ++ styles') (runtime ++ runtime') (bindings ++ bindings') := by
  constructor
  · rw [h'.styles, h.styles, List.foldl_append]
  · rw [h'.dynamicStyles, h.dynamicStyles, List.map_append, List.foldl_append]
  · rw [h'.bindings, h.bindings, List.append_assoc]

/-- A setting or an object changes nothing but the variants. -/
theorem grows_add_of_setting {config next : Config}
    (hk : (settingKeys.contains (String.ofList key) || isObjectText raw) = true)
    (h : config.add key (some raw) = .ok next) : config.Grows next [] [] [] := by
  have hsame : ∀ variants, config.Grows { config with variants } [] [] [] :=
    fun variants => ⟨rfl, rfl, (List.append_nil _).symm⟩
  unfold Config.add at h
  dsimp only at h
  split at h
  next =>
    split at h
    next =>
      obtain ⟨variants, -, h⟩ := bind_eq_ok h
      cases h
      exact hsame variants
    next =>
      cases h
      exact hsame config.variants
  next =>
    cases h
    exact hsame config.variants

theorem grows_add_of_style {config next : Config}
    (hk : (settingKeys.contains (String.ofList key) || isObjectText raw) = false)
    (h : config.add key (some raw) = .ok next) :
    (∃ value, staticValue? raw = some value ∧
      config.Grows next [(String.ofList key, value)] [] []) ∨
    (staticValue? raw = none ∧
      config.Grows next [] [(String.ofList key, raw)] (Expression.classify raw).dependencies) := by
  have hvariants : (String.ofList key == "variants") = false := by
    rw [beq_eq_false_iff_ne]
    intro he
    rw [he] at hk
    cases hk
  have hnone := List.append_nil config.bindings
  unfold Config.add at h
  simp only [hvariants, hk, Bool.false_eq_true, if_false] at h
  obtain ⟨value, hl, h⟩ := bind_eq_ok h
  cases value with
  | some value =>
    cases h
    exact .inl ⟨value, by simp only [staticValue?, hl], rfl, rfl, hnone.symm⟩
  | none =>
    cases hs : (Expression.classify raw).isStatic with
    | true =>
      simp only [hs, if_true] at h
      cases h
      exact .inl ⟨_, by simp only [staticValue?, hl, hs, if_true], rfl, rfl, hnone.symm⟩
    | false =>
      simp only [hs, Bool.false_eq_true, if_false] at h
      cases h
      exact .inr ⟨by simp only [staticValue?, hl, hs, Bool.false_eq_true, if_false], rfl, rfl, rfl⟩

/-- One entry of an object is read. -/
theorem grows_add {config next : Config} {entry : List Char × Option (List Char)}
    (h : config.add entry.1 entry.2 = .ok next) :
    config.Grows next (staticStyles [entry]) (runtimeStyles [entry]) (entryBindings entry) := by
  obtain ⟨key, _ | raw⟩ := entry
  · cases h
    exact ⟨rfl, rfl, rfl⟩
  cases hk : settingKeys.contains (String.ofList key) || isObjectText raw with
  | true =>
    have hgrows := grows_add_of_setting hk h
    simpa [staticStyles, runtimeStyles, entryBindings, styleText?_of_setting hk] using hgrows
  | false =>
    rcases grows_add_of_style hk h with ⟨value, hv, hgrows⟩ | ⟨hv, hgrows⟩
    · simpa [staticStyles, runtimeStyles, entryBindings, styleText?_of_style hk, hv] using hgrows
    · simpa [staticStyles, runtimeStyles, entryBindings, styleText?_of_style hk, hv] using hgrows

/-- All entries of an object are read. -/
theorem grows_foldlM_add {config next : Config} {found : List (List Char × Option (List Char))}
    (h : found.foldlM (fun config (key, raw) => config.add key raw) config = .ok next) :
    config.Grows next (staticStyles found) (runtimeStyles found)
      (found.flatMap entryBindings) := by
  induction found generalizing config with
  | nil =>
    cases h
    exact ⟨rfl, rfl, (List.append_nil _).symm⟩
  | cons entry found ih =>
    rw [List.foldlM_cons] at h
    obtain ⟨middle, hadd, h⟩ := bind_eq_ok h
    have hgrows := (grows_add hadd).append (ih h)
    have hstatic : staticStyles (entry :: found) = staticStyles [entry] ++ staticStyles found := by
      rw [← List.singleton_append, staticStyles, List.filterMap_append, List.filterMap_append]
      rfl
    have hruntime : runtimeStyles (entry :: found) =
        runtimeStyles [entry] ++ runtimeStyles found := by
      rw [← List.singleton_append, runtimeStyles, List.filterMap_append, List.filter_append]
      rfl
    rwa [hstatic, hruntime, List.flatMap_cons]

/-- What is read from an object is read from its entries. -/
theorem parseConfig_eq_ok {object : List Char} {config : Config}
    (h : parseConfig object = .ok config) :
    ∃ found, entries object = .ok found ∧
      config.styles = Fields.ofPairs (staticStyles found) ∧
      config.dynamicStyles = Fields.ofPairs
        ((runtimeStyles found).map fun style => (style.1, String.ofList style.2)) ∧
      config.bindings = (found.flatMap entryBindings).eraseDups := by
  obtain ⟨found, hfound, h⟩ := bind_eq_ok h
  obtain ⟨read, hread, h⟩ := bind_eq_ok h
  cases h
  have hgrows := grows_foldlM_add hread
  have hbindings : read.bindings = found.flatMap entryBindings := hgrows.bindings
  exact ⟨found, hfound, hgrows.styles, hgrows.dynamicStyles, by rw [hbindings]⟩

theorem mem_runtimeStyles {found : List (List Char × Option (List Char))}
    {style : String × List Char} (h : style ∈ runtimeStyles found) :
    ∃ entry ∈ found, style ∈ runtimeStyles [entry] := by
  obtain ⟨hm, hnone⟩ := List.mem_filter.mp h
  obtain ⟨entry, hentry, he⟩ := List.mem_filterMap.mp hm
  refine ⟨entry, hentry, List.mem_filter.mpr ⟨?_, hnone⟩⟩
  exact List.mem_filterMap.mpr ⟨entry, List.mem_singleton_self entry, he⟩

/-- That the text of a style is no literal, and that it is known at run time only although no name is
read from it. -/
structure IsLost (raw : List Char) : Prop where
  literal : ∀ value, Expression.literal? raw ≠ .ok (some value)
  plain : Expression.isPlainLiteral (Expression.unwrap raw) = false
  nameless : Expression.IsNameless raw

theorem staticValue?_eq_none_iff : staticValue? raw = none ↔
    (∀ value, Expression.literal? raw ≠ .ok (some value)) ∧
      (Expression.classify raw).isStatic = false := by
  unfold staticValue?
  split
  next value hl => simp [hl]
  next hl =>
    have hliteral : ∀ value, Expression.literal? raw ≠ .ok (some value) := hl
    cases hs : (Expression.classify raw).isStatic with
    | true => simp
    | false => simpa using hliteral

/-- If an object refers to no names, then the styles without a static value are the ones that are
lost. -/
theorem staticValue?_eq_none_iff_isLost {found : List (List Char × Option (List Char))}
    (hb : found.flatMap entryBindings = []) {style : String × List Char}
    (hs : style ∈ found.filterMap styleText?) :
    staticValue? style.2 = none ↔ IsLost style.2 := by
  constructor
  · intro hnone
    have hm : style ∈ runtimeStyles found :=
      List.mem_filter.mpr ⟨hs, Option.isNone_iff_eq_none.mpr hnone⟩
    obtain ⟨⟨key, raw⟩, hentry, hm⟩ := mem_runtimeStyles hm
    have hnil := List.flatMap_eq_nil_iff.mp hb _ hentry
    have hdependencies : (Expression.classify style.2).dependencies = [] := by
      cases raw with
      | none => cases hm
      | some raw => exact List.flatMap_eq_nil_iff.mp hnil style hm
    obtain ⟨hliteral, hstatic⟩ := staticValue?_eq_none_iff.mp hnone
    obtain ⟨hplain, hnameless⟩ := (Expression.nameless_iff _).mp ⟨hstatic, hdependencies⟩
    exact ⟨hliteral, hplain, hnameless⟩
  · rintro ⟨hliteral, hplain, hnameless⟩
    have hstatic := ((Expression.nameless_iff _).mpr ⟨hplain, hnameless⟩).1
    exact staticValue?_eq_none_iff.mpr ⟨hliteral, hstatic⟩

theorem mem_names_staticStyles {found : List (List Char × Option (List Char))}
    {style : String × List Char} (hs : style ∈ found.filterMap styleText?)
    (h : staticValue? style.2 ≠ none) : style.1 ∈ (staticStyles found).map (·.1) := by
  obtain ⟨value, hv⟩ := Option.ne_none_iff_exists'.mp h
  refine List.mem_map.mpr ⟨(style.1, value), List.mem_filterMap.mpr ⟨style, hs, ?_⟩, rfl⟩
  rw [hv, Option.map_some]

/-- That a component is defined in a source text by an object with some entries. -/
def IsDefinedBy (source : List Char) (found : List (List Char × Option (List Char)))
    (p : DeclarativePattern) : Prop :=
  ∃ hit ∈ Scan.findAll Header.declarative? source, ∃ object rest config,
    Scan.takeBraces? ('{' :: hit.rest) = some (object, rest) ∧ entries object = .ok found ∧
    p = ofObject source hit object config rest

/-- The styles of a component that is automatic are the static ones among the entries of its
object. -/
theorem exists_entries_of_automatic {source : List Char} {patterns : List DeclarativePattern}
    {p : DeclarativePattern} (h : parse source = .ok patterns) (hp : p ∈ patterns)
    (ha : p.isAutoConvertible = true) :
    ∃ found, IsDefinedBy source found p ∧ p.styles = Fields.ofPairs (staticStyles found) ∧
      p.dynamicStyles = Fields.ofPairs
        ((runtimeStyles found).map fun style => (style.1, String.ofList style.2)) ∧
      found.flatMap entryBindings = [] := by
  simp only [isAutoConvertible, Bool.and_eq_true, Bool.not_eq_true', List.isEmpty_iff] at ha
  obtain ⟨⟨hf, hb⟩, -⟩ := ha
  obtain ⟨hit, hhit, hread⟩ := exists_of_mem_mapM h hp
  obtain ⟨object, config, rest, hobject, hconfig, rfl⟩ := ofHit_eq_ok hread hf
  obtain ⟨found, hfound, hstyles, hdynamic, hbindings⟩ := parseConfig_eq_ok hconfig
  refine ⟨found, ⟨hit, hhit, object, rest, config, hobject, hfound, rfl⟩, hstyles, hdynamic, ?_⟩
  rw [← eraseDups_eq_nil_iff, ← hbindings]
  exact hb

end DeclarativePattern

namespace StyleConverter

/-- The text that replaces a component. -/
def replacementText (component base : String) (classes unmapped : List String) : String :=
  "\n".intercalate
    (["// Replace " ++ component ++ " with:"] ++
      (if unmapped.isEmpty then [] else ["// Unmapped: " ++ ", ".intercalate unmapped]) ++
      [openTag (elementFor base) classes])

/-- That each one of some styles has its classes among `classes` or its name among `unmapped`, and
that nothing else stands there. -/
structure Lists (c : StyleConverter) (styles : Fields Json) (classes unmapped : List String) :
    Prop where
  kept : ∀ style ∈ styles, ∃ own, c.classesFor style.1 style.2 = .ok own ∧
    (own ≠ [] ∧ own ⊆ classes ∨ own = [] ∧ style.1 ∈ unmapped)
  classes : ∀ name ∈ classes, ∃ style ∈ styles, ∃ own,
    c.classesFor style.1 style.2 = .ok own ∧ name ∈ own
  unmapped : ∀ name ∈ unmapped, ∃ style ∈ styles, style.1 = name ∧
    c.classesFor style.1 style.2 = .ok []

theorem lists_of_classesForStyles {c : StyleConverter} {styles : Fields Json}
    {classes unmapped : List String} (h : c.classesForStyles styles = .ok (classes, unmapped)) :
    c.Lists styles classes unmapped := by
  obtain ⟨found, hfound, h⟩ := bind_eq_ok h
  cases h
  have hone : ∀ entry ∈ found, ∃ style ∈ styles, style.1 = entry.1 ∧
      c.classesFor style.1 style.2 = .ok entry.2 := by
    intro entry hm
    obtain ⟨style, hs, he⟩ := exists_of_mem_mapM hfound hm
    obtain ⟨own, hown, rfl⟩ := map_eq_ok he
    exact ⟨style, hs, rfl, hown⟩
  constructor
  · intro style hs
    obtain ⟨entry, hm, he⟩ := exists_mem_of_mapM hfound hs
    obtain ⟨own, hown, rfl⟩ := map_eq_ok he
    refine ⟨own, hown, ?_⟩
    by_cases hnil : own = []
    · refine .inr ⟨hnil, List.mem_map.mpr ⟨_, List.mem_filter.mpr ⟨hm, ?_⟩, rfl⟩⟩
      exact List.isEmpty_iff.mpr hnil
    · refine .inl ⟨hnil, fun name hn => ?_⟩
      exact List.mem_eraseDups.mpr (List.mem_flatMap.mpr ⟨_, hm, hn⟩)
  · intro name hn
    obtain ⟨entry, hm, hn⟩ := List.mem_flatMap.mp (List.mem_eraseDups.mp hn)
    obtain ⟨style, hs, -, hown⟩ := hone entry hm
    exact ⟨style, hs, entry.2, hown, hn⟩
  · intro name hn
    obtain ⟨entry, hm, rfl⟩ := List.mem_map.mp hn
    obtain ⟨hm, hempty⟩ := List.mem_filter.mp hm
    obtain ⟨style, hs, hname, hown⟩ := hone entry hm
    exact ⟨style, hs, hname, by rw [hown, List.isEmpty_iff.mp hempty]⟩

/-- That an output is one record of a component, with the text that replaces it. -/
def Replaces (c : StyleConverter) (p : DeclarativePattern) (output : ConversionOutput) : Prop :=
  ∃ record classes unmapped, output = { conversions := [record] } ∧ record.IsOf (.declarative p) ∧
    record.converted = replacementText p.component p.base classes unmapped ∧
    c.Lists p.styles classes unmapped

theorem convertDeclarative_returns (c : StyleConverter) {p : DeclarativePattern}
    (ha : p.isAutoConvertible = true) :
    ReturnsIff (∀ style ∈ p.styles, c.CanLookUp style) (c.Replaces p) (c.FailsOn p.styles)
      (c.convertDeclarative p) := by
  have hlists := (c.classesForStyles_returns p.styles).eq_ok
  rw [convertDeclarative, if_pos ha]
  refine (hlists.bind fun found hfound => .pure _ ?_).of_iff (iff_of_eq (and_true _))
  exact ⟨_, found.1, found.2, rfl, ⟨rfl, rfl, rfl⟩, rfl, lists_of_classesForStyles hfound⟩

end StyleConverter

namespace DeclarativePattern

/-- A component that is automatic has the styles of its object whose values are static, and a style
is lost exactly if no name is read from its value although it is known at run time only. Each style
that it has is replaced by classes or is listed as unmapped. -/
theorem automatic_styles_are_kept {source : List Char} {patterns : List DeclarativePattern}
    {p : DeclarativePattern} (h : parse source = .ok patterns) (hp : p ∈ patterns)
    (ha : p.isAutoConvertible = true) :
    ∃ found, IsDefinedBy source found p ∧ p.styles = Fields.ofPairs (staticStyles found) ∧
      (∀ style ∈ found.filterMap styleText?, ¬IsLost style.2 → style.1 ∈ p.styles.names) ∧
      (p.dynamicStyles = [] ↔ ∀ style ∈ found.filterMap styleText?, ¬IsLost style.2) ∧
      ∀ c : StyleConverter, ReturnsIff (∀ style ∈ p.styles, c.CanLookUp style) (c.Replaces p)
        (c.FailsOn p.styles) (c.convertDeclarative p) := by
  obtain ⟨found, hdefined, hstyles, hdynamic, hb⟩ := exists_entries_of_automatic h hp ha
  refine ⟨found, hdefined, hstyles, ?_, ?_, fun c => c.convertDeclarative_returns ha⟩
  · intro style hs hl
    rw [hstyles]
    refine Fields.mem_names_ofPairs.mpr (mem_names_staticStyles hs ?_)
    rwa [Ne, staticValue?_eq_none_iff_isLost hb hs]
  · rw [hdynamic, Fields.ofPairs_eq_nil_iff, List.map_eq_nil_iff, runtimeStyles, List.filter_eq_nil_iff]
    refine forall₂_congr fun style hs => not_congr ?_
    rw [Option.isNone_iff_eq_none, staticValue?_eq_none_iff_isLost hb hs]

/-- A component with a style that has a class and one that has none. -/
def boxSource : List Char :=
  "const Box = styled(YStack, \x7b name: 'Box', padding: 4, cursor: 'pointer' \x7d)".toList

theorem boxSource_is_kept :
    ∃ p output, parse boxSource = .ok [p] ∧ p.isAutoConvertible = true ∧
      (∃ found, IsDefinedBy boxSource found p ∧
        ∀ style ∈ found.filterMap styleText?, style.1 ∈ p.styles.names) ∧
      StyleConverter.convertDeclarative {} p = .ok output ∧
      StyleConverter.Replaces {} p output ∧ output.conversions.map (·.converted) =
        ["// Replace Box with:\n// Unmapped: cursor\n<View className=\"p-1\">"] := by
  have hfound : gives (StyleConverter.isReplaced (StyleConverter.convertDeclarative {})
      (fun p => p.isAutoConvertible && p.dynamicStyles == [])
      "// Replace Box with:\n// Unmapped: cursor\n<View className=\"p-1\">")
      (parse boxSource) = true := by
    decide +kernel
  obtain ⟨p, output, hp, hq, hc, ht⟩ := StyleConverter.exists_of_isReplaced hfound
  obtain ⟨ha, hd⟩ := Bool.and_eq_true_iff.mp hq
  obtain ⟨found, hdefined, -, hnames, hlost, hreturns⟩ :=
    automatic_styles_are_kept hp List.mem_cons_self ha
  have hnone := hlost.mp (eq_of_beq hd)
  obtain ⟨output', hc', hreplaces⟩ :=
    (hreturns {}).ok ((hreturns {}).exists_ok_iff.mp ⟨output, hc⟩)
  have he : output = output' := Except.ok.inj (hc.symm.trans hc')
  subst he
  exact ⟨p, output, hp, ha, ⟨found, hdefined, fun style hs => hnames style hs (hnone style hs)⟩, hc,
    hreplaces, ht⟩

/-- A component with a choice among numbers. -/
def choiceSource : List Char :=
  "const A = styled(View, \x7b padding: true ? 4 : 8 \x7d)".toList

/-- The choice is known at run time only, but the component is automatic, and what replaces it shows
nothing of the style. -/
theorem choiceSource_is_lost :
    ∃ p output, parse choiceSource = .ok [p] ∧ p.isAutoConvertible = true ∧ p.styles.names = [] ∧
      p.dynamicStyles = [("padding", "true ? 4 : 8")] ∧
      StyleConverter.convertDeclarative {} p = .ok output ∧
      output.conversions.map (·.converted) = ["// Replace A with:\n<View className=\"\">"] := by
  have hfound : gives (StyleConverter.isReplaced (StyleConverter.convertDeclarative {})
      (fun p => p.isAutoConvertible && p.styles.names == [] &&
        p.dynamicStyles == [("padding", "true ? 4 : 8")])
      "// Replace A with:\n<View className=\"\">") (parse choiceSource) = true := by
    decide +kernel
  obtain ⟨p, output, hp, hq, hc, ht⟩ := StyleConverter.exists_of_isReplaced hfound
  simp only [Bool.and_eq_true, beq_iff_eq] at hq
  exact ⟨p, output, hp, hq.1.1, hq.1.2, hq.2, hc, ht⟩

end DeclarativePattern

end Restyle
