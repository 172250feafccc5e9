import Restyle.Proofs.Dedup
import Restyle.Proofs.Fields
import Restyle.Proofs.Migration.Lookup
import Restyle.Proofs.Template.Masked

namespace Restyle

namespace StyleConverter

variable (c : StyleConverter)

/-- The classes of all of the styles, each once. -/
def gather (styles : List (String × Json)) : Except Fault (List String) :=
  (styles.mapM fun style => c.classesFor style.1 style.2).map fun found => found.flatten.eraseDups

/-- That the styles of one name have the same classes. -/
def AgreesOn (styles : List (String × Json)) : Prop :=
  ∀ style ∈ styles, ∀ other ∈ styles, style.1 = other.1 →
    c.classesFor style.1 style.2 = c.classesFor other.1 other.2

variable {c} {styles : List (String × Json)} {classes : List String}

theorem gather_eq_ok (h : c.gather styles = .ok classes) : ∃ found,
    styles.mapM (fun style => c.classesFor style.1 style.2) = .ok found ∧
      classes = found.flatten.eraseDups := by
  obtain ⟨found, hf, rfl⟩ := map_eq_ok h
  exact ⟨found, hf, rfl⟩

theorem mem_gather_iff (h : c.gather styles = .ok classes) (name : String) :
    name ∈ classes ↔ ∃ style ∈ styles, ∃ own, c.classesFor style.1 style.2 = .ok own ∧
      name ∈ own := by
  obtain ⟨found, hf, rfl⟩ := gather_eq_ok h
  rw [List.mem_eraseDups, List.mem_flatten]
  constructor
  · rintro ⟨own, ho, hn⟩
    obtain ⟨style, hs, he⟩ := exists_of_mem_mapM hf ho
    exact ⟨style, hs, own, he, hn⟩
  · rintro ⟨style, hs, own, he, hn⟩
    obtain ⟨own', ho, he'⟩ := exists_mem_of_mapM hf hs
    rw [he] at he'
    cases he'
    exact ⟨own, ho, hn⟩

/-- What is noted beside the classes of each style does not matter. -/
theorem map_mapM_noted {α β : Type} (style : α → String × Json) (note : α → β) (xs : List α) :
    (xs.mapM fun x => (c.classesFor (style x).1 (style x).2).map (note x, ·)).map
      (fun found => (found.flatMap (·.2)).eraseDups) = c.gather (xs.map style) := by
  have hplain : (xs.mapM fun x => (c.classesFor (style x).1 (style x).2).map (note x, ·)).map
      (·.map (·.2)) = xs.mapM fun x => c.classesFor (style x).1 (style x).2 := by
    rw [map_mapM]
    refine mapM_congr fun x _ => ?_
    cases c.classesFor (style x).1 (style x).2 with
    | error fault => rfl
    | ok own => rfl
  rw [gather, List.mapM_map]
  simp only [Function.comp_def, ← hplain]
  cases xs.mapM fun x => (c.classesFor (style x).1 (style x).2).map (note x, ·) with
  | error fault => rfl
  | ok found => rfl

theorem map_classesForStyles (styles : Fields Json) :
    (c.classesForStyles styles).map (·.1) = c.gather styles := by
  have hnoted : (styles.mapM fun style => (c.classesFor style.1 style.2).map (style.1, ·)).map
      (fun found => (found.flatMap (·.2)).eraseDups) = c.gather (styles.map id) :=
    map_mapM_noted id (·.1) styles
  rw [List.map_id] at hnoted
  rw [← hnoted, classesForStyles]
  cases styles.mapM fun style => (c.classesFor style.1 style.2).map (style.1, ·) with
  | error fault => rfl
  | ok found => rfl

theorem gather_returns (styles : List (String × Json)) :
    ReturnsIff (∀ style ∈ styles, c.CanLookUp style) (fun _ => True) (c.FailsOn styles)
      (c.gather styles) := by
  rw [← map_classesForStyles]
  exact (c.classesForStyles_returns styles).map fun _ _ => trivial

theorem gather_concat (styles : List (String × Json)) (last : String × Json) :
    c.gather (styles ++ [last]) = (c.gather styles).bind fun classes =>
      (c.classesFor last.1 last.2).map fun own => (classes ++ own).eraseDups := by
  unfold gather
  rw [List.mapM_append, List.mapM_cons, List.mapM_nil]
  cases styles.mapM fun style => c.classesFor style.1 style.2 with
  | error fault => rfl
  | ok found =>
    cases c.classesFor last.1 last.2 with
    | error fault => rfl
    | ok own =>
      have honce : (found ++ [own]).flatten.eraseDups =
          (found.flatten.eraseDups ++ own).eraseDups := by
        rw [List.flatten_append, List.flatten_singleton]
        exact eraseDups_append_congr (eraseDups_eraseDups _).symm rfl
      exact congrArg Except.ok honce

/-- A name that is there already gives its classes where it stands. -/
theorem gather_put {fields : Fields Json} {name : String} {value : Json} (hn : name ∈ fields.names)
    (h : ∀ style ∈ fields, style.1 = name →
      c.classesFor style.1 style.2 = c.classesFor name value) :
    c.gather (fields.put name value) = c.gather fields := by
  have hany : fields.any (·.1 == name) = true := by
    obtain ⟨style, hs, rfl⟩ := List.mem_map.mp hn
    exact List.any_eq_true.mpr ⟨style, hs, beq_self_eq_true _⟩
  have hsame : ∀ style ∈ fields,
      c.classesFor (if style.1 == name then (name, value) else style).1
        (if style.1 == name then (name, value) else style).2 = c.classesFor style.1 style.2 := by
    intro style hs
    split
    next he => exact (h style hs (eq_of_beq he)).symm
    next => rfl
  rw [gather, gather, Fields.put, if_pos hany, List.mapM_map]
  exact congrArg _ (mapM_congr hsame)

/-- Overriding changes nothing where the styles of one name have the same classes. -/
theorem gather_ofPairs (h : c.AgreesOn styles) :
    c.gather (Fields.ofPairs styles) = c.gather styles := by
  induction styles using List.reverseRecOn with
  | nil => rfl
  | append_singleton styles last ih =>
    have hearlier : c.AgreesOn styles := fun style hs other ho =>
      h style (List.mem_append_left _ hs) other (List.mem_append_left _ ho)
    have hlast : ∀ style ∈ styles, style.1 = last.1 →
        c.classesFor style.1 style.2 = c.classesFor last.1 last.2 := fun style hs =>
      h style (List.mem_append_left _ hs) last (by simp)
    rw [Fields.ofPairs_concat]
    by_cases hn : last.1 ∈ (Fields.ofPairs styles).names
    · rw [gather_put hn fun style hs => hlast style (Fields.mem_ofPairs_iff.mp hs).mem, ih hearlier,
        gather_concat]
      obtain ⟨style, hs, hname⟩ := List.mem_map.mp (Fields.mem_names_ofPairs.mp hn)
      cases hg : c.gather styles with
      | error fault => rfl
      | ok classes =>
        -- an earlier style of the name has given the classes of the last one
        obtain ⟨own, hown⟩ := (gather_returns styles).exists_ok_iff.mp ⟨_, hg⟩ style hs
        have hsub : own ⊆ classes := fun name hm =>
          (mem_gather_iff hg name).mpr ⟨style, hs, own, hown, hm⟩
        have hadd : (classes ++ own).eraseDups = classes := by
          obtain ⟨found, -, rfl⟩ := gather_eq_ok hg
          rw [eraseDups_append_of_subset hsub, eraseDups_eraseDups]
        rw [← hlast style hs hname, hown]
        exact congrArg Except.ok hadd.symm
    · rw [Fields.put_of_not_mem hn, gather_concat, gather_concat, ih hearlier]

end StyleConverter

theorem Migration.classesOfStatic_eq_gather (c : StyleConverter) (styles : List StyleProperty) :
    classesOfStatic c styles = c.gather (StyleConverter.staticStyles styles) :=
  StyleConverter.map_mapM_noted (fun p : StyleProperty => (p.name, StyleConverter.styleValue p)) id
    (styles.filter (·.isStatic))

namespace TemplatePattern

theorem styleValue_of_styleOf {regions : List (List Char)} {dependencies : List String}
    {name value : List Char} {style : StyleProperty}
    (h : styleOf regions dependencies name value = .ok style) :
    StyleConverter.styleValue style = style.value := by
  obtain ⟨text, -, h⟩ := bind_eq_ok h
  split at h
  next =>
    cases h
    rfl
  next =>
    cases h
    unfold StyleConverter.styleValue
    grind

/-- The token of a declaration is its value, so it does not matter which of them is looked up. -/
theorem styleValue_of_parseBody {body : List Char} {styles : List StyleProperty}
    {bindings : List String} (h : parseBody body = .ok (styles, bindings)) {style : StyleProperty}
    (hs : style ∈ styles) : StyleConverter.styleValue style = style.value := by
  rw [parseBody_eq] at h
  obtain ⟨found, hf, he⟩ := map_eq_ok h
  cases he
  obtain ⟨⟨_, dependencies⟩, hm, rfl⟩ := List.mem_filterMap.mp hs
  obtain ⟨segment, -, hread⟩ := exists_of_mem_mapM hf hm
  cases hr : isRead (Text.trim segment) with
  | false =>
    rw [readSegment_of_not_isRead hr] at hread
    cases hread
  | true =>
    rw [readSegment_of_isRead hr] at hread
    obtain ⟨dependencies, -, hread⟩ := bind_eq_ok hread
    split at hread
    next => cases hread
    next =>
      obtain ⟨style, hstyle, he⟩ := map_eq_ok hread
      cases he
      exact styleValue_of_styleOf hstyle

/-- The static declarations of a template. -/
def declared (styles : List StyleProperty) : List (String × Json) :=
  (styles.filter (·.isStatic)).map fun p => (p.name, p.value)

theorem staticStyles_of_parseBody {body : List Char} {styles : List StyleProperty}
    {bindings : List String} (h : parseBody body = .ok (styles, bindings)) :
    StyleConverter.staticStyles styles = declared styles := by
  refine List.map_congr_left fun style hs => ?_
  rw [styleValue_of_parseBody h (List.mem_of_mem_filter hs)]

end TemplatePattern

namespace Migration

open TemplatePattern (declared)

/-- Where no name is declared again with other classes, a suggestion has the classes of the
conversion. Else the classes of the overridden declarations come in as well, and the suggestion also
fails on them. -/
theorem suggested_beside_converted (c : StyleConverter) {body : List Char}
    {styles : List StyleProperty} {bindings : List String}
    (h : TemplatePattern.parseBody body = .ok (styles, bindings)) :
    (c.AgreesOn (declared styles) → classesOfStatic c styles =
      (c.classesForStyles (Fields.ofPairs (declared styles))).map (·.1)) ∧
    ReturnsIff (∀ style ∈ declared styles, c.CanLookUp style)
      (fun suggested => ∃ converted,
        (c.classesForStyles (Fields.ofPairs (declared styles))).map (·.1) = .ok converted ∧
        ∀ name, name ∈ suggested ↔ name ∈ converted ∨
          ∃ style ∈ declared styles, ¬ Fields.IsLast (declared styles) style ∧
            ∃ own, c.classesFor style.1 style.2 = .ok own ∧ name ∈ own)
      (c.FailsOn (declared styles)) (classesOfStatic c styles) ∧
    ((∃ converted, (c.classesForStyles (Fields.ofPairs (declared styles))).map (·.1) =
      .ok converted) ↔ ∀ style, Fields.IsLast (declared styles) style → c.CanLookUp style) := by
  have hsuggest : classesOfStatic c styles = c.gather (declared styles) := by
    rw [classesOfStatic_eq_gather, TemplatePattern.staticStyles_of_parseBody h]
  have hlast : (∃ converted, c.gather (Fields.ofPairs (declared styles)) = .ok converted) ↔
      ∀ style, Fields.IsLast (declared styles) style → c.CanLookUp style := by
    rw [(StyleConverter.gather_returns _).exists_ok_iff]
    simp only [Fields.mem_ofPairs_iff]
  have hreturns := StyleConverter.gather_returns (c := c) (declared styles)
  rw [hsuggest, StyleConverter.map_classesForStyles]
  refine ⟨fun ha => (StyleConverter.gather_ofPairs ha).symm, ⟨fun hall => ?_, hreturns.error⟩, hlast⟩
  obtain ⟨suggested, hs, -⟩ := hreturns.ok hall
  obtain ⟨converted, hc⟩ := hlast.mpr fun style hl => hall style hl.mem
  refine ⟨suggested, hs, converted, hc, fun name => ?_⟩
  rw [StyleConverter.mem_gather_iff hs, StyleConverter.mem_gather_iff hc]
  constructor
  · rintro ⟨style, hm, hown⟩
    by_cases hl : Fields.IsLast (declared styles) style
    · exact .inl ⟨style, Fields.mem_ofPairs_iff.mpr hl, hown⟩
    · exact .inr ⟨style, hm, hl, hown⟩
  · rintro (⟨style, hm, hown⟩ | ⟨style, hm, -, hown⟩)
    · exact ⟨style, (Fields.mem_ofPairs_iff.mp hm).mem, hown⟩
    · exact ⟨style, hm, hown⟩

/-- A width that is declared twice, and a padding that is overridden. -/
def repeatedBody : List Char := "padding: 4px; width: 100%; padding: 8px; width: 100%".toList

theorem exists_repeatedBody : ∃ styles bindings,
    TemplatePattern.parseBody repeatedBody = .ok (styles, bindings) ∧
    classesOfStatic {} styles = .ok ["p-1", "w-full", "p-2"] ∧
    (({} : StyleConverter).classesForStyles (Fields.ofPairs (declared styles))).map (·.1) =
      .ok ["p-2", "w-full"] := by
  obtain ⟨⟨styles, bindings⟩, hbody, hboth⟩ := exists_of_gives
    (p := fun found => gives (· == ["p-1", "w-full", "p-2"]) (classesOfStatic {} found.1) &&
      gives (· == ["p-2", "w-full"]) ((({} : StyleConverter).classesForStyles
        (Fields.ofPairs (declared found.1))).map (·.1)))
    (x := TemplatePattern.parseBody repeatedBody) (by decide +kernel)
  obtain ⟨hsuggested, hconverted⟩ := Bool.and_eq_true_iff.mp hboth
  exact ⟨styles, bindings, hbody, eq_ok_of_gives hsuggested, eq_ok_of_gives hconverted⟩

theorem repeatedBody_keeps_overridden : ∃ styles bindings,
    TemplatePattern.parseBody repeatedBody = .ok (styles, bindings) ∧
    ∃ style ∈ declared styles, ¬ Fields.IsLast (declared styles) style ∧
      ∃ own, ({} : StyleConverter).classesFor style.1 style.2 = .ok own ∧ "p-1" ∈ own := by
  obtain ⟨styles, bindings, hbody, hsuggested, hconverted⟩ := exists_repeatedBody
  obtain ⟨-, hreturns, -⟩ := suggested_beside_converted {} hbody
  obtain ⟨suggested, hs, converted, hc, hmem⟩ :=
    hreturns.ok (hreturns.exists_ok_iff.mp ⟨_, hsuggested⟩)
  rw [hsuggested] at hs
  rw [hconverted] at hc
  cases hs
  cases hc
  exact ⟨styles, bindings, hbody, ((hmem "p-1").mp (by decide)).resolve_left (by decide)⟩

/-- A suggestion is not what the template is converted to. -/
theorem suggested_ne_converted : ∃ styles bindings,
    TemplatePattern.parseBody repeatedBody = .ok (styles, bindings) ∧
    classesOfStatic {} styles ≠
      (({} : StyleConverter).classesForStyles (Fields.ofPairs (declared styles))).map (·.1) := by
  obtain ⟨styles, bindings, hbody, hsuggested, hconverted⟩ := exists_repeatedBody
  refine ⟨styles, bindings, hbody, ?_⟩
  rw [hsuggested, hconverted]
  exact fun he => absurd (Except.ok.inj he) (by decide)

end Migration

end Restyle
