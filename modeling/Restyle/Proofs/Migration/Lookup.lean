import Restyle.Migration.Suggestion
import Restyle.Proofs.Conversion.Account
import Restyle.Proofs.Returns

namespace Restyle

namespace ReturnsIff

variable {α β ε : Type} {condition : Prop} {result : β → Prop} {fault : ε → Prop}

theorem self (x : Except ε β) : ReturnsIff (∃ b, x = .ok b) (fun _ => True) (x = .error ·) x := by
  constructor
  · rintro ⟨b, rfl⟩
    exact ⟨b, rfl, trivial⟩
  · intro hn
    cases x with
    | ok b => exact absurd ⟨b, rfl⟩ hn
    | error e => exact ⟨e, rfl, rfl⟩

theorem eq_ok {x : Except ε β} (h : ReturnsIff condition result fault x) :
    ReturnsIff condition (x = .ok ·) fault x := by
  refine ⟨fun hc => ?_, h.error⟩
  obtain ⟨b, hb, -⟩ := h.ok hc
  exact ⟨b, hb, hb⟩

theorem weaken {x : Except ε β} (h : ReturnsIff condition result fault x) {fault' : ε → Prop}
    (hf : ∀ e, fault e → fault' e) : ReturnsIff condition result fault' x := by
  refine ⟨h.ok, fun hn => ?_⟩
  obtain ⟨e, he, hfault⟩ := h.error hn
  exact ⟨e, he, hf e hfault⟩

theorem foldlM {condition : α → Prop} {f : β → α → Except ε β} {xs : List α}
    (h : ∀ b, ∀ x ∈ xs, ReturnsIff (condition x) (fun _ => True) fault (f b x)) (b : β) :
    ReturnsIff (∀ x ∈ xs, condition x) (fun _ => True) fault (xs.foldlM f b) := by
  induction xs generalizing b with
  | nil => exact ⟨fun _ => ⟨b, rfl, trivial⟩, fun hn => absurd (fun _ hx => nomatch hx) hn⟩
  | cons x xs ih =>
    have hrest : ∀ b, ReturnsIff (∀ y ∈ xs, condition y) (fun _ => True) fault (xs.foldlM f b) :=
      ih fun b y hy => h b y (List.mem_cons_of_mem x hy)
    have hboth := (h b x List.mem_cons_self).bind fun b _ => hrest b
    rw [List.foldlM_cons]
    exact hboth.of_iff List.forall_mem_cons.symm

theorem bind_return {γ : Type} {x : Except ε β} (h : ReturnsIff condition result fault x)
    (f : β → γ) :
    ReturnsIff condition (fun _ => True) fault (x.bind fun b => .ok (f b)) :=
  (h.bind fun b _ => .pure (f b) trivial).of_iff (iff_of_eq (and_true _))

end ReturnsIff

namespace StyleConverter

variable (c : StyleConverter)

/-- That a style has classes or is known to have none. -/
def CanLookUp (style : String × Json) : Prop := ∃ classes, c.classesFor style.1 style.2 = .ok classes

/-- That a fault is the one of a style that cannot be looked up. -/
def FailsOn (styles : Fields Json) (fault : Fault) : Prop :=
  ∃ style ∈ styles, c.classesFor style.1 style.2 = .error fault

variable {c} in
theorem FailsOn.mono {styles styles' : Fields Json} {fault : Fault} (h : c.FailsOn styles fault)
    (hs : ∀ style ∈ styles, style ∈ styles') : c.FailsOn styles' fault := by
  obtain ⟨style, hm, he⟩ := h
  exact ⟨style, hs style hm, he⟩

theorem classesForStyles_returns (styles : Fields Json) :
    ReturnsIff (∀ style ∈ styles, c.CanLookUp style) (fun _ => True) (c.FailsOn styles)
      (c.classesForStyles styles) := by
  have hone : ∀ style ∈ styles, ReturnsIff (c.CanLookUp style) (fun _ => True) (c.FailsOn styles)
      ((c.classesFor style.1 style.2).map (style.1, ·)) := fun style hs =>
    ((ReturnsIff.self _).weaken fun _ he => ⟨style, hs, he⟩).map fun _ _ => trivial
  have hall : ReturnsIff (∀ style ∈ styles, c.CanLookUp style)
      (List.Forall₂ (fun _ _ => True) styles) (c.FailsOn styles)
      (styles.mapM fun style => (c.classesFor style.1 style.2).map (style.1, ·)) := .mapM hone
  exact hall.bind_return _

/-- The static ones among some styles, with the values that decide about their classes. -/
def staticStyles (styles : List StyleProperty) : Fields Json :=
  (styles.filter (·.isStatic)).map fun p => (p.name, styleValue p)

theorem staticClasses_returns (styles : List StyleProperty) :
    ReturnsIff (∀ style ∈ staticStyles styles, c.CanLookUp style) (fun _ => True)
      (c.FailsOn (staticStyles styles)) (c.staticClasses styles) := by
  have hone : ∀ p ∈ styles.filter (·.isStatic), ReturnsIff (c.CanLookUp (p.name, styleValue p))
      (fun _ => True) (c.FailsOn (staticStyles styles))
      ((c.classesFor p.name (styleValue p)).map (p, ·)) := fun p hp =>
    ((ReturnsIff.self _).weaken fun _ he => ⟨_, List.mem_map_of_mem hp, he⟩).map fun _ _ => trivial
  have hall : ReturnsIff (∀ p ∈ styles.filter (·.isStatic), c.CanLookUp (p.name, styleValue p))
      (List.Forall₂ (fun _ _ => True) (styles.filter (·.isStatic)))
      (c.FailsOn (staticStyles styles)) (c.staticClasses styles) := .mapM hone
  exact (hall.imp fun _ _ => trivial).of_iff (by simp only [staticStyles, List.forall_mem_map])

/-- The styles of a pattern that is replaced. -/
def stylesOf : Pattern → Fields Json
  | .template p => Fields.ofPairs (p.properties.map fun property => (property.name, property.value))
  | .declarative p => p.styles
  | .inline p => staticStyles p.styles

theorem replace_returns (p : Pattern) (component base : String) (styles : Fields Json) :
    ReturnsIff (∀ style ∈ styles, c.CanLookUp style) (fun _ => True) (c.FailsOn styles)
      (c.replace p component base styles) :=
  (c.classesForStyles_returns styles).bind_return _

theorem convert_returns {p : Pattern} (h : p.isAutoConvertible = true) :
    ReturnsIff (∀ style ∈ stylesOf p, c.CanLookUp style) (fun _ => True) (c.FailsOn (stylesOf p))
      (c.convert p) := by
  cases p with
  | template p =>
    have h : p.isAutoConvertible = true := h
    rw [convert, convertTemplate, if_pos h]
    exact c.replace_returns _ _ _ _
  | declarative p =>
    have h : p.isAutoConvertible = true := h
    rw [convert, convertDeclarative, if_pos h]
    exact c.replace_returns _ _ _ _
  | inline p =>
    have hf : p.failed = false := by
      simp only [Pattern.isAutoConvertible, InlinePattern.isAutoConvertible, Bool.and_eq_true,
        Bool.not_eq_true'] at h
      exact h.1
    rw [convert, convertInline, if_neg (by simp [hf])]
    exact (c.staticClasses_returns p.styles).bind_return _

end StyleConverter

namespace Migration

open StyleConverter (staticStyles)

variable (c : StyleConverter)

/-- The styles of a component with variants: its own and those of the values of its static variants. -/
def variantStyles (p : DeclarativePattern) : Fields Json :=
  p.styles ++ (p.variants.filter (!·.isDynamic)).flatMap fun variant =>
    variant.values.flatMap (·.styles)

theorem add_returns {styles : Fields Json} (totals : VariantTotals) {variant : Variant}
    (hs : variant.isDynamic = false →
      ∀ value ∈ variant.values, ∀ style ∈ value.styles, style ∈ styles) :
    ReturnsIff (variant.isDynamic = false →
        ∀ value ∈ variant.values, ∀ style ∈ value.styles, c.CanLookUp style)
      (fun _ => True) (c.FailsOn styles) (totals.add c variant) := by
  unfold VariantTotals.add
  cases hd : variant.isDynamic with
  | true => exact ⟨fun _ => ⟨_, rfl, trivial⟩, fun hn => absurd (fun h => nomatch h) hn⟩
  | false =>
    have hone : ∀ value ∈ variant.values,
        ReturnsIff (∀ style ∈ value.styles, c.CanLookUp style) (fun _ => True) (c.FailsOn styles)
          (valueClasses c value) := by
      intro value hv
      have hstyles := (c.classesForStyles_returns value.styles).weaken
        fun _ he => he.mono (hs hd value hv)
      exact hstyles.map fun _ _ => trivial
    have hvalues : ReturnsIff
        (∀ value ∈ variant.values, ∀ style ∈ value.styles, c.CanLookUp style)
        (List.Forall₂ (fun _ _ => True) variant.values) (c.FailsOn styles)
        (variant.values.mapM (valueClasses c)) := .mapM hone
    exact (hvalues.bind_return _).of_iff (by simp)

theorem ofVariants_returns (p : DeclarativePattern) :
    ReturnsIff (∀ style ∈ variantStyles p, c.CanLookUp style) (fun _ => True)
      (c.FailsOn (variantStyles p)) (ofVariants c p) := by
  have hmem : ∀ variant ∈ p.variants, variant.isDynamic = false →
      ∀ value ∈ variant.values, ∀ style ∈ value.styles, style ∈ variantStyles p := by
    intro variant hv hd value hvalue style hs
    refine List.mem_append_right _ (List.mem_flatMap.mpr ⟨variant, ?_, ?_⟩)
    · exact List.mem_filter.mpr ⟨hv, by simp [hd]⟩
    · exact List.mem_flatMap.mpr ⟨value, hvalue, hs⟩
  have hown : ∀ style ∈ p.styles, style ∈ variantStyles p := fun _ => List.mem_append_left _
  have hbase := (c.classesForStyles_returns p.styles).weaken fun _ he => he.mono hown
  have hadd : ReturnsIff (∀ variant ∈ p.variants, variant.isDynamic = false →
        ∀ value ∈ variant.values, ∀ style ∈ value.styles, c.CanLookUp style)
      (fun _ => True) (c.FailsOn (variantStyles p))
      (p.variants.foldlM (VariantTotals.add c) {}) :=
    .foldlM (fun totals variant hv => add_returns c totals (hmem variant hv)) _
  refine ReturnsIff.of_iff (hbase.bind fun _ _ => hadd.bind_return _) ?_
  simp only [variantStyles, List.forall_mem_append, List.forall_mem_flatMap, List.mem_filter,
    Bool.not_eq_true', and_imp]

theorem classesOfStatic_returns (styles : List StyleProperty) :
    ReturnsIff (∀ style ∈ staticStyles styles, c.CanLookUp style) (fun _ => True)
      (c.FailsOn (staticStyles styles)) (classesOfStatic c styles) :=
  (c.staticClasses_returns styles).map fun _ _ => trivial

theorem ofTemplate_returns (p : TemplatePattern) :
    ReturnsIff (∀ style ∈ staticStyles p.properties, c.CanLookUp style) (fun _ => True)
      (c.FailsOn (staticStyles p.properties)) (ofTemplate c p) := by
  refine ReturnsIff.of_iff
    ((classesOfStatic_returns c p.properties).bind fun _ _ => ?_) (iff_of_eq (and_true _))
  dsimp only
  split
  · exact .pure _ trivial
  · exact .pure _ trivial

theorem ofDeclarative_returns (p : DeclarativePattern) :
    ReturnsIff (∀ style ∈ p.styles, c.CanLookUp style) (fun _ => True) (c.FailsOn p.styles)
      (ofDeclarative c p) :=
  (c.classesForStyles_returns p.styles).bind_return _

theorem ofInline_returns (p : InlinePattern) :
    ReturnsIff (∀ style ∈ staticStyles p.styles, c.CanLookUp style) (fun _ => True)
      (c.FailsOn (staticStyles p.styles)) (ofInline c p) :=
  (classesOfStatic_returns c p.styles).bind_return _

theorem ofStatic_returns {p : Pattern} (h : p.isAutoConvertible = true) :
    ReturnsIff (∀ style ∈ StyleConverter.stylesOf p, c.CanLookUp style) (fun _ => True)
      (c.FailsOn (StyleConverter.stylesOf p)) (ofStatic c p) :=
  (c.convert_returns h).bind_return _

end Migration

end Restyle
