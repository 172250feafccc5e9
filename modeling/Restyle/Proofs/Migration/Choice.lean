import Restyle.Proofs.Migration.Lookup

namespace Restyle

section

variable {α : Type} {P : α → Prop} {xs : List α} {x : α}

/-- That an entry is the first one with a property. -/
def IsFirst (P : α → Prop) (xs : List α) (x : α) : Prop :=
  ∃ before after, xs = before ++ x :: after ∧ P x ∧ ∀ y ∈ before, ¬P y

theorem IsFirst.holds (h : IsFirst P xs x) : P x := by
  obtain ⟨_, _, _, hx, _⟩ := h
  exact hx

theorem IsFirst.mem (h : IsFirst P xs x) : x ∈ xs := by
  obtain ⟨before, after, rfl, _⟩ := h
  exact List.mem_append_right _ List.mem_cons_self

theorem isFirst_iff_find? {p : α → Bool} (hp : ∀ x, p x = true ↔ P x) :
    IsFirst P xs x ↔ xs.find? p = some x := by
  rw [List.find?_eq_some_iff_append]
  simp only [IsFirst, ← hp, Bool.not_eq_true, Bool.not_eq_true']
  constructor
  · rintro ⟨before, after, he, hx, hb⟩
    exact ⟨hx, before, after, he, hb⟩
  · rintro ⟨hx, before, after, he, hb⟩
    exact ⟨before, after, he, hx, hb⟩

end

theorem DeclarativePattern.variants_of_failed {source : List Char}
    {hit : Scan.Hit (List Char × List Char)} {p : DeclarativePattern}
    (h : ofHit source hit = .ok p) (hf : p.failed = true) : p.variants = [] := by
  obtain ⟨found, -, h⟩ := bind_eq_ok h
  cases found with
  | none =>
    cases h
    rfl
  | some found =>
    cases h
    cases hf

theorem InlinePattern.dynamicStyles_of_failed {source : List Char} {hit : Scan.Hit String}
    {p : InlinePattern} (h : ofHit source hit = .ok p) (hf : p.failed = true) :
    p.dynamicStyles = [] := by
  unfold ofHit at h
  dsimp only at h
  split at h
  next =>
    cases h
    rfl
  next =>
    obtain ⟨styles, -, h⟩ := bind_eq_ok h
    cases h
    cases hf

namespace SourcePatterns

variable {patterns : SourcePatterns}

/-- That nothing is known of the patterns that could not be read. -/
structure IsBlankOnFailure (patterns : SourcePatterns) : Prop where
  variants : ∀ p ∈ patterns.declarative, p.failed = true → p.variants = []
  dynamicStyles : ∀ p ∈ patterns.inline, p.failed = true → p.dynamicStyles = []

theorem isBlankOnFailure_of_parse {tags : Json} {code : List Char}
    (h : parse tags code = .ok patterns) : patterns.IsBlankOnFailure := by
  obtain ⟨template, -, h⟩ := bind_eq_ok h
  obtain ⟨declarative, hd, h⟩ := bind_eq_ok h
  obtain ⟨names, -, h⟩ := bind_eq_ok h
  obtain ⟨inline, hi, h⟩ := bind_eq_ok h
  cases h
  constructor
  · intro p hp hf
    obtain ⟨hit, -, hit'⟩ := exists_of_mem_mapM hd hp
    exact DeclarativePattern.variants_of_failed hit' hf
  · intro p hp hf
    obtain ⟨hit, -, hit'⟩ := exists_of_mem_mapM hi hp
    exact InlinePattern.dynamicStyles_of_failed hit' hf

end SourcePatterns

namespace Migration

/-- What a proposal is made for. -/
inductive Choice where
  | variants (p : DeclarativePattern)
  | template (p : TemplatePattern)
  | declarative (p : DeclarativePattern)
  | inline (p : InlinePattern)
  | static (p : Pattern)
  | unknown

namespace Choice

def propose (c : StyleConverter) : Choice → Except Fault Migration
  | .variants p => ofVariants c p
  | .template p => ofTemplate c p
  | .declarative p => ofDeclarative c p
  | .inline p => ofInline c p
  | .static p => ofStatic c p
  | .unknown => .ok Migration.unknown

/-- The styles whose classes are looked up. -/
def styles : Choice → Fields Json
  | .variants p => variantStyles p
  | .template p => StyleConverter.staticStyles p.properties
  | .declarative p => p.styles
  | .inline p => StyleConverter.staticStyles p.styles
  | .static p => StyleConverter.stylesOf p
  | .unknown => []

def approach : Choice → Approach
  | .variants _ => .variants
  | .template p => if p.bindings = [] then .classes else .conditional
  | .declarative _ => .hybrid
  | .inline _ => .hybrid
  | .static _ => .classes
  | .unknown => .classes

def patternType : Choice → String
  | .variants _ => "tamagui-styled-with-variants"
  | .template p =>
    if p.bindings = [] then
      if p.themeRefs = [] then "styled-component-with-dynamic-values"
      else "styled-component-with-theme-refs"
    else "styled-component-with-dynamic-props"
  | .declarative _ => "tamagui-styled-with-dynamic-values"
  | .inline _ => "ui-core-with-dynamic-props"
  | .static p => p.kind ++ "-static"
  | .unknown => "unknown"

/-- How a choice follows from the patterns of a source text. -/
inductive Follows (patterns : SourcePatterns) : Choice → Prop where
  | variants {p : DeclarativePattern}
      (h : IsFirst (fun p => p.variants ≠ []) patterns.declarative p) :
      Follows patterns (.variants p)
  | template {p : TemplatePattern} (hv : ∀ q ∈ patterns.declarative, q.variants = [])
      (h : IsFirst (fun p => p.failed = false ∧ p.isAutoConvertible = false) patterns.template p) :
      Follows patterns (.template p)
  | declarative {p : DeclarativePattern} (hv : ∀ q ∈ patterns.declarative, q.variants = [])
      (ht : ∀ q ∈ patterns.template, q.failed = false → q.isAutoConvertible = true)
      (h : IsFirst (fun p => p.failed = false ∧ p.isAutoConvertible = false)
        patterns.declarative p) :
      Follows patterns (.declarative p)
  | inline {p : InlinePattern} (hv : ∀ q ∈ patterns.declarative, q.variants = [])
      (ht : ∀ q ∈ patterns.template, q.failed = false → q.isAutoConvertible = true)
      (hd : ∀ q ∈ patterns.declarative, q.failed = false → q.isAutoConvertible = true)
      (h : IsFirst (fun p => p.dynamicStyles ≠ []) patterns.inline p) :
      Follows patterns (.inline p)
  | static {p : Pattern}
      (ha : ∀ q ∈ patterns.all, q.failed = false → q.isAutoConvertible = true)
      (h : IsFirst (fun p => p.isAutoConvertible = true) patterns.all p) :
      Follows patterns (.static p)
  | unknown (hf : ∀ q ∈ patterns.all, q.failed = true) : Follows patterns .unknown

variable {c : StyleConverter} {patterns : SourcePatterns} {choice : Choice} {m : Migration}

theorem isAutoConvertible_of_mem_all
    (ht : ∀ q ∈ patterns.template, q.failed = false → q.isAutoConvertible = true)
    (hd : ∀ q ∈ patterns.declarative, q.failed = false → q.isAutoConvertible = true)
    (hi : ∀ q ∈ patterns.inline, q.dynamicStyles = []) :
    ∀ q ∈ patterns.all, q.failed = false → q.isAutoConvertible = true := by
  intro q hq hf
  simp only [SourcePatterns.all, List.mem_append, List.mem_map] at hq
  rcases hq with (⟨p, hp, rfl⟩ | ⟨p, hp, rfl⟩) | ⟨p, hp, rfl⟩
  · exact ht p hp hf
  · exact hd p hp hf
  · have hf : p.failed = false := hf
    simp [Pattern.isAutoConvertible, InlinePattern.isAutoConvertible, hf, hi p hp]

/-- The choice that is made. -/
def chosen (patterns : SourcePatterns) : Choice :=
  match patterns.declarative.find? (!·.variants.isEmpty) with
  | some p => .variants p
  | none =>
    match patterns.template.find? fun p => !p.isAutoConvertible && !p.failed with
    | some p => .template p
    | none =>
      match patterns.declarative.find? fun p => !p.isAutoConvertible && !p.failed with
      | some p => .declarative p
      | none =>
        match patterns.inline.find? (!·.dynamicStyles.isEmpty) with
        | some p => .inline p
        | none =>
          match patterns.all.find? (·.isAutoConvertible) with
          | some p => .static p
          | none => .unknown

theorem ofPatterns_eq_propose (c : StyleConverter) (patterns : SourcePatterns) :
    ofPatterns c patterns = (chosen patterns).propose c := by
  unfold ofPatterns chosen
  cases patterns.declarative.find? (!·.variants.isEmpty) with
  | some p => rfl
  | none =>
  cases patterns.template.find? fun p => !p.isAutoConvertible && !p.failed with
  | some p => rfl
  | none =>
  cases patterns.declarative.find? fun p => !p.isAutoConvertible && !p.failed with
  | some p => rfl
  | none =>
  cases patterns.inline.find? (!·.dynamicStyles.isEmpty) with
  | some p => rfl
  | none =>
  cases patterns.all.find? (·.isAutoConvertible) with
  | some p => rfl
  | none => rfl

theorem find?_variants {ps : List DeclarativePattern} :
    ps.find? (!·.variants.isEmpty) = none ↔ ∀ q ∈ ps, q.variants = [] := by
  simp

theorem isFirst_variants_iff {ps : List DeclarativePattern} {p : DeclarativePattern} :
    IsFirst (fun p => p.variants ≠ []) ps p ↔ ps.find? (!·.variants.isEmpty) = some p :=
  isFirst_iff_find? (by simp)

theorem find?_dynamicStyles {ps : List InlinePattern} :
    ps.find? (!·.dynamicStyles.isEmpty) = none ↔ ∀ q ∈ ps, q.dynamicStyles = [] := by
  simp

theorem isFirst_dynamicStyles_iff {ps : List InlinePattern} {p : InlinePattern} :
    IsFirst (fun p => p.dynamicStyles ≠ []) ps p ↔ ps.find? (!·.dynamicStyles.isEmpty) = some p :=
  isFirst_iff_find? (by simp)

theorem find?_open {α : Type} {auto failed : α → Bool} {ps : List α} :
    ps.find? (fun p => !auto p && !failed p) = none ↔ ∀ q ∈ ps, failed q = false → auto q = true := by
  have hdone : ∀ auto failed : Bool,
      ¬(!auto && !failed) = true ↔ (failed = false → auto = true) := by decide
  simp only [List.find?_eq_none, hdone]

theorem isFirst_open_iff {α : Type} {auto failed : α → Bool} {ps : List α} {p : α} :
    IsFirst (fun p => failed p = false ∧ auto p = false) ps p ↔
      ps.find? (fun p => !auto p && !failed p) = some p :=
  isFirst_iff_find? (by simp [and_comm])

theorem isFirst_auto_iff {ps : List Pattern} {p : Pattern} :
    IsFirst (fun p => p.isAutoConvertible = true) ps p ↔ ps.find? (·.isAutoConvertible) = some p :=
  isFirst_iff_find? fun _ => Iff.rfl

/-- The patterns always lead to a choice. -/
theorem follows_chosen (patterns : SourcePatterns) : Follows patterns (chosen patterns) := by
  unfold chosen
  split
  next p hv => exact .variants (isFirst_variants_iff.mpr hv)
  next hv =>
  rw [find?_variants] at hv
  split
  next p ht => exact .template hv (isFirst_open_iff.mpr ht)
  next ht =>
  rw [find?_open] at ht
  split
  next p hd => exact .declarative hv ht (isFirst_open_iff.mpr hd)
  next hd =>
  rw [find?_open] at hd
  split
  next p hi => exact .inline hv ht hd (isFirst_dynamicStyles_iff.mpr hi)
  next hi =>
  rw [find?_dynamicStyles] at hi
  have ha := isAutoConvertible_of_mem_all ht hd hi
  split
  next p hs => exact .static ha (isFirst_auto_iff.mpr hs)
  next hs =>
  refine .unknown fun q hq => ?_
  rw [← Bool.not_eq_false]
  exact fun hf => List.find?_eq_none.mp hs q hq (ha q hq hf)

/-- If all that can be read is replaced by classes alone, then no search before the last one finds
anything. -/
theorem chosen_of_all (hb : patterns.IsBlankOnFailure)
    (ha : ∀ q ∈ patterns.all, q.failed = false → q.isAutoConvertible = true) :
    chosen patterns =
      match patterns.all.find? (·.isAutoConvertible) with
      | some p => .static p
      | none => .unknown := by
  simp only [SourcePatterns.all, List.forall_mem_append, List.forall_mem_map] at ha
  obtain ⟨⟨ht, hd⟩, hi⟩ := ha
  have ht : ∀ q ∈ patterns.template, q.failed = false → q.isAutoConvertible = true := ht
  have hd : ∀ q ∈ patterns.declarative, q.failed = false → q.isAutoConvertible = true := hd
  -- the searches for variants and dynamic styles do not ask if a pattern could be read
  have hv : ∀ q ∈ patterns.declarative, q.variants = [] := by
    intro q hq
    cases hf : q.failed with
    | true => exact hb.variants q hq hf
    | false =>
      have hauto : q.isAutoConvertible = true := hd q hq hf
      simp only [DeclarativePattern.isAutoConvertible, Bool.and_eq_true, List.isEmpty_iff] at hauto
      exact hauto.2
  have hs : ∀ q ∈ patterns.inline, q.dynamicStyles = [] := by
    intro q hq
    cases hf : q.failed with
    | true => exact hb.dynamicStyles q hq hf
    | false =>
      have hauto : q.isAutoConvertible = true := hi q hq hf
      simp only [InlinePattern.isAutoConvertible, Bool.and_eq_true, List.isEmpty_iff] at hauto
      exact hauto.2
  simp only [chosen, find?_variants.mpr hv, find?_open.mpr ht, find?_open.mpr hd,
    find?_dynamicStyles.mpr hs]

theorem failed_of_isAutoConvertible {p : Pattern} (h : p.isAutoConvertible = true) :
    p.failed = false := by
  cases p with
  | template p =>
    simp only [Pattern.isAutoConvertible, TemplatePattern.isAutoConvertible, Bool.and_eq_true,
      Bool.not_eq_true'] at h
    exact h.1.1.1
  | declarative p =>
    simp only [Pattern.isAutoConvertible, DeclarativePattern.isAutoConvertible, Bool.and_eq_true,
      Bool.not_eq_true'] at h
    exact h.1.1
  | inline p =>
    simp only [Pattern.isAutoConvertible, InlinePattern.isAutoConvertible, Bool.and_eq_true,
      Bool.not_eq_true'] at h
    exact h.1

theorem Follows.chosen_eq (hb : patterns.IsBlankOnFailure) (h : Follows patterns choice) :
    chosen patterns = choice := by
  cases h with
  | variants h =>
    have h := isFirst_variants_iff.mp h
    simp only [chosen, h]
  | template hv h =>
    have h := isFirst_open_iff.mp h
    simp only [chosen, find?_variants.mpr hv, h]
  | declarative hv ht h =>
    have h := isFirst_open_iff.mp h
    simp only [chosen, find?_variants.mpr hv, find?_open.mpr ht, h]
  | inline hv ht hd h =>
    have h := isFirst_dynamicStyles_iff.mp h
    simp only [chosen, find?_variants.mpr hv, find?_open.mpr ht, find?_open.mpr hd, h]
  | static ha h => rw [chosen_of_all hb ha, isFirst_auto_iff.mp h]
  | unknown hf =>
    have hall : ∀ q ∈ patterns.all, q.failed = false → q.isAutoConvertible = true := by
      intro q hq hn
      rw [hf q hq] at hn
      cases hn
    have hnone : patterns.all.find? (·.isAutoConvertible) = none := by
      refine List.find?_eq_none.mpr fun q hq hauto => ?_
      have hn := failed_of_isAutoConvertible hauto
      rw [hf q hq] at hn
      cases hn
    rw [chosen_of_all hb hall, hnone]

theorem propose_returns (h : Follows patterns choice) (c : StyleConverter) :
    ReturnsIff (∀ style ∈ choice.styles, c.CanLookUp style) (fun _ => True) (c.FailsOn choice.styles)
      (choice.propose c) := by
  cases h with
  | @variants p _ => exact ofVariants_returns c p
  | @template p _ _ => exact ofTemplate_returns c p
  | @declarative p _ _ _ => exact ofDeclarative_returns c p
  | @inline p _ _ _ _ => exact ofInline_returns c p
  | static _ h => exact ofStatic_returns c h.holds
  | unknown _ => exact ⟨fun _ => ⟨_, rfl, trivial⟩, fun hn => absurd (fun _ hs => nomatch hs) hn⟩

theorem of_propose (h : choice.propose c = .ok m) :
    m.approach = choice.approach ∧ m.patternType = choice.patternType := by
  cases choice with
  | variants p =>
    obtain ⟨base, -, h⟩ := bind_eq_ok h
    obtain ⟨totals, -, h⟩ := bind_eq_ok h
    cases h
    exact ⟨rfl, rfl⟩
  | template p =>
    obtain ⟨classes, -, h⟩ := bind_eq_ok h
    dsimp only at h
    split at h
    next hb =>
      cases h
      simp [approach, patternType, List.isEmpty_iff.mp hb]
    next hb =>
      cases h
      have hb : p.bindings ≠ [] := by simpa using hb
      simp [approach, patternType, hb]
  | declarative p =>
    obtain ⟨classes, -, h⟩ := bind_eq_ok h
    cases h
    exact ⟨rfl, rfl⟩
  | inline p =>
    obtain ⟨classes, -, h⟩ := bind_eq_ok h
    cases h
    exact ⟨rfl, rfl⟩
  | static p =>
    obtain ⟨output, -, h⟩ := bind_eq_ok h
    cases h
    exact ⟨rfl, rfl⟩
  | unknown =>
    cases h
    exact ⟨rfl, rfl⟩

theorem patternType_eq_unknown_iff (choice : Choice) :
    choice.patternType = "unknown" ↔ choice = .unknown := by
  cases choice with
  | template p =>
    simp only [patternType, reduceCtorEq, iff_false]
    split
    · split <;> decide
    · decide
  | static p => cases p <;> simp [patternType, Pattern.kind]
  | _ => simp [patternType]

theorem isSuffix_patternType_iff (choice : Choice) :
    "-static".toList <:+ choice.patternType.toList ↔ ∃ p, choice = .static p := by
  cases choice with
  | template p =>
    simp only [patternType, reduceCtorEq, exists_false, iff_false]
    split
    · split <;> decide
    · decide
  | static p =>
    rw [patternType, String.toList_append]
    exact iff_of_true (List.suffix_append _ _) ⟨p, rfl⟩
  | _ =>
    simp only [patternType, reduceCtorEq, exists_false, iff_false]
    decide

namespace Follows

variable {other : Choice}

/-- There is one choice. -/
theorem unique (h : Follows patterns choice) (h' : Follows patterns other)
    (hb : patterns.IsBlankOnFailure) : choice = other :=
  (h.chosen_eq hb).symm.trans (h'.chosen_eq hb)

theorem variants_iff (h : Follows patterns choice) (hb : patterns.IsBlankOnFailure) :
    choice.approach = .variants ↔ ∃ p ∈ patterns.declarative, p.variants ≠ [] := by
  constructor
  · intro he
    cases h with
    | @variants p h => exact ⟨p, h.mem, h.holds⟩
    | @template p hv h =>
      rw [approach] at he
      split at he <;> cases he
    | _ => cases he
  · rintro ⟨q, hq, hv⟩
    cases hf : patterns.declarative.find? (!·.variants.isEmpty) with
    | none => exact absurd (find?_variants.mp hf q hq) hv
    | some p => rw [h.unique (.variants (isFirst_variants_iff.mpr hf)) hb, approach]

theorem unknown_iff (h : Follows patterns choice) (hb : patterns.IsBlankOnFailure) :
    choice = .unknown ↔ ∀ q ∈ patterns.all, q.failed = true := by
  constructor
  · rintro rfl
    cases h with
    | unknown hf => exact hf
  · exact fun hf => h.unique (.unknown hf) hb

theorem static_iff (h : Follows patterns choice) (hb : patterns.IsBlankOnFailure) :
    (∃ p, choice = .static p) ↔ (∃ q ∈ patterns.all, q.failed = false) ∧
      ∀ q ∈ patterns.all, q.failed = false → q.isAutoConvertible = true := by
  constructor
  · rintro ⟨p, rfl⟩
    cases h with
    | static ha h => exact ⟨⟨p, h.mem, failed_of_isAutoConvertible h.holds⟩, ha⟩
  · rintro ⟨⟨q, hq, hf⟩, ha⟩
    cases hs : patterns.all.find? (·.isAutoConvertible) with
    | none => exact absurd (ha q hq hf) (List.find?_eq_none.mp hs q hq)
    | some p => exact ⟨p, h.unique (.static ha (isFirst_auto_iff.mpr hs)) hb⟩

end Follows

theorem sample_of_ofStatic {p : Pattern} (ha : p.isAutoConvertible = true)
    (h : ofStatic c p = .ok m) : ∃ output record, c.convert p = .ok output ∧
      output.conversions = [record] ∧ m.sample = record.converted := by
  obtain ⟨output, hc, h⟩ := bind_eq_ok h
  cases h
  have hskip : p.isSkipped = false := by
    simp [Pattern.isSkipped, failed_of_isAutoConvertible ha, ha]
  rcases StyleConverter.convert_eq_ok hc with ⟨hs, -⟩ | ⟨-, record, rfl, -⟩
  · rw [hskip] at hs
    cases hs
  · exact ⟨_, record, hc, rfl, rfl⟩

end Choice

/-- The line that a context puts before a sample. -/
def contextLine (context : String) : String :=
  if context = "" then "" else "// Context: " ++ context ++ "\n"

/-- That a proposal becomes another one by what is said about tokens and by its context. -/
def Completes (context : String) (proposal m : Migration) : Prop :=
  ∃ tokens warnings, m = { proposal with
    legacyTokens := tokens
    warnings := proposal.warnings ++ warnings
    sample := contextLine context ++ proposal.sample }

/-- That a proposal is the one for some patterns. -/
structure Agrees (c : StyleConverter) (context : String) (patterns : SourcePatterns)
    (m : Migration) : Prop where
  variants : m.approach = .variants ↔ ∃ p ∈ patterns.declarative, p.variants ≠ []
  template : (∀ q ∈ patterns.declarative, q.variants = []) →
    ∀ p, IsFirst (fun p => p.failed = false ∧ p.isAutoConvertible = false) patterns.template p →
      (∃ proposal, ofTemplate c p = .ok proposal ∧ Completes context proposal m) ∧
        m.approach = if p.bindings = [] then .classes else .conditional
  declarative : (∀ q ∈ patterns.declarative, q.variants = []) →
    (∀ q ∈ patterns.template, q.failed = false → q.isAutoConvertible = true) →
    ∀ p, IsFirst (fun p => p.failed = false ∧ p.isAutoConvertible = false) patterns.declarative p →
      (∃ proposal, ofDeclarative c p = .ok proposal ∧ Completes context proposal m) ∧
        m.approach = .hybrid
  inline : (∀ q ∈ patterns.declarative, q.variants = []) →
    (∀ q ∈ patterns.template, q.failed = false → q.isAutoConvertible = true) →
    (∀ q ∈ patterns.declarative, q.failed = false → q.isAutoConvertible = true) →
    ∀ p, IsFirst (fun p => p.dynamicStyles ≠ []) patterns.inline p →
      (∃ proposal, ofInline c p = .ok proposal ∧ Completes context proposal m) ∧
        m.approach = .hybrid
  unknown : m.patternType = "unknown" ↔ ∀ q ∈ patterns.all, q.failed = true
  static : "-static".toList <:+ m.patternType.toList ↔ (∃ q ∈ patterns.all, q.failed = false) ∧
    ∀ q ∈ patterns.all, q.failed = false → q.isAutoConvertible = true
  sample : "-static".toList <:+ m.patternType.toList →
    ∃ p output record, IsFirst (fun p => p.isAutoConvertible = true) patterns.all p ∧
      c.convert p = .ok output ∧ output.conversions = [record] ∧
      m.sample = contextLine context ++ record.converted

theorem agrees_of_completes {c : StyleConverter} {context : String} {patterns : SourcePatterns}
    {choice : Choice} {proposal m : Migration} (hb : patterns.IsBlankOnFailure)
    (hf : choice.Follows patterns) (hp : choice.propose c = .ok proposal)
    (hm : Completes context proposal m) : Agrees c context patterns m := by
  obtain ⟨happroach, htype⟩ := Choice.of_propose hp
  have hm' := hm
  obtain ⟨tokens, warnings, rfl⟩ := hm'
  refine ⟨?_, ?_, ?_, ?_, ?_, ?_, ?_⟩
  · rw [← hf.variants_iff hb, ← happroach]
  · intro hv p h
    cases hf.unique (.template hv h) hb
    exact ⟨⟨proposal, hp, hm⟩, happroach⟩
  · intro hv ht p h
    cases hf.unique (.declarative hv ht h) hb
    exact ⟨⟨proposal, hp, hm⟩, happroach⟩
  · intro hv ht hd p h
    cases hf.unique (.inline hv ht hd h) hb
    exact ⟨⟨proposal, hp, hm⟩, happroach⟩
  · dsimp only
    rw [htype, Choice.patternType_eq_unknown_iff, hf.unknown_iff hb]
  · dsimp only
    rw [htype, Choice.isSuffix_patternType_iff, hf.static_iff hb]
  · dsimp only
    rw [htype, Choice.isSuffix_patternType_iff]
    rintro ⟨p, rfl⟩
    cases hf with
    | static ha h =>
      obtain ⟨output, record, hc, ho, hs⟩ := Choice.sample_of_ofStatic h.holds hp
      exact ⟨p, output, record, h, hc, ho, by rw [hs]⟩

/-- That a fault is the one of a style or a token that cannot be looked up. -/
def FailsOn (c : StyleConverter) (styles : Fields Json) (tokens : List String) (fault : Fault) :
    Prop :=
  c.FailsOn styles fault ∨ ∃ token ∈ tokens, c.palette.resolve none token c.locale = .error fault

theorem ofPatterns_returns (c : StyleConverter) (patterns : SourcePatterns) (tokens : List String) :
    ReturnsIff (∀ style ∈ (Choice.chosen patterns).styles, c.CanLookUp style)
      ((Choice.chosen patterns).propose c = .ok ·)
      (FailsOn c (Choice.chosen patterns).styles tokens) (ofPatterns c patterns) := by
  have hproposal := Choice.propose_returns (Choice.follows_chosen patterns) c
  rw [Choice.ofPatterns_eq_propose]
  exact hproposal.eq_ok.weaken fun _ => .inl

theorem legacyWarnings_returns (c : StyleConverter) (styles : Fields Json) (tokens : List String) :
    ReturnsIff (∀ token ∈ tokens, ∃ mapping, c.palette.resolve none token c.locale = .ok mapping)
      (List.Forall₂ (fun _ _ => True) tokens) (FailsOn c styles tokens)
      (tokens.mapM (legacyWarning c)) := by
  refine .mapM fun token ht => ?_
  have hresolve := ReturnsIff.self (c.palette.resolve none token c.locale)
  have hfault : ∀ fault, c.palette.resolve none token c.locale = .error fault →
      FailsOn c styles tokens fault := fun _ he => .inr ⟨token, ht, he⟩
  exact (hresolve.weaken hfault).map fun _ _ => trivial

theorem completes_of_context (context : String) (tokens : Option (List String))
    (warnings : List String) (proposal : Migration) :
    Completes context proposal { proposal with
      legacyTokens := tokens
      warnings := proposal.warnings ++ warnings
      sample := if context == "" then proposal.sample
        else "// Context: " ++ context ++ "\n" ++ proposal.sample } := by
  refine ⟨tokens, warnings, ?_⟩
  by_cases hc : context = ""
  · simp [contextLine, hc]
  · simp [contextLine, hc]

/-- For a source text whose patterns are read there is one choice, and a proposal is made exactly if all
that it looks up can be looked up. It then agrees with the patterns. -/
theorem suggest_agrees_with_patterns (c : StyleConverter) (context : String) {tags : Json}
    {code : List Char} {patterns : SourcePatterns}
    (hp : SourcePatterns.parse tags code = .ok patterns) :
    ∃ choice, Choice.Follows patterns choice ∧
      (∀ other, Choice.Follows patterns other → other = choice) ∧
      ReturnsIff
        ((∀ style ∈ choice.styles, c.CanLookUp style) ∧
          ∀ token ∈ Legacy.references code,
            ∃ mapping, c.palette.resolve none token c.locale = .ok mapping)
        (Agrees c context patterns) (FailsOn c choice.styles (Legacy.references code))
        (suggest c context tags code) := by
  have hb := SourcePatterns.isBlankOnFailure_of_parse hp
  have hf := Choice.follows_chosen patterns
  have hproposal := ofPatterns_returns c patterns (Legacy.references code)
  have htokens := legacyWarnings_returns c (Choice.chosen patterns).styles (Legacy.references code)
  refine ⟨Choice.chosen patterns, hf, fun other h => h.unique hf hb, ?_⟩
  rw [suggest, hp]
  exact ReturnsIff.of_iff (hproposal.bind fun proposal hm => htokens.bind fun warnings _ =>
    .pure _ (agrees_of_completes hb hf hm (completes_of_context context _ warnings proposal)))
    (by rw [and_true])

/-- Patterns of all kinds that are replaced by classes alone, and a tag without an end. -/
def plainCode : List Char :=
  ("const Card = styled.View\x60padding: 4px;\x60\nconst Row = styled(XStack, \x7b gap: 8 \x7d)\n" ++
    "<XStack gap=\x7b4\x7d flex=\x7b1\x7d>\n<Button padding=\x7b2").toList

theorem suggest_plainCode :
    ∃ patterns m, SourcePatterns.parse .null plainCode = .ok patterns ∧
      patterns.all.map (·.failed) = [false, false, false, true] ∧
      suggest {} "card" .null plainCode = .ok m ∧ Agrees {} "card" patterns m ∧
      m.patternType = "styled-component-static" ∧
      m.sample = "// Context: card\n// Replace Card with:\n<View className=\"p-1\">" := by
  have hparse : gives (fun patterns => patterns.all.map (·.failed) == [false, false, false, true])
      (SourcePatterns.parse .null plainCode) = true := by decide +kernel
  have hsuggest : gives (fun m => m.patternType == "styled-component-static" &&
      m.sample == "// Context: card\n// Replace Card with:\n<View className=\"p-1\">")
      (suggest {} "card" .null plainCode) = true := by decide +kernel
  obtain ⟨patterns, hp, hfailed⟩ := exists_of_gives hparse
  obtain ⟨m, hm, hfields⟩ := exists_of_gives hsuggest
  rw [Bool.and_eq_true] at hfields
  obtain ⟨choice, -, -, hreturns⟩ := suggest_agrees_with_patterns {} "card" hp
  obtain ⟨m', hm', hagrees⟩ := hreturns.ok (hreturns.exists_ok_iff.mp ⟨m, hm⟩)
  have he : m = m' := Except.ok.inj (hm.symm.trans hm')
  subst he
  exact ⟨patterns, m, hp, eq_of_beq hfailed, hm, hagrees, eq_of_beq hfields.1, eq_of_beq hfields.2⟩

/-- A component with variants and an opacity beyond the range of decimals. -/
def overflowingCode : List Char :=
  ("const A = styled(View, \x7b opacity: 1e999999, " ++
    "variants: \x7b size: \x7b sm: \x7b padding: 4 \x7d \x7d \x7d \x7d)").toList

/-- A value out of range ends the whole proposal, although a component has variants. -/
theorem suggest_overflowingCode :
    (∃ patterns, SourcePatterns.parse .null overflowingCode = .ok patterns ∧
      ∃ p ∈ patterns.declarative, p.variants ≠ []) ∧
    suggest {} "" .null overflowingCode = .error .decimalOverflow := by
  have hparse : gives (fun patterns => patterns.declarative.any (!·.variants.isEmpty))
      (SourcePatterns.parse .null overflowingCode) = true := by decide +kernel
  have hsuggest : failsWith (fun | .decimalOverflow => true | _ => false)
      (suggest {} "" .null overflowingCode) = true := by decide +kernel
  obtain ⟨patterns, hp, hv⟩ := exists_of_gives hparse
  obtain ⟨fault, hf, ho⟩ := exists_of_failsWith hsuggest
  refine ⟨⟨patterns, hp, by simpa using hv⟩, ?_⟩
  rw [hf]
  cases fault with
  | decimalOverflow => rfl
  | _ => cases ho

end Migration

end Restyle
