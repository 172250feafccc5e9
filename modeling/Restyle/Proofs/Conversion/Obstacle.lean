import Restyle.Proofs.Conversion.Account
import Restyle.Proofs.Dedup

namespace Restyle

theorem intercalate_ne_empty {separator : String} {texts : List String} (hne : texts ≠ [])
    (h : ∀ text ∈ texts, text ≠ "") : separator.intercalate texts ≠ "" := by
  obtain ⟨text, rest, rfl⟩ := List.exists_cons_of_ne_nil hne
  have htext := h text List.mem_cons_self
  cases rest with
  | nil => simpa using htext
  | cons next rest => simp [String.intercalate_cons_cons, String.append_eq_empty_iff, htext]

namespace Cause

theorem lookup_approaches (cause : Cause) :
    approaches.lookup cause.name = some cause.approach := by
  cases cause <;> decide

theorem approach_ne_empty (cause : Cause) : cause.approach ≠ "" := by
  cases cause <;> decide

end Cause

namespace Obstacle

variable {cause : Cause} {intro : String} {names : List String}

theorem listing_eq_nil_iff : listing cause intro names = [] ↔ names = [] := by
  cases names with
  | nil => simp [listing]
  | cons name names => simp [listing]

/-- That each of some obstacles is put into words. -/
def AreWorded (obstacles : List Obstacle) : Prop := ∀ o ∈ obstacles, o.reason ≠ ""

theorem areWorded_unterminated : AreWorded [unterminated] := by
  intro o h
  rw [List.mem_singleton.mp h]
  decide

theorem areWorded_listing (names : List String) (hi : intro ≠ "") :
    AreWorded (listing cause intro names) := by
  intro o h
  unfold listing at h
  split at h
  next => cases h
  next =>
    rw [List.mem_singleton.mp h]
    exact fun he => hi (String.append_eq_empty_iff.mp he).1

theorem AreWorded.append {front back : List Obstacle} (hf : AreWorded front) (hb : AreWorded back) :
    AreWorded (front ++ back) := by
  intro o h
  rcases List.mem_append.mp h with h | h
  · exact hf o h
  · exact hb o h

end Obstacle

open Obstacle

theorem StyleProperty.dependsOn_ne_nil (p : StyleProperty) : p.dependsOn ≠ [] := by
  unfold dependsOn
  split
  next => exact List.cons_ne_nil _ _
  next => exact List.cons_ne_nil _ _

namespace TemplatePattern

theorem obstacles_eq_nil_iff (p : TemplatePattern) :
    p.obstacles = [] ↔ p.isAutoConvertible = true := by
  unfold obstacles isAutoConvertible
  cases p.failed with
  | true => simp
  | false =>
    cases p.bindings with
    | nil => simp [listing_eq_nil_iff, and_comm]
    | cons name names => simp [listing_eq_nil_iff]

theorem areWorded_obstacles (p : TemplatePattern) : AreWorded p.obstacles := by
  unfold obstacles
  split
  next => exact areWorded_unterminated
  next =>
    refine AreWorded.append ?_ (areWorded_listing _ (by decide))
    split
    next => exact areWorded_listing _ (by decide)
    next => exact areWorded_listing _ (by decide)

end TemplatePattern

namespace DeclarativePattern

theorem obstacles_eq_nil_iff (p : DeclarativePattern) :
    p.obstacles = [] ↔ p.isAutoConvertible = true := by
  -- Every variant is dynamic or not, so both lists of them are empty only if there are none.
  have hvariants : (p.variants.filter (·.isDynamic) = [] ∧ p.variants.filter (!·.isDynamic) = []) ↔
      p.variants = [] := by
    cases p.variants with
    | nil => simp
    | cons v vs => cases hv : v.isDynamic <;> simp [hv]
  unfold obstacles isAutoConvertible
  cases p.failed with
  | true => simp
  | false => simp [listing_eq_nil_iff, ← hvariants]

theorem areWorded_obstacles (p : DeclarativePattern) : AreWorded p.obstacles := by
  unfold obstacles
  split
  next => exact areWorded_unterminated
  next =>
    exact ((areWorded_listing _ (by decide)).append (areWorded_listing _ (by decide))).append
      (areWorded_listing _ (by decide))

end DeclarativePattern

namespace InlinePattern

theorem obstacles_eq_nil_iff (p : InlinePattern) :
    p.obstacles = [] ↔ p.isAutoConvertible = true := by
  unfold obstacles isAutoConvertible
  cases p.failed with
  | true => simp
  | false =>
    cases p.dynamicStyles with
    | nil => simp [listing_eq_nil_iff]
    | cons style styles =>
      simp [listing_eq_nil_iff, eraseDups_eq_nil_iff, style.dependsOn_ne_nil]

theorem areWorded_obstacles (p : InlinePattern) : AreWorded p.obstacles := by
  unfold obstacles
  split
  next => exact areWorded_unterminated
  next => exact areWorded_listing _ (by decide)

end InlinePattern

namespace Pattern

theorem obstacles_eq_nil_iff (p : Pattern) : p.obstacles = [] ↔ p.isAutoConvertible = true := by
  cases p with
  | template p => exact p.obstacles_eq_nil_iff
  | declarative p => exact p.obstacles_eq_nil_iff
  | inline p => exact p.obstacles_eq_nil_iff

theorem areWorded_obstacles (p : Pattern) : AreWorded p.obstacles := by
  cases p with
  | template p => exact p.areWorded_obstacles
  | declarative p => exact p.areWorded_obstacles
  | inline p => exact p.areWorded_obstacles

theorem obstacles_ne_nil_of_isSkipped {p : Pattern} (h : p.isSkipped = true) :
    p.obstacles ≠ [] := by
  rw [Ne, obstacles_eq_nil_iff, Bool.not_eq_true]
  cases p with
  | template p => simpa [isAutoConvertible, isSkipped_template] using h
  | declarative p => simpa [isAutoConvertible, isSkipped_declarative] using h
  | inline p =>
    rw [isSkipped_inline] at h
    simp [isAutoConvertible, InlinePattern.isAutoConvertible, h]

end Pattern

namespace StyleConverter

variable {c : StyleConverter} {p : Pattern}

/-- No class is looked up for a pattern that is skipped, so nothing can go wrong. -/
theorem convert_of_isSkipped (h : p.isSkipped = true) : c.convert p = .ok (skip p) := by
  cases p with
  | template p =>
    rw [Pattern.isSkipped_template, Bool.not_eq_true'] at h
    simp [convert, convertTemplate, h]
  | declarative p =>
    rw [Pattern.isSkipped_declarative, Bool.not_eq_true'] at h
    simp [convert, convertDeclarative, h]
  | inline p =>
    rw [Pattern.isSkipped_inline] at h
    simp only [convert, convertInline, h, if_true]
    rfl

theorem eq_skip_of_mem_skipped {output : ConversionOutput} {s : Skipped}
    (h : c.convert p = .ok output) (hs : s ∈ output.skipped) :
    p.isSkipped = true ∧ output = skip p := by
  rcases convert_eq_ok h with ⟨hp, _⟩ | ⟨_, record, rfl, _⟩
  · rw [convert_of_isSkipped hp] at h
    exact ⟨hp, (Except.ok.inj h).symm⟩
  · cases hs

theorem skip_is_worded (h : p.obstacles ≠ []) {s : Skipped} (hs : s ∈ (skip p).skipped) :
    s.reason ≠ "" ∧ s.approach ≠ "" := by
  obtain rfl := List.mem_singleton.mp hs
  constructor
  · refine intercalate_ne_empty (by simpa using h) fun reason hr => ?_
    obtain ⟨o, ho, rfl⟩ := List.mem_map.mp hr
    exact p.areWorded_obstacles o ho
  · have hne : (p.obstacles.map (·.cause.approach)).eraseDups ≠ [] := by
      rw [Ne, eraseDups_eq_nil_iff]
      simpa using h
    refine intercalate_ne_empty hne fun approach ha => ?_
    obtain ⟨o, _, rfl⟩ := List.mem_map.mp (List.mem_eraseDups.mp ha)
    exact o.cause.approach_ne_empty

end StyleConverter

/-- The obstacles of a pattern are what keeps it from being automatic, each of them has an approach
under the name of its cause, and whatever conversion skips has both a reason and an approach. -/
theorem Pattern.obstacles_are_what_blocks (p : Pattern) :
    (p.obstacles = [] ↔ p.isAutoConvertible = true) ∧
    (∀ o ∈ p.obstacles, Cause.approaches.lookup o.cause.name = some o.cause.approach) ∧
    ∀ c : StyleConverter,
      (p.isSkipped = true → c.convert p = .ok (StyleConverter.skip p)) ∧
      ∀ output, c.convert p = .ok output → ∀ s ∈ output.skipped,
        s.reason ≠ "" ∧ s.approach ≠ "" := by
  refine ⟨p.obstacles_eq_nil_iff, fun o _ => o.cause.lookup_approaches, fun c => ?_⟩
  refine ⟨StyleConverter.convert_of_isSkipped, fun output h s hs => ?_⟩
  obtain ⟨hp, rfl⟩ := StyleConverter.eq_skip_of_mem_skipped h hs
  exact StyleConverter.skip_is_worded (obstacles_ne_nil_of_isSkipped hp) hs

/-- A style that is not static, depends on no name and has none itself. -/
def namelessPattern : Pattern :=
  .template {
    component := "A"
    base := "View"
    properties := [{ name := "", value := .text "", isStatic := false, dependencies := some [] }]
    location := ⟨1, 1⟩
    source := "" }

theorem namelessPattern_is_blocked :
    namelessPattern.isAutoConvertible = false ∧ namelessPattern.obstacles ≠ [] ∧
      ({} : StyleConverter).convert namelessPattern = .ok (StyleConverter.skip namelessPattern) ∧
      (StyleConverter.skip namelessPattern).skipped.length = 1 ∧
      ∀ s ∈ (StyleConverter.skip namelessPattern).skipped, s.reason ≠ "" ∧ s.approach ≠ "" := by
  obtain ⟨hiff, _, hskip⟩ := namelessPattern.obstacles_are_what_blocks
  have hauto : namelessPattern.isAutoConvertible = false := by decide
  have hconvert := (hskip {}).1 (by decide)
  refine ⟨hauto, fun hnil => ?_, hconvert, rfl, (hskip {}).2 _ hconvert⟩
  rw [hiff.mp hnil] at hauto
  cases hauto

end Restyle
