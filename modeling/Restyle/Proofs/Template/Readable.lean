import Restyle.Proofs.Number.Excess
import Restyle.Proofs.Template.Total

namespace Restyle.TemplatePattern

section

variable {regions : List (List Char)}

theorem regionOf_returns (digits : List Char) :
    ReturnsIff (∃ region, regionOf regions digits = .ok region) (fun _ => True)
      (·.isMisnumbered = true) (regionOf regions digits) := by
  constructor
  · rintro ⟨region, hr⟩
    exact ⟨region, hr, trivial⟩
  · intro hn
    unfold regionOf at hn ⊢
    split
    next => exact ⟨_, rfl, rfl⟩
    next hl =>
      rw [if_neg hl] at hn
      cases hg : regions[Text.digitsValue digits]? with
      | some region => exact absurd ⟨region, by rw [hg]⟩ hn
      | none => exact ⟨_, rfl, rfl⟩

theorem maskedDependencies_returns (cs : List Char) :
    ReturnsIff (Resolved regions cs) (fun _ => True) (·.isMisnumbered = true)
      (maskedDependencies regions cs) := by
  rw [maskedDependencies_eq]
  exact (ReturnsIff.mapM fun digits _ => regionOf_returns digits).map fun _ _ => trivial

theorem readSegment_returns (regions : List (List Char)) (segment : List Char) :
    ReturnsIff (isRead (Text.trim segment) = true → Resolved regions (Text.trim segment))
      (fun _ => True) (·.isMisnumbered = true) (readSegment regions segment) := by
  constructor
  · intro hc
    cases hread : isRead (Text.trim segment) with
    | false => exact ⟨_, readSegment_of_not_isRead hread, trivial⟩
    | true =>
      obtain ⟨found, hf⟩ := exists_readSegment (hc hread)
      exact ⟨found, hf, trivial⟩
  · intro hn
    obtain ⟨hread, hresolved⟩ := Classical.not_imp.mp hn
    obtain ⟨fault, hfault, hm⟩ := (maskedDependencies_returns _).error hresolved
    exact ⟨fault, by rw [readSegment_of_isRead hread, hfault]; rfl, hm⟩

theorem resolved_iff {cs : List Char} : Resolved regions cs ↔ ∀ digits ∈ placeholders cs,
    digits.length ≤ 4300 ∧ Text.digitsValue digits < regions.length := by
  have hregion : ∀ digits, (∃ region, regionOf regions digits = .ok region) ↔
      digits.length ≤ 4300 ∧ Text.digitsValue digits < regions.length := by
    intro digits
    simp only [regionOf_eq_ok_iff, exists_and_left, List.getElem?_eq_some_iff]
    grind
  simp only [Resolved, hregion]

end

/-- That the template at a header can be read: in the segments that are read, each placeholder is
the number of an interpolation. -/
def CanRead (hit : Scan.Hit (List Char × List Char)) : Prop :=
  ∀ literal rest, Scan.takeTemplate? hit.rest = some (literal, rest) →
    ∀ segment ∈ readSegments (Expression.inside literal),
      ∀ digits ∈ placeholders (maskedOf segment), digits.length ≤ 4300 ∧
        Text.digitsValue digits <
          (Scan.interpolations (dropComments (Expression.inside literal))).length

/-- What a record tells of its header: where it is and what it names, and whether the template has
an end. -/
structure IsRecord (source : List Char) (hit : Scan.Hit (List Char × List Char))
    (p : TemplatePattern) : Prop where
  location : p.location = Location.ofOffset source hit.offset
  component : p.component = String.ofList hit.value.1
  base : p.base = String.ofList hit.value.2
  failed : p.failed = true ↔ Scan.takeTemplate? hit.rest = none

theorem parseBody_returns (body : List Char) :
    ReturnsIff (∀ segment ∈ readSegments body, ∀ digits ∈ placeholders (maskedOf segment),
        digits.length ≤ 4300 ∧
          Text.digitsValue digits < (Scan.interpolations (dropComments body)).length)
      (fun _ => True) (·.isMisnumbered = true) (parseBody body) := by
  have hsegments : (∀ cs ∈ (segments (dropComments body)).map maskedOf,
      isRead (Text.trim cs) = true →
        Resolved (Scan.interpolations (dropComments body)) (Text.trim cs)) ↔
      ∀ segment ∈ readSegments body, ∀ digits ∈ placeholders (maskedOf segment),
        digits.length ≤ 4300 ∧
          Text.digitsValue digits < (Scan.interpolations (dropComments body)).length := by
    simp only [List.forall_mem_map, trim_maskedOf, readSegments, List.mem_filter, and_imp,
      ← resolved_iff]
  rw [parseBody_eq]
  exact ((ReturnsIff.mapM fun cs _ => readSegment_returns _ cs).map fun _ _ => trivial).of_iff
    hsegments

theorem ofHit_returns (source : List Char) (hit : Scan.Hit (List Char × List Char)) :
    ReturnsIff (CanRead hit) (IsRecord source hit) (·.isMisnumbered = true)
      (ofHit source hit) := by
  unfold ofHit CanRead
  cases ht : Scan.takeTemplate? hit.rest with
  | none =>
    refine (ReturnsIff.pure _ ⟨rfl, rfl, rfl, by simp [ht]⟩).of_iff ?_
    simp
  | some found =>
    obtain ⟨literal, rest⟩ := found
    refine ((parseBody_returns (Expression.inside literal)).map
      fun _ _ => ⟨rfl, rfl, rfl, by simp [ht]⟩).of_iff ⟨?_, fun h => h literal rest rfl⟩
    rintro h literal rest ⟨⟩
    exact h

end Restyle.TemplatePattern
