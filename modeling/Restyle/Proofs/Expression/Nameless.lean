import Restyle.Proofs.Dedup
import Restyle.Proofs.Expression.Static

namespace Restyle.Expression

variable {raw cs : List Char}

/-- That a choice or a calculation is made in a text, and that no name stands in it but the words for
values. -/
structure ChoosesValues (cs : List Char) : Prop where
  names : names cs = []
  chooses : HasChoice cs ∨ ∃ front name rest, Stands front name rest cs ∧ IsOperand front rest

/-- That an expression is an arrow function that takes nothing from its parameter, a template literal
without names, or a choice or a calculation without names. -/
inductive IsNameless (raw : List Char) : Prop where
  | arrow (hp : Text.hasPart ['$', '{'] raw = true) (ha : HasArrow raw)
      (hn : destructuredNames raw = [])
  | template (ha : ¬(Text.hasPart ['$', '{'] raw = true ∧ HasArrow raw))
      (ht : templateInterpolations (unwrap raw) ≠ []) (hn : names (emptyStrings (unwrap raw)) = [])
      (hi : ∀ region ∈ templateInterpolations (unwrap raw), (classify region).dependencies = [])
  | bare (ha : ¬(Text.hasPart ['$', '{'] raw = true ∧ HasArrow raw))
      (ht : templateInterpolations (unwrap raw) = [])
      (hc : ChoosesValues (emptyStrings (unwrap raw)))

theorem accesses_eq_nil_of_names (h : names cs = []) : Scan.findAll access? cs = [] := by
  have hroots : ∀ root ∈ dynamicRoots, String.ofList root ∉ valueWords := by decide
  rw [accesses_eq_nil_iff]
  rintro ⟨front, root, rest, hs, hr, -⟩
  have hm : String.ofList root ∈ names cs :=
    mem_names_iff.mpr ⟨hroots root hr, front, rest, by rwa [String.toList_ofList]⟩
  rw [h] at hm
  cases hm

theorem choosesValues_iff : ChoosesValues cs ↔ names cs = [] ∧
    (Scan.holdsSomewhere choiceAt none cs = true ∨
      (Scan.holdsSomewhere calculationAt none cs || startsSigned cs) = true) := by
  rw [choice_iff, calculation_iff]
  exact ⟨fun h => ⟨h.names, h.chooses⟩, fun h => ⟨h.1, h.2⟩⟩

theorem classifyBare_nameless_iff :
    (classifyBare cs).isStatic = false ∧ (classifyBare cs).dependencies = [] ↔
      ChoosesValues (emptyStrings cs) := by
  rw [choosesValues_iff]
  by_cases hm : Scan.findAll access? (emptyStrings cs) = []
  · simp only [classifyBare, hm, List.isEmpty_nil, Bool.not_true, Bool.false_eq_true, if_false]
    split
    next hc => simp [hc, Classification.isStatic]
    next hc =>
      split
      next ho => simp [ho, Classification.isStatic]
      next ho =>
        split
        next => simp [hc, ho]
        next => simp [hc, ho, Classification.isStatic]
  · have hn : names (emptyStrings cs) ≠ [] := fun hn => hm (accesses_eq_nil_of_names hn)
    simp [classifyBare, hm, hn, eraseDups_eq_nil_iff]

/-- An expression that is not static depends on no name exactly if it is nameless. -/
theorem nameless_iff (raw : List Char) :
    (classify raw).isStatic = false ∧ (classify raw).dependencies = [] ↔
      isPlainLiteral (unwrap raw) = false ∧ IsNameless raw := by
  rw [classify]
  dsimp only
  split
  next hl => simp [hl, Classification.isStatic]
  next hl =>
    rw [Bool.not_eq_true] at hl
    simp only [hl, true_and]
    split
    next ha =>
      rw [hasArrow_iff] at ha
      constructor
      · exact fun h => .arrow ha.1 ha.2 h.2
      · rintro (⟨-, -, hn⟩ | ⟨hn, -⟩ | ⟨hn, -⟩)
        · exact ⟨rfl, hn⟩
        · exact absurd ha hn
        · exact absurd ha hn
    next ha =>
      rw [hasArrow_iff] at ha
      split
      next ht =>
        rw [List.isEmpty_iff] at ht
        rw [classifyBare_nameless_iff]
        constructor
        · exact fun h => .bare ha ht h
        · rintro (⟨hp, harrow, -⟩ | ⟨-, hn, -⟩ | ⟨-, -, hc⟩)
          · exact absurd ⟨hp, harrow⟩ ha
          · exact absurd ht hn
          · exact hc
      next ht =>
        rw [List.isEmpty_iff] at ht
        simp only [eraseDups_eq_nil_iff, List.append_eq_nil_iff, List.flatMap_eq_nil_iff]
        constructor
        · rintro ⟨-, hn, hi⟩
          exact .template ha ht hn fun region hr => hi ⟨region, hr⟩ (List.mem_attach _ _)
        · rintro (⟨hp, harrow, -⟩ | ⟨-, -, hn, hi⟩ | ⟨-, hn, -⟩)
          · exact absurd ⟨hp, harrow⟩ ha
          · exact ⟨rfl, hn, fun region _ => hi region.1 region.2⟩
          · exact absurd hn ht

end Restyle.Expression
