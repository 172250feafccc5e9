import Restyle.Json.Display
import Restyle.Json.Reader
import Restyle.Proofs.Fields
import Restyle.Proofs.Utility.Opacity

namespace Restyle

namespace Json

theorem areShowable_iff {items : List Json} :
    areShowable items = true ↔ ∀ item ∈ items, item.isShowable = true := by
  induction items with
  | nil => simp [areShowable]
  | cons item items ih => rw [areShowable, Bool.and_eq_true, ih, List.forall_mem_cons]

theorem haveShowable_iff {fields : Fields Json} :
    haveShowable fields = true ↔ ∀ field ∈ fields, field.2.isShowable = true := by
  induction fields with
  | nil => simp [haveShowable]
  | cons field fields ih => rw [haveShowable, Bool.and_eq_true, ih, List.forall_mem_cons]

/-- What cannot be shown is not empty. -/
theorem given_of_not_isShowable {value : Json} (h : value.isShowable = false) :
    value.given = true := by
  cases value with
  | whole n =>
    refine bne_iff_ne.mpr ?_
    rintro rfl
    cases h
  | list items =>
    cases items with
    | nil => cases h
    | cons item items => rfl
  | object fields =>
    cases fields with
    | nil => cases h
    | cons field fields => rfl
  | _ => cases h

theorem ne_text_of_not_isShowable {value : Json} (h : value.isShowable = false) (s : String) :
    value ≠ .text s := by
  rintro rfl
  cases h

theorem isShowable_whole (negative : Bool) {digits : List Char} (h : digits.length ≤ 4300) :
    (whole (if negative then -(Text.digitsValue digits : Int)
      else Text.digitsValue digits)).isShowable = true := by
  have hlt : Text.digitsValue digits < tenTo 4300 :=
    Nat.lt_of_lt_of_le (Text.digitsValue_lt digits) (tenTo_le h)
  have hlength := (Decimal.length_le_iff (by omega)).mpr hlt
  refine decide_eq_true ?_
  cases negative with
  | true =>
    rw [if_pos rfl, Int.natAbs_neg]
    exact hlength
  | false => exact hlength

theorem isShowable_of_readNumber {cs rest : List Char} {value : Json}
    (h : readNumber cs = .ok (value, rest)) : value.isShowable = true := by
  unfold readNumber at h
  dsimp only at h
  split at h
  next => cases h
  next digits after _ =>
    split at h
    next =>
      split at h
      next => cases h
      next hlength =>
        cases h
        exact isShowable_whole _ (by omega)
    next =>
      cases h
      rfl

theorem isShowable_of_readNamed? {cs rest : List Char} {value : Json}
    (h : readNamed? cs = some (value, rest)) : value.isShowable = true := by
  have hnamed : ∀ named ∈ namedValues, named.2.isShowable = true := by decide
  obtain ⟨named, hm, hv⟩ := List.exists_of_findSome?_eq_some h
  obtain ⟨_, _, he⟩ := Option.map_eq_some_iff.mp hv
  cases he
  exact hnamed named hm

/-- That the readers with some fuel only return what can be shown, if what was read before can. -/
structure ReadShowable (fuel : Nat) : Prop where
  value : ∀ {cs value rest}, readValue fuel cs = .ok (value, rest) → value.isShowable = true
  items : ∀ {items cs value rest}, (∀ item ∈ items, item.isShowable = true) →
    readItems fuel items cs = .ok (value, rest) → value.isShowable = true
  fields : ∀ {fields cs value rest}, (∀ field ∈ fields, field.2.isShowable = true) →
    readFields fuel fields cs = .ok (value, rest) → value.isShowable = true

section

variable {fuel : Nat} {cs rest : List Char} {value : Json}

theorem ReadShowable.readValue_succ (hf : ReadShowable fuel)
    (h : readValue (fuel + 1) cs = .ok (value, rest)) : value.isShowable = true := by
  rw [readValue.eq_def] at h
  dsimp only at h
  split at h
  next =>
    split at h
    next =>
      cases h
      rfl
    next => cases h
  next =>
    split at h
    next =>
      cases h
      rfl
    next => exact hf.fields (List.forall_mem_nil _) h
  next =>
    split at h
    next =>
      cases h
      rfl
    next => exact hf.items (List.forall_mem_nil _) h
  next =>
    split at h
    next hnamed =>
      cases h
      exact isShowable_of_readNamed? hnamed
    next => exact isShowable_of_readNumber h

theorem ReadShowable.readItems_succ (hf : ReadShowable fuel) {items : List Json}
    (hread : ∀ item ∈ items, item.isShowable = true)
    (h : readItems (fuel + 1) items cs = .ok (value, rest)) : value.isShowable = true := by
  rw [readItems.eq_def] at h
  dsimp only at h
  split at h
  next => cases h
  next item after hitem =>
    have hall : ∀ i ∈ items ++ [item], i.isShowable = true :=
      List.forall_mem_append.mpr ⟨hread, List.forall_mem_singleton.mpr (hf.value hitem)⟩
    split at h
    next =>
      cases h
      exact areShowable_iff.mpr hall
    next => exact hf.items hall h
    next => cases h

theorem ReadShowable.readFields_succ (hf : ReadShowable fuel) {fields : Fields Json}
    (hread : ∀ field ∈ fields, field.2.isShowable = true)
    (h : readFields (fuel + 1) fields cs = .ok (value, rest)) : value.isShowable = true := by
  rw [readFields.eq_def] at h
  dsimp only at h
  split at h
  next =>
    split at h
    next => cases h
    next name _ _ =>
      split at h
      next =>
        split at h
        next => cases h
        next last _ hlast =>
          have hall : ∀ field ∈ fields.put (String.ofList name) last,
              field.2.isShowable = true := by
            intro field hm
            rcases Fields.mem_put_iff.mp hm with rfl | ⟨hold, -⟩
            · exact hf.value hlast
            · exact hread field hold
          split at h
          next =>
            cases h
            exact haveShowable_iff.mpr hall
          next => exact hf.fields hall h
          next => cases h
      next => cases h
  next => cases h

end

theorem readShowable (fuel : Nat) : ReadShowable fuel := by
  induction fuel with
  | zero =>
    refine ⟨?_, ?_, ?_⟩
    · intro cs value rest h
      cases h
    · intro items cs value rest _ h
      cases h
    · intro fields cs value rest _ h
      cases h
  | succ fuel ih => exact ⟨ih.readValue_succ, ih.readItems_succ, ih.readFields_succ⟩

theorem isShowable_of_read {cs : List Char} {value : Json} (h : read cs = .ok value) :
    value.isShowable = true := by
  unfold read at h
  split at h
  next => cases h
  next =>
    split at h
    next => cases h
    next hvalue =>
      split at h
      next =>
        cases h
        exact (readShowable _).value hvalue
      next => cases h

end Json

end Restyle
