import Mathlib.Data.List.Induction
import Mathlib.Data.List.Nodup
import Restyle.Json.Value

namespace Restyle

theorem mem_of_lookup {α β : Type} [BEq α] [LawfulBEq α] {table : List (α × β)} {key : α} {value : β}
    (h : table.lookup key = some value) : (key, value) ∈ table := by
  obtain ⟨before, after, rfl, _⟩ := List.lookup_eq_some_iff.mp h
  exact List.mem_append_right before List.mem_cons_self

namespace Fields

variable {α : Type} {name : String} {value : α} {pairs : List (String × α)} {pair last : String × α}

theorem mem_of_get? {fields : Fields α} (h : fields.get? name = some value) :
    (name, value) ∈ fields :=
  mem_of_lookup h

theorem put_of_not_mem {fields : Fields α} (h : name ∉ fields.names) (value : α) :
    fields.put name value = fields ++ [(name, value)] := by
  have hn : fields.any (·.1 == name) = false := by
    refine List.any_eq_false.mpr ?_
    intro field hm he
    exact h (List.mem_map.mpr ⟨field, hm, eq_of_beq he⟩)
  simp [put, hn]

theorem get?_cons (fields : Fields α) (name : String) (value : α) (other : String) :
    get? ((name, value) :: fields) other =
      if other = name then some value else fields.get? other := by
  by_cases h : other = name
  · simp [get?, h]
  · simp [get?, List.lookup_cons, beq_false_of_ne h, h]

theorem get?_append (before after : Fields α) (name : String) :
    get? (before ++ after) name = (before.get? name).or (after.get? name) :=
  List.lookup_append

theorem get?_map_replace (fields : Fields α) (name : String) (value : α) (other : String) :
    get? (fields.map fun field => if field.1 == name then (name, value) else field) other =
      if other = name then (fields.get? name).map fun _ => value else fields.get? other := by
  induction fields with
  | nil => simp [get?]
  | cons field fields ih =>
    obtain ⟨key, value'⟩ := field
    grind [get?_cons]

theorem get?_put (fields : Fields α) (name : String) (value : α) (other : String) :
    (fields.put name value).get? other =
      if other = name then some value else fields.get? other := by
  unfold put
  split
  next hany =>
    obtain ⟨field, hm, he⟩ := List.any_eq_true.mp hany
    have hsome : (fields.get? name).isSome :=
      List.lookup_isSome_iff.mpr ⟨field, hm, beq_iff_eq.mpr (beq_iff_eq.mp he).symm⟩
    obtain ⟨_, hget⟩ := Option.isSome_iff_exists.mp hsome
    rw [get?_map_replace, hget, Option.map_some]
  next hany =>
    have hnone : fields.get? name = none := by
      apply List.lookup_eq_none_iff.mpr
      grind
    rw [get?_append, get?_cons]
    by_cases ho : other = name
    · rw [if_pos ho, if_pos ho, ho, hnone, Option.none_or]
    · rw [if_neg ho, if_neg ho]
      exact Option.or_none

theorem get?_foldl_put (fields : Fields α) (h : name ∉ pairs.map (·.1)) :
    get? (pairs.foldl (fun fields (name, value) => fields.put name value) fields) name =
      fields.get? name := by
  induction pairs generalizing fields with
  | nil => rfl
  | cons pair pairs ih =>
    rw [List.map_cons, List.mem_cons, not_or] at h
    rw [List.foldl_cons, ih _ h.2, get?_put, if_neg h.1]

theorem get?_ofPairs_append {after : List (String × α)} (h : name ∉ after.map (·.1)) :
    (ofPairs (pairs ++ (name, value) :: after)).get? name = some value := by
  rw [ofPairs, List.foldl_append, List.foldl_cons, get?_foldl_put _ h, get?_put, if_pos rfl]

theorem get?_ofPairs_of_mem (h : (pairs.map (·.1)).Nodup) (hm : (name, value) ∈ pairs) :
    (ofPairs pairs).get? name = some value := by
  obtain ⟨before, after, rfl⟩ := List.append_of_mem hm
  apply get?_ofPairs_append
  rw [List.map_append, List.map_cons] at h
  exact (List.nodup_cons.mp (List.nodup_append.mp h).2.1).1

theorem mem_names_put {fields : Fields α} {other : String} :
    other ∈ (fields.put name value).names ↔ other = name ∨ other ∈ fields.names := by
  unfold put
  split
  next hany =>
    obtain ⟨field, hm, he⟩ := List.any_eq_true.mp hany
    have hname : name ∈ fields.names := List.mem_map.mpr ⟨field, hm, beq_iff_eq.mp he⟩
    have hnames : names (fields.map fun field => if field.1 == name then (name, value) else field) =
        fields.names := by
      unfold names
      rw [List.map_map]
      exact List.map_congr_left fun field _ => by grind
    rw [hnames]
    exact ⟨Or.inr, fun h => h.elim (fun he => he ▸ hname) id⟩
  next => simp [names, or_comm]

theorem mem_names_foldl_put {fields : Fields α} :
    name ∈ names (pairs.foldl (fun fields (name, value) => fields.put name value) fields) ↔
      name ∈ fields.names ∨ name ∈ pairs.map (·.1) := by
  induction pairs generalizing fields with
  | nil => simp
  | cons pair pairs ih =>
    rw [List.foldl_cons, ih, mem_names_put, List.map_cons, List.mem_cons]
    tauto

theorem mem_names_ofPairs : name ∈ (ofPairs pairs).names ↔ name ∈ pairs.map (·.1) := by
  rw [ofPairs, mem_names_foldl_put]
  simp [names]

theorem ofPairs_eq_nil_iff :
    ofPairs pairs = [] ↔ pairs = [] := by
  constructor
  · intro h
    cases pairs with
    | nil => rfl
    | cons pair pairs =>
      have hm : pair.1 ∈ (ofPairs (pair :: pairs)).names :=
        mem_names_ofPairs.mpr (by simp)
      rw [h] at hm
      cases hm
  · rintro rfl
    rfl

/-- That a pair stands in a list and no pair with its name comes after it. -/
def IsLast (pairs : List (String × α)) (pair : String × α) : Prop :=
  ∃ before after, pairs = before ++ pair :: after ∧ pair.1 ∉ after.map (·.1)

theorem IsLast.mem (h : IsLast pairs pair) : pair ∈ pairs := by
  obtain ⟨before, after, rfl, -⟩ := h
  exact List.mem_append_right before List.mem_cons_self

theorem isLast_concat_iff :
    IsLast (pairs ++ [last]) pair ↔ pair = last ∨ IsLast pairs pair ∧ pair.1 ≠ last.1 := by
  constructor
  · rintro ⟨before, after, he, hn⟩
    rcases List.eq_nil_or_concat after with rfl | ⟨front, other, rfl⟩
    · exact .inl (List.cons.inj (List.append_inj' he rfl).2).1.symm
    · rw [List.concat_eq_append, ← List.cons_append, ← List.append_assoc] at he
      obtain ⟨rfl, hother⟩ := List.append_inj' he rfl
      obtain rfl : last = other := (List.cons.inj hother).1
      rw [List.concat_eq_append, List.map_append, List.mem_append, not_or] at hn
      exact .inr ⟨⟨before, front, rfl, hn.1⟩, fun hname => hn.2 (by simp [hname])⟩
  · rintro (rfl | ⟨⟨before, after, rfl, hn⟩, hname⟩)
    · exact ⟨pairs, [], rfl, List.not_mem_nil⟩
    · exact ⟨before, after ++ [last], by simp, by simp [hname, hn]⟩

theorem mem_put_iff {fields : Fields α} :
    pair ∈ fields.put name value ↔ pair = (name, value) ∨ pair ∈ fields ∧ pair.1 ≠ name := by
  unfold put
  split
  next hany =>
    obtain ⟨field, hm, hname⟩ := List.any_eq_true.mp hany
    grind
  next hany =>
    have hne : ∀ field ∈ fields, field.1 ≠ name := by grind
    grind

theorem ofPairs_concat (pairs : List (String × α)) (last : String × α) :
    ofPairs (pairs ++ [last]) = (ofPairs pairs).put last.1 last.2 := by
  rw [ofPairs, List.foldl_concat]
  rfl

/-- Of the pairs that are written one after the other, the last one of each name is left. -/
theorem mem_ofPairs_iff : pair ∈ ofPairs pairs ↔ IsLast pairs pair := by
  induction pairs using List.reverseRecOn with
  | nil => simp [ofPairs, IsLast]
  | append_singleton pairs last ih =>
    rw [ofPairs_concat, mem_put_iff, ih, isLast_concat_iff]

end Fields

end Restyle
