namespace Restyle

variable {α β : Type} [BEq β] [LawfulBEq β]

omit [LawfulBEq β] in
/-- The rounds of `List.eraseDups`: each goes on with what is not equal to the first entry. -/
theorem eraseDups_rounds {motive : List β → Prop} (nil : motive [])
    (cons : ∀ x xs, motive (xs.filter fun y => !y == x) → motive (x :: xs)) :
    ∀ xs, motive xs
  | [] => nil
  | x :: xs => cons x xs (eraseDups_rounds nil cons _)
termination_by xs => xs.length
decreasing_by
  have hle := List.length_filter_le (fun y => !y == x) xs
  simp only [List.length_cons]
  omega

omit [LawfulBEq β] in
theorem eraseDups_eq_nil_iff {xs : List β} : xs.eraseDups = [] ↔ xs = [] := by
  cases xs with
  | nil => simp
  | cons x xs => simp [List.eraseDups_cons]

theorem eraseDups_filter (p : β → Bool) (xs : List β) :
    (xs.filter p).eraseDups = xs.eraseDups.filter p := by
  induction xs using eraseDups_rounds with
  | nil => simp
  | cons x xs ih =>
    cases hp : p x with
    | true =>
      rw [List.filter_cons_of_pos hp, List.eraseDups_cons, List.eraseDups_cons,
        List.filter_cons_of_pos hp, ← ih, List.filter_filter, List.filter_filter]
      congr 3
      funext y
      exact Bool.and_comm _ _
    | false =>
      have hne : ¬p x = true := by simp [hp]
      rw [List.filter_cons_of_neg hne, List.eraseDups_cons, List.filter_cons_of_neg hne, ← ih,
        List.filter_filter]
      congr 1
      refine List.filter_congr fun y _ => ?_
      by_cases hy : y = x
      · simp [hy, hp]
      · simp [hy]

theorem eraseDups_eraseDups (xs : List β) : xs.eraseDups.eraseDups = xs.eraseDups := by
  induction xs using eraseDups_rounds with
  | nil => simp
  | cons x xs ih =>
    rw [List.eraseDups_cons, List.eraseDups_cons, ← eraseDups_filter, List.filter_filter]
    simp only [Bool.and_self]
    rw [ih]

theorem nodup_eraseDups (xs : List β) : xs.eraseDups.Nodup := by
  induction xs using eraseDups_rounds with
  | nil => simp
  | cons x xs ih =>
    rw [List.eraseDups_cons]
    refine List.nodup_cons.mpr ⟨fun hx => ?_, ih⟩
    simp [List.mem_eraseDups] at hx

theorem eraseDups_append_congr {xs xs' ys ys' : List β} (hx : xs.eraseDups = xs'.eraseDups)
    (hy : ys.eraseDups = ys'.eraseDups) : (xs ++ ys).eraseDups = (xs' ++ ys').eraseDups := by
  have hm : ∀ y : β, (!xs.elem y) = !xs'.elem y := by
    intro y
    have hiff : y ∈ xs ↔ y ∈ xs' := by rw [← List.mem_eraseDups, hx, List.mem_eraseDups]
    simp only [List.elem_eq_contains, List.contains_eq_mem, hiff]
  have hr : ys.removeAll xs = ys.filter fun y => !xs'.elem y := by
    simp only [List.removeAll, hm]
  rw [List.eraseDups_append, List.eraseDups_append, hx, hr, eraseDups_filter, hy,
    ← eraseDups_filter]
  rfl

theorem eraseDups_append_of_subset {xs ys : List β} (h : ys ⊆ xs) :
    (xs ++ ys).eraseDups = xs.eraseDups := by
  have hnone : ys.removeAll xs = [] := by
    rw [List.removeAll, List.filter_eq_nil_iff]
    intro y hy
    simpa using h hy
  rw [List.eraseDups_append, hnone, List.eraseDups_nil, List.append_nil]

theorem eraseDups_flatMap_congr {f g : α → List β} {xs : List α}
    (h : ∀ x ∈ xs, (f x).eraseDups = (g x).eraseDups) :
    (xs.flatMap f).eraseDups = (xs.flatMap g).eraseDups := by
  induction xs with
  | nil => rfl
  | cons x xs ih =>
    rw [List.flatMap_cons, List.flatMap_cons]
    exact eraseDups_append_congr (h x List.mem_cons_self)
      (ih fun y hy => h y (List.mem_cons_of_mem x hy))

end Restyle
