namespace Restyle

variable {α β γ ε : Type}

theorem bind_eq_ok {x : Except ε α} {f : α → Except ε β} {b : β} (h : x.bind f = .ok b) :
    ∃ a, x = .ok a ∧ f a = .ok b := by
  cases x with
  | error fault => cases h
  | ok a => exact ⟨a, rfl, h⟩

theorem bind_eq_error {x : Except ε α} {f : α → Except ε β} {fault : ε}
    (h : x.bind f = .error fault) : x = .error fault ∨ ∃ a, x = .ok a ∧ f a = .error fault := by
  cases x with
  | error fault' =>
    cases h
    exact .inl rfl
  | ok a => exact .inr ⟨a, rfl, h⟩

theorem map_eq_ok {f : α → β} {x : Except ε α} {b : β} (h : x.map f = .ok b) :
    ∃ a, x = .ok a ∧ f a = b := by
  cases x with
  | error fault => cases h
  | ok a =>
    cases h
    exact ⟨a, rfl, rfl⟩

theorem map_eq_error {f : α → β} {x : Except ε α} {fault : ε} (h : x.map f = .error fault) :
    x = .error fault := by
  cases x with
  | error fault' =>
    cases h
    rfl
  | ok a => cases h

/-- Whether a computation gives a result of which `p` holds. -/
def gives (p : α → Bool) : Except ε α → Bool
  | .ok a => p a
  | .error _ => false

theorem exists_of_gives {p : α → Bool} {x : Except ε α} (h : gives p x = true) :
    ∃ a, x = .ok a ∧ p a = true := by
  cases x with
  | error fault => cases h
  | ok a => exact ⟨a, rfl, h⟩

theorem eq_ok_of_gives [BEq α] [LawfulBEq α] {x : Except ε α} {a : α}
    (h : gives (· == a) x = true) : x = .ok a := by
  obtain ⟨b, hb, heq⟩ := exists_of_gives h
  rw [hb, eq_of_beq heq]

/-- Whether a computation ends with a fault of which `p` holds. -/
def failsWith (p : ε → Bool) : Except ε α → Bool
  | .ok _ => false
  | .error fault => p fault

theorem exists_of_failsWith {p : ε → Bool} {x : Except ε α} (h : failsWith p x = true) :
    ∃ fault, x = .error fault ∧ p fault = true := by
  cases x with
  | error fault => exact ⟨fault, rfl, h⟩
  | ok a => cases h

theorem mapM_cons_eq_ok {f : α → Except ε β} {x : α} {xs : List α} {ys : List β}
    (h : (x :: xs).mapM f = .ok ys) :
    ∃ y tail, f x = .ok y ∧ xs.mapM f = .ok tail ∧ ys = y :: tail := by
  rw [List.mapM_cons] at h
  obtain ⟨y, hy, h⟩ := bind_eq_ok h
  obtain ⟨tail, ht, h⟩ := bind_eq_ok h
  cases h
  exact ⟨y, tail, hy, ht, rfl⟩

theorem mapM_cons_of_ok {f : α → Except ε β} {x : α} {y : β} (h : f x = .ok y) (xs : List α) :
    (x :: xs).mapM f = (xs.mapM f).map (y :: ·) := by
  rw [List.mapM_cons, h]
  cases xs.mapM f with
  | error fault => rfl
  | ok ys => rfl

theorem map_mapM (f : α → Except ε β) (g : β → γ) (xs : List α) :
    (xs.mapM f).map (·.map g) = xs.mapM fun x => (f x).map g := by
  induction xs with
  | nil => rfl
  | cons x xs ih =>
    rw [List.mapM_cons, List.mapM_cons, ← ih]
    cases f x with
    | error fault => rfl
    | ok y =>
      cases xs.mapM f with
      | error fault => rfl
      | ok ys => rfl

theorem mapM_congr {f g : α → Except ε β} {xs : List α} (h : ∀ x ∈ xs, f x = g x) :
    xs.mapM f = xs.mapM g := by
  induction xs with
  | nil => rfl
  | cons x xs ih =>
    rw [List.mapM_cons, List.mapM_cons, h x List.mem_cons_self,
      ih fun y hy => h y (List.mem_cons_of_mem x hy)]

theorem exists_of_mem_mapM {f : α → Except ε β} {xs : List α} {ys : List β}
    (h : xs.mapM f = .ok ys) {y : β} (hm : y ∈ ys) : ∃ x ∈ xs, f x = .ok y := by
  induction xs generalizing ys with
  | nil =>
    cases h
    cases hm
  | cons x xs ih =>
    obtain ⟨y', tail, hy, ht, rfl⟩ := mapM_cons_eq_ok h
    rcases List.mem_cons.mp hm with rfl | hm
    · exact ⟨x, List.mem_cons_self, hy⟩
    · obtain ⟨x', hx, hf⟩ := ih ht hm
      exact ⟨x', List.mem_cons_of_mem x hx, hf⟩

theorem exists_mem_of_mapM {f : α → Except ε β} {xs : List α} {ys : List β}
    (h : xs.mapM f = .ok ys) {x : α} (hm : x ∈ xs) : ∃ y ∈ ys, f x = .ok y := by
  induction xs generalizing ys with
  | nil => cases hm
  | cons x' xs ih =>
    obtain ⟨y', tail, hy', ht, rfl⟩ := mapM_cons_eq_ok h
    rcases List.mem_cons.mp hm with rfl | hm
    · exact ⟨y', List.mem_cons_self, hy'⟩
    · obtain ⟨y, hy, hf⟩ := ih ht hm
      exact ⟨y, List.mem_cons_of_mem y' hy, hf⟩

theorem exists_mapM_eq_ok {f : α → Except ε β} {xs : List α}
    (h : ∀ x ∈ xs, ∃ y, f x = .ok y) : ∃ ys, xs.mapM f = .ok ys := by
  induction xs with
  | nil => exact ⟨[], rfl⟩
  | cons x xs ih =>
    obtain ⟨y, hy⟩ := h x List.mem_cons_self
    obtain ⟨ys, hys⟩ := ih fun x' hx => h x' (List.mem_cons_of_mem x hx)
    refine ⟨y :: ys, ?_⟩
    rw [List.mapM_cons, hy, hys]
    rfl

theorem exists_of_mapM_eq_error {f : α → Except ε β} {xs : List α} {fault : ε}
    (h : xs.mapM f = .error fault) : ∃ x ∈ xs, f x = .error fault := by
  induction xs with
  | nil => cases h
  | cons x xs ih =>
    rw [List.mapM_cons] at h
    rcases bind_eq_error h with hx | ⟨y, _, h⟩
    · exact ⟨x, List.mem_cons_self, hx⟩
    rcases bind_eq_error h with hxs | ⟨ys, _, h⟩
    · obtain ⟨x', hm, hf⟩ := ih hxs
      exact ⟨x', List.mem_cons_of_mem x hm, hf⟩
    · cases h

/-- What holds of each result, said of the entries that they come from. -/
theorem forall_mapM_iff {f : α → Except ε β} {p : β → Prop} {q : α → Prop} {xs : List α}
    {ys : List β} (h : xs.mapM f = .ok ys) (hpq : ∀ x ∈ xs, ∀ y, f x = .ok y → (p y ↔ q x)) :
    (∀ y ∈ ys, p y) ↔ ∀ x ∈ xs, q x := by
  induction xs generalizing ys with
  | nil =>
    cases h
    simp
  | cons x xs ih =>
    obtain ⟨y, tail, hy, ht, rfl⟩ := mapM_cons_eq_ok h
    have hi := ih ht fun x' hx => hpq x' (List.mem_cons_of_mem x hx)
    rw [List.forall_mem_cons, List.forall_mem_cons, hi, hpq x List.mem_cons_self y hy]

theorem foldlM_eq_ok {step : β → α → Except ε β} {next : β → α → β} {xs : List α}
    (h : ∀ acc, ∀ x ∈ xs, step acc x = .ok (next acc x)) (acc : β) :
    xs.foldlM step acc = .ok (xs.foldl next acc) := by
  induction xs generalizing acc with
  | nil => rfl
  | cons x xs ih =>
    rw [List.foldlM_cons, h acc x List.mem_cons_self]
    exact ih (fun acc y hy => h acc y (List.mem_cons_of_mem x hy)) (next acc x)

theorem filterMapM_eq_ok {f : β → Except ε (Option γ)} {enter : α → β} {g : α → γ}
    {xs : List α} (h : ∀ x ∈ xs, f (enter x) = .ok (some (g x))) :
    (xs.map enter).filterMapM f = .ok (xs.map g) := by
  induction xs with
  | nil => rfl
  | cons x xs ih =>
    have hi := ih fun y hy => h y (List.mem_cons_of_mem x hy)
    rw [List.map_cons, List.filterMapM_cons, h x List.mem_cons_self]
    simp only [bind, Except.bind, hi]
    rfl

end Restyle
