import Mathlib.Data.List.Forall2
import Restyle.Proofs.Traverse

namespace Restyle

variable {α β γ ε : Type}

/-- That a computation returns a result of some kind exactly under a condition, and else ends with a
fault of some kind. -/
structure ReturnsIff (condition : Prop) (result : β → Prop) (fault : ε → Prop)
    (x : Except ε β) : Prop where
  ok : condition → ∃ b, x = .ok b ∧ result b
  error : ¬ condition → ∃ e, x = .error e ∧ fault e

namespace ReturnsIff

variable {condition condition' : Prop} {result : β → Prop} {fault : ε → Prop} {x : Except ε β}

theorem exists_ok_iff (h : ReturnsIff condition result fault x) :
    (∃ b, x = .ok b) ↔ condition := by
  constructor
  · rintro ⟨b, rfl⟩
    by_contra hn
    obtain ⟨e, he, _⟩ := h.error hn
    cases he
  · intro hc
    obtain ⟨b, hb, _⟩ := h.ok hc
    exact ⟨b, hb⟩

theorem result_of_eq_ok (h : ReturnsIff condition result fault x) {b : β} (hb : x = .ok b) :
    result b := by
  obtain ⟨b', hb', hresult⟩ := h.ok (h.exists_ok_iff.mp ⟨b, hb⟩)
  rw [hb] at hb'
  cases hb'
  exact hresult

theorem fault_of_eq_error (h : ReturnsIff condition result fault x) {e : ε}
    (he : x = .error e) : fault e := by
  have hn : ¬ condition := by
    intro hc
    obtain ⟨b, hb, _⟩ := h.ok hc
    rw [he] at hb
    cases hb
  obtain ⟨e', he', hf⟩ := h.error hn
  rw [he] at he'
  cases he'
  exact hf

theorem of_iff (h : ReturnsIff condition result fault x) (hc : condition ↔ condition') :
    ReturnsIff condition' result fault x :=
  ⟨fun hc' => h.ok (hc.mpr hc'), fun hn => h.error fun hc' => hn (hc.mp hc')⟩

theorem imp (h : ReturnsIff condition result fault x) {result' : β → Prop}
    (hr : ∀ b, result b → result' b) : ReturnsIff condition result' fault x := by
  refine ⟨fun hc => ?_, h.error⟩
  obtain ⟨b, hb, hresult⟩ := h.ok hc
  exact ⟨b, hb, hr b hresult⟩

theorem pure (b : β) (hb : result b) :
    ReturnsIff True result fault (.ok b : Except ε β) :=
  ⟨fun _ => ⟨b, rfl, hb⟩, fun hn => absurd trivial hn⟩

theorem map (h : ReturnsIff condition result fault x) {result' : γ → Prop} {f : β → γ}
    (hf : ∀ b, result b → result' (f b)) : ReturnsIff condition result' fault (x.map f) := by
  constructor
  · intro hc
    obtain ⟨b, rfl, hb⟩ := h.ok hc
    exact ⟨f b, rfl, hf b hb⟩
  · intro hn
    obtain ⟨e, rfl, he⟩ := h.error hn
    exact ⟨e, rfl, he⟩

theorem bind (h : ReturnsIff condition result fault x) {result' : γ → Prop}
    {f : β → Except ε γ} (hf : ∀ b, result b → ReturnsIff condition' result' fault (f b)) :
    ReturnsIff (condition ∧ condition') result' fault (x.bind f) := by
  constructor
  · rintro ⟨hc, hc'⟩
    obtain ⟨b, rfl, hb⟩ := h.ok hc
    exact (hf b hb).ok hc'
  · intro hn
    by_cases hc : condition
    · obtain ⟨b, rfl, hb⟩ := h.ok hc
      exact (hf b hb).error fun hc' => hn ⟨hc, hc'⟩
    · obtain ⟨e, rfl, he⟩ := h.error hc
      exact ⟨e, rfl, he⟩

/-- The entries of a list are gone through in order, and the first one that fails ends it. -/
theorem mapM {condition : α → Prop} {result : α → β → Prop} {f : α → Except ε β} {xs : List α}
    (h : ∀ x ∈ xs, ReturnsIff (condition x) (result x) fault (f x)) :
    ReturnsIff (∀ x ∈ xs, condition x) (List.Forall₂ result xs) fault (xs.mapM f) := by
  induction xs with
  | nil => exact ⟨fun _ => ⟨[], rfl, .nil⟩, fun hn => absurd (fun _ hx => nomatch hx) hn⟩
  | cons x xs ih =>
    have htail := ih fun y hy => h y (List.mem_cons_of_mem x hy)
    have hhead := h x List.mem_cons_self
    have hboth := hhead.bind fun y hy =>
      htail.bind fun ys hys => .pure (y :: ys) (List.Forall₂.cons hy hys)
    rw [List.mapM_cons]
    exact hboth.of_iff (by rw [List.forall_mem_cons, and_true])

end ReturnsIff

end Restyle
