import Restyle.Proofs.Dedup
import Restyle.Proofs.Expression.Name
import Restyle.Proofs.Scan.Find

namespace Restyle

namespace Scan

theorem getLast?_cons_or (c : Char) (front : List Char) (before : Option Char) :
    (c :: front).getLast?.or before = front.getLast?.or (some c) := by
  rw [List.getLast?_cons, Option.some_or]
  cases front.getLast? <;> rfl

theorem getLast?_append_or (text front : List Char) (before : Option Char) :
    (text ++ front).getLast?.or before = front.getLast?.or (text.getLast?.or before) := by
  rw [List.getLast?_append, Option.or_assoc]

theorem holdsSomewhere_iff {p : Option Char → List Char → Bool} {before : Option Char}
    {cs : List Char} :
    holdsSomewhere p before cs = true ↔
      ∃ front rest, cs = front ++ rest ∧ rest ≠ [] ∧ p (front.getLast?.or before) rest = true := by
  induction cs generalizing before with
  | nil =>
    constructor
    · intro h
      cases h
    · rintro ⟨front, rest, he, hne, -⟩
      exact absurd (List.append_eq_nil_iff.mp he.symm).2 hne
  | cons c cs ih =>
    rw [holdsSomewhere, Bool.or_eq_true, ih]
    constructor
    · rintro (h | ⟨front, rest, rfl, hne, h⟩)
      · exact ⟨[], c :: cs, rfl, List.cons_ne_nil _ _, h⟩
      · rw [← getLast?_cons_or c front before] at h
        exact ⟨c :: front, rest, rfl, hne, h⟩
    · rintro ⟨front, rest, he, hne, h⟩
      cases front with
      | nil =>
        rw [List.nil_append] at he
        subst he
        exact .inl h
      | cons d front =>
        rw [List.cons_append, List.cons.injEq] at he
        obtain ⟨rfl, rfl⟩ := he
        rw [getLast?_cons_or] at h
        exact .inr ⟨front, rest, rfl, hne, h⟩

variable {α : Type} {recognize : Recognizer α}

theorem findFrom_eq_nil_iff
    (hr : ∀ {before cs value rest}, recognize before cs = some (value, rest) →
      rest.length < cs.length)
    (before : Option Char) (offset : Nat) (cs : List Char) :
    findFrom recognize before offset cs = [] ↔
      holdsSomewhere (fun before cs => (recognize before cs).isSome) before cs = false := by
  induction cs generalizing before offset with
  | nil => simp [findFrom, holdsSomewhere]
  | cons c tail ih =>
    rw [holdsSomewhere, Bool.or_eq_false_iff]
    cases h : recognize before (c :: tail) with
    | none =>
      rw [findFrom_of_none h, ih]
      simp
    | some found =>
      have hlt : found.2.length ≤ tail.length := Nat.le_of_lt_succ (hr h)
      rw [findFrom, h]
      simp [hlt]

/-- A search finds nothing if and only if nothing can be read at any place. -/
theorem findAll_eq_nil_iff
    (hr : ∀ {before cs value rest}, recognize before cs = some (value, rest) →
      rest.length < cs.length) {cs : List Char} :
    findAll recognize cs = [] ↔
      ¬∃ front rest, cs = front ++ rest ∧ (recognize front.getLast? rest).isSome = true := by
  rw [findAll, findFrom_eq_nil_iff hr, ← Bool.not_eq_true, holdsSomewhere_iff]
  apply not_congr
  simp only [Option.or_none]
  constructor
  · rintro ⟨front, rest, he, -, h⟩
    exact ⟨front, rest, he, h⟩
  · rintro ⟨front, rest, he, h⟩
    refine ⟨front, rest, he, ?_, h⟩
    rintro rfl
    obtain ⟨⟨value, after⟩, hv⟩ := Option.isSome_iff_exists.mp h
    exact absurd (hr hv) (Nat.not_lt_zero _)

end Scan

namespace Expression

/-- That `name` stands in `cs` between `front` and `rest`: not inside of another name, and not as a
member. -/
structure Stands (front name rest cs : List Char) : Prop where
  text : cs = front ++ (name ++ rest)
  isName : isName name = true
  starts : admitsName front.getLast? = true
  ends : ∀ c ∈ rest.head?, continuesName c = false

theorem name?_eq_some_iff {before : Option Char} {cs name rest : List Char} :
    name? before cs = some (name, rest) ↔ admitsName before = true ∧ isName name = true ∧
      cs = name ++ rest ∧ ∀ c ∈ rest.head?, continuesName c = false := by
  constructor
  · intro h
    unfold name? at h
    split at h
    next => cases h
    next c tail =>
      split at h
      next hc =>
        cases h
        obtain ⟨hb, hs⟩ := Bool.and_eq_true_iff.mp hc
        refine ⟨hb, ?_, by simp, Text.head_dropWhile⟩
        rw [isName, hs, Bool.true_and]
        exact List.all_takeWhile
      next => cases h
  · rintro ⟨hb, hn, rfl, he⟩
    cases name with
    | nil => cases hn
    | cons c name =>
      obtain ⟨hs, hall⟩ := Bool.and_eq_true_iff.mp hn
      have hall := List.all_eq_true.mp hall
      rw [List.cons_append, name?, if_pos (by rw [hb, hs]; rfl),
        Text.takeWhile_append_of_head hall he, Text.dropWhile_append_of_head hall he]

/-- No name starts inside of a name. -/
theorem exists_append_of_admitsName {name rest front after : List Char} (hn : isName name = true)
    (he : name ++ rest = front ++ after) (hne : front ≠ []) (ha : admitsName front.getLast? = true) :
    ∃ between, front = name ++ between ∧ rest = between ++ after := by
  rcases List.append_eq_append_iff.mp he with hout | ⟨left, hname, -⟩
  · exact hout
  · have hlast : front.getLast hne ∈ name := by
      rw [hname]
      exact List.mem_append_left _ (List.getLast_mem hne)
    rw [List.getLast?_eq_some_getLast hne, admitsName, (isName_all hn).2 _ hlast] at ha
    cases ha

/-- The hits of a search for names are the names that stand in the text. -/
theorem exists_hit_iff {before : Option Char} {offset : Nat} {cs name : List Char} :
    (∃ hit ∈ Scan.findFrom name? before offset cs, hit.value = name) ↔
      ∃ front rest, cs = front ++ (name ++ rest) ∧
        name? (front.getLast?.or before) (name ++ rest) = some (name, rest) := by
  induction hl : cs.length using Nat.strongRecOn generalizing cs before offset with
  | _ n ih =>
  cases cs with
  | nil =>
    rw [Scan.findFrom_nil]
    constructor
    · rintro ⟨hit, hm, -⟩
      cases hm
    · rintro ⟨front, rest, he, h⟩
      have hnil := List.append_eq_nil_iff.mp (List.append_eq_nil_iff.mp he.symm).2
      rw [hnil.1, hnil.2] at h
      cases h
  | cons c tail =>
    cases h : name? before (c :: tail) with
    | none =>
      rw [Scan.findFrom_of_none h, ih tail.length (by rw [← hl]; simp) rfl]
      constructor
      · rintro ⟨front, rest, rfl, hf⟩
        rw [← Scan.getLast?_cons_or c front before] at hf
        exact ⟨c :: front, rest, rfl, hf⟩
      · rintro ⟨front, rest, he, hf⟩
        cases front with
        | nil =>
          rw [List.nil_append] at he
          rw [← he, List.getLast?_nil, Option.none_or, h] at hf
          cases hf
        | cons d front =>
          rw [List.cons_append, List.cons.injEq] at he
          obtain ⟨rfl, rfl⟩ := he
          rw [Scan.getLast?_cons_or] at hf
          exact ⟨front, rest, rfl, hf⟩
    | some found =>
      obtain ⟨first, after⟩ := found
      obtain ⟨-, hname, he, -⟩ := name?_eq_some_iff.mp h
      have hne : first ≠ [] := (isName_all hname).1
      have hlt : after.length < n := by
        have := List.length_pos_iff.mpr hne
        rw [← hl, he, List.length_append]
        omega
      have hlast : first.getLast?.or before = first.getLast? := by
        rw [List.getLast?_eq_some_getLast hne, Option.some_or]
      rw [he] at h ⊢
      simp only [Scan.findFrom_of_some hne h, List.mem_cons, exists_eq_or_imp]
      rw [ih after.length hlt rfl]
      constructor
      · rintro (rfl | ⟨front, rest, rfl, hf⟩)
        · exact ⟨[], after, rfl, h⟩
        · refine ⟨first ++ front, rest, by rw [List.append_assoc], ?_⟩
          rwa [Scan.getLast?_append_or, hlast]
      · rintro ⟨front, rest, hs, hf⟩
        by_cases hfront : front = []
        · subst hfront
          rw [List.nil_append] at hs
          rw [← hs, List.getLast?_nil, Option.none_or, h] at hf
          cases hf
          exact .inl rfl
        · -- what stands after the first hit cannot start inside of it
          have hadmits := (name?_eq_some_iff.mp hf).1
          rw [List.getLast?_eq_some_getLast hfront, Option.some_or,
            ← List.getLast?_eq_some_getLast hfront] at hadmits
          obtain ⟨between, rfl, hafter⟩ :=
            exists_append_of_admitsName hname hs hfront hadmits
          rw [Scan.getLast?_append_or, hlast] at hf
          exact .inr ⟨between, rest, hafter, hf⟩

theorem stands_iff {front name rest cs : List Char} :
    Stands front name rest cs ↔ cs = front ++ (name ++ rest) ∧
      name? front.getLast? (name ++ rest) = some (name, rest) := by
  rw [name?_eq_some_iff]
  exact ⟨fun h => ⟨h.text, h.starts, h.isName, rfl, h.ends⟩,
    fun ⟨ht, hs, hn, _, he⟩ => ⟨ht, hn, hs, he⟩⟩

/-- The names of a text are the words that stand in it as names and are no values. -/
theorem mem_names_iff {cs : List Char} {word : String} :
    word ∈ names cs ↔ word ∉ valueWords ∧ ∃ front rest, Stands front word.toList rest cs := by
  have hits : (∃ hit ∈ Scan.findAll name? cs, hit.value = word.toList) ↔
      ∃ front rest, Stands front word.toList rest cs := by
    simp only [Scan.findAll, exists_hit_iff, stands_iff, Option.or_none]
  have hword : ∀ text : List Char, String.ofList text = word ↔ text = word.toList := by
    intro text
    rw [← String.toList_inj, String.toList_ofList]
  rw [← hits, names, List.mem_eraseDups, List.mem_filter, List.mem_map, and_comm]
  simp only [hword, Bool.not_eq_true', List.contains_eq_mem, decide_eq_false_iff_not]

end Expression

end Restyle
