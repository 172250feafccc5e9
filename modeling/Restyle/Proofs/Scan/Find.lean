import Restyle.Scan.Find

namespace Restyle.Scan

variable {α : Type} {recognize : Recognizer α}

/-- A recognizer that reads a part of the text that is not empty. -/
def ReadsText (recognize : Recognizer α) : Prop :=
  ∀ before cs value rest, recognize before cs = some (value, rest) →
    ∃ text, text ≠ [] ∧ cs = text ++ rest

/-- A recognizer that reads a part of the text that is not empty, and does not look at what stands
before it. -/
structure Consumes (recognize : Recognizer α) : Prop where
  before : ∀ before before' cs, recognize before cs = recognize before' cs
  front : ∀ {before cs value rest}, recognize before cs = some (value, rest) →
    ∃ text, text ≠ [] ∧ cs = text ++ rest

theorem Consumes.readsText (hr : Consumes recognize) : ReadsText recognize :=
  fun _ _ _ _ => hr.front

theorem findFrom_of_none {before : Option Char} {c : Char} {tail : List Char}
    (h : recognize before (c :: tail) = none) (offset : Nat) :
    findFrom recognize before offset (c :: tail) =
      findFrom recognize (some c) (offset + 1) tail := by
  rw [findFrom, h]

theorem findFrom_of_some {before : Option Char} {text rest : List Char} {value : α}
    (hne : text ≠ []) (h : recognize before (text ++ rest) = some (value, rest)) (offset : Nat) :
    findFrom recognize before offset (text ++ rest) =
      ⟨offset, value, text, rest⟩ ::
        findFrom recognize text.getLast? (offset + text.length) rest := by
  obtain ⟨c, tail, rfl⟩ := List.exists_cons_of_ne_nil hne
  have hl : rest.length ≤ (tail ++ rest).length := by simp
  have ht : (c :: (tail ++ rest)).take ((c :: (tail ++ rest)).length - rest.length) =
      c :: tail := by
    have hn : (c :: (tail ++ rest)).length - rest.length = (c :: tail).length := by
      simp only [List.length_cons, List.length_append]
      omega
    rw [hn, ← List.cons_append, List.take_left]
  rw [List.cons_append] at h ⊢
  rw [findFrom, h]
  simp only [if_pos hl, ht]

/-- A text is searched from the left, a character or a hit at a time. -/
theorem find_rounds (hr : ReadsText recognize) {motive : Option Char → Nat → List Char → Prop}
    (nil : ∀ before offset, motive before offset [])
    (skip : ∀ before offset c tail, recognize before (c :: tail) = none →
      motive (some c) (offset + 1) tail → motive before offset (c :: tail))
    (read : ∀ before offset text value rest, text ≠ [] →
      recognize before (text ++ rest) = some (value, rest) →
      motive text.getLast? (offset + text.length) rest → motive before offset (text ++ rest))
    (before : Option Char) (offset : Nat) (cs : List Char) : motive before offset cs := by
  induction hn : cs.length using Nat.strongRecOn generalizing cs before offset with
  | _ n ih =>
    cases cs with
    | nil => exact nil before offset
    | cons c tail =>
      cases h : recognize before (c :: tail) with
      | none => exact skip before offset c tail h (ih tail.length (by rw [← hn]; simp) _ _ tail rfl)
      | some found =>
        obtain ⟨value, rest⟩ := found
        obtain ⟨text, hne, he⟩ := hr before _ value rest h
        have hlt : rest.length < n := by
          have := List.length_pos_iff.mpr hne
          rw [← hn, he, List.length_append]
          omega
        rw [he] at h ⊢
        exact read before offset text value rest hne h (ih rest.length hlt _ _ rest rfl)

theorem findFrom_nil (before : Option Char) (offset : Nat) :
    findFrom recognize before offset [] = [] := by
  simp [findFrom]

/-- The text of a hit stands at its offset and is recognised there. -/
theorem exists_place_of_mem_findFrom (hr : ReadsText recognize) {before : Option Char}
    {offset : Nat} {cs : List Char} {hit : Hit α} (h : hit ∈ findFrom recognize before offset cs) :
    ∃ front previous, cs = front ++ (hit.text ++ hit.rest) ∧ hit.offset = offset + front.length ∧
      hit.text ≠ [] ∧ recognize previous (hit.text ++ hit.rest) = some (hit.value, hit.rest) := by
  induction before, offset, cs using find_rounds hr with
  | nil before offset =>
    rw [findFrom_nil] at h
    cases h
  | skip before offset c tail hn ih =>
    rw [findFrom_of_none hn] at h
    obtain ⟨front, previous, hc, ho, hs⟩ := ih h
    exact ⟨c :: front, previous, by rw [hc, List.cons_append],
      by rw [ho, List.length_cons]; omega, hs⟩
  | read before offset text value rest hne hv ih =>
    rw [findFrom_of_some hne hv] at h
    rcases List.mem_cons.mp h with rfl | h
    · exact ⟨[], before, rfl, rfl, hne, hv⟩
    · obtain ⟨front, previous, hc, ho, hs⟩ := ih h
      exact ⟨text ++ front, previous, by rw [hc, List.append_assoc],
        by rw [ho, List.length_append, Nat.add_assoc], hs⟩

theorem of_mem_findFrom (hr : Consumes recognize) {before : Option Char} {offset : Nat}
    {cs : List Char} {hit : Hit α} (h : hit ∈ findFrom recognize before offset cs) :
    ∃ front, cs = front ++ (hit.text ++ hit.rest) ∧ hit.offset = offset + front.length ∧
      hit.text ≠ [] ∧ recognize none (hit.text ++ hit.rest) = some (hit.value, hit.rest) := by
  obtain ⟨front, previous, hc, ho, hne, hv⟩ := exists_place_of_mem_findFrom hr.readsText h
  exact ⟨front, hc, ho, hne, (hr.before none previous _).trans hv⟩

theorem offset_le_of_mem_findFrom (hr : Consumes recognize) {before : Option Char} {offset : Nat}
    {cs : List Char} {hit : Hit α} (h : hit ∈ findFrom recognize before offset cs) :
    offset ≤ hit.offset := by
  obtain ⟨front, _, ho, _⟩ := of_mem_findFrom hr h
  omega

theorem rest_suffix_of_mem_findAll (hr : Consumes recognize) {source : List Char} {hit : Hit α}
    (h : hit ∈ findAll recognize source) : hit.rest <:+ source := by
  obtain ⟨front, hsource, _⟩ := of_mem_findFrom hr h
  rw [hsource, ← List.append_assoc]
  exact List.suffix_append _ _

theorem recognize_drop_of_mem_findAll (hr : Consumes recognize) {source : List Char} {hit : Hit α}
    (h : hit ∈ findAll recognize source) :
    hit.offset < source.length ∧
      recognize none (source.drop hit.offset) = some (hit.value, hit.rest) := by
  obtain ⟨front, rfl, hoffset, hne, hfound⟩ := of_mem_findFrom hr h
  rw [Nat.zero_add] at hoffset
  have hpos := List.length_pos_iff.mpr hne
  constructor
  · simp only [List.length_append]
    omega
  · rw [hoffset, List.drop_left]
    exact hfound

/-- A recognizer that reads nothing at a place inside of what it reads from an earlier one. -/
def ReadsApart (recognize : Recognizer α) : Prop :=
  ∀ {front inner rest value}, front ≠ [] → inner ≠ [] →
    recognize none (front ++ inner ++ rest) = some (value, rest) →
    recognize none (inner ++ rest) = none

/-- Then no place is passed over. -/
theorem exists_hit_of_recognize (hr : Consumes recognize) (ha : ReadsApart recognize)
    {before : Option Char} {offset : Nat} {cs front rest : List Char} (hcs : cs = front ++ rest)
    (h : (recognize none rest).isSome = true) :
    ∃ hit ∈ findFrom recognize before offset cs, hit.offset = offset + front.length := by
  induction before, offset, cs using find_rounds hr.readsText generalizing front with
  | nil before offset =>
    obtain ⟨⟨value, after⟩, hv⟩ := Option.isSome_iff_exists.mp h
    obtain ⟨text, hne, hrest⟩ := hr.front hv
    rw [hrest] at hcs
    simp [hne] at hcs
  | skip before offset c tail hn ih =>
    rw [findFrom_of_none hn]
    cases front with
    | nil =>
      rw [List.nil_append] at hcs
      rw [← hcs, hr.before none before, hn] at h
      cases h
    | cons d front =>
      obtain ⟨hit, hm, ho⟩ := ih (List.cons.inj hcs).2
      exact ⟨hit, hm, by rw [ho, List.length_cons]; omega⟩
  | read before offset text value after hne hv ih =>
    rw [findFrom_of_some hne hv]
    have hlater : ∀ more, front = text ++ more → after = more ++ rest →
        ∃ hit ∈ (⟨offset, value, text, after⟩ : Hit α) ::
          findFrom recognize text.getLast? (offset + text.length) after,
          hit.offset = offset + front.length := by
      intro more hfront hafter
      obtain ⟨hit, hm, ho⟩ := ih hafter
      refine ⟨hit, List.mem_cons_of_mem _ hm, ?_⟩
      rw [ho, hfront, List.length_append, Nat.add_assoc]
    cases hf : front with
    | nil => exact ⟨_, List.mem_cons_self, rfl⟩
    | cons d front' =>
      rw [← hf]
      have hfront : front ≠ [] := by simp [hf]
      rcases List.append_eq_append_iff.mp hcs with ⟨more, hmore, hafter⟩ | ⟨inner, htext, hrest⟩
      · exact hlater more hmore hafter
      · cases inner with
        | nil =>
          rw [List.append_nil] at htext
          exact hlater [] (by rw [htext, List.append_nil]) hrest.symm
        | cons e inner =>
          rw [hr.before before none, htext] at hv
          rw [hrest, ha hfront (List.cons_ne_nil e inner) hv] at h
          cases h

/-- Hits come in the order of the text. -/
theorem pairwise_findFrom (hr : Consumes recognize) (before : Option Char) (offset : Nat)
    (cs : List Char) : (findFrom recognize before offset cs).Pairwise (·.offset < ·.offset) := by
  induction before, offset, cs using find_rounds hr.readsText with
  | nil before offset =>
    rw [findFrom_nil]
    exact .nil
  | skip before offset c tail hn ih =>
    rw [findFrom_of_none hn]
    exact ih
  | read before offset text value rest hne hv ih =>
    rw [findFrom_of_some hne hv]
    refine .cons (fun hit hm => ?_) ih
    have hle := offset_le_of_mem_findFrom hr hm
    have hpos := List.length_pos_iff.mpr hne
    dsimp only
    omega

/-- There is one hit at an offset. -/
theorem eq_of_offset_eq (hr : Consumes recognize) {before : Option Char} {offset : Nat}
    {cs : List Char} {hit hit' : Hit α} (h : hit ∈ findFrom recognize before offset cs)
    (h' : hit' ∈ findFrom recognize before offset cs) (he : hit.offset = hit'.offset) :
    hit = hit' := by
  obtain ⟨front, hc, ho, _, hv⟩ := of_mem_findFrom hr h
  obtain ⟨front', hc', ho', _, hv'⟩ := of_mem_findFrom hr h'
  obtain ⟨_, htext⟩ := List.append_inj (hc.symm.trans hc') (by omega)
  rw [htext, hv'] at hv
  obtain ⟨hvalue, hrest⟩ := Prod.mk.inj (Option.some.inj hv)
  rw [hrest] at htext
  have htext := List.append_cancel_right htext
  cases hit
  cases hit'
  simp_all

/-- The hit in a text that goes on. -/
def Hit.extend (hit : Hit α) (after : List Char) : Hit α := { hit with rest := hit.rest ++ after }

/-- A recognizer for which nothing counts that stands after the next `mark`. -/
def StopsAt (mark : Char) (recognize : Recognizer α) : Prop :=
  ∀ before cs after, recognize before (cs ++ mark :: after) =
    (recognize before (cs ++ [mark])).map fun (value, rest) => (value, rest ++ after)

/-- The hits up to a mark do not depend on what follows the mark. -/
theorem findFrom_append_mark (hr : Consumes recognize) {mark : Char}
    (hs : StopsAt mark recognize) (before : Option Char) (offset : Nat) (cs after : List Char) :
    findFrom recognize before offset (cs ++ mark :: after) =
      (findFrom recognize before offset (cs ++ [mark])).map (·.extend after) ++
        findFrom recognize (some mark) (offset + (cs.length + 1)) after := by
  induction hn : cs.length using Nat.strongRecOn generalizing cs before offset with
  | _ n ih =>
    have hstop := hs before cs after
    cases hf : recognize before (cs ++ [mark]) with
    | none =>
      rw [hf, Option.map_none] at hstop
      cases cs with
      | nil =>
        rw [List.nil_append] at hf hstop ⊢
        rw [findFrom_of_none hstop, List.nil_append, findFrom_of_none hf, findFrom_nil, ← hn]
        rfl
      | cons c tail =>
        rw [List.cons_append] at hf hstop ⊢
        rw [findFrom_of_none hstop, List.cons_append, findFrom_of_none hf,
          ih tail.length (by rw [← hn]; simp) _ _ tail rfl]
        simp only [← hn, List.length_cons, Nat.add_assoc, Nat.add_comm 1]
    | some found =>
      obtain ⟨value, rest⟩ := found
      rw [hf, Option.map_some] at hstop
      obtain ⟨text, hne, he⟩ := hr.front hf
      have hwhole : cs ++ mark :: after = text ++ (rest ++ after) := by
        rw [← List.append_assoc, ← he, List.append_assoc, List.singleton_append]
      rw [hwhole] at hstop ⊢
      rw [he] at hf ⊢
      rw [findFrom_of_some hne hstop, findFrom_of_some hne hf]
      rcases List.eq_nil_or_concat rest with rfl | ⟨back, last, rfl⟩
      · -- the hit ends at the mark
        rw [List.append_nil] at he
        subst he
        simp [Hit.extend, findFrom_nil, hn]
      · rw [List.concat_eq_append] at he ⊢
        rw [← List.append_assoc] at he
        obtain ⟨hcs, hlast⟩ := List.append_inj' he rfl
        cases hlast
        have hlt : back.length < n := by
          have := List.length_pos_iff.mpr hne
          rw [← hn, hcs, List.length_append]
          omega
        have hi := ih back.length hlt text.getLast? (offset + text.length) back rfl
        rw [List.append_assoc, List.singleton_append, hi]
        simp only [List.map_cons, List.cons_append, Hit.extend, ← hn, hcs, List.length_append,
          List.append_assoc, List.nil_append, Nat.add_assoc]

theorem findAll_of_some {text rest : List Char} {value : α} (hne : text ≠ [])
    (h : recognize none (text ++ rest) = some (value, rest)) :
    findAll recognize (text ++ rest) =
      ⟨0, value, text, rest⟩ :: findFrom recognize text.getLast? text.length rest := by
  rw [findAll, findFrom_of_some hne h, Nat.zero_add]

/-- What is found after a hit is found in the whole text. -/
theorem mem_findFrom_of_after (hr : Consumes recognize) {before : Option Char} {offset : Nat}
    {cs : List Char} {hit later : Hit α} (h : hit ∈ findFrom recognize before offset cs)
    (hl : later ∈ findFrom recognize hit.text.getLast? (hit.offset + hit.text.length) hit.rest) :
    later ∈ findFrom recognize before offset cs := by
  induction before, offset, cs using find_rounds hr.readsText with
  | nil before offset =>
    rw [findFrom_nil] at h
    cases h
  | skip before offset c tail hn ih =>
    rw [findFrom_of_none hn] at h ⊢
    exact ih h
  | read before offset text value rest hne hv ih =>
    rw [findFrom_of_some hne hv] at h ⊢
    rcases List.mem_cons.mp h with rfl | h
    · exact List.mem_cons_of_mem _ hl
    · exact List.mem_cons_of_mem _ (ih h)

/-- The hit that many characters further on. -/
def Hit.shift (hit : Hit α) (offset : Nat) : Hit α := { hit with offset := offset + hit.offset }

/-- Where a search starts changes the offsets of its hits only. -/
theorem findFrom_add (hr : Consumes recognize) (before before' : Option Char)
    (offset offset' : Nat) (cs : List Char) :
    findFrom recognize before (offset' + offset) cs =
      (findFrom recognize before' offset cs).map (·.shift offset') := by
  induction before', offset, cs using find_rounds hr.readsText generalizing before with
  | nil => rw [findFrom_nil, findFrom_nil, List.map_nil]
  | skip before' offset c tail hn ih =>
    rw [findFrom_of_none hn]
    rw [hr.before before' before] at hn
    rw [findFrom_of_none hn, Nat.add_assoc, ih]
  | read before' offset text value rest hne hv ih =>
    rw [findFrom_of_some hne hv]
    rw [hr.before before' before] at hv
    rw [findFrom_of_some hne hv, Nat.add_assoc, ih text.getLast?, List.map_cons]
    rfl

theorem findFrom_eq_map_findAll (hr : Consumes recognize) (before : Option Char) (offset : Nat)
    (cs : List Char) :
    findFrom recognize before offset cs = (findAll recognize cs).map (·.shift offset) :=
  findFrom_add hr before none 0 offset cs

theorem exists_mem_findFrom (hr : Consumes recognize) {before : Option Char} {offset : Nat}
    {cs : List Char} {hit : Hit α} (h : hit ∈ findFrom recognize before offset cs)
    (before' : Option Char) (offset' : Nat) :
    ∃ place, { hit with offset := place } ∈ findFrom recognize before' offset' cs := by
  rw [findFrom_eq_map_findAll hr] at h
  obtain ⟨first, hm, rfl⟩ := List.mem_map.mp h
  refine ⟨offset' + first.offset, ?_⟩
  rw [findFrom_eq_map_findAll hr]
  exact List.mem_map.mpr ⟨first, hm, rfl⟩

/-- A text in which nothing is recognised is passed over. -/
theorem findFrom_append_of_none {cs after : List Char}
    (h : ∀ before tail, tail ≠ [] → tail <:+ cs → recognize before (tail ++ after) = none)
    (before : Option Char) (offset : Nat) :
    ∃ before', findFrom recognize before offset (cs ++ after) =
      findFrom recognize before' (offset + cs.length) after := by
  induction cs generalizing before offset with
  | nil => exact ⟨before, rfl⟩
  | cons c cs ih =>
    have hnone := h before (c :: cs) (List.cons_ne_nil c cs) (List.suffix_refl _)
    obtain ⟨before', he⟩ := ih
      (fun before tail hne ht => h before tail hne (ht.trans (List.suffix_cons c cs)))
      (some c) (offset + 1)
    refine ⟨before', ?_⟩
    rw [List.cons_append] at hnone ⊢
    rw [findFrom_of_none hnone, he, List.length_cons, Nat.add_assoc,
      Nat.add_comm 1]

/-- What is found up to a mark after a hit is also found in the whole text. -/
theorem exists_outer_hit (hr : Consumes recognize) {mark : Char} (hs : StopsAt mark recognize)
    {source cs after : List Char} {hit nested : Hit α} (h : hit ∈ findAll recognize source)
    (hrest : hit.rest = cs ++ mark :: after) {before : Option Char} {offset : Nat}
    (hn : nested ∈ findFrom recognize before offset (cs ++ [mark])) :
    ∃ place, ⟨place, nested.value, nested.text, nested.rest ++ after⟩ ∈
      findAll recognize source := by
  obtain ⟨place, hm⟩ := exists_mem_findFrom hr hn hit.text.getLast? (hit.offset + hit.text.length)
  refine ⟨place, mem_findFrom_of_after hr h ?_⟩
  rw [hrest, findFrom_append_mark hr hs]
  exact List.mem_append_left _ (List.mem_map.mpr ⟨_, hm, rfl⟩)

end Restyle.Scan
