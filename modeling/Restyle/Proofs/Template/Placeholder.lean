import Restyle.Proofs.Expression.Literal
import Restyle.Proofs.Template.Piece
import Restyle.Proofs.Text.Trim
import Restyle.Proofs.Traverse

namespace Restyle.Scan

variable {α : Type} {recognize : Recognizer α}

/-- What a recognizer finds does not depend on where it starts if it does not look back. -/
theorem map_value_findFrom (h : ∀ before before' cs, recognize before cs = recognize before' cs)
    (before before' : Option Char) (offset offset' : Nat) (cs : List Char) :
    (findFrom recognize before offset cs).map (·.value) =
      (findFrom recognize before' offset' cs).map (·.value) := by
  fun_induction findFrom recognize before offset cs generalizing before' offset' with
  | case1 => simp [findFrom]
  | case2 before offset c tail hr ih =>
    rw [findFrom, h before' before, hr]
    exact ih (some c) (offset' + 1)
  | case3 before offset c tail value rest hr hl text ih =>
    rw [findFrom, h before' before, hr]
    simp only [hl, if_true, List.map_cons]
    rw [ih]
  | case4 before offset c tail value rest hr hl ih =>
    rw [findFrom, h before' before, hr]
    simp only [hl, if_false]
    exact ih (some c) (offset' + 1)

theorem substitute_eq_of_before {ε : Type} {write : α → Except ε (List Char)}
    (h : ∀ before before' cs, recognize before cs = recognize before' cs)
    (before before' : Option Char) (cs : List Char) :
    substitute recognize write before cs = substitute recognize write before' cs := by
  cases cs with
  | nil => simp [substitute]
  | cons c tail => rw [substitute, substitute, h before before']

end Restyle.Scan

namespace Restyle.TemplatePattern

/-- The digits of the placeholders in a text. -/
def placeholders (cs : List Char) : List (List Char) :=
  (Scan.findAll placeholder? cs).map (·.value)

theorem placeholder?_of_ne {c : Char} (h : c ≠ '\x00') (before : Option Char) (cs : List Char) :
    placeholder? before (c :: cs) = none := by
  simp [placeholder?, h]

theorem placeholder?_placeholder (before : Option Char) (index : Nat) (rest : List Char) :
    placeholder? before (placeholder index ++ rest) = some (Nat.toDigits 10 index, rest) := by
  have hd : ∀ c ∈ Nat.toDigits 10 index, Text.isDigit c = true :=
    fun c hc => Text.isDigit_of_mem_toDigits hc
  have hn : ∀ c ∈ ('\x00' :: rest).head?, Text.isDigit c = false := by
    simp only [List.head?_cons, Option.mem_some_iff, forall_eq']
    decide
  have hne : Nat.toDigits 10 index ≠ [] := Nat.toDigits_ne_nil
  simp only [placeholder, List.cons_append, List.append_assoc, List.nil_append, placeholder?,
    Text.takeWhile_append_of_head hd hn, Text.dropWhile_append_of_head hd hn]
  simp [hne]

theorem placeholder?_length_le {before : Option Char} {c : Char} {tail digits rest : List Char}
    (h : placeholder? before (c :: tail) = some (digits, rest)) : rest.length ≤ tail.length := by
  unfold placeholder? at h
  split at h
  next cs he =>
    cases he
    have hd := (List.dropWhile_suffix Text.isDigit (l := tail)).length_le
    dsimp only at h
    split at h
    next hr =>
      rw [hr, List.length_cons] at hd
      split at h
      next => cases h
      next =>
        cases h
        omega
    next => cases h
  next => cases h

/-- A text is read from the left, a character or a placeholder at a time. -/
theorem placeholder_rounds {motive : List Char → Prop} (nil : motive [])
    (skip : ∀ c tail, placeholder? none (c :: tail) = none → motive tail → motive (c :: tail))
    (read : ∀ c tail digits rest, placeholder? none (c :: tail) = some (digits, rest) →
      motive rest → motive (c :: tail)) : ∀ cs, motive cs
  | [] => nil
  | c :: tail =>
    match h : placeholder? none (c :: tail) with
    | none => skip c tail h (placeholder_rounds nil skip read tail)
    | some (digits, rest) =>
      have : rest.length ≤ tail.length := placeholder?_length_le h
      read c tail digits rest h (placeholder_rounds nil skip read rest)
termination_by cs => cs.length

section

variable {c : Char} {tail digits rest : List Char}

theorem placeholders_nil : placeholders [] = [] := by
  simp [placeholders, Scan.findAll, Scan.findFrom]

theorem placeholders_skip (h : placeholder? none (c :: tail) = none) :
    placeholders (c :: tail) = placeholders tail := by
  rw [placeholders, Scan.findAll, Scan.findFrom, h]
  exact Scan.map_value_findFrom (fun _ _ _ => rfl) _ _ _ _ tail

theorem placeholders_read (h : placeholder? none (c :: tail) = some (digits, rest)) :
    placeholders (c :: tail) = digits :: placeholders rest := by
  rw [placeholders, Scan.findAll, Scan.findFrom, h]
  simp only [placeholder?_length_le h, if_true, List.map_cons]
  congr 1
  exact Scan.map_value_findFrom (fun _ _ _ => rfl) _ _ _ _ rest

variable (regions : List (List Char))

theorem unmask_nil : unmask regions [] = .ok [] := by
  simp [unmask, Scan.substitute]

theorem unmask_skip (h : placeholder? none (c :: tail) = none) :
    unmask regions (c :: tail) = (unmask regions tail).map (c :: ·) := by
  rw [unmask, Scan.substitute, h]
  simp only
  rw [Scan.substitute_eq_of_before (fun _ _ _ => rfl) (some c) none]
  rfl

theorem unmask_read (h : placeholder? none (c :: tail) = some (digits, rest)) :
    unmask regions (c :: tail) =
      (regionOf regions digits).bind fun region => (unmask regions rest).map (region ++ ·) := by
  rw [unmask, Scan.substitute, h]
  simp only [placeholder?_length_le h, if_true]
  cases regionOf regions digits with
  | error fault => rfl
  | ok region =>
    simp only [Except.bind]
    rw [Scan.substitute_eq_of_before (fun _ _ _ => rfl) _ none]
    rfl

end

theorem placeholders_placeholder_append (index : Nat) (rest : List Char) :
    placeholders (placeholder index ++ rest) = Nat.toDigits 10 index :: placeholders rest :=
  placeholders_read (placeholder?_placeholder none index rest)

theorem unmask_placeholder_append (regions : List (List Char)) (index : Nat) (rest : List Char) :
    unmask regions (placeholder index ++ rest) = (regionOf regions (Nat.toDigits 10 index)).bind
      fun region => (unmask regions rest).map (region ++ ·) :=
  unmask_read regions (placeholder?_placeholder none index rest)

variable {regions : List (List Char)}

theorem regionOf_eq_ok_iff {digits region : List Char} :
    regionOf regions digits = .ok region ↔
      digits.length ≤ 4300 ∧ regions[Text.digitsValue digits]? = some region := by
  unfold regionOf
  split
  next hl =>
    refine ⟨fun h => (by cases h), fun h => ?_⟩
    omega
  next hl =>
    have hle : digits.length ≤ 4300 := by omega
    cases regions[Text.digitsValue digits]? with
    | none => simp
    | some found => simp [hle]

/-- The interpolations that the placeholders in a text name. -/
def namedRegions (regions : List (List Char)) (cs : List Char) : List (List Char) :=
  (placeholders cs).filterMap fun digits => regions[Text.digitsValue digits]?

theorem mapM_regionOf_eq_ok {found : List (List Char)} {names : List (List Char)}
    (h : names.mapM (regionOf regions) = .ok found) :
    names.map (fun digits => regions[Text.digitsValue digits]?) = found.map some := by
  induction names generalizing found with
  | nil => cases h; rfl
  | cons digits names ih =>
    obtain ⟨region, tail, hr, ht, rfl⟩ := mapM_cons_eq_ok h
    simp only [List.map_cons, ih ht, (regionOf_eq_ok_iff.mp hr).2]

theorem maskedDependencies_eq (cs : List Char) : maskedDependencies regions cs =
    ((placeholders cs).mapM (regionOf regions)).map fun found =>
      (found.flatMap fun region => (Expression.classify region).dependencies).eraseDups := by
  rw [placeholders, List.mapM_map]
  rfl

theorem maskedDependencies_eq_ok {cs : List Char} {dependencies : List String}
    (h : maskedDependencies regions cs = .ok dependencies) :
    dependencies = ((namedRegions regions cs).flatMap fun region =>
      (Expression.classify region).dependencies).eraseDups ∧
    (namedRegions regions cs = [] → placeholders cs = []) := by
  rw [maskedDependencies_eq] at h
  obtain ⟨found, hf, rfl⟩ := map_eq_ok h
  have hm := mapM_regionOf_eq_ok hf
  have hn : namedRegions regions cs = found := by
    have hs : namedRegions regions cs = (found.map some).filterMap id := by
      rw [← hm, List.filterMap_map]
      rfl
    rw [hs, List.filterMap_map]
    exact List.filterMap_some
  refine ⟨by rw [hn], fun he => ?_⟩
  rw [← hn, he] at hm
  simpa using hm

theorem unmask_of_placeholders_eq_nil {cs : List Char} (h : placeholders cs = []) :
    unmask regions cs = .ok cs := by
  induction cs using placeholder_rounds with
  | nil => exact unmask_nil regions
  | skip c tail hn ih =>
    rw [placeholders_skip hn] at h
    rw [unmask_skip regions hn, ih h]
    rfl
  | read c tail digits rest hs ih =>
    rw [placeholders_read hs] at h
    cases h

/-- An interpolation that is put back can be seen in the text. -/
theorem hasPart_of_unmask (hr : ∀ region ∈ regions, ∃ read, region = '$' :: '{' :: read)
    {cs out : List Char} (h : placeholders cs ≠ []) (hu : unmask regions cs = .ok out) :
    Text.hasPart ['$', '{'] out = true := by
  induction cs using placeholder_rounds generalizing out with
  | nil => exact absurd placeholders_nil h
  | skip c tail hn ih =>
    rw [placeholders_skip hn] at h
    rw [unmask_skip regions hn] at hu
    obtain ⟨out', ho, rfl⟩ := map_eq_ok hu
    rw [Text.hasPart_pair_cons, ih h ho, Bool.or_true]
  | read c tail digits rest hs ih =>
    rw [unmask_read regions hs] at hu
    obtain ⟨region, hd, hu⟩ := bind_eq_ok hu
    obtain ⟨out', _, rfl⟩ := map_eq_ok hu
    obtain ⟨read, rfl⟩ := hr region (List.mem_of_getElem? (regionOf_eq_ok_iff.mp hd).2)
    rw [List.cons_append, Text.hasPart_pair_cons]
    simp

def Piece.digits? : Piece → Option (List Char)
  | .plain _ => none
  | .hole index _ => some (Nat.toDigits 10 index)

/-- Whether the number of each interpolation in a list of pieces is its place in `regions`. -/
def NumberedIn (regions : List (List Char)) (ps : List Piece) : Prop :=
  ∀ index region, .hole index region ∈ ps → regions[index]? = some region

theorem NumberedIn.of_subset {ps qs : List Piece} (h : NumberedIn regions ps) (hs : qs ⊆ ps) :
    NumberedIn regions qs :=
  fun index region hm => h index region (hs hm)

theorem numberedIn_pieces (cs : List Char) : NumberedIn (Scan.interpolations cs) (pieces 0 cs) :=
  fun _ _ hm => (getElem?_of_mem_pieces hm).2

section

variable {ps : List Piece}

theorem placeholders_maskedOf (hn : .plain '\x00' ∉ ps) :
    placeholders (maskedOf ps) = ps.filterMap Piece.digits? := by
  induction ps with
  | nil => exact placeholders_nil
  | cons piece ps ih =>
    simp only [List.mem_cons, not_or] at hn
    cases piece with
    | plain c =>
      have hc : c ≠ '\x00' := fun he => hn.1 (by rw [he])
      rw [maskedOf_plain, placeholders_skip (placeholder?_of_ne hc none _), ih hn.2]
      rfl
    | hole index region =>
      rw [maskedOf_hole, placeholders_placeholder_append, ih hn.2]
      rfl

theorem namedRegions_maskedOf (hn : .plain '\x00' ∉ ps) (hr : NumberedIn regions ps) :
    namedRegions regions (maskedOf ps) = regionsOf ps := by
  rw [namedRegions, placeholders_maskedOf hn]
  clear hn
  induction ps with
  | nil => rfl
  | cons piece ps ih =>
    have hi := ih (hr.of_subset (List.subset_cons_self piece ps))
    cases piece with
    | plain c => exact hi
    | hole index region =>
      rw [List.filterMap_cons, Piece.digits?, List.filterMap_cons, Text.digitsValue_toDigits,
        hr index region List.mem_cons_self, hi]
      rfl

/-- Whether the interpolations in a list of pieces can be found again by their numbers. -/
def RestoredBy (regions : List (List Char)) (ps : List Piece) : Prop :=
  ∀ index region, .hole index region ∈ ps →
    regionOf regions (Nat.toDigits 10 index) = .ok region

theorem RestoredBy.of_subset {ps qs : List Piece} (h : RestoredBy regions ps) (hs : qs ⊆ ps) :
    RestoredBy regions qs :=
  fun index region hm => h index region (hs hm)

theorem restoredBy_of_length_le (h : NumberedIn regions ps)
    (hl : ∀ index < regions.length, (Nat.toDigits 10 index).length ≤ 4300) :
    RestoredBy regions ps := by
  intro index region hm
  have hg := h index region hm
  rw [regionOf_eq_ok_iff, Text.digitsValue_toDigits]
  exact ⟨hl index (List.getElem?_eq_some_iff.mp hg).1, hg⟩

theorem mapM_regionOf_digits (hr : RestoredBy regions ps) :
    (ps.filterMap Piece.digits?).mapM (regionOf regions) = .ok (regionsOf ps) := by
  induction ps with
  | nil => rfl
  | cons piece ps ih =>
    have hi := ih (hr.of_subset (List.subset_cons_self piece ps))
    cases piece with
    | plain c => exact hi
    | hole index region =>
      rw [List.filterMap_cons, Piece.digits?, List.mapM_cons, hr index region List.mem_cons_self,
        hi]
      rfl

theorem maskedDependencies_maskedOf (hn : .plain '\x00' ∉ ps) (hr : RestoredBy regions ps) :
    maskedDependencies regions (maskedOf ps) = .ok ((regionsOf ps).flatMap fun region =>
      (Expression.classify region).dependencies).eraseDups := by
  rw [maskedDependencies_eq, placeholders_maskedOf hn, mapM_regionOf_digits hr]
  rfl

theorem unmask_maskedOf (hn : .plain '\x00' ∉ ps) (hr : RestoredBy regions ps) :
    unmask regions (maskedOf ps) = .ok (textOf ps) := by
  induction ps with
  | nil => exact unmask_nil regions
  | cons piece ps ih =>
    simp only [List.mem_cons, not_or] at hn
    have hi := ih hn.2 (hr.of_subset (List.subset_cons_self piece ps))
    cases piece with
    | plain c =>
      have hc : c ≠ '\x00' := fun he => hn.1 (by rw [he])
      rw [maskedOf_plain, unmask_skip regions (placeholder?_of_ne hc none _), hi]
      rfl
    | hole index region =>
      rw [maskedOf_hole, unmask_placeholder_append, hr index region List.mem_cons_self, hi]
      rfl

end

end Restyle.TemplatePattern
