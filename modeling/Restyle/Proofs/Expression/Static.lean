import Restyle.Expression.Classification
import Restyle.Proofs.Expression.Literal
import Restyle.Proofs.Expression.Occurrence
import Restyle.Proofs.Header
import Restyle.Proofs.Number.Numeral

namespace Restyle.Expression

open Header (IsBlanks)

section

variable {front name rest gap gap' cs : List Char} {c operator : Char}

/-- The characters that an operand starts with, on the right of an operator. -/
def startsOperand (c : Char) : Bool := continuesName c || c == '(' || Scan.isQuote c

/-- The characters that an operand ends with, on the left of an operator. -/
def endsOperand (c : Char) : Bool := continuesName c || c == ')' || c == ']' || Scan.isQuote c

/-- That a name between `front` and `rest` is an operand. -/
inductive IsOperand : List Char → List Char → Prop where
  | left {front gap gap' rest : List Char} {operator c : Char} (hgap : IsBlanks gap)
      (ho : isOperator operator = true) (hgap' : IsBlanks gap') (hc : startsOperand c = true) :
      IsOperand front (gap ++ operator :: (gap' ++ c :: rest))
  | right {front gap gap' rest : List Char} {operator c : Char} (hc : endsOperand c = true)
      (hgap : IsBlanks gap) (ho : isOperator operator = true) (hgap' : IsBlanks gap') :
      IsOperand (front ++ c :: (gap ++ operator :: gap')) rest
  | signed {gap gap' rest : List Char} {sign : Char} (hgap : IsBlanks gap)
      (hs : sign = '-' ∨ sign = '+') (hgap' : IsBlanks gap') :
      IsOperand (gap ++ sign :: gap') rest

theorem isBlank_of_isOperator (h : isOperator operator = true) : Text.isBlank operator = false := by
  simp only [isOperator, Bool.or_eq_true, beq_iff_eq] at h
  rcases h with (((rfl | rfl) | rfl) | rfl) | rfl <;> decide

theorem isBlank_of_startsOperand (h : startsOperand c = true) : Text.isBlank c = false := by
  simp only [startsOperand, Scan.isQuote, Bool.or_eq_true, beq_iff_eq] at h
  rcases h with (h | rfl) | (rfl | rfl) | rfl
  · exact isBlank_of_continuesName h
  all_goals decide

theorem continuesName_of_isBlank (h : Text.isBlank c = true) : continuesName c = false := by
  rw [← Bool.not_eq_true]
  intro hc
  rw [isBlank_of_continuesName hc] at h
  cases h

theorem skipBlanks_eq_cons_iff :
    Text.skipBlanks cs = c :: rest ↔
      ∃ gap, IsBlanks gap ∧ Text.isBlank c = false ∧ cs = gap ++ c :: rest := by
  constructor
  · intro h
    have hhead : ∀ d ∈ (Text.skipBlanks cs).head?, Text.isBlank d = false := Text.head_dropWhile
    rw [h] at hhead
    obtain ⟨gap, hgap, he⟩ := Header.exists_skipBlanks cs
    exact ⟨gap, hgap, hhead c rfl, by rw [← h]; exact he⟩
  · rintro ⟨gap, hgap, hc, rfl⟩
    exact Header.skipBlanks_append hgap hc

/-- A mark between blanks and then a character. -/
theorem skipBlanks_marked_iff {p q : Char → Bool} (hp : ∀ c, p c = true → Text.isBlank c = false)
    (hq : ∀ c, q c = true → Text.isBlank c = false) :
    (∃ mark tail, Text.skipBlanks cs = mark :: tail ∧ q mark = true ∧
        (Text.skipBlanks tail).head?.any p = true) ↔
      ∃ gap mark gap' c rest, IsBlanks gap ∧ q mark = true ∧ IsBlanks gap' ∧ p c = true ∧
        cs = gap ++ mark :: (gap' ++ c :: rest) := by
  constructor
  · rintro ⟨mark, tail, hs, hm, hany⟩
    obtain ⟨gap, hgap, -, rfl⟩ := skipBlanks_eq_cons_iff.mp hs
    cases ht : Text.skipBlanks tail with
    | nil =>
      rw [ht] at hany
      cases hany
    | cons c rest =>
      rw [ht] at hany
      obtain ⟨gap', hgap', -, rfl⟩ := skipBlanks_eq_cons_iff.mp ht
      exact ⟨gap, mark, gap', c, rest, hgap, hm, hgap', hany, rfl⟩
  · rintro ⟨gap, mark, gap', c, rest, hgap, hm, hgap', hc, rfl⟩
    refine ⟨mark, gap' ++ c :: rest, skipBlanks_eq_cons_iff.mpr ⟨gap, hgap, hq mark hm, rfl⟩, hm, ?_⟩
    rw [skipBlanks_eq_cons_iff.mpr ⟨gap', hgap', hp c hc, rfl⟩]
    exact hc

theorem operatorThen_iff {p : Char → Bool} (hp : ∀ c, p c = true → Text.isBlank c = false) :
    operatorThen p cs = true ↔ ∃ gap operator gap' c rest, IsBlanks gap ∧
      isOperator operator = true ∧ IsBlanks gap' ∧ p c = true ∧
      cs = gap ++ operator :: (gap' ++ c :: rest) := by
  rw [← skipBlanks_marked_iff hp fun _ => isBlank_of_isOperator, operatorThen]
  cases Text.skipBlanks cs with
  | nil => simp
  | cons mark tail => simp [and_assoc]

theorem startsSigned_iff :
    startsSigned cs = true ↔ ∃ gap sign gap' c rest, IsBlanks gap ∧ (sign = '-' ∨ sign = '+') ∧
      IsBlanks gap' ∧ startsName c = true ∧ cs = gap ++ sign :: (gap' ++ c :: rest) := by
  have hsign : ∀ c : Char, (c == '-' || c == '+') = true → Text.isBlank c = false := by
    intro c h
    simp only [Bool.or_eq_true, beq_iff_eq] at h
    rcases h with rfl | rfl <;> decide
  simp only [← Bool.or_eq_true, ← beq_iff_eq (α := Char)]
  rw [← skipBlanks_marked_iff (fun _ => isBlank_of_startsName) hsign, startsSigned]
  cases Text.skipBlanks cs with
  | nil => simp
  | cons mark tail => simp [and_assoc]

theorem admitsName_of_isOperator (ho : isOperator operator = true) (hgap : IsBlanks gap) :
    admitsName (front ++ operator :: gap).getLast? = true := by
  have hblank : ∀ d, Text.isBlank d = true → admitsName (some d) = true := by
    intro d hd
    have hdot : d ≠ '.' := by
      rintro rfl
      cases hd
    simp [admitsName, continuesName_of_isBlank hd, hdot]
  have hop : admitsName (some operator) = true := by
    simp only [isOperator, Bool.or_eq_true, beq_iff_eq] at ho
    rcases ho with (((rfl | rfl) | rfl) | rfl) | rfl <;> decide
  rw [List.getLast?_append, List.getLast?_cons, Option.some_or]
  cases hl : gap.getLast? with
  | none => exact hop
  | some d => exact hblank d (hgap d (List.mem_of_getLast? hl))

theorem exists_stands (ha : admitsName front.getLast? = true) (hc : startsName c = true)
    (tail : List Char) : ∃ name rest, Stands front name rest (front ++ c :: tail) := by
  refine ⟨c :: tail.takeWhile continuesName, tail.dropWhile continuesName, ?_, ?_, ha,
    Text.head_dropWhile⟩
  · rw [List.cons_append, List.takeWhile_append_dropWhile]
  · rw [isName, hc]
    exact List.all_takeWhile

theorem Stands.exists_cons (h : Stands front name rest cs) :
    ∃ c tail, name = c :: tail ∧ startsName c = true := by
  have hn := h.isName
  cases name with
  | nil => cases hn
  | cons c tail => exact ⟨c, tail, rfl, (Bool.and_eq_true_iff.mp hn).1⟩

theorem calculationAt_iff {before : Option Char} :
    calculationAt before cs = true ↔
      (∃ name rest, name? before cs = some (name, rest) ∧ operatorThen startsOperand rest = true) ∨
        ∃ c tail, cs = c :: tail ∧ endsOperand c = true ∧ operatorThen startsName tail = true := by
  cases cs with
  | nil => simp [calculationAt, name?]
  | cons c tail =>
    rw [calculationAt, Bool.or_eq_true, Bool.and_eq_true, Bool.and_eq_true (_ || _), name?]
    apply or_congr
    · by_cases hc : (admitsName before && startsName c) = true
      · rw [if_pos hc]
        constructor
        · exact fun h => ⟨_, _, rfl, h.2⟩
        · rintro ⟨name, rest, hn, ho⟩
          cases hn
          exact ⟨hc, ho⟩
      · simp [hc]
    · constructor
      · exact fun h => ⟨c, tail, rfl, h.1, h.2⟩
      · rintro ⟨c', tail', he, hc, ho⟩
        cases he
        exact ⟨hc, ho⟩

theorem exists_operand_of_calculationAt (h : calculationAt front.getLast? cs = true) :
    ∃ front' name rest, Stands front' name rest (front ++ cs) ∧ IsOperand front' rest := by
  rcases calculationAt_iff.mp h with ⟨name, rest, hn, hthen⟩ | ⟨c, tail, rfl, hc, hthen⟩
  · obtain ⟨-, -, rfl, -⟩ := name?_eq_some_iff.mp hn
    have hstands := stands_iff.mpr ⟨rfl, hn⟩
    obtain ⟨gap, operator, gap', c, after, hgap, ho, hgap', hc, rfl⟩ :=
      (operatorThen_iff fun _ => isBlank_of_startsOperand).mp hthen
    exact ⟨front, name, _, hstands, .left hgap ho hgap' hc⟩
  · -- the name starts after the operator
    obtain ⟨gap, operator, gap', d, after, hgap, ho, hgap', hd, rfl⟩ :=
      (operatorThen_iff fun _ => isBlank_of_startsName).mp hthen
    have hadmits : admitsName (front ++ c :: gap ++ operator :: gap').getLast? = true :=
      admitsName_of_isOperator ho hgap'
    obtain ⟨name, rest, hstands⟩ := exists_stands hadmits hd after
    simp only [List.append_assoc, List.cons_append] at hstands
    exact ⟨_, name, rest, hstands, .right hc hgap ho hgap'⟩

theorem exists_operand_of_startsSigned (h : startsSigned cs = true) :
    ∃ front name rest, Stands front name rest cs ∧ IsOperand front rest := by
  obtain ⟨gap, sign, gap', c, after, hgap, hs, hgap', hc, rfl⟩ := startsSigned_iff.mp h
  have ho : isOperator sign = true := by
    rcases hs with rfl | rfl <;> rfl
  obtain ⟨name, rest, hstands⟩ := exists_stands (admitsName_of_isOperator ho hgap') hc after
  simp only [List.append_assoc, List.cons_append] at hstands
  exact ⟨_, name, rest, hstands, .signed hgap hs hgap'⟩

/-- A calculation is found if and only if a name stands in the text as an operand. -/
theorem calculation_iff :
    (Scan.holdsSomewhere calculationAt none cs || startsSigned cs) = true ↔
      ∃ front name rest, Stands front name rest cs ∧ IsOperand front rest := by
  rw [Bool.or_eq_true, Scan.holdsSomewhere_iff]
  simp only [Option.or_none]
  constructor
  · rintro (⟨front, rest, rfl, -, h⟩ | h)
    · exact exists_operand_of_calculationAt h
    · exact exists_operand_of_startsSigned h
  · -- where the scan has to stop depends on the side of the operator that the name is on
    rintro ⟨front, name, rest, hstands, hoperand⟩
    obtain ⟨d, tail, rfl, hd⟩ := hstands.exists_cons
    have htext := hstands.text
    cases hoperand with
    | @left _ gap gap' rest operator c hgap ho hgap' hc =>
      have hthen : operatorThen startsOperand (gap ++ operator :: (gap' ++ c :: rest)) = true :=
        (operatorThen_iff fun _ => isBlank_of_startsOperand).mpr
          ⟨_, _, _, _, _, hgap, ho, hgap', hc, rfl⟩
      refine .inl ⟨front, _, htext, List.cons_ne_nil _ _, ?_⟩
      exact calculationAt_iff.mpr (.inl ⟨_, _, (stands_iff.mp hstands).2, hthen⟩)
    | @right front gap gap' _ operator c hc hgap ho hgap' =>
      have hthen : operatorThen startsName (gap ++ operator :: (gap' ++ d :: (tail ++ rest))) = true :=
        (operatorThen_iff fun _ => isBlank_of_startsName).mpr
          ⟨_, _, _, _, _, hgap, ho, hgap', hd, rfl⟩
      refine .inl ⟨front, c :: (gap ++ operator :: (gap' ++ d :: (tail ++ rest))), ?_,
        List.cons_ne_nil _ _, calculationAt_iff.mpr (.inr ⟨_, _, rfl, hc, hthen⟩)⟩
      rw [htext]
      simp only [List.append_assoc, List.cons_append]
    | @signed gap gap' _ sign hgap hs hgap' =>
      refine .inr (startsSigned_iff.mpr ⟨gap, sign, gap', d, tail ++ rest, hgap, hs, hgap', hd, ?_⟩)
      rw [htext]
      simp only [List.append_assoc, List.cons_append]

/-- That a name is followed by the mark of a member access. -/
inductive HasMember : List Char → Prop where
  | dot {gap rest : List Char} (hgap : IsBlanks gap) : HasMember (gap ++ '.' :: rest)
  | optional {gap rest : List Char} (hgap : IsBlanks gap) : HasMember (gap ++ '?' :: '.' :: rest)
  | index {gap rest : List Char} (hgap : IsBlanks gap) : HasMember (gap ++ '[' :: rest)

theorem hasMember_iff :
    HasMember rest ↔ ∃ after, afterAccess? (Text.skipBlanks rest) = some after := by
  constructor
  · rintro (⟨hgap⟩ | ⟨hgap⟩ | ⟨hgap⟩)
    all_goals
      rw [skipBlanks_eq_cons_iff.mpr ⟨_, hgap, by decide, rfl⟩]
      exact ⟨_, rfl⟩
  · rintro ⟨after, h⟩
    unfold afterAccess? at h
    split at h
    next cs hs =>
      obtain ⟨gap, hgap, -, rfl⟩ := skipBlanks_eq_cons_iff.mp hs
      exact .optional hgap
    next cs hs =>
      obtain ⟨gap, hgap, -, rfl⟩ := skipBlanks_eq_cons_iff.mp hs
      exact .dot hgap
    next cs hs =>
      obtain ⟨gap, hgap, -, rfl⟩ := skipBlanks_eq_cons_iff.mp hs
      exact .index hgap
    next => cases h

theorem head?_append_of_isBlanks {mark : Char} (hgap : IsBlanks gap)
    (hm : continuesName mark = false) :
    ∀ c ∈ (gap ++ mark :: rest).head?, continuesName c = false := by
  cases gap with
  | nil =>
    rintro c ⟨⟩
    exact hm
  | cons d gap =>
    rintro c ⟨⟩
    exact continuesName_of_isBlank (hgap d List.mem_cons_self)

theorem HasMember.ends (h : HasMember rest) : ∀ c ∈ rest.head?, continuesName c = false := by
  cases h with
  | dot hgap => exact head?_append_of_isBlanks hgap (by decide)
  | optional hgap => exact head?_append_of_isBlanks hgap (by decide)
  | index hgap => exact head?_append_of_isBlanks hgap (by decide)

theorem afterAccess?_length_lt {after : List Char} (h : afterAccess? cs = some after) :
    after.length < cs.length := by
  unfold afterAccess? at h
  split at h
  all_goals cases h
  all_goals simp only [List.length_cons]
  all_goals omega

theorem access?_eq_some {before : Option Char} {root after : List Char}
    (h : access? before cs = some (root, after)) :
    admitsName before = true ∧ root ∈ dynamicRoots ∧
      ∃ rest, cs = root ++ rest ∧ afterAccess? (Text.skipBlanks rest) = some after := by
  unfold access? at h
  split at h
  next hb =>
    obtain ⟨root', hm, hf⟩ := List.exists_of_findSome?_eq_some h
    simp only [Option.bind_eq_bind, Option.bind_eq_some_iff, Option.some.injEq, Prod.mk.injEq] at hf
    obtain ⟨rest, hpre, after', hafter, rfl, rfl⟩ := hf
    exact ⟨hb, hm, rest, (List.append_eq_of_isPrefixOf?_eq_some hpre).symm, hafter⟩
  next => cases h

theorem access?_length_lt {before : Option Char} {root after : List Char}
    (h : access? before cs = some (root, after)) : after.length < cs.length := by
  obtain ⟨-, -, rest, rfl, hafter⟩ := access?_eq_some h
  have hlt := afterAccess?_length_lt hafter
  have hle : (Text.skipBlanks rest).length ≤ rest.length := (List.dropWhile_suffix _).length_le
  rw [List.length_append]
  omega

theorem isSome_access?_iff :
    (access? front.getLast? cs).isSome = true ↔
      ∃ root rest, Stands front root rest (front ++ cs) ∧ root ∈ dynamicRoots ∧ HasMember rest := by
  have hroots : ∀ root ∈ dynamicRoots, isName root = true := by decide
  constructor
  · intro h
    obtain ⟨⟨root, after⟩, ha⟩ := Option.isSome_iff_exists.mp h
    obtain ⟨hb, hm, rest, rfl, hafter⟩ := access?_eq_some ha
    have hmember := hasMember_iff.mpr ⟨after, hafter⟩
    exact ⟨root, rest, ⟨rfl, hroots root hm, hb, hmember.ends⟩, hm, hmember⟩
  · rintro ⟨root, rest, hstands, hm, hmember⟩
    obtain ⟨after, hafter⟩ := hasMember_iff.mp hmember
    have he : cs = root ++ rest := List.append_cancel_left hstands.text
    rw [access?, if_pos hstands.starts, List.isSome_findSome?, List.any_eq_true]
    refine ⟨root, hm, ?_⟩
    rw [he, List.isPrefixOf?_eq_some_iff_append_eq.mpr rfl]
    simp [hafter]

/-- Nothing is accessed if and only if no dynamic root stands before a member access. -/
theorem accesses_eq_nil_iff :
    Scan.findAll access? cs = [] ↔
      ¬∃ front root rest, Stands front root rest cs ∧ root ∈ dynamicRoots ∧ HasMember rest := by
  rw [Scan.findAll_eq_nil_iff access?_length_lt]
  apply not_congr
  simp only [isSome_access?_iff]
  constructor
  · rintro ⟨front, tail, rfl, root, rest, h⟩
    exact ⟨front, root, rest, h⟩
  · rintro ⟨front, root, rest, h⟩
    refine ⟨front, root ++ rest, h.1.text, root, rest, ?_⟩
    rw [← h.1.text]
    exact h

/-- That an arrow function with one destructured parameter, perhaps with its type, stands at the
front of a text. -/
inductive StartsArrow : List Char → Prop where
  | mk {gap inside between typed gap' rest : List Char} (hgap : IsBlanks gap)
      (hinside : '}' ∉ inside) (hbetween : IsBlanks between)
      (htyped : typed = [] ∨ ∃ type, typed = ':' :: type ∧ ')' ∉ type) (hgap' : IsBlanks gap') :
      StartsArrow ('(' :: (gap ++ '{' :: (inside ++ '}' ::
        (between ++ (typed ++ ')' :: (gap' ++ '=' :: '>' :: rest))))))

theorem dropWhile_ne_eq_cons_iff :
    cs.dropWhile (· != c) = c :: rest ↔ ∃ inside, c ∉ inside ∧ cs = inside ++ c :: rest := by
  constructor
  · intro h
    refine ⟨cs.takeWhile (· != c), ?_, ?_⟩
    · intro hm
      have := List.all_eq_true.mp (List.all_takeWhile (p := (· != c)) (l := cs)) c hm
      simp at this
    · rw [← h, List.takeWhile_append_dropWhile]
  · rintro ⟨inside, hm, rfl⟩
    apply Text.dropWhile_append_of_head
    · intro d hd
      exact bne_iff_ne.mpr (ne_of_mem_of_not_mem hd hm)
    · rintro d ⟨⟩
      simp

/-- What follows the type of a parameter, if it has one. -/
def afterType (cs : List Char) : List Char :=
  match Text.skipBlanks cs with
  | ':' :: cs => cs.dropWhile (· != ')')
  | cs => cs

theorem afterType_eq_cons_iff :
    afterType cs = ')' :: rest ↔ ∃ between typed, IsBlanks between ∧
      (typed = [] ∨ ∃ type, typed = ':' :: type ∧ ')' ∉ type) ∧
      cs = between ++ (typed ++ ')' :: rest) := by
  constructor
  · intro h
    unfold afterType at h
    split at h
    next tail hs =>
      obtain ⟨between, hbetween, -, rfl⟩ := skipBlanks_eq_cons_iff.mp hs
      obtain ⟨type, htype, rfl⟩ := dropWhile_ne_eq_cons_iff.mp h
      exact ⟨between, ':' :: type, hbetween, .inr ⟨type, rfl, htype⟩, rfl⟩
    next =>
      obtain ⟨between, hbetween, -, rfl⟩ := skipBlanks_eq_cons_iff.mp h
      exact ⟨between, [], hbetween, .inl rfl, rfl⟩
  · rintro ⟨between, typed, hbetween, rfl | ⟨type, rfl, htype⟩, rfl⟩
    · rw [afterType, List.nil_append, skipBlanks_eq_cons_iff.mpr ⟨between, hbetween, by decide, rfl⟩]
      rfl
    · rw [afterType, List.cons_append, skipBlanks_eq_cons_iff.mpr ⟨between, hbetween, by decide, rfl⟩]
      exact dropWhile_ne_eq_cons_iff.mpr ⟨type, htype, rfl⟩

theorem arrow?_of_braces {before : Option Char} {inside : List Char} (hgap : IsBlanks gap)
    (hinside : '}' ∉ inside) :
    arrow? before ('(' :: (gap ++ '{' :: (inside ++ '}' :: cs))) =
      match afterType cs with
      | ')' :: cs =>
        match Text.skipBlanks cs with
        | '=' :: '>' :: rest => some (inside, rest)
        | _ => none
      | _ => none := by
  have hopen : Text.skipBlanks (gap ++ '{' :: (inside ++ '}' :: cs)) =
      '{' :: (inside ++ '}' :: cs) :=
    skipBlanks_eq_cons_iff.mpr ⟨gap, hgap, by decide, rfl⟩
  have hclose : (inside ++ '}' :: cs).dropWhile (· != '}') = '}' :: cs :=
    dropWhile_ne_eq_cons_iff.mpr ⟨inside, hinside, rfl⟩
  have htake : (inside ++ '}' :: cs).takeWhile (· != '}') = inside := by
    have happend := List.takeWhile_append_dropWhile (p := (· != '}')) (l := inside ++ '}' :: cs)
    rw [hclose] at happend
    exact List.append_cancel_right happend
  rw [arrow?, hopen]
  simp only [hclose, htake]
  rfl

theorem exists_braces_of_arrow? {before : Option Char} {found : List Char × List Char}
    (h : arrow? before cs = some found) : ∃ gap inside tail, IsBlanks gap ∧ '}' ∉ inside ∧
      cs = '(' :: (gap ++ '{' :: (inside ++ '}' :: tail)) := by
  unfold arrow? at h
  split at h
  next =>
    split at h
    next hopen =>
      obtain ⟨gap, hgap, -, rfl⟩ := skipBlanks_eq_cons_iff.mp hopen
      dsimp only at h
      split at h
      next tail hclose =>
        obtain ⟨inside, hinside, rfl⟩ := dropWhile_ne_eq_cons_iff.mp hclose
        exact ⟨gap, inside, tail, hgap, hinside, rfl⟩
      next => cases h
    next => cases h
  next => cases h

theorem arrow?_eq_some {before : Option Char} {found : List Char × List Char}
    (h : arrow? before cs = some found) : StartsArrow cs ∧ found.2.length < cs.length := by
  obtain ⟨gap, inside, tail, hgap, hinside, rfl⟩ := exists_braces_of_arrow? h
  rw [arrow?_of_braces hgap hinside] at h
  split at h
  next after htype =>
    obtain ⟨between, typed, hbetween, htyped, rfl⟩ := afterType_eq_cons_iff.mp htype
    split at h
    next rest harrow =>
      obtain ⟨gap', hgap', -, rfl⟩ := skipBlanks_eq_cons_iff.mp harrow
      cases h
      refine ⟨.mk hgap hinside hbetween htyped hgap', ?_⟩
      simp only [List.length_cons, List.length_append]
      omega
    next => cases h
  next => cases h

theorem isSome_arrow? {before : Option Char} (h : StartsArrow cs) :
    (arrow? before cs).isSome = true := by
  cases h with
  | @mk gap inside between typed gap' rest hgap hinside hbetween htyped hgap' =>
    have htype : afterType (between ++ (typed ++ ')' :: (gap' ++ '=' :: '>' :: rest))) =
        ')' :: (gap' ++ '=' :: '>' :: rest) :=
      afterType_eq_cons_iff.mpr ⟨between, typed, hbetween, htyped, rfl⟩
    have harrow : Text.skipBlanks (gap' ++ '=' :: '>' :: rest) = '=' :: '>' :: rest :=
      skipBlanks_eq_cons_iff.mpr ⟨gap', hgap', by decide, rfl⟩
    rw [arrow?_of_braces hgap hinside, htype]
    simp only [harrow, Option.isSome_some]

def HasArrow (cs : List Char) : Prop := ∃ front rest, cs = front ++ rest ∧ StartsArrow rest

theorem arrows_eq_nil_iff : Scan.findAll arrow? cs = [] ↔ ¬HasArrow cs := by
  rw [Scan.findAll_eq_nil_iff fun h => (arrow?_eq_some h).2]
  apply not_congr
  constructor
  · rintro ⟨front, rest, he, h⟩
    obtain ⟨found, hf⟩ := Option.isSome_iff_exists.mp h
    exact ⟨front, rest, he, (arrow?_eq_some hf).1⟩
  · rintro ⟨front, rest, he, h⟩
    exact ⟨front, rest, he, isSome_arrow? h⟩

/-- That a choice or a negation stands between `front` and the rest of a text. -/
inductive IsChoice : List Char → List Char → Prop where
  | conditional {front rest : List Char} (hdot : rest.head? ≠ some '.')
      (hmark : rest.head? ≠ some '?') (hcolon : ':' ∈ rest) : IsChoice front ('?' :: rest)
  | both {front rest : List Char} : IsChoice front ('&' :: '&' :: rest)
  | either {front rest : List Char} : IsChoice front ('|' :: '|' :: rest)
  | negation {front rest : List Char} (hmark : front.getLast? ≠ some '!')
      (hequals : front.getLast? ≠ some '=') (hrest : rest.head? ≠ some '=') :
      IsChoice front ('!' :: rest)

def HasChoice (cs : List Char) : Prop := ∃ front rest, cs = front ++ rest ∧ IsChoice front rest

theorem choiceAt_iff : choiceAt front.getLast? cs = true ↔ IsChoice front cs := by
  constructor
  · intro h
    unfold choiceAt at h
    split at h
    · simp only [Bool.and_eq_true, bne_iff_ne, List.contains_eq_mem, decide_eq_true_eq] at h
      exact .conditional h.1.1 h.1.2 h.2
    · exact .both
    · exact .either
    · simp only [Bool.and_eq_true, bne_iff_ne] at h
      exact .negation h.1.1 h.1.2 h.2
    · cases h
  · intro h
    cases h with
    | conditional hdot hmark hcolon => simp [choiceAt, hdot, hmark, hcolon]
    | both => rfl
    | either => rfl
    | negation hmark hequals hrest => simp [choiceAt, hmark, hequals, hrest]

/-- That a name between `front` and `rest` makes the expression depend on it. -/
inductive Counts (front name rest : List Char) : Prop where
  | alone (hfront : front = []) (hrest : rest = []) (hv : String.ofList name ∉ valueWords)
  | root (hr : name ∈ dynamicRoots) (hm : HasMember rest)
  | operand (ho : IsOperand front rest)

theorem emptyStrings_of_not_isQuote (h : ∀ c ∈ cs, Scan.isQuote c = false) :
    emptyStrings cs = cs := by
  induction cs with
  | nil => simp [emptyStrings]
  | cons c cs ih =>
    obtain ⟨hc, hcs⟩ := List.forall_mem_cons.mp h
    rw [emptyStrings, if_neg (by simp [hc]), ih hcs]

/-- A text without quotes after its strings were emptied had no strings. -/
theorem eq_of_emptyStrings (h : ∀ c ∈ emptyStrings cs, Scan.isQuote c = false) :
    emptyStrings cs = cs := by
  fun_induction emptyStrings cs with
  | case1 => rfl
  -- an emptied string leaves its quotes behind
  | case2 c tail hc rest hs _ ih => cases h '\x27' List.mem_cons_self
  | case3 c tail hc hs ih =>
    rw [h c List.mem_cons_self] at hc
    cases hc
  | case4 c tail hc ih => rw [ih fun d hd => h d (List.mem_cons_of_mem _ hd)]

theorem isQuote_of_isName (h : isName cs = true) : ∀ c ∈ cs, Scan.isQuote c = false := by
  intro c hc
  have hname := (isName_all h).2 c hc
  rw [← Bool.not_eq_true]
  intro hq
  simp only [Scan.isQuote, Bool.or_eq_true, beq_iff_eq] at hq
  rcases hq with (rfl | rfl) | rfl <;> cases hname

theorem stands_alone_iff : Stands [] name [] cs ↔ cs = name ∧ isName name = true := by
  constructor
  · intro h
    exact ⟨by rw [h.text, List.nil_append, List.append_nil], h.isName⟩
  · rintro ⟨rfl, hn⟩
    exact ⟨by simp, hn, rfl, by simp⟩

theorem choice_iff : Scan.holdsSomewhere choiceAt none cs = true ↔ HasChoice cs := by
  rw [Scan.holdsSomewhere_iff]
  simp only [Option.or_none, choiceAt_iff]
  constructor
  · rintro ⟨front, rest, he, -, h⟩
    exact ⟨front, rest, he, h⟩
  · rintro ⟨front, rest, he, h⟩
    refine ⟨front, rest, he, ?_, h⟩
    rintro rfl
    cases h

theorem alone_iff :
    (isName cs && !valueWords.contains (String.ofList cs)) = true ↔
      ∃ name, Stands [] name [] (emptyStrings cs) ∧ String.ofList name ∉ valueWords := by
  simp only [stands_alone_iff, Bool.and_eq_true, Bool.not_eq_true', List.contains_eq_mem,
    decide_eq_false_iff_not]
  constructor
  · rintro ⟨hn, hv⟩
    exact ⟨cs, ⟨emptyStrings_of_not_isQuote (isQuote_of_isName hn), hn⟩, hv⟩
  · rintro ⟨name, ⟨rfl, hn⟩, hv⟩
    have he := eq_of_emptyStrings (isQuote_of_isName hn)
    rw [he] at hn hv
    exact ⟨hn, hv⟩

theorem classifyBare_isStatic :
    (classifyBare cs).isStatic = true ↔ Scan.findAll access? (emptyStrings cs) = [] ∧
      ¬Scan.holdsSomewhere choiceAt none (emptyStrings cs) = true ∧
      ¬(Scan.holdsSomewhere calculationAt none (emptyStrings cs) ||
        startsSigned (emptyStrings cs)) = true ∧
      ¬(isName cs && !valueWords.contains (String.ofList cs)) = true := by
  unfold classifyBare Classification.isStatic
  dsimp only
  split
  next h => simp_all
  next h =>
    split
    next hc => simp [hc]
    next hc =>
      split
      next ho => simp [ho]
      next ho =>
        split
        next hn => simp_all
        next hn => simp_all

/-- The text outside of strings is static if and only if nothing is chosen in it and no name in it
counts. -/
theorem classifyBare_isStatic_iff :
    (classifyBare cs).isStatic = true ↔
      ¬HasChoice (emptyStrings cs) ∧
        ∀ front name rest, Stands front name rest (emptyStrings cs) → ¬Counts front name rest := by
  rw [classifyBare_isStatic, accesses_eq_nil_iff, choice_iff, calculation_iff, alone_iff]
  constructor
  · rintro ⟨haccess, hchoice, hoperand, halone⟩
    refine ⟨hchoice, ?_⟩
    intro front name rest hs hc
    cases hc with
    | alone hfront hrest hv =>
      subst hfront hrest
      exact halone ⟨name, hs, hv⟩
    | root hr hm => exact haccess ⟨front, name, rest, hs, hr, hm⟩
    | operand ho => exact hoperand ⟨front, name, rest, hs, ho⟩
  · rintro ⟨hchoice, hcounts⟩
    refine ⟨?_, hchoice, ?_, ?_⟩
    · rintro ⟨front, root, rest, hs, hr, hm⟩
      exact hcounts front root rest hs (.root hr hm)
    · rintro ⟨front, name, rest, hs, ho⟩
      exact hcounts front name rest hs (.operand ho)
    · rintro ⟨name, hs, hv⟩
      exact hcounts [] name [] hs (.alone rfl rfl hv)

theorem hasArrow_iff {raw : List Char} :
    (Text.hasPart ['$', '{'] raw && !(Scan.findAll arrow? raw).isEmpty) = true ↔
      Text.hasPart ['$', '{'] raw = true ∧ HasArrow raw := by
  rw [Bool.and_eq_true, Bool.not_eq_true', ← Bool.not_eq_true, List.isEmpty_iff,
    arrows_eq_nil_iff, Classical.not_not]

theorem classify_isStatic_iff (raw : List Char) :
    (classify raw).isStatic = true ↔ isPlainLiteral (unwrap raw) = true ∨
      ¬(Text.hasPart ['$', '{'] raw = true ∧ HasArrow raw) ∧
      templateInterpolations (unwrap raw) = [] ∧ (classifyBare (unwrap raw)).isStatic = true := by
  rw [← hasArrow_iff, classify]
  dsimp only
  split
  next h => simp [h, Classification.isStatic]
  next h =>
    split
    next ha => simp [h, ha, Classification.isStatic]
    next ha =>
      split
      next hi => simp [h, ha, List.isEmpty_iff.mp hi]
      next hi => simp_all [Classification.isStatic]

/-- The text between the quotes of a string, in which a backslash and the character after it, which is
no line feed, belong together. -/
inductive IsStringBody (quote : Char) : List Char → Prop where
  | nil : IsStringBody quote []
  | plain {c : Char} {body : List Char} (hq : c ≠ quote) (he : c ≠ '\\')
      (h : IsStringBody quote body) : IsStringBody quote (c :: body)
  | escaped {c : Char} {body : List Char} (hc : c ≠ '\n') (h : IsStringBody quote body) :
      IsStringBody quote ('\\' :: c :: body)

/-- A number or a string. -/
inductive IsLiteral : List Char → Prop where
  | number {cs : List Char} (h : (Numeral.read? cs).isSome = true) : IsLiteral cs
  | text {quote : Char} {body : List Char} (hq : Scan.isQuote quote = true)
      (hb : IsStringBody quote body) : IsLiteral (quote :: (body ++ [quote]))

theorem ne_backslash_of_isQuote (h : Scan.isQuote c = true) : c ≠ '\\' := by
  rintro rfl
  cases h

theorem IsStringBody.quotesEscaped {quote : Char} {body : List Char} (h : IsStringBody quote body)
    (hq : quote ≠ '\\') (escape : Bool) : quotesEscaped quote escape body = true := by
  induction h generalizing escape with
  | nil => rfl
  | plain hne he h ih => simp [Expression.quotesEscaped, hne, ih]
  | escaped hc h ih => simp [Expression.quotesEscaped, hq.symm, ih]

theorem IsStringBody.afterString? {quote : Char} {body : List Char} (h : IsStringBody quote body)
    (hq : quote ≠ '\\') (rest : List Char) :
    afterString? quote (body ++ quote :: rest) = some rest := by
  induction h with
  | nil => simp [Expression.afterString?, hq]
  | plain hne he h ih => simp [Expression.afterString?, hne, he, ih]
  | escaped hc h ih => simp [Expression.afterString?, hc, ih]

theorem isPlainLiteral_of_isLiteral (h : IsLiteral cs) (hp : Text.hasPart ['$', '{'] cs = false) :
    isPlainLiteral cs = true := by
  cases h with
  | number h => simp [isPlainLiteral, h, hp]
  | @text quote body hq hb =>
    have hu : unquote? Scan.isQuote (quote :: (body ++ [quote])) = some body := by
      simp [unquote?, hq, hb.quotesEscaped (ne_backslash_of_isQuote hq)]
    simp [isPlainLiteral, hu, hp]

theorem names_eq_nil (h : ∀ c ∈ cs, startsName c = false) : names cs = [] := by
  refine List.eq_nil_iff_forall_not_mem.mpr fun word hm => ?_
  obtain ⟨-, front, rest, hs⟩ := mem_names_iff.mp hm
  obtain ⟨c, tail, hname, hc⟩ := hs.exists_cons
  have hmem : c ∈ cs := by
    rw [hs.text, hname]
    simp
  rw [h c hmem] at hc
  cases hc

theorem startsName_of_isDigit (h : Text.isDigit c = true) : startsName c = false := by
  rw [← Bool.not_eq_true]
  intro hs
  simp only [startsName, Bool.or_eq_true, beq_iff_eq] at hs
  rcases hs with (ha | rfl) | rfl
  · have hr := Text.isAlpha_range ha
    have := Text.isDigit_range (Text.isDigit_of_low h (by omega))
    omega
  · cases h
  · cases h

theorem isQuote_of_read? {numeral : Numeral} (h : Numeral.read? cs = some numeral) :
    ∀ c ∈ cs, Scan.isQuote c = false := by
  intro c hc
  rw [← Bool.not_eq_true]
  intro hq
  simp only [Scan.isQuote, Bool.or_eq_true, beq_iff_eq] at hq
  rcases Numeral.mem_of_read? h c hc with hd | rfl | rfl
  · rcases hq with (rfl | rfl) | rfl <;> cases hd
  · simp at hq
  · simp at hq

theorem emptyStrings_string (hq : Scan.isQuote quote = true) (hb : IsStringBody quote body)
    (cs : List Char) :
    emptyStrings (quote :: (body ++ quote :: cs)) = '\x27' :: '\x27' :: emptyStrings cs := by
  have hafter := hb.afterString? (ne_backslash_of_isQuote hq) cs
  rw [emptyStrings, if_pos hq]
  split
  next rest hs =>
    rw [hafter] at hs
    cases hs
    rfl
  next hs =>
    rw [hafter] at hs
    cases hs

theorem names_of_isLiteral (h : IsLiteral cs) : names (emptyStrings cs) = [] := by
  cases h with
  | number h =>
    obtain ⟨numeral, hr⟩ := Option.isSome_iff_exists.mp h
    have hchars := Numeral.mem_of_read? hr
    rw [emptyStrings_of_not_isQuote (isQuote_of_read? hr)]
    apply names_eq_nil
    intro c hc
    rcases hchars c hc with hd | rfl | rfl
    · exact startsName_of_isDigit hd
    · decide
    · decide
  | @text quote body hq hb =>
    rw [emptyStrings_string hq hb, emptyStrings]
    exact names_eq_nil (List.forall_mem_cons.mpr ⟨rfl, List.forall_mem_singleton.mpr rfl⟩)

/-- That an operator stands next to a name. -/
inductive HasOperator (front rest : List Char) : Prop where
  | after {gap tail : List Char} {operator : Char} (hgap : IsBlanks gap)
      (ho : isOperator operator = true) (he : rest = gap ++ operator :: tail)
  | before {head gap : List Char} {operator : Char} (ho : isOperator operator = true)
      (hgap : IsBlanks gap) (he : front = head ++ operator :: gap)

theorem IsOperand.hasOperator (h : IsOperand front rest) : HasOperator front rest := by
  cases h with
  | left hgap ho _ _ => exact .after hgap ho rfl
  | @right head gap gap' _ operator c _ _ ho hgap' =>
    have he : head ++ c :: (gap ++ operator :: gap') = head ++ c :: gap ++ operator :: gap' := by
      simp only [List.append_assoc, List.cons_append]
    exact .before ho hgap' he
  | signed _ hs hgap' =>
    refine .before ?_ hgap' rfl
    rcases hs with rfl | rfl <;> rfl

end

/-- The names of an expression are the words that stand outside of its strings. If the expression is
static, then it is a plain literal, or none of these names counts. A literal has no names and is static,
and so is every text in which nothing is chosen and no name stands alone, as a dynamic root before a
member or next to an operator. -/
theorem static_names_do_not_count (raw : List Char) :
    (∀ word, word ∈ names (emptyStrings (unwrap raw)) ↔ word ∉ valueWords ∧
      ∃ front rest, Stands front word.toList rest (emptyStrings (unwrap raw))) ∧
    ((classify raw).isStatic = true → isPlainLiteral (unwrap raw) = true ∨
      ¬(Text.hasPart ['$', '{'] raw = true ∧ HasArrow raw) ∧
      templateInterpolations (unwrap raw) = [] ∧
      ¬HasChoice (emptyStrings (unwrap raw)) ∧
      ∀ front name rest, Stands front name rest (emptyStrings (unwrap raw)) →
        ¬Counts front name rest) ∧
    (IsLiteral (unwrap raw) → Text.hasPart ['$', '{'] (unwrap raw) = false →
      (classify raw).isStatic = true ∧ names (emptyStrings (unwrap raw)) = []) ∧
    (¬(Text.hasPart ['$', '{'] raw = true ∧ HasArrow raw) →
      templateInterpolations (unwrap raw) = [] → ¬HasChoice (emptyStrings (unwrap raw)) →
      (∀ front name rest, Stands front name rest (emptyStrings (unwrap raw)) →
        (front = [] → rest = [] → String.ofList name ∈ valueWords) ∧
        (name ∈ dynamicRoots → ¬HasMember rest) ∧ ¬HasOperator front rest) →
      (classify raw).isStatic = true) := by
  refine ⟨fun word => mem_names_iff, ?_, ?_, ?_⟩
  · intro h
    rwa [classify_isStatic_iff, classifyBare_isStatic_iff] at h
  · intro hl hp
    exact ⟨(classify_isStatic_iff raw).mpr (.inl (isPlainLiteral_of_isLiteral hl hp)),
      names_of_isLiteral hl⟩
  · intro hp hi hchoice hnames
    rw [classify_isStatic_iff, classifyBare_isStatic_iff]
    refine .inr ⟨hp, hi, hchoice, fun front name rest hs hc => ?_⟩
    obtain ⟨halone, hroot, hoperator⟩ := hnames front name rest hs
    cases hc with
    | alone hfront hrest hv => exact hv (halone hfront hrest)
    | root hr hm => exact hroot hr hm
    | operand ho => exact hoperator ho.hasOperator

/-- A call, a member of an object that is no dynamic root, and a fallback have names and are static. -/
theorem static_expressions_have_names :
    ((classify "f(x)".toList).isStatic = true ∧
      names (emptyStrings (unwrap "f(x)".toList)) = ["f", "x"]) ∧
    ((classify "size.large".toList).isStatic = true ∧
      names (emptyStrings (unwrap "size.large".toList)) = ["size"]) ∧
    (classify "a ?? b".toList).isStatic = true ∧
      names (emptyStrings (unwrap "a ?? b".toList)) = ["a", "b"] := by
  decide +kernel

end Restyle.Expression
