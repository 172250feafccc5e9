import Mathlib.Data.List.Basic
import Restyle.Proofs.SelfContained
import Restyle.Proofs.Template.Total

namespace Restyle

namespace Header

/-- Whether as many angle brackets are open as are closed after them. The arrow of a function type
ends with none. -/
def anglesClose (arrow : Bool) (depth : Nat) : List Char → Bool
  | [] => depth == 0
  | '<' :: cs => anglesClose false (depth + 1) cs
  | '>' :: cs =>
    if arrow then anglesClose false depth cs
    else 0 < depth && anglesClose false (depth - 1) cs
  | c :: cs => anglesClose (c == '=') depth cs

theorem depth_eq_zero_of_anglesClose {arrow : Bool} {depth : Nat} {cs : List Char}
    (h : anglesClose arrow depth cs = true) (hcs : '>' ∉ cs) : depth = 0 := by
  fun_induction anglesClose arrow depth cs with
  | case1 => exact eq_of_beq h
  | case2 arrow depth cs ih =>
    have hdepth := ih h fun hm => hcs (List.mem_cons_of_mem _ hm)
    omega
  | case3 => exact absurd List.mem_cons_self hcs
  | case4 => exact absurd List.mem_cons_self hcs
  | case5 arrow depth c cs _ _ ih => exact ih h fun hm => hcs (List.mem_cons_of_mem _ hm)

/-- A bracket that is open is closed later. -/
theorem mem_of_anglesClose_append {arrow : Bool} {depth : Nat} {front cs : List Char}
    (h : anglesClose arrow depth (front ++ '<' :: cs) = true) : '>' ∈ cs := by
  have hopen : ∃ depth', anglesClose false (depth' + 1) cs = true := by
    induction front generalizing arrow depth with
    | nil => exact ⟨depth, h⟩
    | cons c front ih =>
      rw [List.cons_append] at h
      unfold anglesClose at h
      split at h
      next he => cases he
      next he =>
        obtain ⟨-, rfl⟩ := List.cons.inj he
        exact ih h
      next he =>
        obtain ⟨-, rfl⟩ := List.cons.inj he
        split at h
        next => exact ih h
        next => exact ih (Bool.and_eq_true_iff.mp h).2
      next he =>
        obtain ⟨-, rfl⟩ := List.cons.inj he
        exact ih h
  obtain ⟨depth', hdepth⟩ := hopen
  refine Classical.byContradiction fun hcs => ?_
  have hzero := depth_eq_zero_of_anglesClose hdepth hcs
  omega

section

variable {name base text : List Char}

/-- Only in type arguments a header has an angle bracket or a backtick. -/
theorem IsTemplate.exists_arguments (h : IsTemplate name base text) :
    ∃ front arguments back, text = front ++ (arguments ++ back) ∧ IsTypeArguments arguments ∧
      ∀ c ∈ ['<', '>', '\x60'], c ∉ front ∧ c ∉ back := by
  have hmarks : ∀ c ∈ ['<', '>', '\x60'], isMark c = true ∧ c ∉ ['=', '.', '(', ')'] := by
    decide +kernel
  cases h with
  | @mk start call last hstart hcall hlast =>
    cases hcall with
    | @element arguments hb ha =>
      refine ⟨start ++ '.' :: base, arguments, last, by simp, ha, fun c hc => ?_⟩
      obtain ⟨hm, hne⟩ := hmarks c hc
      simp only [List.mem_cons, List.not_mem_nil, or_false, not_or] at hne
      refine ⟨?_, hlast.not_mem hm⟩
      simp only [List.mem_append, List.mem_cons, not_or]
      exact ⟨hstart.not_mem hm hne.1, hne.2.1, hb.not_mem hm⟩
    | @component arguments ha hb =>
      refine ⟨start, arguments, '(' :: (base ++ ')' :: last), by simp, ha, fun c hc => ?_⟩
      obtain ⟨hm, hne⟩ := hmarks c hc
      simp only [List.mem_cons, List.not_mem_nil, or_false, not_or] at hne
      refine ⟨hstart.not_mem hm hne.1, ?_⟩
      simp only [List.mem_append, List.mem_cons, not_or]
      exact ⟨hne.2.2.1, hb.not_mem hm, hne.2.2.2, hlast.not_mem hm⟩

/-- A header has at most one closing angle bracket. -/
theorem IsTemplate.eq_of_append_cons (h : IsTemplate name base text) {front back : List Char}
    (ht : text = front ++ '>' :: back) :
    '\x60' ∉ back ∧ ∃ start arguments, front = start ++ '<' :: arguments ∧ '>' ∉ arguments := by
  obtain ⟨start, arguments, rest, he, harguments, hout⟩ := h.exists_arguments
  have hangle := hout '>' (by decide)
  cases harguments with
  | absent =>
    have hmem : '>' ∈ start ++ rest := by
      rw [← List.nil_append rest, ← he, ht]
      simp
    exact absurd hmem (by simp [hangle])
  | @given inner hinner =>
    have hwhole : (start ++ '<' :: inner) ++ '>' :: rest = front ++ '>' :: back := by
      rw [← ht, he]
      simp
    obtain ⟨hfront, -, hback⟩ := (List.append_cons_inj_of_notMem
      (by simp [hangle.1, hinner]) hangle.2).mp hwhole
    rw [← hfront, ← hback]
    exact ⟨(hout '\x60' (by decide)).2, start, inner, rfl, hinner⟩

/-- A header that reaches a backtick ends before it, if a closing bracket stands there. -/
theorem IsTemplate.eq_concat_of_append (h : IsTemplate name base text)
    {front rest after : List Char} (hfront : '\x60' ∉ front)
    (he : front ++ '>' :: '\x60' :: after = text ++ rest) (hrest : rest.head? = some '\x60') :
    text = front ++ ['>'] := by
  obtain ⟨tail, rfl⟩ := List.head?_eq_some_iff.mp hrest
  have hsplit : (front ++ ['>']) ++ '\x60' :: after = text ++ '\x60' :: tail := by
    rw [← he]
    simp
  rcases List.append_eq_append_iff.mp hsplit with ⟨more, hmore, htail⟩ | ⟨more, hmore, htail⟩
  · cases more with
    | nil => rw [hmore, List.append_nil]
    | cons c more =>
      obtain ⟨rfl, -⟩ := List.cons.inj htail
      have htext : text = front ++ '>' :: ('\x60' :: more) := by
        rw [hmore]
        simp
      exact absurd List.mem_cons_self (h.eq_of_append_cons htext).1
  · cases more with
    | nil => rw [hmore, List.append_nil]
    | cons c more =>
      obtain ⟨rfl, -⟩ := List.cons.inj htail
      have hmem : '\x60' ∈ front ++ ['>'] := by
        rw [hmore]
        simp
      exact absurd hmem (by simp [hfront])

end

end Header

namespace TemplatePattern

/-- The definition of a component up to its template. -/
def untyped (name base : List Char) : List Char :=
  "const ".toList ++ (name ++ (" = styled.".toList ++ base))

/-- The same with type arguments after the element. -/
def typed (name base arguments : List Char) : List Char :=
  untyped name base ++ '<' :: (arguments ++ ['>'])

/-- That the type arguments of a definition close the angle brackets that they open, and have no
template in them. -/
structure IsTyped (name base arguments : List Char) : Prop where
  name : Header.IsWord name
  base : Header.IsWord base
  closed : Header.anglesClose false 0 arguments = true
  plain : '\x60' ∉ arguments

section

variable {name base arguments : List Char}

theorem isTemplate_append_arguments (hname : Header.IsWord name) (hbase : Header.IsWord base)
    {angles : List Char} (h : Header.IsTypeArguments angles) :
    Header.IsTemplate name base (untyped name base ++ angles) := by
  have hblank : Header.IsBlanks [' '] := List.forall_mem_singleton.mpr (by decide)
  have hnone : Header.IsBlanks [] := List.forall_mem_nil _
  have hstart := Header.IsDefinition.mk (List.cons_ne_nil ' ' []) hblank hname hblank hblank
  have htemplate := Header.IsTemplate.mk hstart (.element hbase h) hnone
  have htext : "const".toList ++ ([' '] ++ (name ++ ([' '] ++ '=' :: ([' '] ++
      "styled".toList)))) ++ ('.' :: (base ++ angles) ++ []) = untyped name base ++ angles := by
    simp [untyped]
  rwa [htext] at htemplate

theorem isTemplate_untyped (hname : Header.IsWord name) (hbase : Header.IsWord base) :
    Header.IsTemplate name base (untyped name base) := by
  have htemplate := isTemplate_append_arguments hname hbase .absent
  rwa [List.append_nil] at htemplate

theorem IsTyped.isTemplate (h : IsTyped name base arguments) (hangle : '>' ∉ arguments) :
    Header.IsTemplate name base (typed name base arguments) :=
  isTemplate_append_arguments h.name h.base (.given hangle)

theorem not_mem_untyped (hname : Header.IsWord name) (hbase : Header.IsWord base) {c : Char}
    (hc : c = '<' ∨ c = '\x60') : c ∉ untyped name base := by
  have hmark : Header.isMark c = true := by
    rcases hc with rfl | rfl
    · decide +kernel
    · decide +kernel
  have hwords : c ∉ "const ".toList ∧ c ∉ " = styled.".toList := by
    rcases hc with rfl | rfl
    · decide
    · decide
  simp only [untyped, List.mem_append, not_or]
  exact ⟨hwords.1, hname.not_mem hmark, hwords.2, hbase.not_mem hmark⟩

/-- With another closing bracket in the type arguments, no header starts before the template. -/
theorem IsTyped.template?_eq_none (h : IsTyped name base arguments) (hangle : '>' ∈ arguments)
    {front tail : List Char} (hne : tail ≠ []) (he : typed name base arguments = front ++ tail)
    (before : Option Char) (after : List Char) :
    Header.template? before (tail ++ '\x60' :: after) = none := by
  cases hfound : Header.template? before (tail ++ '\x60' :: after) with
  | none => rfl
  | some found =>
    obtain ⟨⟨name', base'⟩, rest⟩ := found
    obtain ⟨text, htext, hread, hrest⟩ := Header.template?_eq_some hfound
    -- such a header would end with the last bracket
    rcases List.eq_nil_or_concat tail with rfl | ⟨init, last, rfl⟩
    · exact absurd rfl hne
    have hends : (untyped name base ++ '<' :: arguments) ++ ['>'] = (front ++ init) ++ [last] := by
      rw [List.concat_eq_append] at he
      simpa [typed] using he
    obtain ⟨hinit, hlast⟩ := List.append_inj' hends rfl
    cases hlast
    have hfree : '\x60' ∉ init := by
      intro hmem
      have hwhole : '\x60' ∈ untyped name base ++ '<' :: arguments := by
        rw [hinit]
        exact List.mem_append_right _ hmem
      simp [not_mem_untyped h.name h.base (.inr rfl), h.plain] at hwhole
    rw [List.concat_eq_append, List.append_assoc] at hread
    have hconcat := htext.eq_concat_of_append hfree hread hrest
    -- so its own type arguments start with a bracket that is not closed
    obtain ⟨-, start, inner, rfl, hinner⟩ := htext.eq_of_append_cons hconcat
    have hopen : untyped name base ++ '<' :: arguments = (front ++ start) ++ '<' :: inner := by
      rw [hinit, List.append_assoc]
    rcases List.append_eq_append_iff.mp hopen with ⟨more, -, hmore⟩ | ⟨more, hmore, hback⟩
    · cases more with
      | nil => exact absurd ((List.cons.inj hmore).2 ▸ hangle) hinner
      | cons c more =>
        obtain ⟨-, rfl⟩ := List.cons.inj hmore
        exact absurd (Header.mem_of_anglesClose_append h.closed) hinner
    · cases more with
      | nil => exact absurd ((List.cons.inj hback).2 ▸ hangle) hinner
      | cons c more =>
        obtain ⟨rfl, -⟩ := List.cons.inj hback
        have hmem : '<' ∈ untyped name base := by
          rw [hmore]
          simp
        exact absurd hmem (not_mem_untyped h.name h.base (.inl rfl))

/-- What is found in a definition: it is the first hit if it is recognised at all, and the others are
those of its template and of what follows. -/
theorem IsTyped.findAll_typed (h : IsTyped name base arguments) {after : List Char}
    (hafter : after.head? = some '\x60') :
    Scan.findAll Header.template? (typed name base arguments ++ after) =
      (if '>' ∈ arguments then [] else [⟨0, (name, base), typed name base arguments, after⟩]) ++
        (Scan.findAll Header.template? after).map (·.shift (typed name base arguments).length) := by
  split
  next hangle =>
    obtain ⟨tail, rfl⟩ := List.head?_eq_some_iff.mp hafter
    have hskip : ∀ before part, part ≠ [] → part <:+ typed name base arguments →
        Header.template? before (part ++ '\x60' :: tail) = none := by
      rintro before part hne ⟨front, he⟩
      exact h.template?_eq_none hangle hne he.symm before tail
    obtain ⟨before, hfind⟩ := Scan.findFrom_append_of_none hskip none 0
    rw [Scan.findAll, hfind, Nat.zero_add,
      Scan.findFrom_eq_map_findAll Header.consumes_template, List.nil_append]
  next hangle =>
    have hread := (h.isTemplate hangle).template?_append none hafter
    have hne : typed name base arguments ≠ [] := by simp [typed]
    rw [Scan.findAll_of_some hne hread, Scan.findFrom_eq_map_findAll Header.consumes_template,
      List.singleton_append]

end

/-- A pattern but for its own text and its place. -/
def unplaced (p : TemplatePattern) : TemplatePattern := { p with location := ⟨1, 1⟩, source := "" }

/-- The patterns of a text, but for their own texts and places. -/
def readings (source : List Char) : Except Fault (List TemplatePattern) :=
  (parse source).map (·.map unplaced)

section

variable {source source' : List Char} {hit hit' : Scan.Hit (List Char × List Char)}

theorem map_unplaced_ofHit (hvalue : hit.value = hit'.value) (hrest : hit.rest = hit'.rest) :
    (ofHit source hit).map unplaced = (ofHit source' hit').map unplaced := by
  cases ht : Scan.takeTemplate? hit.rest with
  | none =>
    have ht' := hrest ▸ ht
    simp only [ofHit, ht, ht', hvalue]
    rfl
  | some found =>
    obtain ⟨literal, rest⟩ := found
    rw [ofHit_of_template ht, ofHit_of_template (hrest ▸ ht)]
    cases parseBody (Expression.inside literal) with
    | error fault => rfl
    | ok content =>
      simp only [Except.map, ofTemplate, unplaced, hvalue]

theorem map_unplaced_mapM_shift (offset : Nat) (cs : List Char) :
    (((Scan.findAll Header.template? cs).map (·.shift offset)).mapM (ofHit source)).map
      (·.map unplaced) = readings cs := by
  rw [readings, parse, map_mapM, map_mapM, List.mapM_map]
  exact mapM_congr fun hit _ => map_unplaced_ofHit rfl rfl

theorem map_unplaced_mapM_cons (hits : List (Scan.Hit (List Char × List Char))) :
    ((hit :: hits).mapM (ofHit source)).map (·.map unplaced) =
      ((ofHit source hit).map unplaced).bind fun p =>
        ((hits.mapM (ofHit source)).map (·.map unplaced)).map (p :: ·) := by
  rw [map_mapM, map_mapM, List.mapM_cons]
  rfl

end

section

variable {name base arguments literal rest : List Char}

/-- A definition is read the same with and without type arguments. -/
theorem IsTyped.readings_typed (h : IsTyped name base arguments) (hangle : '>' ∉ arguments)
    {after : List Char} (hafter : after.head? = some '\x60') :
    readings (typed name base arguments ++ after) = readings (untyped name base ++ after) := by
  have hread := (isTemplate_untyped h.name h.base).template?_append none hafter
  have hne : untyped name base ≠ [] := by simp [untyped]
  have hhits : Scan.findAll Header.template? (untyped name base ++ after) =
      ⟨0, (name, base), untyped name base, after⟩ ::
        (Scan.findAll Header.template? after).map (·.shift (untyped name base).length) := by
    rw [Scan.findAll_of_some hne hread, Scan.findFrom_eq_map_findAll Header.consumes_template]
  have hfirst : (ofHit (typed name base arguments ++ after)
      ⟨0, (name, base), typed name base arguments, after⟩).map unplaced =
      (ofHit (untyped name base ++ after) ⟨0, (name, base), untyped name base, after⟩).map
        unplaced := map_unplaced_ofHit rfl rfl
  rw [readings, readings, parse, parse, h.findAll_typed hafter,
    if_neg hangle, hhits, List.singleton_append, map_unplaced_mapM_cons, map_unplaced_mapM_cons,
    map_unplaced_mapM_shift, map_unplaced_mapM_shift, hfirst]

theorem IsTyped.exists_cons_of_parse (h : IsTyped name base arguments) (hangle : '>' ∉ arguments)
    (hliteral : Scan.takeTemplate? (literal ++ rest) = some (literal, rest))
    {found : List TemplatePattern}
    (hparse : parse (typed name base arguments ++ (literal ++ rest)) = .ok found) :
    ∃ p more, found = p :: more ∧ p.component = String.ofList name ∧
      p.base = String.ofList base ∧ p.location = ⟨1, 1⟩ ∧
      p.source = String.ofList (typed name base arguments ++ literal) ∧ p.failed = false := by
  obtain ⟨read, hcons⟩ := Scan.takeTemplate?_eq_cons hliteral
  have hafter : (literal ++ rest).head? = some '\x60' := by rw [hcons]; rfl
  rw [parse, h.findAll_typed hafter, if_neg hangle, List.singleton_append] at hparse
  obtain ⟨p, more, hp, -, rfl⟩ := mapM_cons_eq_ok hparse
  rw [ofHit_of_template hliteral] at hp
  obtain ⟨content, -, rfl⟩ := map_eq_ok hp
  exact ⟨_, more, rfl, rfl, rfl, Location.ofOffset_zero _, rfl, rfl⟩

theorem IsTyped.exists_parse (h : IsTyped name base arguments) {after : List Char}
    (hafter : after.head? = some '\x60') (hzero : '\x00' ∉ after)
    (hlength : after.length ≤ lengthLimit) :
    ∃ found, parse (typed name base arguments ++ after) = .ok found := by
  refine exists_mapM_eq_ok fun hit hhit => ?_
  have hsuffix : hit.rest <:+ after := by
    rw [h.findAll_typed hafter] at hhit
    rcases List.mem_append.mp hhit with hfirst | hlater
    · split at hfirst
      next => cases hfirst
      next =>
        cases List.mem_singleton.mp hfirst
        exact List.suffix_refl _
    · obtain ⟨later, hfound, rfl⟩ := List.mem_map.mp hlater
      show later.rest <:+ after
      exact Scan.rest_suffix_of_mem_findAll Header.consumes_template hfound
  exact exists_ofHit _ (fun hz => hzero (hsuffix.subset hz)) (hsuffix.length_le.trans hlength)

/-- A definition with type arguments is recognised exactly if no angle bracket is closed in them.
Then it is the first of what is found, and all is read as without them. Otherwise it is passed over,
and all is read as if its template stood alone. -/
theorem typed_definition_recognised_iff (h : IsTyped name base arguments)
    (hliteral : Scan.takeTemplate? (literal ++ rest) = some (literal, rest)) :
    ((∃ hit ∈ Scan.findAll Header.template? (typed name base arguments ++ (literal ++ rest)),
      hit.offset = 0) ↔ '>' ∉ arguments) ∧
    ('>' ∉ arguments →
      readings (typed name base arguments ++ (literal ++ rest)) =
        readings (untyped name base ++ (literal ++ rest)) ∧
      (∀ found, parse (typed name base arguments ++ (literal ++ rest)) = .ok found →
        ∃ p more, found = p :: more ∧ p.component = String.ofList name ∧
          p.base = String.ofList base ∧ p.location = ⟨1, 1⟩ ∧
          p.source = String.ofList (typed name base arguments ++ literal) ∧ p.failed = false) ∧
      ('\x00' ∉ literal ++ rest → (literal ++ rest).length ≤ lengthLimit →
        ∃ found, parse (typed name base arguments ++ (literal ++ rest)) = .ok found)) ∧
    ('>' ∈ arguments → readings (typed name base arguments ++ (literal ++ rest)) =
      readings (literal ++ rest)) := by
  obtain ⟨read, hcons⟩ := Scan.takeTemplate?_eq_cons hliteral
  have hafter : (literal ++ rest).head? = some '\x60' := by rw [hcons]; rfl
  have hhits := h.findAll_typed hafter
  refine ⟨⟨?_, ?_⟩, ?_, ?_⟩
  · rintro ⟨hit, hmem, hoffset⟩ hangle
    rw [hhits, if_pos hangle, List.nil_append] at hmem
    obtain ⟨later, -, rfl⟩ := List.mem_map.mp hmem
    have hlength : 0 < (typed name base arguments).length := by simp [typed]
    have hsum : (typed name base arguments).length + later.offset = 0 := hoffset
    omega
  · intro hangle
    rw [hhits, if_neg hangle]
    exact ⟨_, List.mem_append_left _ List.mem_cons_self, rfl⟩
  · intro hangle
    exact ⟨h.readings_typed hangle hafter, fun _ => h.exists_cons_of_parse hangle hliteral,
      h.exists_parse hafter⟩
  · intro hangle
    rw [readings, parse, hhits, if_pos hangle, List.nil_append, map_unplaced_mapM_shift]

end

/-- Type arguments with no brackets but braces and square ones. -/
def flatArguments : List Char := "\x7b a: T[], b?: 'x' | 'y' \x7d".toList

/-- Type arguments with type arguments of their own, in which a function stands. -/
def nestedArguments : List Char := "P<(x: Q<R>) => S>".toList

def plainTemplate : List Char := "\x60a: b;\x60".toList

theorem typed_plainTemplate :
    readings (typed ['A'] ['B'] flatArguments ++ (plainTemplate ++ [])) =
      readings (untyped ['A'] ['B'] ++ (plainTemplate ++ [])) ∧
    readings (typed ['A'] ['B'] nestedArguments ++ (plainTemplate ++ [])) =
      readings (plainTemplate ++ []) := by
  have hname : Header.IsWord ['A'] := ⟨by decide, List.all_eq_true.mp (by decide +kernel)⟩
  have hbase : Header.IsWord ['B'] := ⟨by decide, List.all_eq_true.mp (by decide +kernel)⟩
  have hliteral : Scan.takeTemplate? (plainTemplate ++ []) = some (plainTemplate, []) := by
    decide +kernel
  have hflat : IsTyped ['A'] ['B'] flatArguments := ⟨hname, hbase, by decide, by decide⟩
  have hnested : IsTyped ['A'] ['B'] nestedArguments := ⟨hname, hbase, by decide, by decide⟩
  obtain ⟨-, hsame, -⟩ := typed_definition_recognised_iff hflat hliteral
  obtain ⟨-, -, hpassed⟩ := typed_definition_recognised_iff hnested hliteral
  exact ⟨(hsame (by decide)).1, hpassed (by decide)⟩

/-- A definition with type arguments of which one has some of its own is not found, and neither is
one with a function, though it is without them. -/
theorem parse_typed_eq_nil :
    (Header.anglesClose false 0 "P<T>".toList = true ∧
      parse (typed ['A'] ['B'] "P<T>".toList ++ plainTemplate) = .ok []) ∧
    (Header.anglesClose false 0 "(x) => T".toList = true ∧
      parse (typed ['A'] ['B'] "(x) => T".toList ++ plainTemplate) = .ok []) ∧
    ∃ p, parse (untyped ['A'] ['B'] ++ plainTemplate) = .ok [p] := by
  have hone : gives (·.length == 1) (parse (untyped ['A'] ['B'] ++ plainTemplate)) = true := by
    decide +kernel
  have hnone : ∀ arguments, gives (·.isEmpty)
      (parse (typed ['A'] ['B'] arguments ++ plainTemplate)) = true →
      parse (typed ['A'] ['B'] arguments ++ plainTemplate) = .ok [] := by
    intro arguments h
    obtain ⟨found, hparse, hempty⟩ := exists_of_gives h
    rw [hparse, List.isEmpty_iff.mp hempty]
  obtain ⟨found, hfound, hlength⟩ := exists_of_gives hone
  obtain ⟨p, rfl⟩ := List.length_eq_one_iff.mp (eq_of_beq hlength)
  exact ⟨⟨by decide, hnone _ (by decide +kernel)⟩, ⟨by decide, hnone _ (by decide +kernel)⟩, p,
    hfound⟩

end TemplatePattern

end Restyle
