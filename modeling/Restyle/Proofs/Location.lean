import Restyle.Proofs.Conversion.Account
import Restyle.Proofs.SelfContained
import Restyle.Proofs.Text.Words

namespace Restyle

namespace Location

/-- The lines of a text without the line feeds between them. -/
def lines (source : List Char) : List (List Char) := Text.fields (· == '\n') source

/-- The offset of a location: the lines before its own, each with its line feed, and the columns
before its own. -/
def offset (source : List Char) (l : Location) : Nat :=
  (((lines source).take (l.line - 1).toNat).map (·.length + 1)).sum + (l.column - 1).toNat

/-- That the line of a location is one of the text and has the column in it. -/
structure IsOnLine (source : List Char) (l : Location) : Prop where
  line_pos : 0 < l.line
  column_pos : 0 < l.column
  column_le : ∃ line, (lines source)[(l.line - 1).toNat]? = some line ∧ l.column ≤ line.length

/-- The order of locations in a text. -/
def Before (l l' : Location) : Prop :=
  l.line < l'.line ∨ l.line = l'.line ∧ l.column < l'.column

/-- The text of lines that all end with a line feed. -/
def ended (ls : List (List Char)) : List Char := ls.flatMap (· ++ ['\n'])

theorem ended_append (ls ls' : List (List Char)) : ended (ls ++ ls') = ended ls ++ ended ls' :=
  List.flatMap_append

theorem ended_cons (line : List Char) (ls : List (List Char)) :
    ended (line :: ls) = line ++ '\n' :: ended ls := by
  rw [ended, List.flatMap_cons, List.append_assoc, List.singleton_append, ← ended]

/-- What an offset comes after: some whole lines and a part of one more. -/
structure IsCut (front : List Char) (ls : List (List Char)) (part : List Char) : Prop where
  eq : front = ended ls ++ part
  lines : ∀ line ∈ ls, '\n' ∉ line
  part : '\n' ∉ part

theorem exists_isCut (front : List Char) : ∃ ls part, IsCut front ls part := by
  induction front with
  | nil => exact ⟨[], [], rfl, by simp, by simp⟩
  | cons c front ih =>
    obtain ⟨ls, part, rfl, hlines, hpart⟩ := ih
    by_cases hc : c = '\n'
    · refine ⟨[] :: ls, part, by rw [hc, ended_cons]; rfl, ?_, hpart⟩
      exact List.forall_mem_cons.mpr ⟨List.not_mem_nil, hlines⟩
    cases ls with
    | nil => exact ⟨[], c :: part, rfl, hlines, List.not_mem_cons_of_ne_of_not_mem (Ne.symm hc) hpart⟩
    | cons line ls =>
      obtain ⟨hline, hlines⟩ := List.forall_mem_cons.mp hlines
      refine ⟨(c :: line) :: ls, part, by rw [ended_cons, ended_cons]; rfl, ?_, hpart⟩
      exact List.forall_mem_cons.mpr
        ⟨List.not_mem_cons_of_ne_of_not_mem (Ne.symm hc) hline, hlines⟩

variable {front rest : List Char} {ls : List (List Char)} {part : List Char}

theorem length_ended (ls : List (List Char)) :
    (ended ls).length = (ls.map (·.length + 1)).sum := by
  simp [ended, List.length_flatMap]

theorem head?_reverse_ended (ls : List (List Char)) :
    ∀ c ∈ (ended ls).reverse.head?, c = '\n' := by
  rcases List.eq_nil_or_concat ls with rfl | ⟨ls, line, rfl⟩ <;> simp [ended]

theorem IsCut.count_eq (h : IsCut front ls part) : front.count '\n' = ls.length := by
  have hended : ∀ ls : List (List Char), (∀ line ∈ ls, '\n' ∉ line) →
      (ended ls).count '\n' = ls.length := by
    intro ls hls
    induction ls with
    | nil => rfl
    | cons line ls ih =>
      obtain ⟨hline, hls⟩ := List.forall_mem_cons.mp hls
      rw [ended_cons, List.count_append, List.count_cons_self, ih hls,
        List.count_eq_zero.mpr hline, Nat.zero_add, List.length_cons]
  rw [h.eq, List.count_append, hended ls h.lines, List.count_eq_zero.mpr h.part, Nat.add_zero]

/-- The line of an offset counts the line feeds before it, and the column what follows the last of
them. -/
theorem IsCut.ofOffset_eq (h : IsCut front ls part) (rest : List Char) :
    ofOffset (front ++ rest) front.length = ⟨ls.length + 1, part.length + 1⟩ := by
  have hlast : (front.reverse.takeWhile (· != '\n')).length = part.length := by
    have hpart : ∀ c ∈ part.reverse, (c != '\n') = true := by
      intro c hc
      exact bne_iff_ne.mpr fun he => h.part (he ▸ List.mem_reverse.mp hc)
    have hended : ∀ c ∈ (ended ls).reverse.head?, (c != '\n') = false := fun c hc =>
      bne_eq_false_iff_eq.mpr (head?_reverse_ended ls c hc)
    rw [h.eq, List.reverse_append, Text.takeWhile_append_of_head hpart hended, List.length_reverse]
  have hnat : ¬((front.length : Int) < 0) := by omega
  simp only [ofOffset, if_neg hnat, Int.toNat_natCast, List.take_left, hlast, h.count_eq]
  congr 1
  omega

theorem lines_ended_append (h : ∀ line ∈ ls, '\n' ∉ line) (cs : List Char) :
    lines (ended ls ++ cs) = ls ++ lines cs := by
  induction ls with
  | nil => rfl
  | cons line ls ih =>
    obtain ⟨hline, hls⟩ := List.forall_mem_cons.mp h
    have hnone : ∀ c ∈ line, (c == '\n') = false := fun c hc =>
      beq_eq_false_iff_ne.mpr fun he => hline (he ▸ hc)
    rw [ended_cons, List.append_assoc, List.cons_append, lines,
      Text.fields_append_cons hnone (beq_self_eq_true '\n'), ← lines, ih hls, List.cons_append]

/-- The part of a line that has begun is the beginning of a line. -/
theorem exists_lines_append {c : Char} (hp : '\n' ∉ part) (hc : c ≠ '\n') (rest : List Char) :
    ∃ more others, lines (part ++ c :: rest) = (part ++ c :: more) :: others := by
  have hsome : lines rest ≠ [] := by
    unfold lines Text.fields
    split
    next => exact List.cons_ne_nil _ _
    next =>
      split
      next => exact List.cons_ne_nil _ _
      next => split <;> exact List.cons_ne_nil _ _
  obtain ⟨field, others, hf⟩ := List.exists_cons_of_ne_nil hsome
  refine ⟨field, others, ?_⟩
  induction part with
  | nil => exact Text.fields_cons_of_not (beq_eq_false_iff_ne.mpr hc) hf
  | cons d part ih =>
    obtain ⟨hd, hp⟩ := not_or.mp (List.mem_cons.not.mp hp)
    exact Text.fields_cons_of_not (beq_eq_false_iff_ne.mpr (Ne.symm hd)) (ih hp)

theorem offset_ofOffset (front rest : List Char) :
    (ofOffset (front ++ rest) front.length).offset (front ++ rest) = front.length := by
  obtain ⟨ls, part, h⟩ := exists_isCut front
  have hlines : (lines (front ++ rest)).take ls.length = ls := by
    rw [h.eq, List.append_assoc, lines_ended_append h.lines, List.take_left]
  have hlength : front.length = (ls.map (·.length + 1)).sum + part.length := by
    rw [h.eq, List.length_append, length_ended]
  rw [h.ofOffset_eq rest, offset]
  simp only [Int.add_sub_cancel, Int.toNat_natCast]
  rw [hlines, hlength]

theorem isOnLine_ofOffset (front : List Char) {c : Char} (hc : c ≠ '\n') (rest : List Char) :
    (ofOffset (front ++ c :: rest) front.length).IsOnLine (front ++ c :: rest) := by
  obtain ⟨ls, part, h⟩ := exists_isCut front
  obtain ⟨more, others, hfirst⟩ := exists_lines_append h.part hc rest
  have hline : (lines (front ++ c :: rest))[ls.length]? = some (part ++ c :: more) := by
    rw [h.eq, List.append_assoc, lines_ended_append h.lines, hfirst, List.getElem?_append_right le_rfl,
      Nat.sub_self, List.getElem?_cons_zero]
  rw [h.ofOffset_eq]
  refine ⟨by dsimp only; omega, by dsimp only; omega, part ++ c :: more, ?_, ?_⟩
  · simpa only [Int.add_sub_cancel, Int.toNat_natCast] using hline
  · simp only [List.length_append, List.length_cons]
    omega

/-- What follows in a text comes later by line and column. -/
theorem before_ofOffset (front : List Char) {middle : List Char} (hm : middle ≠ [])
    (rest : List Char) :
    (ofOffset (front ++ (middle ++ rest)) front.length).Before
      (ofOffset (front ++ (middle ++ rest)) (front ++ middle).length) := by
  obtain ⟨ls, part, h⟩ := exists_isCut front
  obtain ⟨ms, last, h'⟩ := exists_isCut middle
  rw [h.ofOffset_eq, ← List.append_assoc]
  cases ms with
  | nil =>
    -- no line ends in between
    have hboth : IsCut (front ++ middle) ls (part ++ last) := by
      refine ⟨by rw [h.eq, h'.eq, List.append_assoc]; rfl, h.lines, ?_⟩
      exact fun hn => (List.mem_append.mp hn).elim h.part h'.part
    have hpos : 0 < last.length := List.length_pos_iff.mpr fun hnil => hm (by rw [h'.eq, hnil]; rfl)
    rw [hboth.ofOffset_eq]
    refine Or.inr ⟨rfl, ?_⟩
    simp only [List.length_append]
    omega
  | cons line ms =>
    obtain ⟨hline, hms⟩ := List.forall_mem_cons.mp h'.lines
    have hboth : IsCut (front ++ middle) (ls ++ (part ++ line) :: ms) last := by
      refine ⟨?_, ?_, h'.part⟩
      · rw [h.eq, h'.eq, ended_append, ended_cons, ended_cons]
        simp only [List.append_assoc, List.cons_append]
      · refine List.forall_mem_append.mpr ⟨h.lines, List.forall_mem_cons.mpr ⟨?_, hms⟩⟩
        exact fun hn => (List.mem_append.mp hn).elim h.part hline
    rw [hboth.ofOffset_eq]
    refine Or.inl ?_
    simp only [List.length_append, List.length_cons]
    omega

end Location

/-- That a pattern is found again by its location, which is on a line of the source text: the text of
the pattern stands at its offset. -/
structure Pattern.IsLocated (source : List Char) (p : Pattern) : Prop where
  onLine : p.location.IsOnLine source
  text : (source.drop (p.location.offset source)).take p.source.toList.length = p.source.toList

/-- That patterns are found again by their locations, which come in the order of the source text. -/
structure AreLocated (source : List Char) (patterns : List Pattern) : Prop where
  located : ∀ p ∈ patterns, p.IsLocated source
  ordered : patterns.Pairwise fun p q => p.location.Before q.location

/-- What a pattern has of the hit that it is read from: the location, and the text as far as it
goes. -/
structure Pattern.IsReadFrom {α : Type} (source : List Char) (hit : Scan.Hit α) (p : Pattern) :
    Prop where
  location : p.location = .ofOffset source hit.offset
  text : p.source.toList <+: hit.text ++ hit.rest

section

variable {α β : Type} {recognize : Scan.Recognizer α} {source : List Char} {hit hit' : Scan.Hit α}

theorem Pattern.IsReadFrom.isLocated (hr : Scan.Consumes recognize)
    (hs : ∀ {before cs found}, recognize before cs = some found → cs.head? ≠ some '\n')
    (hhit : hit ∈ Scan.findAll recognize source) {p : Pattern} (h : p.IsReadFrom source hit) :
    p.IsLocated source := by
  obtain ⟨front, hsource, hoffset, hne, hfound⟩ := Scan.of_mem_findFrom hr hhit
  rw [Nat.zero_add] at hoffset
  obtain ⟨c, tail, htext⟩ := List.exists_cons_of_ne_nil hne
  have hc : c ≠ '\n' := by
    have hhead := hs hfound
    rw [htext] at hhead
    exact fun he => hhead (congrArg some he)
  have hplace : p.location = .ofOffset source front.length := by rw [h.location, hoffset]
  constructor
  · rw [hplace, hsource, htext, List.cons_append]
    exact Location.isOnLine_ofOffset front hc _
  · obtain ⟨after, hafter⟩ := h.text
    rw [hplace, hsource, Location.offset_ofOffset, List.drop_left, ← hafter, List.take_left]

theorem before_of_offset_lt (hr : Scan.Consumes recognize)
    (hhit : hit ∈ Scan.findAll recognize source) (hhit' : hit' ∈ Scan.findAll recognize source)
    (h : hit.offset < hit'.offset) :
    (Location.ofOffset source hit.offset).Before (.ofOffset source hit'.offset) := by
  obtain ⟨front, hsource, hoffset, _⟩ := Scan.of_mem_findFrom hr hhit
  obtain ⟨front', hsource', hoffset', _⟩ := Scan.of_mem_findFrom hr hhit'
  rw [Nat.zero_add] at hoffset hoffset'
  -- both fronts are beginnings of the source text, so the shorter one is a beginning of the other
  obtain ⟨middle, rfl⟩ : front <+: front' :=
    List.prefix_of_prefix_length_le ⟨_, hsource.symm⟩ ⟨_, hsource'.symm⟩ (by omega)
  have hne : middle ≠ [] := by
    rintro rfl
    rw [List.append_nil] at hoffset'
    omega
  rw [hoffset, hoffset', hsource', List.append_assoc]
  exact Location.before_ofOffset front hne _

theorem areLocated_of_mapM {read : Scan.Hit α → Except Fault β} {pattern : β → Pattern}
    (hr : Scan.Consumes recognize)
    (hs : ∀ {before cs found}, recognize before cs = some found → cs.head? ≠ some '\n')
    (hread : ∀ hit ∈ Scan.findAll recognize source, ∀ p, read hit = .ok p →
      (pattern p).IsReadFrom source hit)
    {found : List β} (h : (Scan.findAll recognize source).mapM read = .ok found) :
    AreLocated source (found.map pattern) := by
  constructor
  · rw [List.forall_mem_map]
    intro p hp
    obtain ⟨hit, hhit, hok⟩ := exists_of_mem_mapM h hp
    exact (hread hit hhit p hok).isLocated hr hs hhit
  · have hall : List.Forall₂ (fun hit p => (pattern p).IsReadFrom source hit)
        (Scan.findAll recognize source) found :=
      ((List.forall₂_and_left _ _).mpr ⟨fun _ hhit => hhit, forall₂_of_mapM h⟩).imp
        fun hit p hboth => hread hit hboth.1 p hboth.2
    have hplaces : found.map (fun p => (pattern p).location) =
        (Scan.findAll recognize source).map fun hit => .ofOffset source hit.offset := by
      rw [← List.forall₂_eq_eq_eq, List.forall₂_map_left_iff, List.forall₂_map_right_iff]
      exact hall.flip.imp fun p hit hfrom => hfrom.location
    have hordered := (Scan.pairwise_findFrom hr none 0 source).imp_of_mem
      fun hhit hhit' => before_of_offset_lt hr hhit hhit'
    rw [List.pairwise_map, ← List.pairwise_map (f := fun p => (pattern p).location), hplaces,
      List.pairwise_map]
    exact hordered

end

namespace Header

theorem IsDefinition.head?_append {name text : List Char} (h : IsDefinition name text)
    (rest : List Char) : (text ++ rest).head? = some 'c' := by
  cases h with
  | mk => simp

theorem head?_of_template? {before : Option Char} {cs : List Char}
    {found : (List Char × List Char) × List Char} (h : template? before cs = some found) :
    cs.head? ≠ some '\n' := by
  obtain ⟨text, htext, rfl, _⟩ := template?_eq_some h
  cases htext with
  | mk hstart =>
    rw [List.append_assoc, hstart.head?_append]
    decide

theorem head?_of_declarative? {before : Option Char} {cs : List Char}
    {found : (List Char × List Char) × List Char} (h : declarative? before cs = some found) :
    cs.head? ≠ some '\n' := by
  obtain ⟨text, htext, rfl⟩ := declarative?_eq_some h
  cases htext with
  | mk hstart =>
    rw [List.append_assoc, hstart.head?_append]
    decide

theorem head?_of_tag? {names : List String} {before : Option Char} {cs : List Char}
    {found : String × List Char} (h : tag? names before cs = some found) :
    cs.head? ≠ some '\n' := by
  rw [(tag?_eq_some h).1]
  exact fun he => absurd (Option.some.inj he) (by decide)

end Header

theorem TemplatePattern.isReadFrom {source : List Char}
    {hit : Scan.Hit (List Char × List Char)} {p : TemplatePattern} (h : ofHit source hit = .ok p) :
    (Pattern.template p).IsReadFrom source hit := by
  cases ht : Scan.takeTemplate? hit.rest with
  | none =>
    simp only [ofHit, ht] at h
    cases h
    exact ⟨rfl, by simp [Pattern.source]⟩
  | some found =>
    obtain ⟨literal, rest⟩ := found
    rw [ofHit_of_template ht] at h
    obtain ⟨content, _, rfl⟩ := map_eq_ok h
    refine ⟨rfl, rest, ?_⟩
    rw [Scan.takeTemplate?_append ht]
    simp [Pattern.source, ofTemplate]

theorem DeclarativePattern.isReadFrom {source : List Char}
    {hit : Scan.Hit (List Char × List Char)}
    (hhit : hit ∈ Scan.findAll Header.declarative? source) {p : DeclarativePattern}
    (h : ofHit source hit = .ok p) : (Pattern.declarative p).IsReadFrom source hit := by
  cases hf : p.failed with
  | true =>
    obtain ⟨found, _, h⟩ := bind_eq_ok h
    cases found with
    | none =>
      cases h
      exact ⟨rfl, by simp [Pattern.source]⟩
    | some found =>
      cases h
      cases hf
  | false =>
    obtain ⟨cs, mark, after, hsource, hrest, _⟩ := exists_readsAlone hhit h hf
    obtain ⟨_, _, _, _, _, hp⟩ := ofHit_eq_ok h hf
    refine ⟨by rw [hp]; rfl, after, ?_⟩
    rw [Pattern.source, hsource, hrest]
    simp

theorem InlinePattern.isReadFrom {source : List Char} {hit : Scan.Hit String}
    {p : InlinePattern} (h : ofHit source hit = .ok p) :
    (Pattern.inline p).IsReadFrom source hit := by
  cases ht : takeTag? hit.rest with
  | none =>
    simp only [ofHit, ht] at h
    cases h
    refine ⟨rfl, ?_⟩
    rw [Pattern.source, String.toList_ofList]
    exact List.takeWhile_prefix _
  | some found =>
    obtain ⟨body, rest⟩ := found
    rw [ofHit_of_body ht] at h
    obtain ⟨styles, _, rfl⟩ := map_eq_ok h
    refine ⟨rfl, rest, ?_⟩
    rw [(takeTag?_eq_some ht).1]
    simp [Pattern.source, ofBody]

/-- The patterns of each kind are found again by their locations, whether they could be read or
not, and the locations come in the order of the source text. -/
theorem patterns_are_located (source : List Char) :
    (∀ found, TemplatePattern.parse source = .ok found →
      AreLocated source (found.map .template)) ∧
    (∀ found, DeclarativePattern.parse source = .ok found →
      AreLocated source (found.map .declarative)) ∧
    (∀ names found, InlinePattern.parse names source = .ok found →
      AreLocated source (found.map .inline)) := by
  refine ⟨fun found h => ?_, fun found h => ?_, fun names found h => ?_⟩
  · exact areLocated_of_mapM Header.consumes_template Header.head?_of_template?
      (fun _ _ _ hp => TemplatePattern.isReadFrom hp) h
  · exact areLocated_of_mapM Header.consumes_declarative Header.head?_of_declarative?
      (fun _ hhit _ hp => DeclarativePattern.isReadFrom hhit hp) h
  · exact areLocated_of_mapM (Header.consumes_tag names) Header.head?_of_tag?
      (fun _ _ _ hp => InlinePattern.isReadFrom hp) h

/-- Two patterns of each kind, of which the second has no end. -/
def scatteredText : List Char :=
  ("// a\n const T = styled.V\x60w: 4\x60; const U = styled.V\x60b\nconst D = styled(Box, \x7b\n" ++
    "  a: 1 \x7d) const E = styled(Box, \x7b\n<XStack gap=\x7b4\x7d> <XStack ").toList

theorem scatteredText_is_located :
    (∃ found, TemplatePattern.parse scatteredText = .ok found ∧
      found.map (·.location) = [⟨2, 2⟩, ⟨2, 28⟩] ∧
      AreLocated scatteredText (found.map .template)) ∧
    (∃ found, DeclarativePattern.parse scatteredText = .ok found ∧
      found.map (·.location) = [⟨3, 1⟩, ⟨4, 11⟩] ∧
      AreLocated scatteredText (found.map .declarative)) ∧
    (∃ found, InlinePattern.parse ["XStack"] scatteredText = .ok found ∧
      found.map (·.location) = [⟨5, 1⟩, ⟨5, 18⟩] ∧
      AreLocated scatteredText (found.map .inline)) := by
  obtain ⟨templates, objects, tags⟩ := patterns_are_located scatteredText
  have ht : gives (·.map (·.location) == [⟨2, 2⟩, ⟨2, 28⟩])
      (TemplatePattern.parse scatteredText) = true := by decide +kernel
  have ho : gives (·.map (·.location) == [⟨3, 1⟩, ⟨4, 11⟩])
      (DeclarativePattern.parse scatteredText) = true := by decide +kernel
  have hi : gives (·.map (·.location) == [⟨5, 1⟩, ⟨5, 18⟩])
      (InlinePattern.parse ["XStack"] scatteredText) = true := by decide +kernel
  obtain ⟨ts, hts, htl⟩ := exists_of_gives ht
  obtain ⟨os, hos, hol⟩ := exists_of_gives ho
  obtain ⟨is, his, hil⟩ := exists_of_gives hi
  exact ⟨⟨ts, hts, eq_of_beq htl, templates ts hts⟩, ⟨os, hos, eq_of_beq hol, objects os hos⟩,
    ⟨is, his, eq_of_beq hil, tags _ is his⟩⟩

end Restyle
