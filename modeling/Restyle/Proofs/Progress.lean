import Restyle.Pattern.Inline
import Restyle.Proofs.Scan.Progress
import Restyle.Proofs.Scan.StringEnd

namespace Restyle

namespace InlinePattern

/-- The reader of a tag at work: what it has read, and what is left. -/
structure TagScan where
  read : List Char
  left : List Char

namespace TagScan

/-- One round of the reader: over a string or a region as a whole, or over one character. -/
def rounds (scan : TagScan) : Round TagScan (Option (List Char × List Char)) :=
  match scan.left with
  | [] => .stop none
  | c :: tail =>
    if Expression.isPlainQuote c then
      match Scan.takeString? (c :: tail) with
      | none => .stop none
      | some (literal, rest) => .next ⟨scan.read ++ literal, rest⟩
    else if c == '{' then
      match Scan.takeBraces? (c :: tail) with
      | none => .stop none
      | some (region, rest) => .next ⟨scan.read ++ region, rest⟩
    else if c == '>' then .stop (some (scan.read, tail))
    else if c == '<' then .stop none
    else .next ⟨scan.read ++ [c], tail⟩

def result (scan : TagScan) : Option (List Char × List Char) :=
  (takeTag? scan.left).map fun found => (scan.read ++ found.1, found.2)

theorem result_start (cs : List Char) : result ⟨[], cs⟩ = takeTag? cs := by
  simp [result]

theorem result_append (read front rest : List Char) : result ⟨read ++ front, rest⟩ =
    ((takeTag? rest).map fun found => (front ++ found.1, found.2)).map fun found =>
      (read ++ found.1, found.2) := by
  simp [result, Function.comp_def]

theorem terminates : Terminates (fun scan : TagScan => scan.left.length) rounds result := by
  refine .of_shrinks fun scan => ?_
  obtain ⟨read, left⟩ := scan
  rw [result]
  simp only
  fun_cases takeTag? left with
  | case1 => exact .stop none
  | case2 c tail hq hs =>
    simp only [rounds, hq, hs, if_true]
    exact .stop none
  | case3 c tail hq literal rest hs _ =>
    simp only [rounds, hq, hs, if_true]
    exact Round.leads_next (Scan.takeString?_length_lt hs) (result_append ..)
  | case4 c tail hq hc hs =>
    simp only [rounds, hq, hc, hs, if_true]
    exact .stop none
  | case5 c tail hq hc region rest hs _ =>
    simp only [rounds, hq, hc, hs, if_true]
    exact Round.leads_next (Scan.takeRegion?_length_lt hs) (result_append ..)
  | case6 c tail hq hc he =>
    simp only [rounds, hq, hc, he, if_true, Option.map_some, List.append_nil]
    exact .stop _
  | case7 c tail hq hc he hl =>
    simp only [rounds, hq, hc, he, hl, if_true]
    exact .stop none
  | case8 c tail hq hc he hl =>
    simp only [rounds, hq, hc, he, hl]
    exact Round.leads_next (Nat.lt_succ_self _) (result_append ..)

end TagScan

/-- The reader of attributes at work: those that it has read, and what is left. -/
structure AttributeScan where
  read : List Attribute
  left : List Char

namespace AttributeScan

/-- One round of the reader. A region without an end is taken to be all that is left. -/
def rounds (scan : AttributeScan) : Round AttributeScan (List Attribute) :=
  match scan.left with
  | [] => .stop scan.read
  | c :: tail =>
    if Text.isBlank c || c == '/' then .next ⟨scan.read, tail⟩
    else if c == '{' then
      let spread := (Scan.takeBraces? (c :: tail)).getD (c :: tail, [])
      .next ⟨scan.read ++ [⟨"...".toList, spreadName spread.1, .spread⟩], spread.2⟩
    else if Expression.startsName c then
      let value := readAttributeValue (tail.dropWhile continuesAttribute)
      .next ⟨scan.read ++ [⟨c :: tail.takeWhile continuesAttribute, value.1, value.2.1⟩], value.2.2⟩
    else .next ⟨scan.read, tail⟩

def result (scan : AttributeScan) : List Attribute := scan.read ++ readAttributes scan.left

theorem result_concat (read : List Attribute) (a : Attribute) (rest : List Char) :
    result ⟨read ++ [a], rest⟩ = read ++ a :: readAttributes rest := by
  simp [result]

theorem terminates :
    Terminates (fun scan : AttributeScan => scan.left.length) rounds result := by
  refine .of_shrinks fun scan => ?_
  obtain ⟨read, left⟩ := scan
  rw [result]
  simp only
  fun_cases readAttributes left with
  | case1 =>
    rw [List.append_nil]
    exact .stop read
  | case2 c tail hb =>
    simp only [rounds, hb, if_true]
    exact Round.leads_next (Nat.lt_succ_self _) rfl
  | case3 c tail hb hc hs =>
    -- the spread without an end takes all, so that the next round stops
    simp only [rounds, hb, hc, hs, if_true]
    refine Round.leads_next (Nat.succ_pos _) ?_
    rw [result_concat, readAttributes.eq_def, Option.getD_none]
  | case4 c tail hb hc region rest hs _ =>
    simp only [rounds, hb, hc, hs, if_true]
    exact Round.leads_next (Scan.takeRegion?_length_lt hs) (result_concat ..)
  | case5 c tail hb hc hn hle =>
    simp only [rounds, hb, hc, hn, if_true]
    exact Round.leads_next (Nat.lt_succ_of_le hle) (result_concat ..)
  | case6 c tail hb hc hn =>
    simp only [rounds, hb, hc, hn]
    exact Round.leads_next (Nat.lt_succ_self _) rfl

end AttributeScan

end InlinePattern

namespace Expression

/-- The search for template literals at work: the interpolations of those that it has found, and
what is left. -/
structure TemplateSearch where
  found : List (List Char)
  left : List Char

namespace TemplateSearch

/-- One round of the search, from the next backtick to the end of its literal. -/
def rounds (search : TemplateSearch) : Round TemplateSearch (List (List Char)) :=
  match Scan.takeTemplate? (search.left.dropWhile (· != '\x60')) with
  | none => .stop search.found
  | some (literal, rest) => .next ⟨search.found ++ Scan.interpolations (inside literal), rest⟩

def result (search : TemplateSearch) : List (List Char) :=
  search.found ++ templateInterpolations search.left

theorem templateInterpolations_dropWhile (cs : List Char) :
    templateInterpolations (cs.dropWhile (· != '\x60')) = templateInterpolations cs := by
  induction cs with
  | nil => rfl
  | cons c tail ih =>
    by_cases hc : c = '\x60'
    · rw [List.dropWhile_cons_of_neg (by simp [hc])]
    · rw [List.dropWhile_cons_of_pos (by simp [hc]), ih, templateInterpolations.eq_def (c :: tail)]
      simp [hc]

theorem terminates :
    Terminates (fun search : TemplateSearch => search.left.length) rounds result := by
  refine .of_shrinks fun search => ?_
  obtain ⟨found, left⟩ := search
  have hle := (List.dropWhile_sublist (· != '\x60') (l := left)).length_le
  have hhead := List.head?_dropWhile_not (· != '\x60') left
  simp only [rounds, result, ← templateInterpolations_dropWhile left]
  -- what is left after the jump is empty or starts with a backtick
  generalize left.dropWhile (· != '\x60') = rest at hle hhead
  fun_cases templateInterpolations rest with
  | case1 =>
    rw [List.append_nil]
    exact .stop found
  | case2 c tail hc hs =>
    simp only [hs, List.append_nil]
    exact .stop found
  | case3 c tail hc literal rest hs _ =>
    simp only [hs]
    refine Round.leads_next (Nat.lt_of_lt_of_le (Scan.takeTemplate?_length_lt hs) hle) ?_
    simp [result]
  | case4 c tail hc => exact absurd (by simpa using hhead) hc

end TemplateSearch

/-- The names that the interpolations depend on are gathered one after the other. -/
def gather : List (List Char) → List String → Round (List Char) Classification
  | [], found => .stop ⟨.templateInterpolation, found.eraseDups⟩
  | region :: regions, found =>
    .ask region fun inner => gather regions (found ++ inner.dependencies)

/-- The classification of an expression, which asks for those of its interpolations. -/
def classifyRounds (raw : List Char) : Round (List Char) Classification :=
  let cs := unwrap raw
  if isPlainLiteral cs then .stop ⟨.static, []⟩
  else if Text.hasPart ['$', '{'] raw && !(Scan.findAll arrow? raw).isEmpty then
    .stop ⟨.destructuredArrow, destructuredNames raw⟩
  else if (templateInterpolations cs).isEmpty then .stop (classifyBare cs)
  else gather (templateInterpolations cs) (names (emptyStrings cs))

theorem leads_gather {regions : List (List Char)} {bound : Nat}
    (h : ∀ region ∈ regions, region.length < bound) (found : List String) :
    (gather regions found).Leads List.length classify bound ⟨.templateInterpolation,
      (found ++ regions.flatMap fun region => (classify region).dependencies).eraseDups⟩ := by
  induction regions generalizing found with
  | nil =>
    rw [List.flatMap_nil, List.append_nil]
    exact .stop _
  | cons region regions ih =>
    obtain ⟨hregion, hregions⟩ := List.forall_mem_cons.mp h
    rw [List.flatMap_cons, ← List.append_assoc]
    exact .ask hregion (ih hregions _)

/-- An interpolation is shorter than the expression that it stands in. -/
theorem length_lt_of_mem_templateInterpolations {raw region : List Char}
    (h : region ∈ templateInterpolations (unwrap raw)) : region.length < raw.length :=
  Nat.lt_of_lt_of_le (mem_templateInterpolations_length_lt h) (unwrap_length_le raw)

theorem classify_terminates : Terminates List.length classifyRounds classify := by
  refine .of_shrinks fun raw => ?_
  rw [classifyRounds, classify]
  simp only [List.flatMap_subtype, List.unattach_attach]
  split
  next => exact .stop _
  next =>
    split
    next => exact .stop _
    next =>
      split
      next => exact .stop _
      next => exact leads_gather (fun _ => length_lt_of_mem_templateInterpolations) _

end Expression

/-- The string at an offset has no end, or an end after two characters at least, in the text, and
after its own quote. The readers of strings and regions, which call each other, the searches for
interpolations, marks and template literals, the splitter, the readers of tags and attributes, and
the classification of expressions all end, and each of their rounds goes on only with less text. -/
theorem scanners_make_progress :
    (∀ source start quote, Scan.charAt? source start = some quote →
      Scan.stringEnd source start = .ok none ∨
        ∃ stop, Scan.stringEnd source start = .ok (some stop) ∧ start + 2 ≤ stop ∧
          stop ≤ source.length ∧ Scan.charAt? source (stop - 1) = some quote) ∧
    (Terminates (fun reader : Scan.Reader => reader.left.length) Scan.Reader.rounds
        Scan.Reader.result ∧
      (∀ quote cs, Scan.Reader.result (.string quote cs) =
        (Scan.takeString? (quote :: cs)).map (·.2)) ∧
      ∀ opening closing cs, Scan.isQuote opening = false →
        Scan.Reader.result (.region opening closing 0 cs) =
          (Scan.takeRegion? opening closing (opening :: cs)).map (·.2)) ∧
    (Terminates (fun search : Scan.InterpolationSearch => search.left.length)
        Scan.InterpolationSearch.rounds Scan.InterpolationSearch.result ∧
      ∀ cs, Scan.InterpolationSearch.result ⟨[], cs⟩ = Scan.interpolations cs) ∧
    (∀ isSeparator, Terminates (fun s : Scan.Splitting => s.left.length)
        (Scan.Splitting.rounds isSeparator) (Scan.Splitting.result isSeparator) ∧
      ∀ cs, Scan.Splitting.result isSeparator ⟨[], [], 0, 0, cs⟩ = Scan.splitBy isSeparator cs) ∧
    (∀ isMark, Terminates (fun search : Scan.MarkSearch => search.left.length)
        (Scan.MarkSearch.rounds isMark) (Scan.MarkSearch.result isMark)) ∧
    (∀ mark cs, Scan.MarkSearch.result (fun c => Scan.single? mark == some c) ⟨0, 0, cs⟩ =
      Scan.find? cs mark) ∧
    (Terminates (fun scan : InlinePattern.TagScan => scan.left.length)
        InlinePattern.TagScan.rounds InlinePattern.TagScan.result ∧
      ∀ cs, InlinePattern.TagScan.result ⟨[], cs⟩ = InlinePattern.takeTag? cs) ∧
    (Terminates (fun scan : InlinePattern.AttributeScan => scan.left.length)
        InlinePattern.AttributeScan.rounds InlinePattern.AttributeScan.result ∧
      ∀ cs, InlinePattern.AttributeScan.result ⟨[], cs⟩ = InlinePattern.readAttributes cs) ∧
    (Terminates (fun search : Expression.TemplateSearch => search.left.length)
        Expression.TemplateSearch.rounds Expression.TemplateSearch.result ∧
      ∀ cs, Expression.TemplateSearch.result ⟨[], cs⟩ = Expression.templateInterpolations cs) ∧
    Terminates List.length Expression.classifyRounds Expression.classify :=
  ⟨fun _ _ _ => Scan.stringEnd_of_charAt?,
    ⟨Scan.Reader.terminates, Scan.Reader.result_string,
      fun _ closing cs hq => Scan.Reader.result_region closing hq cs⟩,
    ⟨Scan.InterpolationSearch.terminates, fun _ => rfl⟩,
    fun isSeparator =>
      ⟨Scan.Splitting.terminates isSeparator, Scan.Splitting.result_start isSeparator⟩,
    Scan.MarkSearch.terminates, Scan.MarkSearch.result_start,
    ⟨InlinePattern.TagScan.terminates, InlinePattern.TagScan.result_start⟩,
    ⟨InlinePattern.AttributeScan.terminates, fun _ => rfl⟩,
    ⟨Expression.TemplateSearch.terminates, fun _ => rfl⟩, Expression.classify_terminates⟩

/-- A text whose last string goes on at its front, past a quote with a backslash. -/
def wrappedText : List Char := "b\\' 'a".toList

/-- An attribute, and after it a spread without an end. -/
def unendedText : List Char := "a='b' \x7b...c".toList

theorem wrappedText_makes_progress :
    Scan.charAt? wrappedText (-2) = some '\x27' ∧
      Scan.stringEnd wrappedText (-2) = .ok (some 5) ∧
      ((-2 : Int) + 2 ≤ 5 ∧ (5 : Int) ≤ wrappedText.length ∧
        Scan.charAt? wrappedText (5 - 1) = some '\x27') ∧
      play InlinePattern.AttributeScan.rounds 12 ⟨[], unendedText⟩ =
        some (InlinePattern.readAttributes unendedText) := by
  obtain ⟨hstring, -, -, -, -, -, -, ⟨hattributes, hstart⟩, -⟩ := scanners_make_progress
  have hquote : Scan.charAt? wrappedText (-2) = some '\x27' := by decide +kernel
  have hend : Scan.stringEnd wrappedText (-2) = .ok (some 5) :=
    eq_ok_of_gives (by decide +kernel)
  refine ⟨hquote, hend, ?_, ?_⟩
  · rcases hstring wrappedText (-2) '\x27' hquote with hn | ⟨stop, hs, hbounds⟩
    · rw [hend] at hn
      cases hn
    · rw [hend] at hs
      cases hs
      exact hbounds
  · rw [← hstart]
    exact hattributes.ends ⟨[], unendedText⟩ 12 (by decide +kernel)

end Restyle
