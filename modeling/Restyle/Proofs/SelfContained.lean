import Restyle.Proofs.Declarative.Hit
import Restyle.Proofs.Inline.RoundTrip
import Restyle.Proofs.Template.Total

namespace Restyle

theorem Location.ofOffset_zero (source : List Char) : ofOffset source (0 : Nat) = ⟨1, 1⟩ := by
  simp [ofOffset]

section

variable {α β : Type} {recognize : Scan.Recognizer α}
  {read : List Char → Scan.Hit α → Except Fault β} {hit : Scan.Hit α} {body : List Char} {p : β}

/-- That `p` is read at the start of a text which is only the text of a hit and `body`. -/
structure ReadsAlone (recognize : Scan.Recognizer α)
    (read : List Char → Scan.Hit α → Except Fault β) (hit : Scan.Hit α) (body : List Char)
    (p : β) : Prop where
  text_ne : hit.text ≠ []
  found : recognize none (hit.text ++ body) = some (hit.value, body)
  same : read (hit.text ++ body) ⟨0, hit.value, hit.text, body⟩ = .ok p

theorem ReadsAlone.findAll_eq (h : ReadsAlone recognize read hit body p) :
    Scan.findAll recognize (hit.text ++ body) = ⟨0, hit.value, hit.text, body⟩ ::
      Scan.findFrom recognize hit.text.getLast? hit.text.length body :=
  Scan.findAll_of_some h.text_ne h.found

theorem ReadsAlone.mapM_eq (h : ReadsAlone recognize read hit body p) :
    (Scan.findAll recognize (hit.text ++ body)).mapM (read (hit.text ++ body)) =
      ((Scan.findAll recognize (hit.text ++ body)).tail.mapM (read (hit.text ++ body))).map
        (p :: ·) := by
  rw [h.findAll_eq, mapM_cons_of_ok h.same, List.tail_cons]

theorem ReadsAlone.exists_mapM (h : ReadsAlone recognize read hit body p)
    (hn : ∀ nested ∈ (Scan.findAll recognize (hit.text ++ body)).tail,
      ∃ q, read (hit.text ++ body) nested = .ok q) :
    ∃ nested, (Scan.findAll recognize (hit.text ++ body)).mapM (read (hit.text ++ body)) =
      .ok (p :: nested) := by
  obtain ⟨nested, hm⟩ := exists_mapM_eq_ok hn
  exact ⟨nested, by rw [h.mapM_eq, hm]; rfl⟩

/-- What is nested in the text of a hit up to a mark can be read if all hits of the source can, and
if the reader needs no more text than it is given. -/
theorem ReadsAlone.exists_nested {source cs after : List Char} {mark : Char} {found : List β}
    (h : ReadsAlone recognize read hit (cs ++ [mark]) p) (hr : Scan.Consumes recognize)
    (hs : Scan.StopsAt mark recognize) (hhit : hit ∈ Scan.findAll recognize source)
    (hrest : hit.rest = cs ++ mark :: after)
    (hread : (Scan.findAll recognize source).mapM (read source) = .ok found)
    (hless : ∀ {source source' after place hit q},
      read source ⟨place, hit.value, hit.text, hit.rest ++ after⟩ = .ok q →
      ∃ p, read source' hit = .ok p) :
    ∃ nested, (Scan.findAll recognize (hit.text ++ (cs ++ [mark]))).mapM
      (read (hit.text ++ (cs ++ [mark]))) = .ok (p :: nested) := by
  refine h.exists_mapM ?_
  intro nested hn
  rw [h.findAll_eq, List.tail_cons] at hn
  obtain ⟨place, hm⟩ := Scan.exists_outer_hit hr hs hhit hrest hn
  obtain ⟨q, _, hq⟩ := exists_mem_of_mapM hread hm
  exact hless hq

end

namespace DeclarativePattern

/-- The end of a call is nothing, or a gap and a parenthesis. It is what stands first after the
object, and it is the end of the call also if nothing follows it. -/
theorem callEnd_cases (rest : List Char) :
    (callEnd rest = [] ∨ ∃ gap, callEnd rest = gap ++ [')']) ∧
      (∃ after, rest = callEnd rest ++ after) ∧ callEnd (callEnd rest) = callEnd rest := by
  by_cases h : ((rest.takeWhile (· != ')')).length < rest.length &&
      (rest.takeWhile (· != ')')).all isCallGap) = true
  · have hend : callEnd rest = rest.takeWhile (· != ')') ++ [')'] := by rw [callEnd, if_pos h]
    simp only [Bool.and_eq_true, decide_eq_true_eq] at h
    obtain ⟨hlength, hgap⟩ := h
    refine ⟨Or.inr ⟨_, hend⟩, ?_, ?_⟩
    · have hw := List.takeWhile_append_dropWhile (p := (· != ')')) (l := rest)
      cases hd : rest.dropWhile (· != ')') with
      | nil =>
        rw [hd, List.append_nil] at hw
        rw [hw] at hlength
        omega
      | cons c after =>
        have hc : (c != ')') = false := Text.head_dropWhile c (by rw [hd]; rfl)
        simp only [bne_eq_false_iff_eq] at hc
        rw [hd, hc] at hw
        refine ⟨after, ?_⟩
        rw [hend, List.append_assoc, List.singleton_append, hw]
    · have hwhile : (rest.takeWhile (· != ')') ++ [')']).takeWhile (· != ')') =
          rest.takeWhile (· != ')') :=
        Text.takeWhile_append_of_head (fun c => List.all_eq_true.mp List.all_takeWhile c) (by simp)
      rw [hend, callEnd, hwhile, if_pos]
      simp [hgap]
  · have hend : callEnd rest = [] := by rw [callEnd, if_neg h]
    refine ⟨Or.inl hend, ⟨rest, by rw [hend]; rfl⟩, ?_⟩
    rw [hend]
    rfl

/-- A definition that can be read can be read in a shorter text, in which it may have no end. -/
theorem exists_ofHit_of_append {source source' after : List Char} {place : Nat}
    {hit : Scan.Hit (List Char × List Char)} {q : DeclarativePattern}
    (h : ofHit source ⟨place, hit.value, hit.text, hit.rest ++ after⟩ = .ok q) :
    ∃ p, ofHit source' hit = .ok p := by
  cases ho : Scan.takeBraces? ('{' :: hit.rest) with
  | none => exact ⟨_, by simp only [ofHit, readObject?, ho]; rfl⟩
  | some found =>
    obtain ⟨object, rest⟩ := found
    have hlong : Scan.takeBraces? ('{' :: (hit.rest ++ after)) = some (object, rest ++ after) := by
      have ha := Scan.takeBraces?_read_append ho (rest ++ after)
      rw [← List.append_assoc, ← Scan.takeRegion?_append ho] at ha
      exact ha
    simp only [ofHit, readObject?, ho]
    simp only [ofHit, readObject?, hlong] at h
    cases hc : parseConfig object with
    | ok config => exact ⟨_, rfl⟩
    | error fault =>
      rw [hc] at h
      cases fault with
      | unterminatedString offset => exact ⟨_, rfl⟩
      | _ => cases h

/-- The text of a component goes from its header to the brace of its object, or to the parenthesis
of the call. -/
theorem exists_readsAlone {source : List Char} {hit : Scan.Hit (List Char × List Char)}
    (hhit : hit ∈ Scan.findAll Header.declarative? source) {p : DeclarativePattern}
    (h : ofHit source hit = .ok p) (hf : p.failed = false) :
    ∃ cs mark after, p.source.toList = hit.text ++ (cs ++ [mark]) ∧
      hit.rest = cs ++ mark :: after ∧ (mark = '}' ∨ mark = ')') ∧
      ReadsAlone Header.declarative? ofHit hit (cs ++ [mark]) { p with location := ⟨1, 1⟩ } := by
  obtain ⟨_, header, _, _, htext, hheader⟩ := exists_header hhit
  obtain ⟨object, config, rest, hobject, hconfig, hp⟩ := ofHit_eq_ok h hf
  obtain ⟨inner, rfl⟩ := Scan.takeBraces?_eq_concat hobject
  obtain ⟨hends, ⟨after, hafter⟩, htwice⟩ := callEnd_cases rest
  have hrest : hit.rest = inner ++ '}' :: rest := by
    have happend := Scan.takeRegion?_append hobject
    simpa using happend
  have hsource : p.source.toList = hit.text ++ (inner ++ '}' :: callEnd rest) := by
    rw [hp, htext]
    simp [ofObject, htext]
  have halone : ReadsAlone Header.declarative? ofHit hit (inner ++ '}' :: callEnd rest)
      { p with location := ⟨1, 1⟩ } := by
    refine ⟨by simp [htext], ?_, ?_⟩
    · rw [htext]
      exact hheader.declarative?_append none _
    · have hbraces := Scan.takeBraces?_read_append hobject (callEnd rest)
      have htaken : Scan.takeBraces? ('{' :: (inner ++ '}' :: callEnd rest)) =
          some ('{' :: inner ++ ['}'], callEnd rest) := by simpa using hbraces
      rw [ofHit_of_object htaken hconfig, hp]
      simp only [ofObject, htwice, Location.ofOffset_zero]
  rcases hends with hend | ⟨gap, hend⟩
  · rw [hend] at hsource halone hafter
    exact ⟨inner, '}', rest, hsource, hrest, Or.inl rfl, halone⟩
  · have hbody : inner ++ '}' :: callEnd rest = inner ++ '}' :: gap ++ [')'] := by simp [hend]
    rw [hbody] at hsource halone
    refine ⟨inner ++ '}' :: gap, ')', after, hsource, ?_, Or.inr rfl, halone⟩
    rw [hrest, hafter, hend]
    simp

theorem exists_parse_source {source : List Char} {found : List DeclarativePattern}
    (h : parse source = .ok found) {p : DeclarativePattern} (hp : p ∈ found)
    (hf : p.failed = false) :
    ∃ nested, parse p.source.toList = .ok ({ p with location := ⟨1, 1⟩ } :: nested) := by
  obtain ⟨hit, hhit, hread⟩ := exists_of_mem_mapM h hp
  obtain ⟨cs, mark, after, hsource, hrest, hmark, halone⟩ := exists_readsAlone hhit hread hf
  rw [hsource]
  exact halone.exists_nested Header.consumes_declarative
    (Header.stopsAt_declarative (Or.inr hmark)) hhit hrest h exists_ofHit_of_append

end DeclarativePattern

namespace InlinePattern

/-- A tag ends with an angle bracket, which is not part of what is read. It is read in the same way
whatever follows the bracket. -/
theorem takeTag?_eq_some {cs body rest : List Char} (h : takeTag? cs = some (body, rest)) :
    cs = body ++ '>' :: rest ∧
      ∀ after, takeTag? (body ++ '>' :: after) = some (body, after) := by
  fun_induction takeTag? cs generalizing body with
  | case1 => cases h
  | case2 => cases h
  | case3 c tail hc literal rest' hs _ ih =>
    obtain ⟨⟨inner, _⟩, ht, he⟩ := Option.map_eq_some_iff.mp h
    cases he
    obtain ⟨hrest, hany⟩ := ih ht
    constructor
    · rw [Scan.takeString?_append hs, hrest, List.append_assoc]
    · intro after
      have hwhole := Scan.takeString?_read_append hs []
      rw [List.append_nil] at hwhole
      obtain ⟨read, rfl⟩ := Scan.takeString?_eq_cons hs
      rw [List.append_assoc]
      exact takeTag?_string_append ⟨c, rfl, hc⟩ hwhole (hany after)
  | case4 => cases h
  | case5 c tail _ _ region rest' hs _ ih =>
    obtain ⟨⟨inner, _⟩, ht, he⟩ := Option.map_eq_some_iff.mp h
    cases he
    obtain ⟨hrest, hany⟩ := ih ht
    constructor
    · rw [Scan.takeRegion?_append hs, hrest, List.append_assoc]
    · intro after
      have hwhole := Scan.takeBraces?_read_append hs []
      rw [List.append_nil] at hwhole
      rw [List.append_assoc]
      exact takeTag?_region_append hwhole (hany after)
  | case6 c tail _ _ hc =>
    cases h
    rw [beq_iff_eq] at hc
    subst hc
    exact ⟨rfl, fun after => by simp [takeTag?, Expression.isPlainQuote]⟩
  | case7 => cases h
  | case8 c tail hq hb hg hl ih =>
    obtain ⟨⟨inner, _⟩, ht, he⟩ := Option.map_eq_some_iff.mp h
    cases he
    obtain ⟨hrest, hany⟩ := ih ht
    have hchar : ∀ d ∈ [c], isTagChar d = true := by
      simp_all [isTagChar]
    exact ⟨by rw [hrest, List.cons_append], fun after => takeTag?_plain_append hchar (hany after)⟩

/-- The tag at a place, by the text in it and the styles that are read from it. -/
def ofBody (source : List Char) (hit : Scan.Hit String) (body : List Char)
    (styles : List StyleProperty) : InlinePattern where
  tag := hit.value
  styles := styles
  passthrough := ((readAttributes body).filter (·.isPassthrough)).map fun a =>
    PassthroughAttribute.mk (String.ofList a.name) (String.ofList a.raw)
  location := Location.ofOffset source hit.offset
  source := String.ofList (hit.text ++ body ++ ['>'])

/-- The styles that the attributes in the text of a tag give. -/
def stylesOf (body : List Char) : Except Fault (List StyleProperty) :=
  ((readAttributes body).filter (!·.isPassthrough)).mapM Attribute.toProperty

theorem ofHit_of_body {hit : Scan.Hit String} {body rest : List Char}
    (h : takeTag? hit.rest = some (body, rest)) (source : List Char) :
    ofHit source hit = (stylesOf body).map (ofBody source hit body) := by
  simp only [ofHit, h]
  rfl

theorem ofHit_eq_ok {source : List Char} {hit : Scan.Hit String} {p : InlinePattern}
    (h : ofHit source hit = .ok p) (hf : p.failed = false) :
    ∃ body rest styles, takeTag? hit.rest = some (body, rest) ∧ stylesOf body = .ok styles ∧
      p = ofBody source hit body styles := by
  cases ht : takeTag? hit.rest with
  | none =>
    simp only [ofHit, ht] at h
    cases h
    cases hf
  | some found =>
    obtain ⟨body, rest⟩ := found
    rw [ofHit_of_body ht] at h
    obtain ⟨styles, hs, rfl⟩ := map_eq_ok h
    exact ⟨body, rest, styles, rfl, hs, rfl⟩

theorem exists_ofHit_of_append {source source' after : List Char} {place : Nat}
    {hit : Scan.Hit String} {q : InlinePattern}
    (h : ofHit source ⟨place, hit.value, hit.text, hit.rest ++ after⟩ = .ok q) :
    ∃ p, ofHit source' hit = .ok p := by
  cases ht : takeTag? hit.rest with
  | none => exact ⟨_, by simp only [ofHit, ht]; rfl⟩
  | some found =>
    obtain ⟨body, rest⟩ := found
    obtain ⟨hrest, hany⟩ := takeTag?_eq_some ht
    have hlong : takeTag? (hit.rest ++ after) = some (body, rest ++ after) := by
      rw [hrest, List.append_assoc]
      exact hany (rest ++ after)
    rw [ofHit_of_body hlong] at h
    obtain ⟨styles, hs, _⟩ := map_eq_ok h
    exact ⟨_, by rw [ofHit_of_body ht, hs]; rfl⟩

/-- The text of a tag goes up to its angle bracket. -/
theorem exists_readsAlone {names : List String} {source : List Char} {hit : Scan.Hit String}
    (hhit : hit ∈ Scan.findAll (Header.tag? names) source) {p : InlinePattern}
    (h : ofHit source hit = .ok p) (hf : p.failed = false) :
    ∃ body after, p.source.toList = hit.text ++ (body ++ ['>']) ∧
      hit.rest = body ++ '>' :: after ∧
      ReadsAlone (Header.tag? names) ofHit hit (body ++ ['>']) { p with location := ⟨1, 1⟩ } := by
  obtain ⟨_, _, _, hne, hfound⟩ := Scan.of_mem_findFrom (Header.consumes_tag names) hhit
  obtain ⟨body, after, styles, ht, hstyles, hp⟩ := ofHit_eq_ok h hf
  obtain ⟨hrest, hany⟩ := takeTag?_eq_some ht
  have hsource : p.source.toList = hit.text ++ (body ++ ['>']) := by
    simp [hp, ofBody]
  have htext : hit.text = '<' :: hit.value.toList :=
    List.append_cancel_right (Header.tag?_eq_some hfound).1
  refine ⟨body, after, hsource, hrest, hne, ?_, ?_⟩
  · have hwhole : hit.rest = body ++ ['>'] ++ after := by simp [hrest]
    rw [hwhole, htext] at hfound
    rw [htext]
    exact Header.tag?_of_append (by simp) hfound
  · rw [ofHit_of_body (hany []), hstyles, hp]
    simp only [Except.map, ofBody, Location.ofOffset_zero]

theorem parse_source_eq {names : List String} {source : List Char} {found : List InlinePattern}
    (h : parse names source = .ok found) {p : InlinePattern} (hp : p ∈ found)
    (hf : p.failed = false) :
    parse names p.source.toList =
      ((Scan.findAll (Header.tag? names) p.source.toList).tail.mapM (ofHit p.source.toList)).map
        ({ p with location := ⟨1, 1⟩ } :: ·) := by
  obtain ⟨hit, hhit, hread⟩ := exists_of_mem_mapM h hp
  obtain ⟨body, after, hsource, _, halone⟩ := exists_readsAlone hhit hread hf
  rw [hsource]
  exact halone.mapM_eq

theorem exists_parse_source {names : List String} (hnames : ∀ name ∈ names, '>' ∉ name.toList)
    {source : List Char} {found : List InlinePattern} (h : parse names source = .ok found)
    {p : InlinePattern} (hp : p ∈ found) (hf : p.failed = false) :
    ∃ nested, parse names p.source.toList = .ok ({ p with location := ⟨1, 1⟩ } :: nested) := by
  obtain ⟨hit, hhit, hread⟩ := exists_of_mem_mapM h hp
  obtain ⟨body, after, hsource, hrest, halone⟩ := exists_readsAlone hhit hread hf
  rw [hsource]
  exact halone.exists_nested (Header.consumes_tag names) (Header.stopsAt_tag hnames) hhit hrest h
    exists_ofHit_of_append

end InlinePattern

namespace TemplatePattern

/-- The component at a header, by its template and what is read from it. -/
def ofTemplate (source : List Char) (hit : Scan.Hit (List Char × List Char)) (literal : List Char)
    (content : List StyleProperty × List String) : TemplatePattern where
  component := String.ofList hit.value.1
  base := String.ofList hit.value.2
  properties := content.1
  bindings := content.2
  themeRefs := themeRefsOf (Expression.inside literal)
  location := Location.ofOffset source hit.offset
  source := String.ofList (hit.text ++ literal)

theorem ofHit_of_template {hit : Scan.Hit (List Char × List Char)} {literal rest : List Char}
    (h : Scan.takeTemplate? hit.rest = some (literal, rest)) (source : List Char) :
    ofHit source hit =
      (parseBody (Expression.inside literal)).map (ofTemplate source hit literal) := by
  simp only [ofHit, h]
  rfl

/-- The text of a component ends with its template. -/
theorem exists_readsAlone {source : List Char} {hit : Scan.Hit (List Char × List Char)}
    (hhit : hit ∈ Scan.findAll Header.template? source) {p : TemplatePattern}
    (h : ofHit source hit = .ok p) (hf : p.failed = false) :
    ∃ literal, p.source.toList = hit.text ++ literal ∧
      ReadsAlone Header.template? ofHit hit literal { p with location := ⟨1, 1⟩ } := by
  obtain ⟨_, _, _, hne, hfound⟩ := Scan.of_mem_findFrom Header.consumes_template hhit
  have hvalue : Header.template? none (hit.text ++ hit.rest) =
      some ((hit.value.1, hit.value.2), hit.rest) := hfound
  obtain ⟨text, htemplate, he, _⟩ := Header.template?_eq_some hvalue
  obtain ⟨literal, rest, ht, hsource, _, _⟩ := ofHit_eq_ok h hf
  rw [ofHit_of_template ht] at h
  obtain ⟨content, hcontent, hp⟩ := map_eq_ok h
  refine ⟨literal, by rw [hsource, String.toList_ofList], hne, ?_, ?_⟩
  · obtain ⟨read, rfl⟩ := Scan.takeTemplate?_eq_cons ht
    rw [List.append_cancel_right he]
    exact htemplate.template?_append none rfl
  · have halone : Scan.takeTemplate? literal = some (literal, []) := by
      simpa using Scan.takeTemplate?_read_append ht []
    rw [ofHit_of_template halone, hcontent, ← hp]
    simp only [Except.map, ofTemplate, Location.ofOffset_zero]

theorem parse_source_eq {source : List Char} {found : List TemplatePattern}
    (h : parse source = .ok found) {p : TemplatePattern} (hp : p ∈ found)
    (hf : p.failed = false) :
    parse p.source.toList =
      ((Scan.findAll Header.template? p.source.toList).tail.mapM (ofHit p.source.toList)).map
        ({ p with location := ⟨1, 1⟩ } :: ·) := by
  obtain ⟨hit, hhit, hread⟩ := exists_of_mem_mapM h hp
  obtain ⟨literal, hsource, halone⟩ := exists_readsAlone hhit hread hf
  rw [hsource]
  exact halone.mapM_eq

/-- A component that is nested in a template may end in the source after the template ends, and
then it is another component in the text alone. -/
theorem exists_parse_source {source : List Char} {found : List TemplatePattern}
    (h : parse source = .ok found) {p : TemplatePattern} (hp : p ∈ found) (hf : p.failed = false)
    (hn : '\x00' ∉ p.source.toList) (hl : p.source.toList.length ≤ lengthLimit) :
    ∃ nested, parse p.source.toList = .ok ({ p with location := ⟨1, 1⟩ } :: nested) := by
  obtain ⟨hit, hhit, hread⟩ := exists_of_mem_mapM h hp
  obtain ⟨literal, hsource, halone⟩ := exists_readsAlone hhit hread hf
  rw [hsource] at hn hl ⊢
  refine halone.exists_mapM ?_
  intro nested hm
  obtain ⟨front, hc, _⟩ := Scan.of_mem_findFrom Header.consumes_template (List.mem_of_mem_tail hm)
  have hsuffix : nested.rest <:+ hit.text ++ literal := by
    rw [hc, ← List.append_assoc]
    exact List.suffix_append _ _
  exact exists_ofHit _ (fun hz => hn (hsuffix.subset hz)) (hsuffix.length_le.trans hl)

end TemplatePattern

/-- A pattern is read again from its own text, as the first of what is found there. What comes after
it is read in the text alone, and this may fail: for tags only if a name has an angle bracket in
it, and for templates only if the text has a mark of placeholders in it or exceeds the limit. -/
theorem patterns_read_alone (source : List Char) :
    (∀ found, DeclarativePattern.parse source = .ok found → ∀ p ∈ found, p.failed = false →
      ∃ nested, DeclarativePattern.parse p.source.toList =
        .ok ({ p with location := ⟨1, 1⟩ } :: nested)) ∧
    (∀ names found, InlinePattern.parse names source = .ok found → ∀ p ∈ found,
      p.failed = false →
      InlinePattern.parse names p.source.toList =
        ((Scan.findAll (Header.tag? names) p.source.toList).tail.mapM
          (InlinePattern.ofHit p.source.toList)).map ({ p with location := ⟨1, 1⟩ } :: ·) ∧
      ((∀ name ∈ names, '>' ∉ name.toList) →
        ∃ nested, InlinePattern.parse names p.source.toList =
          .ok ({ p with location := ⟨1, 1⟩ } :: nested))) ∧
    (∀ found, TemplatePattern.parse source = .ok found → ∀ p ∈ found, p.failed = false →
      TemplatePattern.parse p.source.toList =
        ((Scan.findAll Header.template? p.source.toList).tail.mapM
          (TemplatePattern.ofHit p.source.toList)).map ({ p with location := ⟨1, 1⟩ } :: ·) ∧
      ('\x00' ∉ p.source.toList → p.source.toList.length ≤ TemplatePattern.lengthLimit →
        ∃ nested, TemplatePattern.parse p.source.toList =
          .ok ({ p with location := ⟨1, 1⟩ } :: nested))) := by
  refine ⟨?_, ?_, ?_⟩
  · intro found h p hp hf
    exact DeclarativePattern.exists_parse_source h hp hf
  · intro names found h p hp hf
    exact ⟨InlinePattern.parse_source_eq h hp hf, fun hnames =>
      InlinePattern.exists_parse_source hnames h hp hf⟩
  · intro found h p hp hf
    exact ⟨TemplatePattern.parse_source_eq h hp hf, TemplatePattern.exists_parse_source h hp hf⟩

/-- A template, an object with a tag in it, and text around them. -/
def crowdedText : List Char :=
  ("a\nconst T = styled.V\x60w: $\x7bp => p.w\x7d\x60 b" ++
    "\nconst D = styled(Box, \x7b a: <XStack gap=\x7b4\x7d>, b: 2 \x7d) c").toList

theorem patterns_of_crowdedText :
    (∃ found, DeclarativePattern.parse crowdedText = .ok found ∧ ∃ p ∈ found,
      ∃ nested, DeclarativePattern.parse p.source.toList =
        .ok ({ p with location := ⟨1, 1⟩ } :: nested)) ∧
    (∃ found, InlinePattern.parse ["XStack"] crowdedText = .ok found ∧ ∃ p ∈ found,
      ∃ nested, InlinePattern.parse ["XStack"] p.source.toList =
        .ok ({ p with location := ⟨1, 1⟩ } :: nested)) ∧
    (∃ found, TemplatePattern.parse crowdedText = .ok found ∧ ∃ p ∈ found,
      ∃ nested, TemplatePattern.parse p.source.toList =
        .ok ({ p with location := ⟨1, 1⟩ } :: nested)) := by
  obtain ⟨declarative, inline, template⟩ := patterns_read_alone crowdedText
  refine ⟨?_, ?_, ?_⟩
  · have hgives : gives (fun found => found.any fun p => !p.failed)
        (DeclarativePattern.parse crowdedText) = true := by decide +kernel
    obtain ⟨found, h, hany⟩ := exists_of_gives hgives
    obtain ⟨p, hp, hf⟩ := List.any_eq_true.mp hany
    exact ⟨found, h, p, hp, declarative found h p hp (by simpa using hf)⟩
  · have hgives : gives (fun found => found.any fun p => !p.failed)
        (InlinePattern.parse ["XStack"] crowdedText) = true := by decide +kernel
    obtain ⟨found, h, hany⟩ := exists_of_gives hgives
    obtain ⟨p, hp, hf⟩ := List.any_eq_true.mp hany
    exact ⟨found, h, p, hp, (inline _ found h p hp (by simpa using hf)).2 (by decide)⟩
  · have hgives : gives (fun found => found.any fun p => !p.failed &&
        !p.source.toList.contains '\x00' && decide (p.source.toList.length ≤ 10 ^ 2))
        (TemplatePattern.parse crowdedText) = true := by decide +kernel
    obtain ⟨found, h, hany⟩ := exists_of_gives hgives
    obtain ⟨p, hp, hf⟩ := List.any_eq_true.mp hany
    simp only [Bool.and_eq_true, Bool.not_eq_true', decide_eq_true_eq] at hf
    obtain ⟨⟨hf, hn⟩, hl⟩ := hf
    have hdigits : 2 ≤ TemplatePattern.digitLimit := by decide
    have hlimit : p.source.toList.length ≤ TemplatePattern.lengthLimit :=
      hl.trans (Nat.pow_le_pow_right (by decide) hdigits)
    exact ⟨found, h, p, hp, (template found h p hp hf).2 (by simpa using hn) hlimit⟩

/-- In the source, the type arguments of `A` reach over the end of `Z` and over all of `B`. In the
text of `Z` they have no end, so that `B` is read, in which a placeholder stands for nothing. -/
def hidingText : List Char :=
  ("const Z = styled.V\x60$\x7bconst A = styled.W<const B = styled.X\x60a:\x005\x00\x60\x7d\x60" ++
    ">\x60css\x60").toList

def isOutOfRange : Except Fault (List TemplatePattern) → Bool
  | .error .outOfRange => true
  | _ => false

theorem eq_error_of_isOutOfRange {x : Except Fault (List TemplatePattern)}
    (h : isOutOfRange x = true) : x = .error .outOfRange := by
  unfold isOutOfRange at h
  split at h
  next => rfl
  next => cases h

theorem hidden_component_is_read_alone :
    ∃ found, TemplatePattern.parse hidingText = .ok found ∧ ∃ p ∈ found, p.failed = false ∧
      TemplatePattern.parse p.source.toList = .error .outOfRange := by
  have hgives : gives (fun found => found.any fun p => !p.failed &&
      isOutOfRange (TemplatePattern.parse p.source.toList))
      (TemplatePattern.parse hidingText) = true := by decide +kernel
  obtain ⟨found, h, hany⟩ := exists_of_gives hgives
  obtain ⟨p, hp, hf⟩ := List.any_eq_true.mp hany
  simp only [Bool.and_eq_true, Bool.not_eq_true'] at hf
  exact ⟨found, h, p, hp, hf.1, eq_error_of_isOutOfRange hf.2⟩

end Restyle
