import Restyle.Proofs.Dedup
import Restyle.Proofs.Template.Masked
import Restyle.Proofs.Template.Placeholder

namespace Restyle.TemplatePattern

theorem placeholders_dropWhile {p : Char → Bool} (hp : p '\x00' = false) (cs : List Char) :
    placeholders (cs.dropWhile p) = placeholders cs := by
  induction cs with
  | nil => rfl
  | cons c cs ih =>
    cases hc : p c with
    | false => rw [List.dropWhile_cons_of_neg (by simp [hc])]
    | true =>
      have hn : c ≠ '\x00' := by
        rintro rfl
        rw [hp] at hc
        cases hc
      rw [List.dropWhile_cons_of_pos hc, ih, placeholders_skip (placeholder?_of_ne hn none cs)]

/-- The value of a declaration is the end of its segment, and holds all the placeholders in it. -/
theorem declaration?_eq_some {segment name value : List Char}
    (h : declaration? segment = some (name, value)) :
    value <:+ segment ∧ value ≠ [] ∧ (∀ c ∈ value.head?, Text.isBlank c = false) ∧
      placeholders value = placeholders segment := by
  have hb : Text.isBlank '\x00' = false := by decide
  simp only [declaration?] at h
  split at h
  next rest hr =>
    split at h
    next => cases h
    next hne =>
      cases h
      simp only [Text.skipBlanks, Bool.or_eq_true, List.isEmpty_iff, not_or] at hr hne ⊢
      have hs : ':' :: rest <:+ segment := by
        rw [← hr]
        exact (List.dropWhile_suffix _).trans (List.dropWhile_suffix _)
      have hp : placeholders (':' :: rest) = placeholders segment := by
        rw [← hr, placeholders_dropWhile hb, placeholders_dropWhile (by decide)]
      refine ⟨(List.dropWhile_suffix _).trans ((List.suffix_cons _ _).trans hs), hne.2,
        Text.head_dropWhile, ?_⟩
      rw [placeholders_dropWhile hb, ← hp,
        placeholders_skip (placeholder?_of_ne (by decide) none _)]
  next => cases h

/-- The value of a declaration has no blanks at its ends either. -/
theorem isTrimmed_of_declaration {segment name value : List Char} (ht : Text.IsTrimmed segment)
    (h : declaration? segment = some (name, value)) : Text.IsTrimmed value := by
  obtain ⟨⟨front, rfl⟩, hne, hhead, _⟩ := declaration?_eq_some h
  refine ⟨hhead, ?_⟩
  rw [← List.getLast?_append_of_ne_nil front hne]
  exact ht.2

section

variable {regions : List (List Char)} {segment : List Char}

/-- A declaration is static if there is no placeholder in it. -/
theorem isStatic_of_styleOf (hr : ∀ region ∈ regions, ∃ read, region = '$' :: '{' :: read)
    (ht : Text.IsTrimmed segment) (ho : '{' ∉ segment) {name value : List Char}
    (hd : declaration? segment = some (name, value)) {dependencies : List String}
    {style : StyleProperty} (hs : styleOf regions dependencies name value = .ok style) :
    style.isStatic = true ↔ placeholders segment = [] := by
  obtain ⟨hsuf, _, _, hp⟩ := declaration?_eq_some hd
  rw [styleOf, Text.trim_of_isTrimmed (isTrimmed_of_declaration ht hd)] at hs
  obtain ⟨text, hu, hs⟩ := bind_eq_ok hs
  rw [← hp]
  constructor
  · intro hstatic
    cases hpl : placeholders value with
    | nil => rfl
    | cons digits names =>
      have hpart := hasPart_of_unmask hr (by simp [hpl]) hu
      simp only [hpart, if_true] at hs
      cases hs
      cases hstatic
  · intro hpl
    rw [unmask_of_placeholders_eq_nil hpl] at hu
    cases hu
    have hpart : Text.hasPart ['$', '{'] value = false :=
      Text.hasPart_pair_of_not_mem_right fun hm => ho (hsuf.subset hm)
    simp only [hpart] at hs
    cases hs
    rfl

theorem dependencies_eq_nil_iff {dependencies : List String}
    (h : maskedDependencies regions segment = .ok dependencies) :
    dependencies = [] ↔ ∀ region ∈ namedRegions regions segment,
      (Expression.classify region).dependencies = [] := by
  rw [(maskedDependencies_eq_ok h).1, eraseDups_eq_nil_iff, List.flatMap_eq_nil_iff]

/-- Nothing shows of the interpolations in a segment if it is no declaration and they depend on
nothing. -/
theorem readSegment_unnoticed_iff
    (hr : ∀ region ∈ regions, ∃ read, region = '$' :: '{' :: read)
    (ho : '{' ∉ Text.trim segment) {found : Option StyleProperty × List String}
    (h : readSegment regions segment = .ok found) :
    (found.2 = [] ∧ ∀ style ∈ found.1, style.isStatic = true) ↔
      (isRead (Text.trim segment) = true →
        ∀ region ∈ namedRegions regions (Text.trim segment),
          declaration? (Text.trim segment) = none ∧
            (Expression.classify region).dependencies = []) := by
  cases hread : isRead (Text.trim segment) with
  | false =>
    rw [readSegment_of_not_isRead hread] at h
    cases h
    simp
  | true =>
    rw [readSegment_of_isRead hread] at h
    obtain ⟨dependencies, hdep, h⟩ := bind_eq_ok h
    have hnil := dependencies_eq_nil_iff hdep
    cases hd : declaration? (Text.trim segment) with
    | none =>
      simp only [hd] at h
      cases h
      simp [hnil]
    | some declared =>
      simp only [hd] at h
      obtain ⟨style, hs, rfl⟩ := map_eq_ok h
      have hstatic := isStatic_of_styleOf hr (Text.isTrimmed_trim segment) ho hd hs
      have hnamed : namedRegions regions (Text.trim segment) = [] ↔
          placeholders (Text.trim segment) = [] :=
        ⟨(maskedDependencies_eq_ok hdep).2, fun he => by rw [namedRegions, he]; rfl⟩
      simp only [true_implies, reduceCtorEq, false_and, ← List.eq_nil_iff_forall_not_mem,
        Option.mem_some_iff, forall_eq', hstatic, hnil, ← hnamed]
      constructor
      · exact fun he => he.2
      · intro he
        rw [he]
        exact ⟨by simp, rfl⟩

end

/-- Whether a segment is a name, a colon and a value that is not blank. -/
def IsDeclaration (segment : List Piece) : Prop :=
  ∃ name blanks value, segment = (name ++ (blanks ++ [':'])).map .plain ++ value ∧
    name ≠ [] ∧ (∀ c ∈ name, isNameChar c = true) ∧ (∀ c ∈ blanks, Text.isBlank c = true) ∧
      ∃ piece ∈ value, piece.holds Text.isBlank = false

theorem exists_map_plain {p : Char → Bool} {ps : List Piece}
    (h : ∀ piece ∈ ps, piece.holds p = true) :
    ∃ cs : List Char, ps = cs.map .plain ∧ ∀ c ∈ cs, p c = true := by
  induction ps with
  | nil => exact ⟨[], rfl, by simp⟩
  | cons piece ps ih =>
    obtain ⟨cs, rfl, hcs⟩ := ih fun piece hm => h piece (List.mem_cons_of_mem _ hm)
    have hp := h piece List.mem_cons_self
    cases piece with
    | plain c => exact ⟨c :: cs, rfl, List.forall_mem_cons.mpr ⟨hp, hcs⟩⟩
    | hole index region => cases hp

theorem maskedOf_eq_cons {ps : List Piece} {c : Char} {rest : List Char} (hc : c ≠ '\x00')
    (h : maskedOf ps = c :: rest) : ∃ qs, ps = .plain c :: qs ∧ rest = maskedOf qs := by
  cases ps with
  | nil => cases h
  | cons piece ps =>
    cases piece with
    | plain d =>
      cases h
      exact ⟨ps, rfl, rfl⟩
    | hole index region =>
      cases h
      exact absurd rfl hc

theorem skipBlanks_maskedOf_ne_nil_iff {ps : List Piece} :
    Text.skipBlanks (maskedOf ps) ≠ [] ↔ ∃ piece ∈ ps, piece.holds Text.isBlank = false := by
  rw [Text.skipBlanks, dropWhile_maskedOf (by decide)]
  induction ps with
  | nil => simp
  | cons piece ps ih =>
    cases hp : piece.holds Text.isBlank with
    | true => simpa [hp] using ih
    | false =>
      have hne : maskedOf (piece :: ps) ≠ [] := by
        cases piece with
        | plain c => simp
        | hole index region => simp [placeholder]
      simp [hp, hne]

theorem exists_takeWhile_eq (p : Char → Bool) (ps : List Piece) :
    ∃ cs : List Char, ps.takeWhile (Piece.holds p) = cs.map .plain ∧ ∀ c ∈ cs, p c = true :=
  exists_map_plain (List.all_eq_true.mp List.all_takeWhile)

theorem isDeclaration_of_isSome {segment : List Piece}
    (h : (declaration? (maskedOf segment)).isSome = true) : IsDeclaration segment := by
  have hn : isNameChar '\x00' = false := by decide
  have hb : Text.isBlank '\x00' = false := by decide
  obtain ⟨⟨name, value⟩, hd⟩ := Option.isSome_iff_exists.mp h
  simp only [declaration?] at hd
  split at hd
  next rest hr =>
    split at hd
    next => cases hd
    next hne =>
      simp only [Bool.or_eq_true, List.isEmpty_iff, not_or] at hne
      rw [Text.skipBlanks, dropWhile_maskedOf hn, dropWhile_maskedOf hb] at hr
      obtain ⟨value, hv, rfl⟩ := maskedOf_eq_cons (by decide) hr
      obtain ⟨name, hname, hnc⟩ := exists_takeWhile_eq isNameChar segment
      obtain ⟨blanks, hblanks, hbc⟩ :=
        exists_takeWhile_eq Text.isBlank (segment.dropWhile (Piece.holds isNameChar))
      rw [takeWhile_maskedOf hn, hname, maskedOf_map_plain] at hne
      refine ⟨name, blanks, value, ?_, hne.1, hnc, hbc, skipBlanks_maskedOf_ne_nil_iff.mp hne.2⟩
      calc segment
          = segment.takeWhile (Piece.holds isNameChar) ++
              segment.dropWhile (Piece.holds isNameChar) := List.takeWhile_append_dropWhile.symm
        _ = name.map .plain ++ (blanks.map .plain ++ .plain ':' :: value) := by
          rw [hname, ← hblanks, ← hv, List.takeWhile_append_dropWhile]
        _ = (name ++ (blanks ++ [':'])).map .plain ++ value := by simp
  next => cases hd

theorem isSome_of_isDeclaration {segment : List Piece} (h : IsDeclaration segment) :
    (declaration? (maskedOf segment)).isSome = true := by
  obtain ⟨name, blanks, value, rfl, hne, hname, hblanks, hvalue⟩ := h
  have hm : maskedOf ((name ++ (blanks ++ [':'])).map .plain ++ value) =
      name ++ (blanks ++ ':' :: maskedOf value) := by
    simp
  have hh : ∀ c ∈ (blanks ++ ':' :: maskedOf value).head?, isNameChar c = false := by
    intro c hc
    cases blanks with
    | nil =>
      cases hc
      decide
    | cons d blanks =>
      cases hc
      have hb := hblanks c List.mem_cons_self
      cases hn : isNameChar c with
      | false => rfl
      | true =>
        rw [isBlank_of_isNameChar hn] at hb
        cases hb
  have hs : Text.skipBlanks (blanks ++ ':' :: maskedOf value) = ':' :: maskedOf value := by
    refine Text.dropWhile_append_of_head hblanks ?_
    intro c hc
    cases hc
    decide
  have hv := skipBlanks_maskedOf_ne_nil_iff.mpr hvalue
  rw [hm, declaration?, Text.takeWhile_append_of_head hname hh,
    Text.dropWhile_append_of_head hname hh, hs]
  simp [hne, hv]

theorem declaration?_eq_none_iff {segment : List Piece} :
    declaration? (maskedOf segment) = none ↔ ¬IsDeclaration segment := by
  rw [← Option.isNone_iff_eq_none, ← Option.not_isSome, Bool.not_eq_true']
  constructor
  · intro h hd
    rw [isSome_of_isDeclaration hd] at h
    cases h
  · intro h
    cases hs : (declaration? (maskedOf segment)).isSome with
    | false => rfl
    | true => exact absurd (isDeclaration_of_isSome hs) h

/-- The segments of a template that are read, without the blanks around them. -/
def readSegments (body : List Char) : List (List Piece) :=
  ((segments (dropComments body)).map trimPieces).filter fun segment => isRead (maskedOf segment)

/-- The interpolations that are found in a segment of a template. -/
def interpolationsIn (body : List Char) (segment : List Piece) : List (List Char) :=
  namedRegions (Scan.interpolations (dropComments body)) (maskedOf segment)

/-- Whether an interpolation in a segment is noticed: it is a part of a value, or depends on
something. -/
def IsNoticed (segment : List Piece) (region : List Char) : Prop :=
  IsDeclaration segment ∨ (Expression.classify region).dependencies ≠ []

theorem mem_of_mem_segments {piece : Piece} {cs : List Char} {segment : List Piece}
    (hs : segment ∈ segments cs) (h : piece ∈ trimPieces segment) :
    piece = .plain ';' ∨ piece ∈ pieces 0 cs ∧ piece ≠ .plain '{' :=
  mem_outermostPieces (mem_of_mem_pieceFields hs (mem_of_mem_trimPieces h))

theorem not_mem_trim_segment {cs : List Char} {segment : List Piece} (hs : segment ∈ segments cs) :
    '{' ∉ Text.trim (maskedOf segment) := by
  rw [trim_maskedOf]
  intro hm
  obtain ⟨piece, hp, hc⟩ := List.mem_flatMap.mp hm
  cases piece with
  | plain c =>
    cases List.mem_singleton.mp hc
    rcases mem_of_mem_segments hs hp with he | ⟨_, hne⟩
    · cases he
    · exact hne rfl
  | hole index region => exact not_mem_placeholder (by decide) (by decide) index hc

theorem readSegment_line_iff {body : List Char} {line : List Piece}
    (hl : line ∈ segments (dropComments body)) {found : Option StyleProperty × List String}
    (h : readSegment (Scan.interpolations (dropComments body)) (maskedOf line) = .ok found) :
    (found.2 = [] ∧ ∀ style ∈ found.1, style.isStatic = true) ↔
      (isRead (maskedOf (trimPieces line)) = true →
        ∀ region ∈ interpolationsIn body (trimPieces line),
          ¬IsNoticed (trimPieces line) region) := by
  rw [readSegment_unnoticed_iff (fun _ => exists_eq_of_mem_interpolations)
    (not_mem_trim_segment hl) h, trim_maskedOf]
  simp only [interpolationsIn, IsNoticed, declaration?_eq_none_iff, not_or, Decidable.not_not]

theorem parseBody_unnoticed_iff {body : List Char} {styles : List StyleProperty}
    {bindings : List String} (h : parseBody body = .ok (styles, bindings)) :
    (bindings = [] ∧ ∀ style ∈ styles, style.isStatic = true) ↔
      ∀ segment ∈ readSegments body, ∀ region ∈ interpolationsIn body segment,
        ¬IsNoticed segment region := by
  rw [parseBody_eq, List.mapM_map] at h
  obtain ⟨found, hf, he⟩ := map_eq_ok h
  cases he
  have hfound : ((found.flatMap (·.2)).eraseDups = [] ∧
      ∀ style ∈ found.filterMap (·.1), style.isStatic = true) ↔
        ∀ result ∈ found, result.2 = [] ∧ ∀ style ∈ result.1, style.isStatic = true := by
    rw [eraseDups_eq_nil_iff, List.flatMap_eq_nil_iff, List.forall_mem_filterMap]
    constructor
    · exact fun hall result hm => ⟨hall.1 result hm, hall.2 result hm⟩
    · exact fun hall => ⟨fun result hm => (hall result hm).1, fun result hm => (hall result hm).2⟩
  rw [hfound, forall_mapM_iff hf fun line hl result hr => readSegment_line_iff hl hr]
  simp only [readSegments, List.mem_filter, List.mem_map]
  constructor
  · rintro hall segment ⟨⟨line, hl, rfl⟩, hread⟩
    exact hall line hl hread
  · intro hall line hl hread
    exact hall _ ⟨⟨line, hl, rfl⟩, hread⟩

theorem comment?_rest_subset {before : Option Char} {cs rest : List Char}
    (h : comment? before cs = some ((), rest)) : rest ⊆ cs := by
  unfold comment? at h
  split at h
  next body =>
    obtain ⟨⟨front, after⟩, hc, he⟩ := Option.map_eq_some_iff.mp h
    cases he
    intro c hm
    rw [Text.cut?_append hc]
    simp [hm]
  next => cases h

theorem dropComments_subset (cs : List Char) : dropComments cs ⊆ cs := by
  have hs : ∀ before text, Scan.substitute comment? (fun _ => Except.ok (ε := Empty) []) before cs =
      .ok text → text ⊆ cs := by
    intro before text ht
    fun_induction Scan.substitute comment? (fun _ => Except.ok (ε := Empty) []) before cs
      generalizing text with
    | case1 =>
      cases ht
      exact List.Subset.refl []
    | case2 before c tail hr ih =>
      obtain ⟨text', ht', rfl⟩ := map_eq_ok ht
      exact List.cons_subset_cons c (ih text' ht')
    | case3 => cases ht
    | case4 before c tail _ rest hr hl text hw last ih =>
      cases hw
      obtain ⟨text', ht', rfl⟩ := map_eq_ok ht
      exact List.Subset.trans (ih text' ht') (comment?_rest_subset hr)
    | case5 before c tail _ rest hr hl ih =>
      obtain ⟨text', ht', rfl⟩ := map_eq_ok ht
      exact List.cons_subset_cons c (ih text' ht')
  unfold dropComments
  split
  next text ht => exact hs none text ht

/-- In a text without the mark of placeholders, the interpolations that are found in a segment are
those that stand in it. -/
theorem interpolationsIn_eq {body : List Char} (h : '\x00' ∉ body) {segment : List Piece}
    (hs : segment ∈ readSegments body) : interpolationsIn body segment = regionsOf segment := by
  obtain ⟨hm, _⟩ := List.mem_filter.mp hs
  obtain ⟨line, hl, rfl⟩ := List.mem_map.mp hm
  refine namedRegions_maskedOf ?_ ?_
  · intro hp
    rcases mem_of_mem_segments hl hp with he | ⟨hm, _⟩
    · cases he
    · exact h (dropComments_subset body (mem_of_plain_mem_pieces hm))
  · intro index region hp
    rcases mem_of_mem_segments hl hp with he | ⟨hm, _⟩
    · cases he
    · exact numberedIn_pieces _ index region hm

theorem ofHit_eq_ok {source : List Char} {hit : Scan.Hit (List Char × List Char)}
    {pattern : TemplatePattern} (h : ofHit source hit = .ok pattern)
    (hf : pattern.failed = false) :
    ∃ literal rest, Scan.takeTemplate? hit.rest = some (literal, rest) ∧
      pattern.source = String.ofList (hit.text ++ literal) ∧
      pattern.themeRefs = themeRefsOf (Expression.inside literal) ∧
      parseBody (Expression.inside literal) = .ok (pattern.properties, pattern.bindings) := by
  simp only [ofHit] at h
  split at h
  next =>
    cases h
    cases hf
  next literal rest ht =>
    obtain ⟨⟨properties, bindings⟩, hb, he⟩ := bind_eq_ok h
    cases he
    exact ⟨literal, rest, ht, rfl, rfl, hb⟩

theorem isAutoConvertible_eq_true_iff {pattern : TemplatePattern} (hf : pattern.failed = false) :
    pattern.isAutoConvertible = true ↔ pattern.themeRefs = [] ∧
      (pattern.bindings = [] ∧ ∀ style ∈ pattern.properties, style.isStatic = true) := by
  simp only [isAutoConvertible, hf, Bool.not_false, Bool.true_and, Bool.and_eq_true,
    List.isEmpty_iff, List.all_eq_true]
  constructor
  · exact fun h => ⟨h.1.2, h.1.1, h.2⟩
  · exact fun h => ⟨⟨h.2.1, h.1⟩, h.2.2⟩

/-- A component is kept from conversion exactly by its references to the theme and by the
interpolations that are noticed. Those in a block, and those that stand alone and depend on nothing,
are not. -/
theorem isAutoConvertible_eq_false_iff {source : List Char} {patterns : List TemplatePattern}
    (h : parse source = .ok patterns) {pattern : TemplatePattern} (hm : pattern ∈ patterns)
    (hf : pattern.failed = false) :
    ∃ hit ∈ Scan.findAll Header.template? source, ∃ literal rest,
      Scan.takeTemplate? hit.rest = some (literal, rest) ∧
      pattern.source = String.ofList (hit.text ++ literal) ∧
      (pattern.isAutoConvertible = false ↔
        themeRefsOf (Expression.inside literal) ≠ [] ∨
        ∃ segment ∈ readSegments (Expression.inside literal),
          ∃ region ∈ interpolationsIn (Expression.inside literal) segment,
            IsNoticed segment region) ∧
      ('\x00' ∉ literal → ∀ segment ∈ readSegments (Expression.inside literal),
        interpolationsIn (Expression.inside literal) segment = regionsOf segment) := by
  obtain ⟨hit, hhit, ho⟩ := exists_of_mem_mapM h hm
  obtain ⟨literal, rest, ht, hsource, htheme, hbody⟩ := ofHit_eq_ok ho hf
  refine ⟨hit, hhit, literal, rest, ht, hsource, ?_, ?_⟩
  · have hiff := parseBody_unnoticed_iff hbody
    rw [← Bool.not_eq_true, isAutoConvertible_eq_true_iff hf, htheme, hiff]
    constructor
    · intro hno
      by_cases hrefs : themeRefsOf (Expression.inside literal) = []
      · right
        refine Classical.byContradiction fun hnone => hno ⟨hrefs, ?_⟩
        exact fun segment hs region hr hn => hnone ⟨segment, hs, region, hr, hn⟩
      · exact Or.inl hrefs
    · rintro (hrefs | ⟨segment, hs, region, hr, hn⟩) hall
      · exact hrefs hall.1
      · exact hall.2 segment hs region hr hn
  · intro hn segment hs
    refine interpolationsIn_eq (fun hm => hn ?_) hs
    exact List.mem_of_mem_drop ((List.dropLast_sublist _).subset hm)

/-- Whether a source has just one component, and `p` holds of it. -/
def holdsOfOnly (p : TemplatePattern → Bool) (source : List Char) : Bool :=
  match parse source with
  | .ok [pattern] => p pattern
  | _ => false

theorem exists_of_holdsOfOnly {p : TemplatePattern → Bool} {source : List Char}
    (h : holdsOfOnly p source = true) :
    ∃ pattern, parse source = .ok [pattern] ∧ p pattern = true := by
  unfold holdsOfOnly at h
  split at h
  next pattern hp => exact ⟨pattern, hp, h⟩
  next => cases h

/-- A component with an interpolation in a value, one in a block and one that stands alone. -/
def mixedSource : List Char :=
  "const A = styled.View`color: $\x7bc\x7d; &:active \x7b top: $\x7bd\x7d; \x7d $\x7bf()\x7d;`".toList

theorem isAutoConvertible_mixedSource :
    ∃ pattern, parse mixedSource = .ok [pattern] ∧ pattern.isAutoConvertible = false ∧
      ∃ hit ∈ Scan.findAll Header.template? mixedSource, ∃ literal rest,
        Scan.takeTemplate? hit.rest = some (literal, rest) ∧
        pattern.source = String.ofList (hit.text ++ literal) ∧
        (pattern.isAutoConvertible = false ↔
          themeRefsOf (Expression.inside literal) ≠ [] ∨
          ∃ segment ∈ readSegments (Expression.inside literal),
            ∃ region ∈ interpolationsIn (Expression.inside literal) segment,
              IsNoticed segment region) ∧
        ('\x00' ∉ literal → ∀ segment ∈ readSegments (Expression.inside literal),
          interpolationsIn (Expression.inside literal) segment = regionsOf segment) := by
  have hone : holdsOfOnly (fun pattern => !pattern.failed && !pattern.isAutoConvertible)
      mixedSource = true := by decide +kernel
  obtain ⟨pattern, hp, hq⟩ := exists_of_holdsOfOnly hone
  simp only [Bool.and_eq_true, Bool.not_eq_true'] at hq
  exact ⟨pattern, hp, hq.2, isAutoConvertible_eq_false_iff hp List.mem_cons_self hq.1⟩

/-- Whether a component is converted although its template has an interpolation outside of
comments. -/
def LosesInterpolation (header body : List Char) : Prop :=
  Scan.interpolations (dropComments body) ≠ [] ∧ '/' ∉ body ∧
    ∃ pattern, parse (header ++ '\x60' :: body ++ ['\x60']) = .ok [pattern] ∧
      (!pattern.failed && pattern.isAutoConvertible) = true

/-- An interpolation is lost in a block, and also if it is a call that stands alone. -/
theorem losesInterpolation_block_and_call :
    LosesInterpolation "const A = styled.View".toList "a\x7bb:$\x7bc\x7d;\x7d".toList ∧
      LosesInterpolation "const A = styled.View".toList "$\x7bf()\x7d;".toList := by
  constructor
  · refine ⟨by decide +kernel, by decide +kernel, exists_of_holdsOfOnly ?_⟩
    decide +kernel
  · refine ⟨by decide +kernel, by decide +kernel, exists_of_holdsOfOnly ?_⟩
    decide +kernel

end Restyle.TemplatePattern
