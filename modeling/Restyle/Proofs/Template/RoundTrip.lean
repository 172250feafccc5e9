import Restyle.Proofs.Dedup
import Restyle.Proofs.Template.Masked
import Restyle.Proofs.Template.Placeholder

namespace Restyle.TemplatePattern

/-- A part of a value: a text, or an interpolation with what stands in its braces. -/
inductive ValuePart where
  | plain (text : List Char)
  | interpolation (braces : List Char)

namespace ValuePart

def render : ValuePart → List Char
  | .plain text => text
  | .interpolation braces => '$' :: braces

def region? : ValuePart → Option (List Char)
  | .plain _ => none
  | .interpolation braces => some ('$' :: braces)

/-- Whether a character neither ends a declaration nor belongs to a block. -/
def isPlainChar (c : Char) : Bool := c != ';' && c != '\n' && c != '{' && c != '}'

def WellFormed : ValuePart → Prop
  | .plain text => ∀ c ∈ text, isPlainChar c = true
  | .interpolation braces => Scan.takeBraces? braces = some (braces, [])

instance (part : ValuePart) : Decidable part.WellFormed :=
  match part with
  | .plain text => decidable_of_iff (text.all isPlainChar = true) List.all_eq_true
  | .interpolation braces =>
    inferInstanceAs (Decidable (Scan.takeBraces? braces = some (braces, [])))

end ValuePart

structure Declaration where
  name : List Char
  parts : List ValuePart

namespace Declaration

variable (d : Declaration)

def value : List Char := d.parts.flatMap ValuePart.render

def regions : List (List Char) := d.parts.filterMap ValuePart.region?

/-- The names that the interpolations depend on, in their order and as often as they stand there. -/
def mentions : List String :=
  d.regions.flatMap fun region => (Expression.classify region).dependencies

def render : List Char := d.name ++ [':', ' '] ++ d.value ++ [';', '\n']

structure WellFormed : Prop where
  name_ne_nil : d.name ≠ []
  name_chars : ∀ c ∈ d.name, isNameChar c = true
  parts : ∀ part ∈ d.parts, part.WellFormed
  value_ne_nil : d.value ≠ []
  value_trimmed : Text.trim d.value = d.value

instance : Decidable d.WellFormed :=
  decidable_of_iff (d.name ≠ [] ∧ d.name.all isNameChar = true ∧
      d.parts.all (fun part => decide part.WellFormed) = true ∧ d.value ≠ [] ∧
        Text.trim d.value = d.value) <| by
    simp only [List.all_eq_true, decide_eq_true_eq]
    exact ⟨fun ⟨hn, hc, hp, hv, ht⟩ => ⟨hn, hc, hp, hv, ht⟩,
      fun h => ⟨h.name_ne_nil, h.name_chars, h.parts, h.value_ne_nil, h.value_trimmed⟩⟩

/-- The style that a declaration stands for. -/
def style : StyleProperty where
  name := String.ofList (camelCase d.name)
  value := .text (String.ofList d.value)
  isStatic := d.regions.isEmpty
  dependencies := if d.regions.isEmpty then none else some d.mentions.eraseDups
  token := if d.regions.isEmpty && isToken d.value then some (String.ofList d.value) else none

end Declaration

def bodyText (declarations : List Declaration) : List Char :=
  declarations.flatMap Declaration.render

theorem pieces_cons_of_head {c : Char} {tail : List Char} (h : tail.head? ≠ some '{')
    (index : Nat) : pieces index (c :: tail) = .plain c :: pieces index tail := by
  rw [pieces.eq_def]
  simp only
  split
  next =>
    split
    next ht =>
      rw [Scan.takeBraces?_of_head h] at ht
      cases ht
    next => rw [if_neg (by simpa using h)]
  next => rfl

theorem pieces_plain_append {cs after : List Char} (h : '{' ∉ cs) (ha : after.head? ≠ some '{')
    (index : Nat) : pieces index (cs ++ after) = cs.map .plain ++ pieces index after := by
  induction cs with
  | nil => rfl
  | cons c cs ih =>
    simp only [List.mem_cons, not_or] at h
    have hh : (cs ++ after).head? ≠ some '{' := by
      cases cs with
      | nil => exact ha
      | cons d cs =>
        simp only [List.mem_cons, not_or] at h
        simpa using Ne.symm h.2.1
    rw [List.cons_append, pieces_cons_of_head hh, ih h.2, List.map_cons, List.cons_append]

theorem pieces_interpolation_append {braces : List Char}
    (h : Scan.takeBraces? braces = some (braces, [])) (index : Nat) (after : List Char) :
    pieces index ('$' :: braces ++ after) =
      .hole index ('$' :: braces) :: pieces (index + 1) after := by
  have ha := Scan.takeBraces?_read_append h after
  rw [List.cons_append, pieces.eq_def]
  simp only [beq_self_eq_true, if_true]
  split
  next ht =>
    rw [ha] at ht
    cases ht
    rfl
  next ht =>
    rw [ha] at ht
    cases ht

/-- The pieces of a value whose first interpolation has the number `index`. -/
def partPieces (index : Nat) : List ValuePart → List Piece
  | [] => []
  | .plain text :: parts => text.map .plain ++ partPieces index parts
  | .interpolation braces :: parts =>
    .hole index ('$' :: braces) :: partPieces (index + 1) parts

section

variable {parts : List ValuePart}

theorem textOf_partPieces (index : Nat) :
    textOf (partPieces index parts) = parts.flatMap ValuePart.render := by
  fun_induction partPieces index parts with
  | case1 => rfl
  | case2 index text parts ih => simp [ih, ValuePart.render]
  | case3 index braces parts ih => simp [ih, ValuePart.render]

theorem regionsOf_partPieces (index : Nat) :
    regionsOf (partPieces index parts) = parts.filterMap ValuePart.region? := by
  fun_induction partPieces index parts with
  | case1 => rfl
  | case2 index text parts ih =>
    rw [regionsOf_append, regionsOf_map_plain, ih]
    rfl
  | case3 index braces parts ih => simp [ih, ValuePart.region?]

theorem isPlainChar_of_mem_partPieces (h : ∀ part ∈ parts, part.WellFormed) {index : Nat}
    {c : Char} (hm : .plain c ∈ partPieces index parts) : ValuePart.isPlainChar c = true := by
  fun_induction partPieces index parts with
  | case1 => cases hm
  | case2 index text parts ih =>
    rcases List.mem_append.mp hm with ht | hp
    · obtain ⟨c', hc, he⟩ := List.mem_map.mp ht
      cases he
      exact h (.plain text) List.mem_cons_self c hc
    · exact ih (fun part hp => h part (List.mem_cons_of_mem _ hp)) hp
  | case3 index braces parts ih =>
    rcases List.mem_cons.mp hm with he | hp
    · cases he
    · exact ih (fun part hp => h part (List.mem_cons_of_mem _ hp)) hp

theorem head?_parts_ne (h : ∀ part ∈ parts, part.WellFormed) {after : List Char}
    (ha : after.head? ≠ some '{') :
    (parts.flatMap ValuePart.render ++ after).head? ≠ some '{' := by
  induction parts with
  | nil => exact ha
  | cons part parts ih =>
    have hi := ih fun part hp => h part (List.mem_cons_of_mem _ hp)
    rw [List.flatMap_cons, List.append_assoc]
    cases part with
    | interpolation braces => simp [ValuePart.render]
    | plain text =>
      cases text with
      | nil => exact hi
      | cons c text =>
        have hc : ValuePart.isPlainChar c = true :=
          h (.plain (c :: text)) List.mem_cons_self c List.mem_cons_self
        intro he
        have hb : c = '{' := by simpa [ValuePart.render] using he
        rw [hb] at hc
        exact absurd hc (by decide)

theorem hasPart_parts (h : ∀ part ∈ parts, part.WellFormed) :
    Text.hasPart ['$', '{'] (parts.flatMap ValuePart.render) =
      !(parts.filterMap ValuePart.region?).isEmpty := by
  induction parts with
  | nil => rfl
  | cons part parts ih =>
    have hp : ∀ part ∈ parts, part.WellFormed := fun part hp => h part (List.mem_cons_of_mem _ hp)
    have hw := h part List.mem_cons_self
    have hh := head?_parts_ne hp (by simp : ([] : List Char).head? ≠ some '{')
    rw [List.append_nil] at hh
    rw [List.flatMap_cons, Text.hasPart_pair_append hh, ih hp]
    cases part with
    | plain text =>
      have hb : '{' ∉ text := fun hm => absurd (hw '{' hm) (by decide)
      rw [ValuePart.render, Text.hasPart_pair_of_not_mem_right hb, Bool.false_or]
      rfl
    | interpolation braces =>
      obtain ⟨read, rfl⟩ := Scan.takeBraces?_eq_cons hw
      rw [ValuePart.render, Text.hasPart_pair_cons]
      simp [ValuePart.region?]

theorem pieces_parts_append (h : ∀ part ∈ parts, part.WellFormed) {after : List Char}
    (ha : after.head? ≠ some '{') (index : Nat) :
    pieces index (parts.flatMap ValuePart.render ++ after) = partPieces index parts ++
      pieces (index + (parts.filterMap ValuePart.region?).length) after := by
  induction parts generalizing index with
  | nil => rfl
  | cons part parts ih =>
    have hp : ∀ part ∈ parts, part.WellFormed := fun part hp => h part (List.mem_cons_of_mem _ hp)
    have hw := h part List.mem_cons_self
    rw [List.flatMap_cons, List.append_assoc]
    cases part with
    | plain text =>
      have hb : '{' ∉ text := fun hm => absurd (hw '{' hm) (by decide)
      rw [ValuePart.render, pieces_plain_append hb (head?_parts_ne hp ha), ih hp, partPieces,
        List.append_assoc]
      rfl
    | interpolation braces =>
      rw [ValuePart.render, pieces_interpolation_append hw, ih hp, partPieces, List.cons_append,
        List.filterMap_cons, ValuePart.region?, List.length_cons, Nat.add_right_comm, Nat.add_assoc]

end

namespace Declaration

/-- The pieces of a declaration up to its semicolon. -/
def pieces (index : Nat) (d : Declaration) : List Piece :=
  (d.name ++ [':', ' ']).map .plain ++ partPieces index d.parts

end Declaration

/-- The pieces of each of some declarations. -/
def linePieces (index : Nat) : List Declaration → List (List Piece)
  | [] => []
  | d :: ds => d.pieces index :: linePieces (index + d.regions.length) ds

theorem head?_bodyText_ne {declarations : List Declaration}
    (h : ∀ d ∈ declarations, d.WellFormed) : (bodyText declarations).head? ≠ some '{' := by
  cases declarations with
  | nil => simp [bodyText]
  | cons d ds =>
    have hw := h d List.mem_cons_self
    obtain ⟨c, name, hn⟩ := List.exists_cons_of_ne_nil hw.name_ne_nil
    have hc := hw.name_chars c (by simp [hn])
    simpa [bodyText, Declaration.render, hn] using isNameChar_ne hc '{' (by decide)

theorem pieces_bodyText {declarations : List Declaration}
    (h : ∀ d ∈ declarations, d.WellFormed) (index : Nat) :
    pieces index (bodyText declarations) =
      (linePieces index declarations).flatMap fun line => line ++ [.plain ';', .plain '\n'] := by
  induction declarations generalizing index with
  | nil => simp [bodyText, pieces, linePieces]
  | cons d ds ih =>
    have hw := h d List.mem_cons_self
    have hds : ∀ d ∈ ds, d.WellFormed := fun d hd => h d (List.mem_cons_of_mem _ hd)
    have hn : '{' ∉ d.name ++ [':', ' '] := by
      intro hm
      rcases List.mem_append.mp hm with hm | hm
      · exact isNameChar_ne (hw.name_chars '{' hm) '{' (by decide) rfl
      · simp at hm
    have ht : bodyText (d :: ds) = (d.name ++ [':', ' ']) ++
        (d.parts.flatMap ValuePart.render ++ ([';', '\n'] ++ bodyText ds)) := by
      simp [bodyText, Declaration.render, Declaration.value]
    rw [ht, pieces_plain_append hn (head?_parts_ne hw.parts (by simp)),
      pieces_parts_append hw.parts (by simp),
      pieces_plain_append (by simp) (head?_bodyText_ne hds), ih hds]
    simp [linePieces, Declaration.pieces, Declaration.regions]

theorem dropComments_of_hasPart_eq_false {cs : List Char}
    (h : Text.hasPart ['/', '*'] cs = false) : dropComments cs = cs := by
  have hs : ∀ before, Scan.substitute comment? (fun _ => Except.ok (ε := Empty) []) before cs =
      .ok cs := by
    induction cs with
    | nil => intro before; simp [Scan.substitute]
    | cons c cs ih =>
      intro before
      rw [Text.hasPart_pair_cons, Bool.or_eq_false_iff] at h
      have hn : comment? before (c :: cs) = none := by
        unfold comment?
        split
        next he =>
          cases he
          simp at h
        next => rfl
      rw [Scan.substitute, hn]
      simp only [ih h.2]
      rfl
  rw [dropComments, hs none]

theorem declaration?_line {name value : List Char} (hn : name ≠ [])
    (hc : ∀ c ∈ name, isNameChar c = true) (hv : value ≠ []) (ht : Text.IsTrimmed value) :
    declaration? (name ++ ':' :: ' ' :: value) = some (name, value) := by
  have hh : ∀ c ∈ (':' :: ' ' :: value).head?, isNameChar c = false := by
    intro c hc
    cases hc
    decide
  have hb : Text.skipBlanks (':' :: ' ' :: value) = ':' :: ' ' :: value := by
    simp [Text.skipBlanks, List.dropWhile_cons_of_neg (by decide : ¬Text.isBlank ':' = true)]
  have hs : Text.skipBlanks (' ' :: value) = value := by
    rw [Text.skipBlanks, List.dropWhile_cons_of_pos (by decide), Text.dropWhile_of_head ht.1]
  rw [declaration?, Text.takeWhile_append_of_head hc hh, Text.dropWhile_append_of_head hc hh, hb]
  simp only [hs]
  simp [hn, hv]

section

variable {regions : List (List Char)} {d : Declaration} {index : Nat}

theorem isTrimmed_value (hw : d.WellFormed) :
    Text.IsTrimmed (maskedOf (partPieces index d.parts)) := by
  apply isTrimmed_maskedOf
  rw [textOf_partPieces]
  exact Text.trim_eq_self_iff.mp hw.value_trimmed

theorem styleOf_partPieces (hw : d.WellFormed) (hn : .plain '\x00' ∉ partPieces index d.parts)
    (hr : RestoredBy regions (partPieces index d.parts)) :
    styleOf regions d.mentions.eraseDups d.name (maskedOf (partPieces index d.parts)) =
      .ok d.style := by
  have hp : Text.hasPart ['$', '{'] (d.parts.flatMap ValuePart.render) = !d.regions.isEmpty :=
    hasPart_parts hw.parts
  rw [styleOf, Text.trim_of_isTrimmed (isTrimmed_value hw), unmask_maskedOf hn hr,
    textOf_partPieces]
  simp only [bind, Except.bind, pure, Except.pure, hp]
  cases hs : d.regions.isEmpty <;> simp [Declaration.style, Declaration.value, hs]

theorem maskedOf_pieces : maskedOf (d.pieces index) =
    d.name ++ ':' :: ' ' :: maskedOf (partPieces index d.parts) := by
  simp [Declaration.pieces]

theorem trim_maskedOf_pieces (hw : d.WellFormed) :
    Text.trim (maskedOf (d.pieces index)) = maskedOf (d.pieces index) := by
  refine Text.trim_of_isTrimmed (isTrimmed_maskedOf ?_)
  have ht : textOf (d.pieces index) = d.name ++ [':', ' '] ++ d.value := by
    simp only [Declaration.pieces, textOf_append, textOf_map_plain, textOf_partPieces]
    rfl
  rw [ht]
  constructor
  · obtain ⟨c, name, hn⟩ := List.exists_cons_of_ne_nil hw.name_ne_nil
    have hc := hw.name_chars c (by simp [hn])
    simpa [hn] using isBlank_of_isNameChar hc
  · rw [List.getLast?_append_of_ne_nil _ hw.value_ne_nil]
    exact (Text.trim_eq_self_iff.mp hw.value_trimmed).2

theorem isRead_pieces (hw : d.WellFormed) : isRead (maskedOf (d.pieces index)) = true := by
  obtain ⟨c, name, hn⟩ := List.exists_cons_of_ne_nil hw.name_ne_nil
  have hc := isNameChar_ne (hw.name_chars c (by simp [hn])) '/' (by decide)
  simp [isRead, maskedOf_pieces, hn, List.isPrefixOf, Ne.symm hc]

theorem readSegment_pieces (hw : d.WellFormed) (hn : .plain '\x00' ∉ d.pieces index)
    (hr : RestoredBy regions (d.pieces index)) :
    readSegment regions (maskedOf (d.pieces index)) = .ok (some d.style, d.mentions.eraseDups) := by
  have hsub : partPieces index d.parts ⊆ d.pieces index := List.subset_append_right _ _
  have hv : maskedOf (partPieces index d.parts) ≠ [] := by
    intro he
    have hp := textOf_eq_nil_of_maskedOf he
    rw [textOf_partPieces] at hp
    exact hw.value_ne_nil hp
  have hdep : maskedDependencies regions (maskedOf (d.pieces index)) =
      .ok d.mentions.eraseDups := by
    rw [maskedDependencies_maskedOf hn hr]
    simp [Declaration.pieces, regionsOf_partPieces, Declaration.mentions, Declaration.regions]
  have hdecl : declaration? (maskedOf (d.pieces index)) =
      some (d.name, maskedOf (partPieces index d.parts)) := by
    rw [maskedOf_pieces]
    exact declaration?_line hw.name_ne_nil hw.name_chars hv (isTrimmed_value hw)
  have hs := styleOf_partPieces hw (fun h => hn (hsub h)) (hr.of_subset hsub)
  have ht : Text.trim (maskedOf (d.pieces index)) = maskedOf (d.pieces index) :=
    trim_maskedOf_pieces hw
  rw [readSegment_of_isRead (by rw [ht]; exact isRead_pieces hw), ht, hdep]
  simp only [Except.bind, hdecl, hs]
  rfl

theorem isPlainChar_of_mem_pieces (hw : d.WellFormed) {c : Char} (hm : .plain c ∈ d.pieces index) :
    ValuePart.isPlainChar c = true := by
  rcases List.mem_append.mp hm with hm | hm
  · obtain ⟨c', hc, he⟩ := List.mem_map.mp hm
    cases he
    rcases List.mem_append.mp hc with hc | hc
    · have hn := isNameChar_ne (hw.name_chars c hc)
      simp [ValuePart.isPlainChar, hn ';' (by decide), hn '\n' (by decide), hn '{' (by decide),
        hn '}' (by decide)]
    · exact List.all_eq_true.mp (by decide : [':', ' '].all ValuePart.isPlainChar = true) c hc
  · exact isPlainChar_of_mem_partPieces hw.parts hm

end

section

variable {declarations : List Declaration}

theorem mem_linePieces {index : Nat} {line : List Piece}
    (h : line ∈ linePieces index declarations) : ∃ d ∈ declarations, ∃ n, line = d.pieces n := by
  induction declarations generalizing index with
  | nil => cases h
  | cons d ds ih =>
    rcases List.mem_cons.mp h with rfl | hm
    · exact ⟨d, List.mem_cons_self, index, rfl⟩
    · obtain ⟨d', hd, n, hl⟩ := ih hm
      exact ⟨d', List.mem_cons_of_mem _ hd, n, hl⟩

theorem isPlainChar_of_mem_line (h : ∀ d ∈ declarations, d.WellFormed) {index : Nat}
    {line : List Piece} (hl : line ∈ linePieces index declarations) {c : Char}
    (hc : .plain c ∈ line) : ValuePart.isPlainChar c = true := by
  obtain ⟨d, hd, n, rfl⟩ := mem_linePieces hl
  exact isPlainChar_of_mem_pieces (h d hd) hc

theorem pieceFields_lines {lines : List (List Piece)}
    (h : ∀ line ∈ lines, ∀ piece ∈ line, piece.holds isSegmentEnd = false) :
    pieceFields isSegmentEnd (lines.flatMap fun line => line ++ [.plain ';', .plain '\n']) =
      (lines.flatMap fun line => [line, []]) ++ [[]] := by
  induction lines with
  | nil => rfl
  | cons line lines ih =>
    have hi := ih fun line hm => h line (List.mem_cons_of_mem _ hm)
    have hl := h line List.mem_cons_self
    have he : ∀ ps, pieceFields isSegmentEnd (.plain '\n' :: ps) =
        [] :: pieceFields isSegmentEnd ps := fun ps => rfl
    rw [List.flatMap_cons, List.append_assoc, List.cons_append,
      pieceFields_append_cons hl (by decide)]
    rw [List.cons_append, List.nil_append, he, hi]
    rfl

theorem segments_bodyText (h : ∀ d ∈ declarations, d.WellFormed) :
    segments (bodyText declarations) =
      ((linePieces 0 declarations).flatMap fun line => [line, []]) ++ [[]] := by
  have hb : ∀ c : Char, ValuePart.isPlainChar c = false → c ≠ ';' → c ≠ '\n' →
      .plain c ∉ pieces 0 (bodyText declarations) := by
    intro c hc hs hn hm
    rw [pieces_bodyText h] at hm
    obtain ⟨line, hl, hm⟩ := List.mem_flatMap.mp hm
    rcases List.mem_append.mp hm with hm | hm
    · rw [isPlainChar_of_mem_line h hl hm] at hc
      cases hc
    · simp [hs, hn] at hm
  rw [segments, outermostPieces_of_not_mem (hb '{' (by decide) (by decide) (by decide))
    (hb '}' (by decide) (by decide) (by decide)), pieces_bodyText h]
  refine pieceFields_lines fun line hl piece hp => ?_
  cases piece with
  | hole index region => rfl
  | plain c =>
    have hc := isPlainChar_of_mem_line h hl hp
    simp only [ValuePart.isPlainChar, Bool.and_eq_true, bne_iff_ne] at hc
    simp [Piece.holds, isSegmentEnd, hc.1.1.1, hc.1.1.2]

theorem interpolations_bodyText (h : ∀ d ∈ declarations, d.WellFormed) :
    Scan.interpolations (bodyText declarations) = declarations.flatMap Declaration.regions := by
  rw [← regionsOf_pieces 0, pieces_bodyText h]
  clear h
  generalize 0 = index
  induction declarations generalizing index with
  | nil => rfl
  | cons d ds ih =>
    simp [linePieces, ih, Declaration.pieces, regionsOf_partPieces, Declaration.regions]

/-- What is read of a declaration and of the empty segment up to the end of its line. -/
def Declaration.found (d : Declaration) : List (Option StyleProperty × List String) :=
  [(some d.style, d.mentions.eraseDups), (none, [])]

theorem filterMap_found : (declarations.flatMap Declaration.found).filterMap (·.1) =
    declarations.map Declaration.style := by
  induction declarations with
  | nil => rfl
  | cons d ds ih => simpa [Declaration.found] using ih

theorem flatMap_found : (declarations.flatMap Declaration.found).flatMap (·.2) =
    declarations.flatMap fun d => d.mentions.eraseDups := by
  induction declarations with
  | nil => rfl
  | cons d ds ih => simpa [Declaration.found] using ih

theorem mapM_readSegment_lines {regions : List (List Char)}
    (h : ∀ d ∈ declarations, d.WellFormed) {index : Nat}
    (hn : ∀ line ∈ linePieces index declarations, .plain '\x00' ∉ line)
    (hr : ∀ line ∈ linePieces index declarations, RestoredBy regions line) :
    ((((linePieces index declarations).flatMap fun line => [line, []]) ++ [[]]).map
      maskedOf).mapM (readSegment regions) =
      .ok (declarations.flatMap Declaration.found ++ [(none, [])]) := by
  have he : readSegment regions (maskedOf []) = .ok (none, []) :=
    readSegment_of_not_isRead (by decide)
  induction declarations generalizing index with
  | nil =>
    rw [linePieces, List.flatMap_nil, List.nil_append, List.map_cons, List.mapM_cons, he]
    rfl
  | cons d ds ih =>
    have hi := ih (fun d hd => h d (List.mem_cons_of_mem _ hd))
      (fun line hl => hn line (List.mem_cons_of_mem _ hl))
      (fun line hl => hr line (List.mem_cons_of_mem _ hl))
    have hd := readSegment_pieces (h d List.mem_cons_self) (hn _ List.mem_cons_self)
      (hr _ List.mem_cons_self)
    simp only [linePieces, List.flatMap_cons, List.cons_append, List.nil_append, List.map_cons,
      List.mapM_cons]
    rw [hd, he, hi]
    rfl

/-- A template of declarations reads back as written: one style for each declaration, with its own
text and what its own interpolations depend on. The names over all interpolations are kept once
each. Interpolations are found again by their numbers, which have up to 4300 digits. -/
theorem parseBody_bodyText (h : ∀ d ∈ declarations, d.WellFormed)
    (hn : '\x00' ∉ bodyText declarations)
    (hc : Text.hasPart ['/', '*'] (bodyText declarations) = false)
    (hl : ∀ index < (declarations.flatMap Declaration.regions).length,
      (Nat.toDigits 10 index).length ≤ 4300) :
    parseBody (bodyText declarations) =
      .ok (declarations.map Declaration.style,
        (declarations.flatMap Declaration.mentions).eraseDups) := by
  have hsub : ∀ line ∈ linePieces 0 declarations, line ⊆ pieces 0 (bodyText declarations) := by
    intro line hm piece hp
    rw [pieces_bodyText h]
    exact List.mem_flatMap.mpr ⟨line, hm, List.mem_append_left _ hp⟩
  have hr : RestoredBy (declarations.flatMap Declaration.regions)
      (pieces 0 (bodyText declarations)) := by
    rw [← interpolations_bodyText h] at hl ⊢
    exact restoredBy_of_length_le (numberedIn_pieces _) hl
  have hm := mapM_readSegment_lines h
    (fun line hm hp => hn (mem_of_plain_mem_pieces (hsub line hm hp)))
    (fun line hm => hr.of_subset (hsub line hm))
  have hd : (declarations.flatMap fun d => d.mentions.eraseDups).eraseDups =
      (declarations.flatMap Declaration.mentions).eraseDups :=
    eraseDups_flatMap_congr fun d _ => eraseDups_eraseDups d.mentions
  rw [parseBody_eq, dropComments_of_hasPart_eq_false hc, interpolations_bodyText h,
    segments_bodyText h, hm, Except.map, List.filterMap_append, List.flatMap_append,
    filterMap_found, flatMap_found]
  simp [hd]

end

/-- Declarations with an interpolation that holds the marks of a declaration, and one that stands
twice, alone and in another one. -/
def noisyDeclarations : List Declaration :=
  [⟨"color".toList, [.interpolation "\x7bp => p.on ? `a;\n$\x7bsize\x7d` : '\x7d;'\x7d".toList]⟩,
    ⟨"margin-top".toList,
      [.plain "1px $".toList, .interpolation "\x7bsize\x7d".toList, .plain " // ".toList,
        .interpolation "\x7bsize\x7d".toList]⟩,
    ⟨"flex".toList, [.plain "1".toList]⟩]

theorem parseBody_noisyDeclarations :
    parseBody (bodyText noisyDeclarations) =
      .ok (noisyDeclarations.map Declaration.style,
        (noisyDeclarations.flatMap Declaration.mentions).eraseDups) := by
  have hw : noisyDeclarations.all (fun d => decide d.WellFormed) = true := by decide +kernel
  have hl : (noisyDeclarations.flatMap Declaration.regions).length = 3 := by decide +kernel
  exact parseBody_bodyText (fun d hd => of_decide_eq_true (List.all_eq_true.mp hw d hd))
    (by decide +kernel) (by decide +kernel) (by rw [hl]; decide +kernel)

end Restyle.TemplatePattern
