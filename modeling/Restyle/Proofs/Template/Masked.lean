import Restyle.Proofs.Expression.Literal
import Restyle.Proofs.Scan.Split
import Restyle.Proofs.Template.Piece
import Restyle.Proofs.Text.Trim

namespace Restyle.TemplatePattern

/-- Whether a piece is a character that satisfies `p`. -/
def Piece.holds (p : Char → Bool) : Piece → Bool
  | .plain c => p c
  | .hole _ _ => false

theorem placeholder_eq (index : Nat) :
    placeholder index = '\x00' :: (Nat.toDigits 10 index ++ ['\x00']) := rfl

section

variable {p : Char → Bool}

theorem takeWhile_maskedOf (hp : p '\x00' = false) (ps : List Piece) :
    (maskedOf ps).takeWhile p = maskedOf (ps.takeWhile (Piece.holds p)) := by
  induction ps with
  | nil => rfl
  | cons piece ps ih =>
    cases piece with
    | plain c => cases hc : p c <;> simp [Piece.holds, hc, ih]
    | hole index region => simp [Piece.holds, placeholder_eq, hp]

theorem dropWhile_maskedOf (hp : p '\x00' = false) (ps : List Piece) :
    (maskedOf ps).dropWhile p = maskedOf (ps.dropWhile (Piece.holds p)) := by
  induction ps with
  | nil => rfl
  | cons piece ps ih =>
    cases piece with
    | plain c => cases hc : p c <;> simp [Piece.holds, hc, ih]
    | hole index region => simp [Piece.holds, placeholder_eq, hp]

theorem dropTrailing_maskedOf (hp : p '\x00' = false) (ps : List Piece) :
    Text.dropTrailing p (maskedOf ps) =
      maskedOf (ps.reverse.dropWhile (Piece.holds p)).reverse := by
  rw [← List.reverse_reverse ps]
  induction ps.reverse with
  | nil => rfl
  | cons piece rs ih =>
    rw [List.reverse_cons, maskedOf_append, List.reverse_append]
    simp only [List.reverse_reverse] at ih ⊢
    cases piece with
    | plain c =>
      cases hc : p c with
      | true =>
        rw [maskedOf_plain, maskedOf_nil, Text.dropTrailing_append_of_all (by simpa using hc)]
        simpa [Piece.holds, hc] using ih
      | false =>
        rw [Text.dropTrailing_of_getLast (by simpa using hc)]
        simp [Piece.holds, hc]
    | hole index region =>
      have hl := getLast?_append_placeholder (maskedOf rs.reverse) index
      rw [maskedOf_hole, maskedOf_nil, List.append_nil,
        Text.dropTrailing_of_getLast (by rw [hl]; simpa using hp)]
      simp [Piece.holds]

end

/-- Pieces without the blanks at their ends. -/
def trimPieces (ps : List Piece) : List Piece :=
  ((ps.dropWhile (Piece.holds Text.isBlank)).reverse.dropWhile (Piece.holds Text.isBlank)).reverse

theorem mem_of_mem_trimPieces {piece : Piece} {ps : List Piece} (h : piece ∈ trimPieces ps) :
    piece ∈ ps := by
  have hr := (List.dropWhile_suffix _).subset (List.mem_reverse.mp h)
  exact (List.dropWhile_suffix _).subset (List.mem_reverse.mp hr)

theorem trim_maskedOf (ps : List Piece) : Text.trim (maskedOf ps) = maskedOf (trimPieces ps) := by
  have hb : Text.isBlank '\x00' = false := by decide
  rw [Text.trim, Text.trimBy, dropWhile_maskedOf hb, dropTrailing_maskedOf hb]
  rfl

/-- An interpolation is no blank, so masking does not bring one to the ends. -/
theorem isTrimmed_maskedOf {ps : List Piece} (h : Text.IsTrimmed (textOf ps)) :
    Text.IsTrimmed (maskedOf ps) := by
  have hb : Text.isBlank '\x00' = false := by decide
  constructor
  · intro c hc
    cases ps with
    | nil => cases hc
    | cons piece ps =>
      cases piece with
      | plain c' => exact h.1 c hc
      | hole index region =>
        cases hc
        exact hb
  · intro c hc
    rcases List.eq_nil_or_concat ps with rfl | ⟨qs, piece, rfl⟩
    · cases hc
    · cases piece with
      | plain c' =>
        have ht := h.2 c
        simp only [List.concat_eq_append, maskedOf_append, maskedOf_plain, maskedOf_nil,
          textOf_append, textOf_plain, textOf_nil, List.getLast?_concat] at hc ht
        exact ht hc
      | hole index region =>
        rw [List.concat_eq_append, maskedOf_append, maskedOf_hole, maskedOf_nil, List.append_nil,
          getLast?_append_placeholder] at hc
        cases hc
        exact hb

/-- Pieces without the blocks in braces; a semicolon stands for the end of each. -/
def outermostPieces (depth : Nat) : List Piece → List Piece
  | [] => []
  | .plain '{' :: ps => outermostPieces (depth + 1) ps
  | .plain '}' :: ps => .plain ';' :: outermostPieces (depth - 1) ps
  | piece :: ps =>
    if depth == 0 then piece :: outermostPieces depth ps else outermostPieces depth ps

theorem outermost_append_of_not_mem {cs : List Char} (ho : '{' ∉ cs) (hc : '}' ∉ cs) (depth : Nat)
    (ds : List Char) : outermost depth (cs ++ ds) =
      if depth == 0 then cs ++ outermost depth ds else outermost depth ds := by
  induction cs with
  | nil => simp
  | cons c cs ih =>
    simp only [List.mem_cons, not_or] at ho hc
    rw [List.cons_append, outermost, ih ho.2 hc.2]
    · split <;> rfl
    · exact fun h => ho.1 h.symm
    · exact fun h => hc.1 h.symm

theorem not_mem_placeholder {c : Char} (hn : c ≠ '\x00') (hd : c.isDigit = false) (index : Nat) :
    c ∉ placeholder index := by
  intro hm
  rcases mem_placeholder hm with h | h
  · exact hn h
  · rw [hd] at h
    cases h

theorem outermost_maskedOf (depth : Nat) (ps : List Piece) :
    outermost depth (maskedOf ps) = maskedOf (outermostPieces depth ps) := by
  have hp := fun index => outermost_append_of_not_mem
    (not_mem_placeholder (by decide) (by decide) index)
    (not_mem_placeholder (by decide) (by decide) index)
  induction ps generalizing depth with
  | nil => rfl
  | cons piece ps ih =>
    cases piece with
    | hole index region =>
      rw [maskedOf_hole, hp, outermostPieces, ih]
      · split <;> rfl
      · exact nofun
      · exact nofun
    | plain c =>
      rw [maskedOf_plain]
      by_cases ho : c = '{'
      · subst ho
        simpa [outermost, outermostPieces] using ih (depth + 1)
      by_cases hc : c = '}'
      · subst hc
        simpa [outermost, outermostPieces] using ih (depth - 1)
      rw [outermost, outermostPieces, ih]
      · split <;> rfl
      all_goals simp_all

theorem outermostPieces_of_not_mem {ps : List Piece} (ho : .plain '{' ∉ ps) (hc : .plain '}' ∉ ps) :
    outermostPieces 0 ps = ps := by
  induction ps with
  | nil => rfl
  | cons piece ps ih =>
    simp only [List.mem_cons, not_or] at ho hc
    rw [outermostPieces, ih ho.2 hc.2]
    · rfl
    · exact fun h => ho.1 h.symm
    · exact fun h => hc.1 h.symm

theorem mem_outermostPieces {piece : Piece} {depth : Nat} {ps : List Piece}
    (h : piece ∈ outermostPieces depth ps) :
    piece = .plain ';' ∨ piece ∈ ps ∧ piece ≠ .plain '{' := by
  fun_induction outermostPieces depth ps with
  | case1 => cases h
  | case2 depth ps ih => exact (ih h).imp_right fun h => ⟨List.mem_cons_of_mem _ h.1, h.2⟩
  | case3 depth ps ih =>
    rcases List.mem_cons.mp h with he | hm
    · exact Or.inl he
    · exact (ih hm).imp_right fun h => ⟨List.mem_cons_of_mem _ h.1, h.2⟩
  | case4 depth first ps ho hc hd ih =>
    rcases List.mem_cons.mp h with rfl | hm
    · exact Or.inr ⟨List.mem_cons_self, fun he => ho he⟩
    · exact (ih hm).imp_right fun h => ⟨List.mem_cons_of_mem _ h.1, h.2⟩
  | case5 depth first ps ho hc hd ih =>
    exact (ih h).imp_right fun h => ⟨List.mem_cons_of_mem _ h.1, h.2⟩

/-- The runs of pieces between the characters that satisfy `p`. -/
def pieceFields (p : Char → Bool) : List Piece → List (List Piece)
  | [] => [[]]
  | piece :: ps =>
    if piece.holds p then [] :: pieceFields p ps
    else
      match pieceFields p ps with
      | [] => [[piece]]
      | f :: fs => (piece :: f) :: fs

theorem mem_of_mem_pieceFields {p : Char → Bool} {piece : Piece} {ps run : List Piece}
    (hr : run ∈ pieceFields p ps) (h : piece ∈ run) : piece ∈ ps := by
  induction ps generalizing run with
  | nil =>
    rw [List.mem_singleton.mp hr] at h
    cases h
  | cons first ps ih =>
    rw [pieceFields] at hr
    split at hr
    next =>
      rcases List.mem_cons.mp hr with rfl | hm
      · cases h
      · exact List.mem_cons_of_mem _ (ih hm h)
    next =>
      split at hr
      next =>
        rw [List.mem_singleton.mp hr] at h
        rw [List.mem_singleton.mp h]
        exact List.mem_cons_self
      next f fs he =>
        rw [he] at ih
        rcases List.mem_cons.mp hr with rfl | hm
        · rcases List.mem_cons.mp h with rfl | h
          · exact List.mem_cons_self
          · exact List.mem_cons_of_mem _ (ih List.mem_cons_self h)
        · exact List.mem_cons_of_mem _ (ih (List.mem_cons_of_mem _ hm) h)

theorem pieceFields_append_cons {p : Char → Bool} {line : List Piece} {c : Char}
    (hl : ∀ piece ∈ line, piece.holds p = false) (hc : p c = true) (ps : List Piece) :
    pieceFields p (line ++ .plain c :: ps) = line :: pieceFields p ps := by
  induction line with
  | nil => simp [pieceFields, Piece.holds, hc]
  | cons piece line ih =>
    have hi := ih fun piece hm => hl piece (List.mem_cons_of_mem _ hm)
    rw [List.cons_append, pieceFields, hi, if_neg (by simp [hl piece List.mem_cons_self])]

theorem fields_cons_of_neg {p : Char → Bool} {c : Char} (h : p c = false) (cs : List Char) :
    Text.fields p (c :: cs) = Scan.extendFirst [c] (Text.fields p cs) := by
  rw [Text.fields, if_neg (by simp [h])]
  rfl

theorem fields_append_of_neg {p : Char → Bool} {cs : List Char} (h : ∀ c ∈ cs, p c = false)
    (hne : cs ≠ []) (ds : List Char) :
    Text.fields p (cs ++ ds) = Scan.extendFirst cs (Text.fields p ds) := by
  induction cs with
  | nil => exact absurd rfl hne
  | cons c cs ih =>
    rw [List.cons_append, fields_cons_of_neg (h c List.mem_cons_self)]
    by_cases hn : cs = []
    · rw [hn, List.nil_append]
    · rw [ih (fun d hd => h d (List.mem_cons_of_mem c hd)) hn, Scan.extendFirst_append]
      rfl

theorem fields_maskedOf {p : Char → Bool} (hn : p '\x00' = false)
    (hd : ∀ c : Char, c.isDigit = true → p c = false) (ps : List Piece) :
    Text.fields p (maskedOf ps) = (pieceFields p ps).map maskedOf := by
  have hp : ∀ index, ∀ c ∈ placeholder index, p c = false := by
    intro index c hc
    rcases mem_placeholder hc with rfl | h
    · exact hn
    · exact hd c h
  induction ps with
  | nil => rfl
  | cons piece ps ih =>
    cases piece with
    | plain c =>
      cases hc : p c with
      | true => simp [pieceFields, Text.fields, Piece.holds, hc, ih]
      | false =>
        rw [maskedOf_plain, fields_cons_of_neg hc, ih, pieceFields,
          if_neg (by simp [Piece.holds, hc])]
        cases pieceFields p ps <;> rfl
    | hole index region =>
      rw [maskedOf_hole, fields_append_of_neg (hp index) (by simp [placeholder]), ih, pieceFields,
        if_neg (by simp [Piece.holds])]
      cases pieceFields p ps <;> simp [Scan.extendFirst]

theorem isNameChar_ne {c : Char} (h : isNameChar c = true) (d : Char)
    (hd : isNameChar d = false) : c ≠ d := by
  intro he
  rw [he, hd] at h
  cases h

theorem isBlank_of_isNameChar {c : Char} (h : isNameChar c = true) : Text.isBlank c = false := by
  rcases Bool.or_eq_true_iff.mp h with ha | hh
  · exact Text.isBlank_of_isAlpha ha
  · rw [eq_of_beq hh]
    decide

def isSegmentEnd (c : Char) : Bool := c == ';' || c == '\n'

/-- The segments of a template's text outside of its blocks. -/
def segments (cs : List Char) : List (List Piece) :=
  pieceFields isSegmentEnd (outermostPieces 0 (pieces 0 cs))

theorem parseBody_eq (body : List Char) : parseBody body =
    (((segments (dropComments body)).map maskedOf).mapM
      (readSegment (Scan.interpolations (dropComments body)))).map fun found =>
        (found.filterMap (·.1), (found.flatMap (·.2)).eraseDups) := by
  have hd : ∀ c : Char, c.isDigit = true → isSegmentEnd c = false := by
    intro c hc
    have hs : c ≠ ';' := by rintro rfl; exact absurd hc (by decide)
    have hn : c ≠ '\n' := by rintro rfl; exact absurd hc (by decide)
    simp [isSegmentEnd, hs, hn]
  have hf := fields_maskedOf (by decide : isSegmentEnd '\x00' = false) hd
    (outermostPieces 0 (pieces 0 (dropComments body)))
  rw [parseBody, mask_eq]
  simp only [outermost_maskedOf]
  rw [segments, ← hf]
  rfl

/-- Whether a segment is read: it is not empty, and no comment up to the end of its line. -/
def isRead (segment : List Char) : Bool := !(segment.isEmpty || ['/', '/'].isPrefixOf segment)

section

variable {regions : List (List Char)} {segment : List Char}

theorem readSegment_of_not_isRead (h : isRead (Text.trim segment) = false) :
    readSegment regions segment = .ok (none, []) := by
  rw [isRead, Bool.not_eq_false'] at h
  rw [readSegment]
  simp only [h, if_true]
  rfl

theorem readSegment_of_isRead (h : isRead (Text.trim segment) = true) :
    readSegment regions segment =
      (maskedDependencies regions (Text.trim segment)).bind fun dependencies =>
        match declaration? (Text.trim segment) with
        | none => .ok (none, dependencies)
        | some (name, value) =>
          (styleOf regions dependencies name value).map fun style =>
            (some style, dependencies) := by
  rw [isRead, Bool.not_eq_true'] at h
  rw [readSegment]
  simp only [h]
  rfl

end

end Restyle.TemplatePattern
