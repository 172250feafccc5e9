import Restyle.Pattern.Template
import Restyle.Proofs.Scan.Locality
import Restyle.Proofs.Text.Search

namespace Restyle.TemplatePattern

/-- A character, or an interpolation and its number. -/
inductive Piece where
  | plain (c : Char)
  | hole (index : Nat) (region : List Char)

namespace Piece

def text : Piece → List Char
  | .plain c => [c]
  | .hole _ region => region

def masked : Piece → List Char
  | .plain c => [c]
  | .hole index _ => placeholder index

def region? : Piece → Option (List Char)
  | .plain _ => none
  | .hole _ region => some region

end Piece

def textOf (ps : List Piece) : List Char := ps.flatMap Piece.text

def maskedOf (ps : List Piece) : List Char := ps.flatMap Piece.masked

def regionsOf (ps : List Piece) : List (List Char) := ps.filterMap Piece.region?

/-- The pieces of a template's text, with its interpolations numbered from `index` on. -/
def pieces (index : Nat) (cs : List Char) : List Piece :=
  match cs with
  | [] => []
  | c :: tail =>
    if c == '$' then
      match h : Scan.takeBraces? tail with
      | some (region, rest) =>
        have : rest.length < tail.length := Scan.takeRegion?_length_lt h
        .hole index ('$' :: region) :: pieces (index + 1) rest
      | none =>
        if tail.head? == some '{' then (c :: tail).map .plain else .plain c :: pieces index tail
    else .plain c :: pieces index tail
termination_by cs.length

section

variable (c : Char) (index : Nat) (region : List Char) (ps qs : List Piece)

@[simp] theorem textOf_nil : textOf [] = [] := rfl
@[simp] theorem textOf_plain : textOf (.plain c :: ps) = c :: textOf ps := rfl
@[simp] theorem textOf_hole : textOf (.hole index region :: ps) = region ++ textOf ps := rfl
@[simp] theorem textOf_append : textOf (ps ++ qs) = textOf ps ++ textOf qs :=
  List.flatMap_append

@[simp] theorem maskedOf_nil : maskedOf [] = [] := rfl
@[simp] theorem maskedOf_plain : maskedOf (.plain c :: ps) = c :: maskedOf ps := rfl
@[simp] theorem maskedOf_hole :
    maskedOf (.hole index region :: ps) = placeholder index ++ maskedOf ps := rfl
@[simp] theorem maskedOf_append : maskedOf (ps ++ qs) = maskedOf ps ++ maskedOf qs :=
  List.flatMap_append

@[simp] theorem regionsOf_nil : regionsOf [] = [] := rfl
@[simp] theorem regionsOf_plain : regionsOf (.plain c :: ps) = regionsOf ps := rfl
@[simp] theorem regionsOf_hole :
    regionsOf (.hole index region :: ps) = region :: regionsOf ps := rfl
@[simp] theorem regionsOf_append : regionsOf (ps ++ qs) = regionsOf ps ++ regionsOf qs :=
  List.filterMap_append

end

@[simp] theorem textOf_map_plain (cs : List Char) : textOf (cs.map .plain) = cs := by
  induction cs with
  | nil => rfl
  | cons c cs ih => simpa using ih

@[simp] theorem maskedOf_map_plain (cs : List Char) : maskedOf (cs.map .plain) = cs := by
  induction cs with
  | nil => rfl
  | cons c cs ih => simpa using ih

@[simp] theorem regionsOf_map_plain (cs : List Char) : regionsOf (cs.map .plain) = [] := by
  induction cs with
  | nil => rfl
  | cons c cs ih => simpa using ih

theorem textOf_pieces (index : Nat) (cs : List Char) : textOf (pieces index cs) = cs := by
  fun_induction pieces index cs with
  | case1 => rfl
  | case2 index c tail hc region rest ht _ ih =>
    have ha := Scan.takeRegion?_append ht
    rw [textOf_hole, ih, ha, eq_of_beq hc, List.cons_append]
  | case3 index c tail _ _ _ => exact textOf_map_plain _
  | case4 index c tail _ _ _ ih => simpa using ih
  | case5 index c tail _ ih => simpa using ih

theorem regionsOf_pieces (index : Nat) (cs : List Char) :
    regionsOf (pieces index cs) = Scan.interpolations cs := by
  fun_induction pieces index cs with
  | case1 => rw [Scan.interpolations.eq_def]; rfl
  | case2 index c tail hc region rest ht _ ih =>
    rw [eq_of_beq hc, Scan.interpolations_of_region ht, regionsOf_hole, ih]
  | case3 index c tail hc ht hb =>
    rw [eq_of_beq hc, Scan.interpolations_of_open ht (eq_of_beq hb), regionsOf_map_plain]
  | case4 index c tail hc ht hb ih =>
    rw [Scan.interpolations_of_head fun _ => by simpa using hb, regionsOf_plain, ih]
  | case5 index c tail hc ih =>
    rw [Scan.interpolations_of_head fun he => absurd he (by simpa using hc), regionsOf_plain, ih]

theorem exists_eq_of_mem_interpolations {cs region : List Char}
    (h : region ∈ Scan.interpolations cs) : ∃ read, region = '$' :: '{' :: read := by
  fun_induction Scan.interpolations cs with
  | case1 => cases h
  | case2 c tail _ region' rest ht _ ih =>
    rcases List.mem_cons.mp h with rfl | hm
    · obtain ⟨read, rfl⟩ := Scan.takeBraces?_eq_cons ht
      exact ⟨read, rfl⟩
    · exact ih hm
  | case3 => cases h
  | case4 c tail _ _ _ ih => exact ih h
  | case5 c tail _ ih => exact ih h

theorem mem_of_plain_mem_pieces {c : Char} {index : Nat} {cs : List Char}
    (h : .plain c ∈ pieces index cs) : c ∈ cs := by
  rw [← textOf_pieces index cs]
  exact List.mem_flatMap.mpr ⟨.plain c, h, List.mem_singleton.mpr rfl⟩

theorem mem_placeholder {c : Char} {index : Nat} (h : c ∈ placeholder index) :
    c = '\x00' ∨ c.isDigit = true := by
  simp only [placeholder, List.cons_append, List.mem_cons, List.mem_append, List.not_mem_nil,
    or_false] at h
  rcases h with h | h | h
  · exact Or.inl h
  · exact Or.inr (Nat.isDigit_of_mem_toDigits (by omega) (by omega) h)
  · exact Or.inl h

theorem getLast?_append_placeholder (front : List Char) (index : Nat) :
    (front ++ placeholder index).getLast? = some '\x00' := by
  rw [placeholder, ← List.append_assoc, List.getLast?_concat]

theorem hasPart_append_char {front : List Char} {c : Char}
    (h : Text.hasPart ['$', '{'] front = false) (hb : front.getLast? = some '$' → c ≠ '{') :
    Text.hasPart ['$', '{'] (front ++ [c]) = false := by
  rw [Text.hasPart_pair_append_of_border (by simpa using hb), h, Text.hasPart_pair_cons]
  simp [Text.hasPart_pair_nil]

/-- What is put in the place of an interpolation opens no interpolation. -/
theorem hasPart_append_placeholder {front : List Char} (index : Nat)
    (h : Text.hasPart ['$', '{'] front = false) :
    Text.hasPart ['$', '{'] (front ++ placeholder index) = false := by
  have hp : '$' ∉ placeholder index := by
    intro hm
    rcases mem_placeholder hm with h | h
    · exact absurd h (by decide)
    · exact absurd h (by decide)
  rw [Text.hasPart_pair_append (by simp [placeholder]), h, Text.hasPart_pair_of_not_mem hp]
  rfl

/-- The places are taken from the left, and what stands before the next interpolation opens none:
the first place where its text stands is its own. -/
theorem maskFrom_interpolations (index : Nat) (cs : List Char) {front : List Char}
    (h : Text.hasPart ['$', '{'] front = false)
    (hb : front.getLast? = some '$' → cs.head? ≠ some '{') :
    maskFrom index (Scan.interpolations cs) (front ++ cs) =
      front ++ maskedOf (pieces index cs) := by
  rw [← regionsOf_pieces index cs]
  fun_induction pieces index cs generalizing front with
  | case1 => rfl
  | case2 index c tail hc region rest ht _ ih =>
    obtain ⟨read, rfl⟩ := Scan.takeBraces?_eq_cons ht
    have ha : tail = '{' :: read ++ rest := Scan.takeRegion?_append ht
    have hcut := Text.cut?_of_hasPart_eq_false h (by decide) read rest
    have hr : Text.replaceFirst ('$' :: '{' :: read) (placeholder index) (front ++ c :: tail) =
        front ++ placeholder index ++ rest := by
      rw [ha, eq_of_beq hc]
      simp only [List.cons_append] at hcut ⊢
      simp [Text.replaceFirst, hcut]
    have hn : (front ++ placeholder index).getLast? = some '$' → rest.head? ≠ some '{' := by
      intro hl
      rw [getLast?_append_placeholder] at hl
      cases hl
    have hs := ih (hasPart_append_placeholder index h) hn
    rw [regionsOf_hole, maskFrom, hr, hs, maskedOf_hole, List.append_assoc]
  | case3 index c tail _ _ _ => rw [regionsOf_map_plain, maskedOf_map_plain]; rfl
  | case4 index c tail hc ht hh ih =>
    have hp := hasPart_append_char h (by simpa using hb)
    have hs := ih hp (fun _ => by simpa using hh)
    simpa using hs
  | case5 index c tail hc ih =>
    have hp := hasPart_append_char h (by simpa using hb)
    have hs := ih hp (fun hl => by simp_all)
    simpa using hs

theorem mask_eq (body : List Char) :
    mask body = (maskedOf (pieces 0 body), Scan.interpolations body) := by
  have hm : maskFrom 0 (Scan.interpolations body) body = maskedOf (pieces 0 body) :=
    maskFrom_interpolations 0 body Text.hasPart_pair_nil (by simp)
  simp only [mask, hm]

theorem textOf_eq_nil_of_maskedOf {ps : List Piece} (h : maskedOf ps = []) : textOf ps = [] := by
  cases ps with
  | nil => rfl
  | cons piece ps =>
    cases piece with
    | plain c => cases h
    | hole index region => cases h

/-- Each interpolation is the one that its number names. -/
theorem getElem?_of_mem_pieces {index n : Nat} {cs region : List Char}
    (h : .hole n region ∈ pieces index cs) :
    index ≤ n ∧ (Scan.interpolations cs)[n - index]? = some region := by
  rw [← regionsOf_pieces index cs]
  fun_induction pieces index cs with
  | case1 => simp at h
  | case2 index c tail _ region' rest _ _ ih =>
    rcases List.mem_cons.mp h with he | hm
    · cases he
      simp
    · obtain ⟨hle, hg⟩ := ih hm
      obtain ⟨k, rfl⟩ : ∃ k, n = index + 1 + k := ⟨n - (index + 1), by omega⟩
      have hk : index + 1 + k - index = k + 1 := by omega
      have hk' : index + 1 + k - (index + 1) = k := by omega
      rw [hk'] at hg
      refine ⟨by omega, ?_⟩
      rw [hk]
      simpa using hg
  | case3 index c tail _ _ _ => simp at h
  | case4 index c tail _ _ _ ih =>
    exact ih (by simpa using h)
  | case5 index c tail _ ih =>
    exact ih (by simpa using h)

end Restyle.TemplatePattern
