import Mathlib.Data.Nat.Digits.Defs
import Restyle.Proofs.Template.Convertible

namespace Restyle.TemplatePattern

section

variable {regions : List (List Char)}

/-- Whether each placeholder in a text names an interpolation. -/
def Resolved (regions : List (List Char)) (cs : List Char) : Prop :=
  ∀ digits ∈ placeholders cs, ∃ region, regionOf regions digits = .ok region

theorem exists_unmask {cs : List Char} (h : Resolved regions cs) :
    ∃ text, unmask regions cs = .ok text := by
  induction cs using placeholder_rounds with
  | nil => exact ⟨[], unmask_nil regions⟩
  | skip c tail hn ih =>
    rw [Resolved, placeholders_skip hn] at h
    obtain ⟨text, ht⟩ := ih h
    exact ⟨c :: text, by rw [unmask_skip regions hn, ht]; rfl⟩
  | read c tail digits rest hs ih =>
    rw [Resolved, placeholders_read hs] at h
    obtain ⟨⟨region, hr⟩, hrest⟩ := List.forall_mem_cons.mp h
    obtain ⟨text, ht⟩ := ih hrest
    exact ⟨region ++ text, by rw [unmask_read regions hs, hr, ht]; rfl⟩

theorem exists_maskedDependencies {cs : List Char} (h : Resolved regions cs) :
    ∃ dependencies, maskedDependencies regions cs = .ok dependencies := by
  obtain ⟨found, hf⟩ := exists_mapM_eq_ok h
  exact ⟨_, by rw [maskedDependencies_eq, hf]; rfl⟩

theorem exists_styleOf {segment name value : List Char} (h : Resolved regions segment)
    (ht : Text.IsTrimmed segment) (hd : declaration? segment = some (name, value))
    (dependencies : List String) : ∃ style, styleOf regions dependencies name value = .ok style := by
  have hv : Resolved regions value := by
    rw [Resolved, (declaration?_eq_some hd).2.2.2]
    exact h
  obtain ⟨text, hu⟩ := exists_unmask hv
  rw [styleOf, Text.trim_of_isTrimmed (isTrimmed_of_declaration ht hd), hu]
  exact ⟨_, rfl⟩

theorem exists_readSegment {segment : List Char} (h : Resolved regions (Text.trim segment)) :
    ∃ found, readSegment regions segment = .ok found := by
  cases hread : isRead (Text.trim segment) with
  | false => exact ⟨_, readSegment_of_not_isRead hread⟩
  | true =>
    obtain ⟨dependencies, hdep⟩ := exists_maskedDependencies h
    rw [readSegment_of_isRead hread, hdep]
    cases hd : declaration? (Text.trim segment) with
    | none => exact ⟨_, rfl⟩
    | some declared =>
      obtain ⟨style, hs⟩ := exists_styleOf h (Text.isTrimmed_trim segment) hd dependencies
      exact ⟨(some style, dependencies), by simp only [Except.bind, hs]; rfl⟩

end

/-- The number of an interpolation is read if it has no more digits than this. -/
def digitLimit : Nat := 4300

/-- A text with no more characters than this has no interpolation with too many digits. -/
def lengthLimit : Nat := 10 ^ digitLimit

theorem length_interpolations_le (cs : List Char) :
    (Scan.interpolations cs).length ≤ cs.length := by
  fun_induction Scan.interpolations cs with
  | case1 => simp
  | case2 c tail hc region rest ht hl ih =>
    have hlt := Scan.takeRegion?_length_lt ht
    simp only [List.length_cons]
    omega
  | case3 => simp
  | case4 c tail hc ht hh ih =>
    simp only [List.length_cons]
    omega
  | case5 c tail hc ih =>
    simp only [List.length_cons]
    omega

theorem length_dropComments_le (cs : List Char) : (dropComments cs).length ≤ cs.length := by
  have hs : ∀ before text, Scan.substitute comment? (fun _ => Except.ok (ε := Empty) []) before cs =
      .ok text → text.length ≤ cs.length := by
    intro before text ht
    fun_induction Scan.substitute comment? (fun _ => Except.ok (ε := Empty) []) before cs
      generalizing text with
    | case1 =>
      cases ht
      exact Nat.le_refl _
    | case2 before c tail hr ih =>
      obtain ⟨text', ht', rfl⟩ := map_eq_ok ht
      have hi := ih text' ht'
      simp only [List.length_cons]
      omega
    | case3 => cases ht
    | case4 before c tail _ rest hr hl text hw last ih =>
      cases hw
      obtain ⟨text', ht', rfl⟩ := map_eq_ok ht
      have hi := ih text' ht'
      simp only [List.nil_append, List.length_cons]
      omega
    | case5 before c tail _ rest hr hl ih =>
      obtain ⟨text', ht', rfl⟩ := map_eq_ok ht
      have hi := ih text' ht'
      simp only [List.length_cons]
      omega
  unfold dropComments
  split
  next text ht => exact hs none text ht

/-- A template without the mark of placeholders can be read. -/
theorem exists_parseBody {body : List Char} (hn : '\x00' ∉ body)
    (hl : body.length ≤ lengthLimit) : ∃ found, parseBody body = .ok found := by
  have hcount : ∀ index < (Scan.interpolations (dropComments body)).length,
      (Nat.toDigits 10 index).length ≤ 4300 := by
    intro index hi
    have h₁ := length_interpolations_le (dropComments body)
    have h₂ := length_dropComments_le body
    exact Nat.toDigits_length 10 index digitLimit (by decide) (show index < lengthLimit by omega)
  have hlines : ∀ line ∈ segments (dropComments body),
      Resolved (Scan.interpolations (dropComments body)) (Text.trim (maskedOf line)) := by
    intro line hm
    have hplain : .plain '\x00' ∉ trimPieces line := by
      intro hp
      rcases mem_of_mem_segments hm hp with he | ⟨hm, _⟩
      · cases he
      · exact hn (dropComments_subset body (mem_of_plain_mem_pieces hm))
    have hnumbered : NumberedIn (Scan.interpolations (dropComments body)) (trimPieces line) := by
      intro index region hp
      rcases mem_of_mem_segments hm hp with he | ⟨hm, _⟩
      · cases he
      · exact numberedIn_pieces _ index region hm
    rw [Resolved, trim_maskedOf, placeholders_maskedOf hplain]
    intro digits hd
    obtain ⟨piece, hp, he⟩ := List.mem_filterMap.mp hd
    cases piece with
    | plain c => cases he
    | hole index region =>
      cases he
      exact ⟨region, restoredBy_of_length_le hnumbered hcount index region hp⟩
  rw [parseBody_eq, List.mapM_map]
  obtain ⟨found, hf⟩ := exists_mapM_eq_ok fun line hm => exists_readSegment (hlines line hm)
  exact ⟨_, congrArg (Except.map _) hf⟩

/-- A component can be read if there is no mark of placeholders in the text after its header. -/
theorem exists_ofHit (source : List Char) {hit : Scan.Hit (List Char × List Char)}
    (hn : '\x00' ∉ hit.rest) (hl : hit.rest.length ≤ lengthLimit) :
    ∃ p, ofHit source hit = .ok p := by
  simp only [ofHit]
  split
  next => exact ⟨_, rfl⟩
  next literal rest ht =>
    have happend := Scan.takeTemplate?_append ht
    have hmem : ∀ c ∈ Expression.inside literal, c ∈ hit.rest := by
      intro c hc
      rw [happend]
      exact List.mem_append_left _ (List.mem_of_mem_drop ((List.dropLast_sublist _).subset hc))
    have hlength : (Expression.inside literal).length ≤ lengthLimit := by
      have hall := congrArg List.length happend
      simp only [List.length_append] at hall
      simp only [Expression.inside, List.length_dropLast, List.length_drop]
      omega
    obtain ⟨⟨properties, bindings⟩, hb⟩ := exists_parseBody (fun hm => hn (hmem _ hm)) hlength
    rw [hb]
    exact ⟨_, rfl⟩

end Restyle.TemplatePattern
