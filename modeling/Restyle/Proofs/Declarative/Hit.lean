import Restyle.Pattern.Declarative
import Restyle.Proofs.Header
import Restyle.Proofs.Traverse

namespace Restyle.DeclarativePattern

/-- The component at a header, by the object of its definition and what is read from it. -/
def ofObject (source : List Char) (hit : Scan.Hit (List Char × List Char)) (object : List Char)
    (config : Config) (rest : List Char) : DeclarativePattern where
  component := String.ofList hit.value.1
  base := String.ofList hit.value.2
  location := Location.ofOffset source hit.offset
  styles := config.styles
  variants := config.variants
  source := String.ofList (hit.text.dropLast ++ object ++ callEnd rest)
  bindings := config.bindings
  dynamicStyles := config.dynamicStyles

theorem ofHit_of_object {source : List Char} {hit : Scan.Hit (List Char × List Char)}
    {object rest : List Char} {config : Config}
    (hobject : Scan.takeBraces? ('{' :: hit.rest) = some (object, rest))
    (hconfig : parseConfig object = .ok config) :
    ofHit source hit = .ok (ofObject source hit object config rest) := by
  simp only [ofHit, readObject?, hobject, hconfig]
  rfl

theorem ofHit_eq_ok {source : List Char} {hit : Scan.Hit (List Char × List Char)}
    {p : DeclarativePattern} (h : ofHit source hit = .ok p) (hf : p.failed = false) :
    ∃ object config rest, Scan.takeBraces? ('{' :: hit.rest) = some (object, rest) ∧
      parseConfig object = .ok config ∧ p = ofObject source hit object config rest := by
  obtain ⟨found, hread, h⟩ := bind_eq_ok h
  cases found with
  | none =>
    cases h
    cases hf
  | some found =>
    obtain ⟨object, config, rest⟩ := found
    cases h
    refine ⟨object, config, rest, ?_⟩
    unfold readObject? at hread
    split at hread
    next => cases hread
    next object' rest' ho =>
      split at hread
      next config' hconfig =>
        cases hread
        exact ⟨ho, hconfig, rfl⟩
      next => cases hread
      next => cases hread

theorem ofOffset_append {front : List Char} {offset : Nat} (h : offset ≤ front.length)
    (rest : List Char) :
    Location.ofOffset (front ++ rest) offset = Location.ofOffset front offset := by
  have hn : ¬((offset : Int) < 0) := by omega
  simp only [Location.ofOffset, if_neg hn, Int.toNat_natCast, List.take_append_of_le_length h]

/-- The header of a hit ends with a brace, and the object starts with it. -/
theorem exists_header {source : List Char} {hit : Scan.Hit (List Char × List Char)}
    (h : hit ∈ Scan.findAll Header.declarative? source) :
    ∃ front header, source = front ++ (header ++ '{' :: hit.rest) ∧ hit.offset = front.length ∧
      hit.text = header ++ ['{'] ∧
      Header.IsDeclarative hit.value.1 hit.value.2 (header ++ ['{']) := by
  obtain ⟨front, hs, ho, _, hr⟩ := Scan.of_mem_findFrom Header.consumes_declarative h
  have hvalue : Header.declarative? none (hit.text ++ hit.rest) =
      some ((hit.value.1, hit.value.2), hit.rest) := hr
  obtain ⟨text, ht, he⟩ := Header.declarative?_eq_some hvalue
  obtain ⟨header, rfl, _⟩ := ht.eq_concat
  have htext := List.append_cancel_right he
  refine ⟨front, header, ?_, by omega, htext, ht⟩
  rw [hs, he, List.append_assoc, List.singleton_append]

/-- A component is found if it can be read and all others can be read, too. -/
theorem exists_parse_of_others {source : List Char} {hit : Scan.Hit (List Char × List Char)}
    {p : DeclarativePattern} (hhit : hit ∈ Scan.findAll Header.declarative? source)
    (hread : ofHit source hit = .ok p)
    (hothers : ∀ other ∈ Scan.findAll Header.declarative? source, other.offset ≠ hit.offset →
      ∃ q, ofHit source other = .ok q) :
    ∃ found, parse source = .ok found ∧ p ∈ found := by
  have hall : ∀ other ∈ Scan.findAll Header.declarative? source,
      ∃ q, ofHit source other = .ok q := by
    intro other hm
    by_cases he : other.offset = hit.offset
    · rw [Scan.eq_of_offset_eq Header.consumes_declarative hm hhit he]
      exact ⟨p, hread⟩
    · exact hothers other hm he
  obtain ⟨found, hfound⟩ := exists_mapM_eq_ok hall
  obtain ⟨q, hq, hsame⟩ := exists_mem_of_mapM hfound hhit
  rw [hread] at hsame
  cases hsame
  exact ⟨found, hfound, hq⟩

end Restyle.DeclarativePattern
