import Restyle.Proofs.Declarative.Hit
import Restyle.Proofs.Declarative.ObjectText
import Restyle.Proofs.Scan.Comment

namespace Restyle.DeclarativePattern

/-- A text with another one put into it at an offset. -/
def insertAt (source : List Char) (offset : Nat) (text : List Char) : List Char :=
  source.take offset ++ text ++ source.drop offset

theorem insertAt_append (left text right : List Char) :
    insertAt (left ++ right) left.length text = left ++ text ++ right := by
  rw [insertAt, List.take_left, List.drop_left]

theorem parseConfig_comment {left right comment : List Char} {config : Config}
    (hg : Scan.isGap isComma left right = true) (hc : Scan.IsMildComment comment)
    (h : parseConfig ('{' :: (left ++ right) ++ ['}']) = .ok config) :
    parseConfig ('{' :: (left ++ comment ++ right) ++ ['}']) = .ok config := by
  obtain ⟨found, hf, hconfig⟩ := bind_eq_ok h
  rw [entries, inside_braces] at hf
  obtain ⟨texts, ht, rfl⟩ := map_eq_ok hf
  have hsame := Scan.splitBy_comment (by decide) hg hc ht
  have hentries : entries ('{' :: (left ++ comment ++ right) ++ ['}']) =
      .ok (texts.map splitEntry) := by
    rw [entries, inside_braces]
    exact congrArg (Except.map _) hsame
  rw [parseConfig, hentries]
  exact hconfig

/-- The hits up to the brace of a header stay when the text after the brace changes. -/
theorem mem_findAll_of_mem {front header rest : List Char}
    {hit : Scan.Hit (List Char × List Char)}
    (h : hit ∈ Scan.findAll Header.declarative? (front ++ (header ++ '{' :: rest)))
    (ho : hit.offset = front.length) (hr : hit.rest = rest) (rest' : List Char) :
    { hit with rest := rest' } ∈
      Scan.findAll Header.declarative? (front ++ (header ++ '{' :: rest')) := by
  rw [← List.append_assoc, Scan.findAll, Scan.findFrom_append_mark Header.consumes_declarative
    (Header.stopsAt_declarative (Or.inl rfl))] at h ⊢
  rcases List.mem_append.mp h with h | h
  · obtain ⟨early, hm, rfl⟩ := List.mem_map.mp h
    have hnil : early.rest = [] := by
      have hl := congrArg List.length hr
      simp only [Scan.Hit.extend, List.length_append] at hl
      exact List.length_eq_zero_iff.mp (by omega)
    refine List.mem_append_left _ (List.mem_map.mpr ⟨early, hm, ?_⟩)
    simp [Scan.Hit.extend, hnil]
  · have hle := Scan.offset_le_of_mem_findFrom Header.consumes_declarative h
    rw [ho, List.length_append] at hle
    omega

/-- A source with a comment in the object at a header, after the front `left` of its body. -/
def commented (source : List Char) (hit : Scan.Hit (List Char × List Char))
    (left comment : List Char) : List Char :=
  insertAt source (hit.offset + hit.text.length + left.length) comment

/-- A component with a comment in its text. -/
def withComment (p : DeclarativePattern) (offset : Nat) (comment : List Char) :
    DeclarativePattern :=
  { p with source := String.ofList (insertAt p.source.toList offset comment) }

section

variable {source front header left right rest : List Char}
  {hit : Scan.Hit (List Char × List Char)}

theorem commented_eq (hs : source = front ++ (header ++ '{' :: (left ++ right ++ '}' :: rest)))
    (ho : hit.offset = front.length) (ht : hit.text = header ++ ['{']) (comment : List Char) :
    commented source hit left comment =
      front ++ (header ++ '{' :: (left ++ comment ++ right ++ '}' :: rest)) := by
  have hleft : source = (front ++ header ++ '{' :: left) ++ (right ++ '}' :: rest) := by simp [hs]
  have hlength : hit.offset + hit.text.length + left.length =
      (front ++ header ++ '{' :: left).length := by
    rw [ho, ht]
    simp only [List.length_append, List.length_cons, List.length_nil]
    omega
  rw [commented, hlength, hleft, insertAt_append]
  simp

/-- The comment stands in the object, and in the text of the component at the same place. -/
theorem withComment_ofObject {comment : List Char} {config : Config} {source' rest' : List Char}
    (ht : hit.text = header ++ ['{'])
    (hplace : Location.ofOffset source' hit.offset = Location.ofOffset source hit.offset) :
    withComment (ofObject source hit ('{' :: (left ++ right) ++ ['}']) config rest)
        (hit.text.length + left.length) comment =
      ofObject source' { hit with rest := rest' } ('{' :: (left ++ comment ++ right) ++ ['}'])
        config rest := by
  have hleft : header ++ ('{' :: (left ++ right) ++ ['}']) ++ callEnd rest =
      (header ++ '{' :: left) ++ (right ++ '}' :: callEnd rest) := by simp
  have hlength : hit.text.length + left.length = (header ++ '{' :: left).length := by
    rw [ht]
    simp only [List.length_append, List.length_cons, List.length_nil]
    omega
  have hbody : insertAt (header ++ ('{' :: (left ++ right) ++ ['}']) ++ callEnd rest)
      (hit.text.length + left.length) comment =
      header ++ ('{' :: (left ++ comment ++ right) ++ ['}']) ++ callEnd rest := by
    rw [hleft, hlength, insertAt_append]
    simp
  simp only [withComment, ofObject, hplace, ht, List.dropLast_concat, String.toList_ofList]
  rw [← ht, hbody]

end

/-- A comment without quotes and braces between two entries of an object changes nothing of the
component that the object defines except its text. The other definitions in the text are not asked
for more than that they can be read. -/
theorem parse_commented {source left right comment rest : List Char}
    {hit : Scan.Hit (List Char × List Char)} {p : DeclarativePattern}
    (hhit : hit ∈ Scan.findAll Header.declarative? source) (hp : ofHit source hit = .ok p)
    (hf : p.failed = false)
    (hobject : Scan.takeBraces? ('{' :: hit.rest) = some ('{' :: (left ++ right) ++ ['}'], rest))
    (hg : Scan.isGap isComma left right = true) (hc : Scan.IsMildComment comment)
    (hothers : ∀ other ∈ Scan.findAll Header.declarative? (commented source hit left comment),
      other.offset ≠ hit.offset →
        ∃ q, ofHit (commented source hit left comment) other = .ok q) :
    ∃ found, parse (commented source hit left comment) = .ok found ∧
      withComment p (hit.text.length + left.length) comment ∈ found := by
  obtain ⟨front, header, hs, ho, htext, _⟩ := exists_header hhit
  obtain ⟨object, config, rest', hbraces, hconfig, rfl⟩ := ofHit_eq_ok hp hf
  rw [hobject] at hbraces
  cases hbraces
  have hrest : hit.rest = left ++ right ++ '}' :: rest := by
    have ha := Scan.takeRegion?_append hobject
    simpa using ha
  have hinsert := commented_eq (hrest ▸ hs) ho htext comment
  have hplace : Location.ofOffset (commented source hit left comment) hit.offset =
      Location.ofOffset source hit.offset := by
    rw [hinsert, hs, ofOffset_append (Nat.le_of_eq ho), ofOffset_append (Nat.le_of_eq ho)]
  have hmem : { hit with rest := left ++ comment ++ right ++ '}' :: rest } ∈
      Scan.findAll Header.declarative? (commented source hit left comment) := by
    rw [hinsert]
    rw [hs] at hhit
    exact mem_findAll_of_mem hhit ho rfl _
  refine exists_parse_of_others hmem ?_ hothers
  rw [withComment_ofObject htext hplace]
  refine ofHit_of_object ?_ (parseConfig_comment hg hc hconfig)
  have hsame := Scan.takeBraces?_comment (by simp [isComma]; decide) hobject hg hc rest
  simpa using hsame

/-- Two components, the first of which has a string and a number in its object. -/
def pairSource : List Char :=
  "const A = styled(V, \x7b a: 1, b: 'x' \x7d) const B = styled(W, \x7b c: 2 \x7d)".toList

def note : List Char := '/' :: '/' :: " one".toList ++ ['\n']

theorem parse_commented_pair : ∃ hit p found,
    hit ∈ Scan.findAll Header.declarative? pairSource ∧ ofHit pairSource hit = .ok p ∧
      p.failed = false ∧ parse (commented pairSource hit " a: 1,".toList note) = .ok found ∧
      withComment p (hit.text.length + 6) note ∈ found := by
  have hfirst : (Scan.findAll Header.declarative? pairSource).head?.map
      (fun hit => (hit.offset, hit.text.length, Scan.takeBraces? ('{' :: hit.rest))) =
      some (0, 21, some ('{' :: (" a: 1,".toList ++ " b: 'x' ".toList) ++ ['}'],
        ") const B = styled(W, \x7b c: 2 \x7d)".toList)) := by decide +kernel
  obtain ⟨hit, hhead, he⟩ := Option.map_eq_some_iff.mp hfirst
  obtain ⟨hoffset, hlength, hobject⟩ : hit.offset = 0 ∧ hit.text.length = 21 ∧ _ := by
    simpa only [Prod.mk.injEq] using he
  have hmem := List.mem_of_head? hhead
  have hparse : gives (·.all (!·.failed)) (parse pairSource) = true := by decide +kernel
  obtain ⟨all, hall, hok⟩ := exists_of_gives hparse
  obtain ⟨p, hp, hread⟩ := exists_mem_of_mapM hall hmem
  have hcommented : gives (fun _ => true)
      (parse (insertAt pairSource 27 note)) = true := by decide +kernel
  obtain ⟨others, hothers, _⟩ := exists_of_gives hcommented
  have hsame : commented pairSource hit " a: 1,".toList note =
      insertAt pairSource 27 note := by
    rw [commented, hoffset, hlength]
    rfl
  have hnote : Scan.IsMildComment note := .line (List.all_eq_true.mp (by decide)) (by decide)
  have hf : p.failed = false := by simpa using List.all_eq_true.mp hok p hp
  obtain ⟨found, hfound, hm⟩ := parse_commented hmem hread hf hobject (by decide +kernel)
    hnote fun other ho _ => by
      rw [hsame] at ho ⊢
      obtain ⟨q, _, hq⟩ := exists_mem_of_mapM hothers ho
      exact ⟨q, hq⟩
  exact ⟨hit, p, found, hmem, hread, hf, hfound, hm⟩

/-- A single definition with the given body of its object. -/
def definitionOf (body : List Char) : List Char :=
  "const X = styled(Y, ".toList ++ ('{' :: body ++ ['}']) ++ [')']

/-- An apostrophe in a comment opens a string for the reader of the object, which then has no
end. -/
theorem apostrophe_in_comment_opens_string :
    ∃ left right text : List Char, Scan.isGap isComma left right = true ∧ '\n' ∉ text ∧
      gives (·.map (·.failed) == [false]) (parse (definitionOf (left ++ right))) = true ∧
      gives (·.map (·.failed) == [true])
        (parse (definitionOf (left ++ ('/' :: '/' :: text ++ ['\n']) ++ right))) = true :=
  ⟨" a: 1,".toList, " b: 2 ".toList, " don't".toList, by decide +kernel, by decide,
    by decide +kernel, by decide +kernel⟩

end Restyle.DeclarativePattern
