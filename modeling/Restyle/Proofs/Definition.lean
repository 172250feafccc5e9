import Mathlib.Data.List.Nodup
import Mathlib.Data.List.Perm.Subperm
import Restyle.Proofs.Absorption
import Restyle.Proofs.Location

namespace Restyle

namespace Header

/-- That the header of a template stands at the front of a text, with its parts cut in some way. -/
def StartsTemplate (cs : List Char) : Prop :=
  ∃ name base text rest, IsTemplate name base text ∧ cs = text ++ rest ∧ rest.head? = some '\x60'

/-- The same for the header of an object. -/
def StartsObject (cs : List Char) : Prop :=
  ∃ name base text rest, IsDeclarative name base text ∧ cs = text ++ rest

theorem isSome_template?_iff (before : Option Char) (cs : List Char) :
    (template? before cs).isSome = true ↔ StartsTemplate cs := by
  constructor
  · intro h
    obtain ⟨⟨⟨name, base⟩, rest⟩, hfound⟩ := Option.isSome_iff_exists.mp h
    obtain ⟨text, htext, hcs, hrest⟩ := template?_eq_some hfound
    exact ⟨name, base, text, rest, htext, hcs, hrest⟩
  · rintro ⟨name, base, text, rest, htext, rfl, hrest⟩
    rw [htext.template?_append before hrest]
    rfl

theorem isSome_declarative?_iff (before : Option Char) (cs : List Char) :
    (declarative? before cs).isSome = true ↔ StartsObject cs := by
  constructor
  · intro h
    obtain ⟨⟨⟨name, base⟩, rest⟩, hfound⟩ := Option.isSome_iff_exists.mp h
    obtain ⟨text, htext, hcs⟩ := declarative?_eq_some hfound
    exact ⟨name, base, text, rest, htext, hcs⟩
  · rintro ⟨name, base, text, rest, htext, rfl⟩
    rw [htext.declarative?_append before rest]
    rfl

/-- Where a definition ends is the same however it is cut. -/
theorem IsDefinition.rest_eq {name name' text text' rest rest' : List Char}
    (h : IsDefinition name text) (h' : IsDefinition name' text')
    (he : text ++ rest = text' ++ rest') : rest = rest' := by
  have hread := h.definition?_append rest
  rw [he, h'.definition?_append rest'] at hread
  exact ((Prod.mk.inj (Option.some.inj hread)).2).symm

section

variable {before after gap base base' rest more : List Char}

/-- The first character after blanks is the same however they are cut. -/
theorem cons_eq_of_blanks_append {blanks cs ds : List Char} {c d : Char} (hb : IsBlanks blanks)
    (hc : Text.isBlank c = false) (hd : Text.isBlank d = false)
    (he : d :: ds = blanks ++ c :: cs) : d = c ∧ ds = cs := by
  have hnil : IsBlanks [] := List.forall_mem_nil _
  have hskip : Text.skipBlanks (d :: ds) = d :: ds := skipBlanks_append hnil hd
  rw [he, skipBlanks_append hb hc] at hskip
  exact List.cons.inj (he.trans hskip.symm)

/-- The base of a component is closed at once, and that of an object is followed by a comma. -/
theorem closed_ne_continued (hbase : IsWord base) (hafter : IsBlanks after)
    (hbase' : IsWord base') (hgap : IsBlanks gap) :
    base ++ ')' :: rest ≠ after ++ (base' ++ (gap ++ ',' :: more)) := by
  intro he
  have hsame : base ++ ')' :: rest = base' ++ (gap ++ ',' :: more) := by
    obtain ⟨c, word, rfl⟩ := List.exists_cons_of_ne_nil hbase.1
    obtain ⟨c', word', rfl⟩ := List.exists_cons_of_ne_nil hbase'.1
    have hc := Text.isBlank_of_isWord (hbase.2 c List.mem_cons_self)
    have hc' := Text.isBlank_of_isWord (hbase'.2 c' List.mem_cons_self)
    obtain ⟨rfl, htail⟩ := cons_eq_of_blanks_append hafter hc' hc he
    exact congrArg (List.cons c) htail
  -- both bases are the word at the front, so what follows them is the same as well
  have hnil : IsBlanks [] := List.forall_mem_nil _
  have hread : word? (base ++ ')' :: rest) = some (base, ')' :: rest) :=
    word?_append_blanks hbase hnil (by decide +kernel)
  rw [hsame, word?_append_blanks hbase' hgap (by decide +kernel)] at hread
  have hmark := (Prod.mk.inj (Option.some.inj hread)).2.symm
  exact absurd (cons_eq_of_blanks_append hgap (by decide) (by decide) hmark).1 (by decide)

/-- What a template is applied to does not begin as the arguments of an object do. -/
theorem IsTemplateBase.append_ne {call : List Char} (h : IsTemplateBase base call)
    (hbefore : IsBlanks before) (hafter : IsBlanks after) (hbase' : IsWord base')
    (hgap : IsBlanks gap) :
    call ++ rest ≠ before ++ '(' :: (after ++ (base' ++ (gap ++ ',' :: more))) := by
  intro he
  have hfirst : ∀ {c cs}, Text.isBlank c = false → call ++ rest = c :: cs →
      c = '(' ∧ cs = after ++ (base' ++ (gap ++ ',' :: more)) := by
    intro c cs hc hcs
    exact cons_eq_of_blanks_append hbefore (by decide) hc (hcs.symm.trans he)
  cases h with
  | element hb ha =>
    rw [List.cons_append] at hfirst
    exact absurd (hfirst (by decide) rfl).1 (by decide)
  | component ha hb =>
    cases ha with
    | given =>
      rw [List.cons_append, List.cons_append, List.cons_append] at hfirst
      exact absurd (hfirst (by decide) rfl).1 (by decide)
    | absent =>
      rw [List.nil_append, List.cons_append, List.append_assoc] at hfirst
      exact closed_ne_continued hb hafter hbase' hgap (hfirst (by decide) rfl).2

end

theorem not_startsObject_of_startsTemplate {cs : List Char} (h : StartsTemplate cs) :
    ¬ StartsObject cs := by
  rintro ⟨name', base', _, rest', ⟨hstart', hbefore, hafter, hbase', hgap, hlast'⟩, he⟩
  obtain ⟨name, base, _, rest, ⟨hstart, hcall, hlast⟩, rfl, hrest⟩ := h
  simp only [List.append_assoc, List.cons_append] at he
  exact hcall.append_ne hbefore hafter hbase' hgap (hstart.rest_eq hstart' he)

/-- The offsets at which a definition begins, whatever it goes on with. -/
def definitionOffsets (source : List Char) : List Nat :=
  (List.range source.length).filter fun n => (definition? (source.drop n)).isSome

theorem isSome_definition?_of_startsTemplate {cs : List Char} (h : StartsTemplate cs) :
    (definition? cs).isSome = true := by
  obtain ⟨_, _, _, _, ⟨hstart, _, _⟩, rfl, _⟩ := h
  rw [List.append_assoc, hstart.definition?_append]
  rfl

theorem isSome_definition?_of_startsObject {cs : List Char} (h : StartsObject cs) :
    (definition? cs).isSome = true := by
  obtain ⟨_, _, _, _, ⟨hstart, _, _, _, _, _⟩, rfl⟩ := h
  rw [List.append_assoc, hstart.definition?_append]
  rfl

theorem tag?_of_isSome_definition? {names : List String} {before : Option Char} {cs : List Char}
    (h : (definition? cs).isSome = true) : tag? names before cs = none := by
  obtain ⟨⟨name, rest⟩, hfound⟩ := Option.isSome_iff_exists.mp h
  obtain ⟨text, htext, rfl⟩ := definition?_eq_some hfound
  cases ht : tag? names before (text ++ rest) with
  | none => rfl
  | some found =>
    have hhead := htext.head?_append rest
    rw [(tag?_eq_some ht).1] at hhead
    cases hhead

end Header

theorem Location.ofOffset_inj {source : List Char} {n n' : Nat} (hn : n ≤ source.length)
    (hn' : n' ≤ source.length) (h : ofOffset source n = ofOffset source n') : n = n' := by
  have hback : ∀ k ≤ source.length, (ofOffset source k).offset source = k := by
    intro k hk
    have hk' := offset_ofOffset (source.take k) (source.drop k)
    rwa [List.take_append_drop, List.length_take_of_le hk] at hk'
  rw [← hback n hn, h, hback n' hn']

section

variable {α β : Type} {recognize : Scan.Recognizer α} {source : List Char}

theorem nodup_offsets (hr : Scan.Consumes recognize) (source : List Char) :
    ((Scan.findAll recognize source).map (·.offset)).Nodup := by
  rw [List.Nodup, List.pairwise_map]
  exact (Scan.pairwise_findFrom hr none 0 source).imp Nat.ne_of_lt

theorem Recorded.locations {isRecord : Scan.Hit α → β → Prop} {hits : List (Scan.Hit α)}
    {found : List β} (h : Recorded isRecord hits found) {location : β → Location}
    (hl : ∀ hit p, isRecord hit p → location p = .ofOffset source hit.offset) :
    found.map location = (hits.map (·.offset)).map fun n => .ofOffset source n := by
  rw [List.map_map, ← List.forall₂_eq_eq_eq, List.forall₂_map_left_iff, List.forall₂_map_right_iff]
  exact h.records.flip.imp fun p hit hrecord => hl hit p hrecord

theorem exists_offset_of_mem {location : β → Location} {found : List β} {offsets : List Nat}
    (h : found.map location = offsets.map fun n => .ofOffset source n) {p : β} (hp : p ∈ found) :
    ∃ n ∈ offsets, .ofOffset source n = location p := by
  have hplace : location p ∈ found.map location := List.mem_map.mpr ⟨p, hp, rfl⟩
  rw [h] at hplace
  exact List.mem_map.mp hplace

end

namespace Header

variable {source : List Char} {n : Nat}

theorem startsTemplate_of_mem
    (h : n ∈ (Scan.findAll template? source).map (·.offset)) :
    n < source.length ∧ StartsTemplate (source.drop n) := by
  obtain ⟨hit, hhit, rfl⟩ := List.mem_map.mp h
  obtain ⟨hlt, hfound⟩ := Scan.recognize_drop_of_mem_findAll consumes_template hhit
  exact ⟨hlt, (isSome_template?_iff none _).mp (by rw [hfound]; rfl)⟩

theorem startsObject_of_mem
    (h : n ∈ (Scan.findAll declarative? source).map (·.offset)) :
    n < source.length ∧ StartsObject (source.drop n) := by
  obtain ⟨hit, hhit, rfl⟩ := List.mem_map.mp h
  obtain ⟨hlt, hfound⟩ := Scan.recognize_drop_of_mem_findAll consumes_declarative hhit
  exact ⟨hlt, (isSome_declarative?_iff none _).mp (by rw [hfound]; rfl)⟩

/-- The offsets of the definitions that patterns are read from, first those of templates. -/
def readOffsets (source : List Char) : List Nat :=
  (Scan.findAll template? source).map (·.offset) ++
    (Scan.findAll declarative? source).map (·.offset)

theorem nodup_readOffsets (source : List Char) : (readOffsets source).Nodup := by
  refine List.nodup_append.mpr
    ⟨nodup_offsets consumes_template source, nodup_offsets consumes_declarative source, ?_⟩
  rintro n ht _ ho rfl
  exact not_startsObject_of_startsTemplate (startsTemplate_of_mem ht).2 (startsObject_of_mem ho).2

theorem readOffsets_subset (source : List Char) :
    readOffsets source ⊆ definitionOffsets source := by
  intro n hn
  have hboth : n < source.length ∧ (definition? (source.drop n)).isSome = true := by
    rcases List.mem_append.mp hn with ht | ho
    · obtain ⟨hlt, hstarts⟩ := startsTemplate_of_mem ht
      exact ⟨hlt, isSome_definition?_of_startsTemplate hstarts⟩
    · obtain ⟨hlt, hstarts⟩ := startsObject_of_mem ho
      exact ⟨hlt, isSome_definition?_of_startsObject hstarts⟩
  exact List.mem_filter.mpr ⟨List.mem_range.mpr hboth.1, hboth.2⟩

/-- No tag begins where a definition does. -/
theorem not_mem_definitionOffsets {names : List String}
    (h : n ∈ (Scan.findAll (tag? names) source).map (·.offset)) :
    n < source.length ∧ n ∉ definitionOffsets source := by
  obtain ⟨hit, hhit, rfl⟩ := List.mem_map.mp h
  obtain ⟨hlt, hfound⟩ := Scan.recognize_drop_of_mem_findAll (consumes_tag names) hhit
  refine ⟨hlt, fun hm => ?_⟩
  rw [tag?_of_isSome_definition? (List.mem_filter.mp hm).2] at hfound
  cases hfound

theorem nodup_readOffsets_append (names : List String) (source : List Char) :
    (readOffsets source ++ (Scan.findAll (tag? names) source).map (·.offset)).Nodup := by
  refine List.nodup_append.mpr
    ⟨nodup_readOffsets source, nodup_offsets (consumes_tag names) source, ?_⟩
  rintro n hd _ ht rfl
  exact (not_mem_definitionOffsets ht).2 (readOffsets_subset source hd)

end Header

section

variable {source : List Char} {tags : Json}

theorem TemplatePattern.locations {found : List TemplatePattern} (h : parse source = .ok found) :
    found.map (·.location) = ((Scan.findAll Header.template? source).map (·.offset)).map
      fun n => .ofOffset source n :=
  ((parse_returns source).result_of_eq_ok h).locations fun _ _ hrecord => hrecord.location

theorem DeclarativePattern.locations {found : List DeclarativePattern}
    (h : parse source = .ok found) :
    found.map (·.location) = ((Scan.findAll Header.declarative? source).map (·.offset)).map
      fun n => .ofOffset source n :=
  ((parse_returns source).result_of_eq_ok h).locations fun _ _ hrecord => hrecord.location

theorem InlinePattern.locations {names : List String} {found : List InlinePattern}
    (h : parse names source = .ok found) :
    found.map (·.location) = ((Scan.findAll (Header.tag? names) source).map (·.offset)).map
      fun n => .ofOffset source n :=
  ((parse_returns names source).result_of_eq_ok h).locations fun _ _ hrecord => hrecord.location

theorem SourcePatterns.parse_eq_ok {patterns : SourcePatterns}
    (h : parse tags source = .ok patterns) :
    TemplatePattern.parse source = .ok patterns.template ∧
      DeclarativePattern.parse source = .ok patterns.declarative ∧
      ∃ names, InlinePattern.parse names source = .ok patterns.inline := by
  obtain ⟨template, htemplate, h⟩ := bind_eq_ok h
  obtain ⟨declarative, hdeclarative, h⟩ := bind_eq_ok h
  obtain ⟨names, -, h⟩ := bind_eq_ok h
  obtain ⟨inline, hinline, h⟩ := bind_eq_ok h
  cases h
  exact ⟨htemplate, hdeclarative, names, hinline⟩

/-- The patterns of a source text stand at different places. -/
theorem SourcePatterns.nodup_locations {patterns : SourcePatterns}
    (h : parse tags source = .ok patterns) : (patterns.all.map (·.location)).Nodup := by
  obtain ⟨ht, ho, names, hi⟩ := parse_eq_ok h
  have hplaces : patterns.all.map (·.location) =
      (Header.readOffsets source ++ (Scan.findAll (Header.tag? names) source).map (·.offset)).map
        fun n => .ofOffset source n := by
    have hkinds : patterns.all.map (·.location) = patterns.template.map (·.location) ++
        patterns.declarative.map (·.location) ++ patterns.inline.map (·.location) := by
      simp only [all, List.map_append, List.map_map]
      rfl
    rw [hkinds, TemplatePattern.locations ht, DeclarativePattern.locations ho,
      InlinePattern.locations hi, Header.readOffsets, List.map_append, List.map_append]
  have hinside : ∀ n ∈ Header.readOffsets source ++
      (Scan.findAll (Header.tag? names) source).map (·.offset), n ≤ source.length := by
    intro n hn
    rcases List.mem_append.mp hn with hd | ht
    · have hm := Header.readOffsets_subset source hd
      exact Nat.le_of_lt (List.mem_range.mp (List.mem_filter.mp hm).1)
    · exact Nat.le_of_lt (Header.not_mem_definitionOffsets ht).1
  rw [hplaces]
  refine List.Nodup.map_on (fun n hn n' hn' he => ?_) (Header.nodup_readOffsets_append names source)
  exact Location.ofOffset_inj (hinside n hn) (hinside n' hn') he

/-- That no definition is counted twice: at the beginning of each there is at most one pattern,
which is no tag, and there are no more templates and objects than definitions. -/
structure Analysis.CountsOnce (source : List Char) (a : Analysis) : Prop where
  total : a.summary.total =
    a.patterns.template.length + a.patterns.declarative.length + a.patterns.inline.length
  once : ∀ n ∈ Header.definitionOffsets source,
    a.patterns.all.countP (·.location == .ofOffset source n) ≤ 1
  tags : ∀ n ∈ Header.definitionOffsets source, ∀ p ∈ a.patterns.inline,
    p.location ≠ .ofOffset source n
  definitions : a.patterns.template.length + a.patterns.declarative.length ≤
    (Header.definitionOffsets source).length

theorem Analysis.countsOnce {file : String} {a : Analysis}
    (h : ofSource file tags source = .ok a) : a.CountsOnce source := by
  obtain ⟨patterns, hparse, ha⟩ := bind_eq_ok h
  cases ha
  obtain ⟨ht, ho, names, hi⟩ := SourcePatterns.parse_eq_ok hparse
  constructor
  · simp [Summary.ofPatterns, SourcePatterns.all, Nat.add_assoc]
  · intro n _
    have hcount := List.nodup_iff_count_le_one.mp (SourcePatterns.nodup_locations hparse)
      (.ofOffset source n)
    rwa [List.count, List.countP_map] at hcount
  · intro n hn p hp he
    obtain ⟨n', hn', hsame⟩ := exists_offset_of_mem (InlinePattern.locations hi) hp
    obtain ⟨hlt, hout⟩ := Header.not_mem_definitionOffsets hn'
    have hlt' := List.mem_range.mp (List.mem_filter.mp hn).1
    have heq := Location.ofOffset_inj (Nat.le_of_lt hlt) (Nat.le_of_lt hlt') (hsame.trans he)
    exact hout (heq ▸ hn)
  · have hlength : patterns.template.length + patterns.declarative.length =
        (Header.readOffsets source).length := by
      have htemplates := congrArg List.length (TemplatePattern.locations ht)
      have hobjects := congrArg List.length (DeclarativePattern.locations ho)
      simp only [List.length_map] at htemplates hobjects
      simp only [Header.readOffsets, List.length_append, List.length_map]
      omega
    rw [hlength]
    exact (List.subperm_of_subset (Header.nodup_readOffsets source)
      (Header.readOffsets_subset source)).length_le

end

/-- At no offset can both a template and an object be read, in whatever way the parts of their
headers are cut. So templates and objects have different locations, and no definition is counted
twice. -/
theorem definitions_are_counted_once (source : List Char) :
    (∀ n, ¬ (Header.StartsTemplate (source.drop n) ∧ Header.StartsObject (source.drop n))) ∧
    (∀ before n, ((Header.template? before (source.drop n)).isSome = true ↔
        Header.StartsTemplate (source.drop n)) ∧
      ((Header.declarative? before (source.drop n)).isSome = true ↔
        Header.StartsObject (source.drop n))) ∧
    (∀ templates objects, TemplatePattern.parse source = .ok templates →
      DeclarativePattern.parse source = .ok objects →
      ∀ t ∈ templates, ∀ o ∈ objects, t.location ≠ o.location) ∧
    ∀ file tags a, Analysis.ofSource file tags source = .ok a → a.CountsOnce source := by
  refine ⟨?_, ?_, ?_, fun _ _ _ h => Analysis.countsOnce h⟩
  · rintro n ⟨ht, ho⟩
    exact Header.not_startsObject_of_startsTemplate ht ho
  · intro before n
    exact ⟨Header.isSome_template?_iff before _, Header.isSome_declarative?_iff before _⟩
  · intro templates objects htemplates hobjects t ht o ho he
    obtain ⟨n, hn, hsame⟩ := exists_offset_of_mem (TemplatePattern.locations htemplates) ht
    obtain ⟨n', hn', hsame'⟩ := exists_offset_of_mem (DeclarativePattern.locations hobjects) ho
    obtain ⟨hlt, hstarts⟩ := Header.startsTemplate_of_mem hn
    obtain ⟨hlt', hstarts'⟩ := Header.startsObject_of_mem hn'
    have heq := Location.ofOffset_inj (Nat.le_of_lt hlt) (Nat.le_of_lt hlt')
      (hsame.trans (he.trans hsame'.symm))
    rw [← heq] at hstarts'
    exact Header.not_startsObject_of_startsTemplate hstarts hstarts'

/-- A definition by an object that stands in the type arguments of one by a template, and a tag. -/
def nestedDefinitions : List Char :=
  ("const A = styled<const B = styled(C, \x7b>(D)\x60w: 4\x60 \x7d)\n" ++
    "<XStack gap=\x7b4\x7d>").toList

theorem nestedDefinitions_are_counted_once :
    (∃ t o, TemplatePattern.parse nestedDefinitions = .ok [t] ∧
      DeclarativePattern.parse nestedDefinitions = .ok [o] ∧
      t.location = ⟨1, 1⟩ ∧ o.location = ⟨1, 18⟩ ∧ t.location ≠ o.location) ∧
    ∃ a, Analysis.ofSource "a.tsx" .null nestedDefinitions = .ok a ∧ a.summary.total = 3 ∧
      (Header.definitionOffsets nestedDefinitions).length = 2 ∧ a.CountsOnce nestedDefinitions := by
  obtain ⟨_, _, hapart, hcounts⟩ := definitions_are_counted_once nestedDefinitions
  have ht : gives (·.map (·.location) == [⟨1, 1⟩])
      (TemplatePattern.parse nestedDefinitions) = true := by decide +kernel
  have ho : gives (·.map (·.location) == [⟨1, 18⟩])
      (DeclarativePattern.parse nestedDefinitions) = true := by decide +kernel
  have ha : gives (·.summary.total == 3)
      (Analysis.ofSource "a.tsx" .null nestedDefinitions) = true := by decide +kernel
  obtain ⟨templates, htemplates, htl⟩ := exists_of_gives ht
  obtain ⟨objects, hobjects, hol⟩ := exists_of_gives ho
  obtain ⟨a, hanalysis, htotal⟩ := exists_of_gives ha
  obtain ⟨t, rfl, hplace⟩ := List.map_eq_singleton_iff.mp (eq_of_beq htl)
  obtain ⟨o, rfl, hplace'⟩ := List.map_eq_singleton_iff.mp (eq_of_beq hol)
  exact ⟨⟨t, o, htemplates, hobjects, hplace, hplace', hapart _ _ htemplates hobjects
    t List.mem_cons_self o List.mem_cons_self⟩,
    a, hanalysis, eq_of_beq htotal, by decide +kernel, hcounts _ _ a hanalysis⟩

end Restyle
