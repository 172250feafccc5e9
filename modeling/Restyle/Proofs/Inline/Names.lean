import Restyle.Proofs.Absorption
import Restyle.Proofs.Inline.RoundTrip
import Restyle.Proofs.Scan.Balanced
import Restyle.Proofs.Text.Words

namespace Restyle

namespace Header

/-- A name with nothing in it that would end it or begin another tag. -/
def IsTagName (name : String) : Prop := ∀ c ∈ name.toList, isTagEnd c = false ∧ c ≠ '<'

instance (name : String) : Decidable (IsTagName name) :=
  inferInstanceAs (Decidable (∀ c ∈ name.toList, isTagEnd c = false ∧ c ≠ '<'))

/-- That a tag of a name is at the front of a text, with what follows the name. -/
structure StartsTag (name : String) (cs rest : List Char) : Prop where
  text : cs = '<' :: (name.toList ++ rest)
  ends : ∃ c ∈ rest.head?, isTagEnd c = true

section

variable {names names' : List String} {name name' : String} {cs rest rest' : List Char}

/-- A tag has one name: what stands before the first character that ends a name. -/
theorem StartsTag.name_eq (hn : IsTagName name) (h : StartsTag name cs rest) :
    name.toList = cs.tail.takeWhile (!isTagEnd ·) := by
  obtain ⟨c, hc, hend⟩ := h.ends
  rw [h.text, List.tail_cons, Text.takeWhile_append_of_head]
  · intro d hd
    rw [(hn d hd).1]
    rfl
  · intro d hd
    rw [Option.mem_unique hd hc, hend]
    rfl

theorem StartsTag.unique (hn : IsTagName name) (hn' : IsTagName name')
    (h : StartsTag name cs rest) (h' : StartsTag name' cs rest') : name = name' ∧ rest = rest' := by
  have hname := (h.name_eq hn).trans (h'.name_eq hn').symm
  have htext := (List.cons.inj (h.text.symm.trans h'.text)).2
  rw [hname] at htext
  exact ⟨String.toList_inj.mp hname, List.append_cancel_left htext⟩

theorem startsTag_of_tag? {before : Option Char} (h : tag? names before cs = some (name, rest)) :
    name ∈ names ∧ StartsTag name cs rest := by
  unfold tag? at h
  split at h
  next cs =>
    obtain ⟨name', hm, hn⟩ := List.exists_of_findSome?_eq_some h
    obtain ⟨rfl, rfl, hend⟩ := afterName?_eq_some hn
    exact ⟨hm, rfl, hend⟩
  next => cases h

/-- Whichever name is tried first, the one that stands there is found. -/
theorem tag?_eq_some_iff (hn : ∀ name ∈ names, IsTagName name) (before : Option Char) :
    tag? names before cs = some (name, rest) ↔ name ∈ names ∧ StartsTag name cs rest := by
  refine ⟨startsTag_of_tag?, ?_⟩
  rintro ⟨hm, h⟩
  have hsome : (names.findSome? (afterName? (name.toList ++ rest))).isSome = true :=
    List.findSome?_isSome_iff.mpr ⟨name, hm, by rw [afterName?_append h.ends]; rfl⟩
  obtain ⟨⟨name', rest'⟩, hfound⟩ := Option.isSome_iff_exists.mp hsome
  have htag : tag? names before cs = some (name', rest') := by
    rw [h.text, tag?_cons_angle, hfound]
  obtain ⟨hm', h'⟩ := startsTag_of_tag? htag
  obtain ⟨rfl, rfl⟩ := h.unique (hn name hm) (hn name' hm') h'
  exact htag

theorem tag?_eq_of_mem_iff (hn : ∀ name ∈ names, IsTagName name)
    (hset : ∀ name, name ∈ names ↔ name ∈ names') : tag? names = tag? names' := by
  have hn' : ∀ name ∈ names', IsTagName name := fun name hm => hn name ((hset name).mpr hm)
  funext before cs
  refine Option.ext fun found => ?_
  rw [tag?_eq_some_iff hn, tag?_eq_some_iff hn', hset]

/-- No tag begins inside of a name. -/
theorem readsApart_tag? (hn : ∀ name ∈ names, IsTagName name) : Scan.ReadsApart (tag? names) := by
  intro front inner rest name hfront hinner h
  obtain ⟨hm, htag⟩ := startsTag_of_tag? h
  obtain ⟨d, front, rfl⟩ := List.exists_cons_of_ne_nil hfront
  obtain ⟨c, inner, rfl⟩ := List.exists_cons_of_ne_nil hinner
  have hname : front ++ c :: inner = name.toList := by
    have htext := htag.text
    rw [List.cons_append, List.cons_append] at htext
    exact List.append_cancel_right (List.cons.inj htext).2
  have hc : c ≠ '<' := (hn name hm c (by rw [← hname]; simp)).2
  cases ht : tag? names none (c :: inner ++ rest) with
  | none => rfl
  | some found => exact absurd (List.cons.inj (startsTag_of_tag? ht).2.text).1 hc

end

end Header

namespace InlinePattern

theorem tagsOf_texts {names : List String} (h : names ≠ []) :
    tagsOf (.texts names) = .ok names := by
  have hgiven : ¬ (!(Json.texts names).given) = true := by simp [Json.texts, Json.given, h]
  unfold tagsOf
  rw [if_neg hgiven]
  simp only [Json.texts]
  rw [List.mapM_map]
  exact (List.mapM_pure (f := id)).trans (congrArg pure (List.map_id names))

/-- A pattern for a tag at an offset: it has the location of the offset and the name that stands
there, and it says whether the tag has an end. -/
structure IsPatternAt (names : List String) (source : List Char) (n : Nat) (p : InlinePattern) :
    Prop where
  location : p.location = .ofOffset source n
  mem : p.tag ∈ names
  tag : ∃ rest, Header.StartsTag p.tag (source.drop n) rest ∧
    (p.failed = true ↔ takeTag? rest = none)

/-- One pattern for each offset with a tag of one of the names, in the order of the text. -/
def OnePerTag (names : List String) (source : List Char) (found : List InlinePattern) : Prop :=
  ∃ offsets : List Nat, offsets.Pairwise (· < ·) ∧
    (∀ n, n ∈ offsets ↔ ∃ name ∈ names, ∃ rest, Header.StartsTag name (source.drop n) rest) ∧
    List.Forall₂ (IsPatternAt names source) offsets found

section

variable {names names' : List String}

theorem mem_offsets_iff (hn : ∀ name ∈ names, Header.IsTagName name) (source : List Char)
    (n : Nat) :
    n ∈ (Scan.findAll (Header.tag? names) source).map (·.offset) ↔
      ∃ name ∈ names, ∃ rest, Header.StartsTag name (source.drop n) rest := by
  constructor
  · intro h
    obtain ⟨hit, hhit, rfl⟩ := List.mem_map.mp h
    have hfound := (Scan.recognize_drop_of_mem_findAll (Header.consumes_tag names) hhit).2
    obtain ⟨hm, htag⟩ := Header.startsTag_of_tag? hfound
    exact ⟨hit.value, hm, hit.rest, htag⟩
  · rintro ⟨name, hm, rest, htag⟩
    have hle : n ≤ source.length := by
      by_contra hn
      have htext := htag.text
      rw [List.drop_eq_nil_of_le (by omega)] at htext
      cases htext
    have hfound : (Header.tag? names none (source.drop n)).isSome = true := by
      rw [(Header.tag?_eq_some_iff hn none).mpr ⟨hm, htag⟩]
      rfl
    have hhits : ∃ hit ∈ Scan.findFrom (Header.tag? names) none 0 source,
        hit.offset = 0 + (source.take n).length :=
      Scan.exists_hit_of_recognize (Header.consumes_tag names) (Header.readsApart_tag? hn)
        (List.take_append_drop n source).symm hfound
    obtain ⟨hit, hhit, hoffset⟩ := hhits
    refine List.mem_map.mpr ⟨hit, hhit, ?_⟩
    rw [hoffset, Nat.zero_add, List.length_take_of_le hle]

theorem onePerTag_of_recorded (hn : ∀ name ∈ names, Header.IsTagName name) {source : List Char}
    {found : List InlinePattern}
    (h : Recorded (IsRecord source) (Scan.findAll (Header.tag? names) source) found) :
    OnePerTag names source found := by
  refine ⟨(Scan.findAll (Header.tag? names) source).map (·.offset), ?_, mem_offsets_iff hn source,
    ?_⟩
  · rw [List.pairwise_map]
    exact h.ordered
  · rw [List.forall₂_map_left_iff]
    have hhits := (List.forall₂_and_left _ _).mpr ⟨fun _ hhit => hhit, h.records⟩
    refine hhits.imp fun hit p hboth => ?_
    obtain ⟨hhit, hrecord⟩ := hboth
    have hplace := (Scan.recognize_drop_of_mem_findAll (Header.consumes_tag names) hhit).2
    obtain ⟨hm, htag⟩ := Header.startsTag_of_tag? hplace
    rw [← hrecord.tag] at hm htag
    exact ⟨hrecord.location, hm, hit.rest, htag, hrecord.failed⟩

/-- Two lists with the same names find the same tags and fail alike. There is one pattern for each
offset at which a tag of one of the names stands, unless a number in one of them has too many
digits. -/
theorem tags_are_found_by_set (hne : names ≠ []) (hne' : names' ≠ [])
    (hset : ∀ name, name ∈ names ↔ name ∈ names') (hn : ∀ name ∈ names, Header.IsTagName name)
    (source : List Char) :
    (tagsOf (.texts names)).bind (parse · source) =
      (tagsOf (.texts names')).bind (parse · source) ∧
    ReturnsIff (∀ hit ∈ Scan.findAll (Header.tag? names) source, CanRead hit)
      (OnePerTag names source) (·.isMisnumbered = true)
      ((tagsOf (.texts names)).bind (parse · source)) := by
  rw [tagsOf_texts hne, tagsOf_texts hne']
  refine ⟨?_, (parse_returns names source).imp fun _ h => onePerTag_of_recorded hn h⟩
  simp only [Except.bind, parse, Header.tag?_eq_of_mem_iff hn hset]

end

/-- Names that begin other names, in two orders. -/
def shortNames : List String := ["A", "A.B", "AB"]
def longNames : List String := ["AB", "A.B", "AB", "A"]

def nearTags : List Char := "<AB x=\x7b1\x7d><A/><A.B\n<ABC>".toList

theorem nearTags_are_found_by_set :
    shortNames ≠ [] ∧ longNames ≠ [] ∧ Header.IsTagName "A.B" ∧
    ∃ found, (tagsOf (.texts shortNames)).bind (parse · nearTags) = .ok found ∧
      (tagsOf (.texts longNames)).bind (parse · nearTags) = .ok found ∧
      found.map (·.tag) = ["AB", "A", "A.B"] ∧ OnePerTag shortNames nearTags found := by
  have hset : ∀ name, name ∈ shortNames ↔ name ∈ longNames := by
    intro name
    simp only [shortNames, longNames, List.mem_cons, List.not_mem_nil, or_false]
    tauto
  have hn : ∀ name ∈ shortNames, Header.IsTagName name := by decide
  obtain ⟨hsame, hreturns⟩ :=
    tags_are_found_by_set (by decide) (by decide) hset hn nearTags
  have hg : gives (·.map (·.tag) == ["AB", "A", "A.B"])
      ((tagsOf (.texts shortNames)).bind (parse · nearTags)) = true := by decide +kernel
  obtain ⟨found, hfound, htags⟩ := exists_of_gives hg
  exact ⟨by decide, by decide, by decide, found, hfound, hsame ▸ hfound, eq_of_beq htags,
    hreturns.result_of_eq_ok hfound⟩

theorem isRegion_of_plain {cs : List Char}
    (h : ∀ c ∈ cs, Scan.isQuote c = false ∧ c ≠ '{' ∧ c ≠ '}') :
    Scan.IsRegion '{' '}' ('{' :: (cs ++ ['}'])) := by
  refine ⟨cs ++ ['}'], rfl, by decide, ?_⟩
  induction cs with
  | nil => exact .closing (by decide) (by decide)
  | cons c cs ih =>
    obtain ⟨⟨hq, ho, hc⟩, hcs⟩ := List.forall_mem_cons.mp h
    exact .plain hq ho hc (ih hcs)

/-- An attribute with a number that has too many digits. -/
def longNumber : AttributeText :=
  .braced ['b'] ('{' :: (List.replicate 4301 '9' ++ ['}']))

def longTag : List Char := "<A".toList ++ (spaced [longNumber] ++ "/>".toList)

theorem longNumber_wellFormed : longNumber.WellFormed := by
  refine ⟨by decide, ?_⟩
  have hregion : Scan.IsRegion '{' '}' ('{' :: (List.replicate 4301 '9' ++ ['}'])) := by
    refine isRegion_of_plain fun c hc => ?_
    rw [(List.mem_replicate.mp hc).2]
    decide
  have htake := hregion.takeRegion? []
  rwa [List.append_nil] at htake

theorem excess?_longNumber : longNumber.value.excess? = some 4301 := by
  have hdigits : ∀ c ∈ List.replicate 4301 '9', Text.isDigit c = true := by
    intro c hc
    rw [(List.mem_replicate.mp hc).2]
    decide
  have htrim : Text.trim (List.replicate 4301 '9') = List.replicate 4301 '9' :=
    Text.trim_of_isTrimmed
      (Text.isTrimmed_of_all fun c hc => Text.isBlank_of_isDigit (hdigits c hc))
  have hinside : Expression.inside longNumber.value.raw = List.replicate 4301 '9' := by
    show (List.replicate 4301 '9' ++ ['}']).dropLast = _
    rw [List.dropLast_concat]
  show Numeral.excess? (Text.trim (Expression.inside longNumber.value.raw)) = some 4301
  rw [hinside, htrim]
  show Numeral.excessDigits? (List.replicate 4301 '9') = some 4301
  have hlength : 4300 < (List.replicate 4301 '9').length := by
    rw [List.length_replicate]
    omega
  rw [Numeral.excessDigits?, if_pos ⟨List.all_eq_true.mpr hdigits, hlength⟩, List.length_replicate]

/-- A tag is at the front of the text, and no list of patterns is returned for it. -/
theorem longTag_is_not_found :
    Header.StartsTag "A" longTag (spaced [longNumber] ++ "/>".toList) ∧
      ∃ fault, (tagsOf (.texts ["A"])).bind (parse · longTag) = .error fault := by
  have hstarts : Header.StartsTag "A" longTag (spaced [longNumber] ++ "/>".toList) :=
    ⟨rfl, ' ', rfl, by decide⟩
  have hn : ∀ name ∈ ["A"], Header.IsTagName name := by decide
  have hw : ∀ item ∈ [longNumber], item.WellFormed :=
    List.forall_mem_singleton.mpr longNumber_wellFormed
  refine ⟨hstarts, ?_⟩
  rw [tagsOf_texts (List.cons_ne_nil _ _), Except.bind]
  refine ((parse_returns ["A"] longTag).error ?_).imp fun fault h => h.1
  intro hread
  have htag := (Header.tag?_eq_some_iff hn none).mpr ⟨List.mem_singleton_self "A", hstarts⟩
  have hne : "<A".toList ≠ [] := by decide
  have hhit : ⟨0, "A", "<A".toList, spaced [longNumber] ++ "/>".toList⟩ ∈
      Scan.findAll (Header.tag? ["A"]) longTag := by
    rw [longTag, Scan.findAll_of_some hne htag]
    exact List.mem_cons_self
  have htake : takeTag? (spaced [longNumber] ++ "/>".toList) =
      some (spaced [longNumber] ++ ['/'], []) :=
    takeTag?_spaced_append hw (by decide +kernel)
  have hnames : EndsName ['/'] := endsName_closing (by decide)
  have hmem : longNumber.value ∈ readAttributes (spaced [longNumber] ++ ['/']) := by
    rw [readAttributes_spaced_append hw hnames]
    exact List.mem_append_left _ List.mem_cons_self
  have hexcess := hread _ hhit _ _ htake _ hmem (by decide)
  rw [excess?_longNumber] at hexcess
  cases hexcess

end InlinePattern

end Restyle
