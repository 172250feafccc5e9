import Mathlib.Tactic.MkIffOfInductiveProp
import Restyle.Proofs.Conversion.Items
import Restyle.Proofs.Fields
import Restyle.Proofs.Migration.Lookup

namespace Restyle.StyleConverter

open InlinePattern (Attribute joined readAttributes takeTag? written)
open Scan (FitsBraces FitsQuotes)

/-- That the parts of a tag can stand in another tag. The strings and regions of its attributes end,
and a text in a style attribute that styles are joined to can stand in braces. Classes and texts can
stand in double quotes. -/
@[mk_iff]
structure HasPlainParts (c : StyleConverter) (p : InlinePattern) : Prop where
  ends : ∀ a ∈ p.attributes, a.Ends
  inner : ∀ a ∈ p.attributes, a.name = "style".toList →
    p.dynamicStyles ≠ [] → a.kind = .quoted → FitsBraces (Expression.inside a.raw)
  classes : ∀ q ∈ p.styles, q.isStatic = true →
    ∀ own ∈ (c.classesFor q.name (styleValue q)).toOption,
      ∀ name ∈ own, FitsQuotes name.toList
  texts : ∀ q ∈ p.styles, q.isStatic = true →
    ∀ own ∈ (c.classesFor q.name (styleValue q)).toOption,
      own = [] → FitsQuotes q.value.display.toList

instance (c : StyleConverter) (p : InlinePattern) : Decidable (c.HasPlainParts p) :=
  decidable_of_iff _ (hasPlainParts_iff c p).symm

/-- That moreover no two attributes have the same name, and a style attribute is no bare name. -/
@[mk_iff]
structure IsPlainTag (c : StyleConverter) (p : InlinePattern) : Prop extends HasPlainParts c p where
  distinct : (p.attributes.map (·.name)).Nodup
  valued : ∀ a ∈ p.attributes, a.name = "style".toList →
    ¬(a.kind = .bare ∧ a.raw = "true".toList)

instance (c : StyleConverter) (p : InlinePattern) : Decidable (c.IsPlainTag p) :=
  decidable_of_iff _ (isPlainTag_iff c p).symm

section

variable {c : StyleConverter} {p : InlinePattern} {found : List (StyleProperty × List String)}

theorem ofList_beq (name : List Char) (text : String) :
    (String.ofList name == text) = (name == text.toList) := by
  rw [Bool.eq_iff_iff, beq_iff_eq, beq_iff_eq, ← String.toList_inj, String.toList_ofList]

theorem isPassthrough_of_name {a : Attribute} {text : String} (h : a.name = text.toList)
    (hp : InlinePattern.isPassthrough text = true) : a.isPassthrough = true := by
  rw [Attribute.isPassthrough, h, String.ofList_toList]
  exact hp

theorem mem_of_staticClasses (h : c.staticClasses p.styles = .ok found)
    {entry : StyleProperty × List String} (he : entry ∈ found) :
    entry.1 ∈ p.styles ∧ entry.1.isStatic = true ∧
      entry.2 ∈ (c.classesFor entry.1.name (styleValue entry.1)).toOption := by
  obtain ⟨q, hq, hc⟩ := exists_of_mem_mapM h he
  obtain ⟨own, hown, rfl⟩ := map_eq_ok hc
  obtain ⟨hm, hs⟩ := List.mem_filter.mp hq
  refine ⟨hm, hs, ?_⟩
  rw [hown]
  rfl

theorem HasPlainParts.isSound (h : c.HasPlainParts p) : ∀ a ∈ p.attributes, a.IsSound :=
  fun a ha => InlinePattern.isSound_of_mem_readAttributes ha (h.ends a ha)

theorem HasPlainParts.fitsStyle (h : c.HasPlainParts p) (hp : p.IsRead) :
    FitsStyle p.dynamicStyles (p.attributes.find? (·.name == "style".toList)) := by
  have hdynamic : ∀ q ∈ p.dynamicStyles, q.isStatic = false ∧
      ∃ a ∈ p.attributes, a.isPassthrough = false ∧ a.Gives q := by
    intro q hq
    obtain ⟨hm, hs⟩ := List.mem_filter.mp hq
    exact ⟨by simpa using hs, hp.exists_gives hm⟩
  have hfind : ∀ a ∈ p.attributes.find? (·.name == "style".toList),
      a ∈ p.attributes ∧ a.name = "style".toList := by
    intro a ha
    exact ⟨List.mem_of_find?_eq_some ha, by simpa using List.find?_some ha⟩
  constructor
  · intro q hq
    obtain ⟨-, a, ha, hnot, hg⟩ := hdynamic q hq
    rw [hg.name]
    exact (h.isSound a ha).named hnot
  · intro q hq
    obtain ⟨hs, a, ha, hnot, hg⟩ := hdynamic q hq
    exact (h.isSound a ha).keeps_display hnot hg hs
  · exact fun a ha => h.isSound a (hfind a ha).1
  · exact fun a ha => (hfind a ha).2
  · exact fun hd a ha => h.inner a (hfind a ha).1 (hfind a ha).2 hd

theorem HasPlainParts.isSound_kept (h : c.HasPlainParts p) (hp : p.IsRead)
    (hc : c.staticClasses p.styles = .ok found) :
    ∀ q ∈ keptStyles found, (toAttribute q).IsSound := by
  intro q hq
  obtain ⟨entry, he, rfl⟩ := List.mem_map.mp hq
  obtain ⟨hm, hempty⟩ := List.mem_filter.mp he
  obtain ⟨hstyle, hs, hown⟩ := mem_of_staticClasses hc hm
  have htext := h.texts entry.1 hstyle hs entry.2 hown (List.isEmpty_iff.mp hempty)
  obtain ⟨a, ha, hnot, hg⟩ := hp.exists_gives hstyle
  refine isSound_toAttribute ?_ hg.value htext
  rw [hg.name]
  exact (h.isSound a ha).named hnot

theorem HasPlainParts.fitsQuotes (h : c.HasPlainParts p) (hc : c.staticClasses p.styles = .ok found) :
    ∀ name ∈ found.flatMap (·.2), FitsQuotes name.toList := by
  rw [List.forall_mem_flatMap]
  intro entry he
  obtain ⟨hq, hs, hown⟩ := mem_of_staticClasses hc he
  exact h.classes entry.1 hq hs entry.2 hown

theorem HasPlainParts.isSound_other (h : c.HasPlainParts p) : ∀ a ∈ otherAttributes p, a.IsSound :=
  fun a ha => h.isSound a (List.mem_filter.mp ha).1

theorem HasPlainParts.isSound_converted (h : c.HasPlainParts p) (hp : p.IsRead)
    (hc : c.staticClasses p.styles = .ok found) :
    ∀ a ∈ convertedAttributes p found, a.IsSound := by
  simp only [convertedAttributes, List.forall_mem_append, List.forall_mem_map]
  exact ⟨isSound_classAttributes (h.fitsQuotes hc), (h.fitsStyle hp).isSound,
    h.isSound_kept hp hc, h.isSound_other⟩

theorem find?_style_of_isRead (hp : p.IsRead) :
    p.passthrough.find? (·.name == "style") =
      (p.attributes.find? (·.name == "style".toList)).map fun a =>
        ⟨String.ofList a.name, String.ofList a.raw⟩ := by
  have hname : ∀ a : Attribute,
      decide (a.isPassthrough = true ∧ (String.ofList a.name == "style") = true) =
        (a.name == "style".toList) := by
    intro a
    rw [ofList_beq, Bool.eq_iff_iff, decide_eq_true_eq, beq_iff_eq, and_iff_right_iff_imp]
    exact fun hs => isPassthrough_of_name hs (by decide)
  rw [hp.passthrough, List.find?_map, List.find?_filter]
  simp only [Function.comp_def, hname]

theorem map_passthroughText_of_isRead (hp : p.IsRead) :
    (p.passthrough.filter (·.name != "style")).map passthroughText =
      (otherAttributes p).map fun a =>
        passthroughText ⟨String.ofList a.name, String.ofList a.raw⟩ := by
  rw [hp.passthrough, List.filter_map, List.map_map, List.filter_filter, otherAttributes]
  simp only [Function.comp_def, bne, ofList_beq, Bool.and_comm]

/-- Each text that is written into a converted tag is the text of an attribute, if the style is. -/
theorem HasPlainParts.shows (h : c.HasPlainParts p) (hp : p.IsRead)
    (hc : c.staticClasses p.styles = .ok found) {style : List Attribute}
    (hstyle : Shows [styleAttribute (p.dynamicStyles.map styleEntry)
      ((p.attributes.find? (·.name == "style".toList)).map fun a =>
        ⟨String.ofList a.name, String.ofList a.raw⟩)] style) :
    Shows ([classAttribute (found.flatMap (·.2)),
        styleAttribute (p.dynamicStyles.map styleEntry) (p.passthrough.find? (·.name == "style"))] ++
        (found.filter (·.2.isEmpty)).map (fun (property, _) => keptAttribute property) ++
        (p.passthrough.filter (·.name != "style")).map passthroughText)
      (classAttributes (found.flatMap (·.2)) ++
        (style ++ ((keptStyles found).map toAttribute ++ otherAttributes p))) := by
  have hkept : (found.filter (·.2.isEmpty)).map (fun (property, _) => keptAttribute property) =
      (keptStyles found).map keptAttribute := by
    rw [keptStyles, List.map_map]
    rfl
  have hothers := shows_map h.isSound_other fun a ha => toList_passthroughText (h.isSound_other a ha)
  rw [List.map_id'] at hothers
  rw [find?_style_of_isRead hp, map_passthroughText_of_isRead hp, hkept, List.append_assoc,
    ← List.singleton_append, List.append_assoc]
  refine (shows_classAttribute (h.fitsQuotes hc)).append (hstyle.append ?_)
  exact (shows_map (h.isSound_kept hp hc) fun q _ => toList_keptAttribute q).append hothers

theorem IsPlainTag.shows (h : c.IsPlainTag p) (hp : p.IsRead)
    (hc : c.staticClasses p.styles = .ok found) :
    Shows ([classAttribute (found.flatMap (·.2)),
        styleAttribute (p.dynamicStyles.map styleEntry) (p.passthrough.find? (·.name == "style"))] ++
        (found.filter (·.2.isEmpty)).map (fun (property, _) => keptAttribute property) ++
        (p.passthrough.filter (·.name != "style")).map passthroughText)
      (convertedAttributes p found) := by
  refine h.toHasPlainParts.shows hp hc ((h.fitsStyle hp).shows fun _ a ha => ?_)
  have hname : a.name = "style".toList := by simpa using List.find?_some ha
  exact h.valued a (List.mem_of_find?_eq_some ha) hname

/-- The names of the styles without a class are names of attributes that are not passed through. -/
theorem kept_names_sublist (hp : p.IsRead) (hc : c.staticClasses p.styles = .ok found) :
    List.Sublist ((keptStyles found).map (·.name.toList))
      ((p.attributes.filter (!·.isPassthrough)).map (·.name)) := by
  have hfound : found.map (·.1) = (p.styles.filter (·.isStatic)).map id := by
    refine map_eq_map_of_mapM (fun q entry he => ?_) hc
    obtain ⟨own, -, rfl⟩ := map_eq_ok he
    rfl
  have hkept : List.Sublist (keptStyles found) p.styles := by
    have hsome := (List.filter_sublist (p := (·.2.isEmpty)) (l := found)).map (·.1)
    rw [hfound, List.map_id] at hsome
    exact hsome.trans List.filter_sublist
  rw [← hp.names_styles]
  exact hkept.map _

/-- The names that follow the class and the style in a converted tag. -/
def restNames (p : InlinePattern) (found : List (StyleProperty × List String)) : List (List Char) :=
  (keptStyles found).map (·.name.toList) ++ (otherAttributes p).map (·.name)

theorem nodup_restNames (hp : p.IsRead) (hd : (p.attributes.map (·.name)).Nodup)
    (hc : c.staticClasses p.styles = .ok found) : (restNames p found).Nodup := by
  have hothers : List.Sublist (otherAttributes p) (p.attributes.filter (·.isPassthrough)) := by
    have hfilter : otherAttributes p =
        (p.attributes.filter (·.isPassthrough)).filter (·.name != "style".toList) := by
      rw [List.filter_filter, otherAttributes]
      simp only [Bool.and_comm]
    rw [hfilter]
    exact List.filter_sublist
  -- an attribute is passed through or gives a style, so no name is in both parts
  have hperm := List.filter_append_perm Attribute.isPassthrough p.attributes
  have hall := (List.perm_append_comm.trans hperm).map Attribute.name
  rw [List.map_append] at hall
  exact (hall.nodup_iff.mpr hd).sublist ((kept_names_sublist hp hc).append (hothers.map _))

/-- A name that is always passed through is a name of the rest only if an attribute other than the
style attribute has it. -/
theorem mem_restNames (hp : p.IsRead) (hc : c.staticClasses p.styles = .ok found) {text : String}
    (ht : InlinePattern.isPassthrough text = true) (hm : text.toList ∈ restNames p found) :
    text.toList ∈ p.attributes.map (·.name) ∧ text ≠ "style" := by
  rcases List.mem_append.mp hm with hm | hm
  · obtain ⟨a, ha, he⟩ := List.mem_map.mp ((kept_names_sublist hp hc).subset hm)
    have hnot := (List.mem_filter.mp ha).2
    rw [isPassthrough_of_name he ht] at hnot
    cases hnot
  · obtain ⟨a, ha, he⟩ := List.mem_map.mp hm
    obtain ⟨hm, hboth⟩ := List.mem_filter.mp ha
    refine ⟨List.mem_map.mpr ⟨a, hm, he⟩, ?_⟩
    rintro rfl
    simp [he] at hboth

/-- No two attributes of a converted tag have the same name, unless a tag with a class of its own gets
another one. -/
theorem IsPlainTag.nodup_names (h : c.IsPlainTag p) (hp : p.IsRead)
    (hc : c.staticClasses p.styles = .ok found)
    (hclass : found.flatMap (·.2) = [] ∨ "className".toList ∉ p.attributes.map (·.name)) :
    ((convertedAttributes p found).map (·.name)).Nodup := by
  have hrest : ((keptStyles found).map toAttribute ++ otherAttributes p).map (·.name) =
      restNames p found := by
    rw [List.map_append, List.map_map, restNames]
    congr 1
    exact List.map_congr_left fun q _ => name_toAttribute q
  have hnodup := nodup_restNames hp h.distinct hc
  have hstyle : "style".toList ∉ restNames p found := fun hm =>
    (mem_restNames hp hc (by decide) hm).2 rfl
  rw [convertedAttributes, List.map_append, List.map_append, hrest, names_classAttributes]
  generalize hs : (styleAttributes p.dynamicStyles
    (p.attributes.find? (·.name == "style".toList))).map (·.name) = styleNames
  -- the style attribute comes from one name that is taken out of the rest
  have hafter : (styleNames ++ restNames p found).Nodup ∧
      ("className".toList ∈ styleNames ++ restNames p found →
        "className".toList ∈ restNames p found) := by
    rcases (h.fitsStyle hp).names_styleAttributes with hnil | hone
    · rw [← hs, hnil]
      exact ⟨hnodup, id⟩
    · rw [← hs, hone, List.singleton_append, List.nodup_cons, List.mem_cons]
      exact ⟨⟨hstyle, hnodup⟩, fun hm => hm.resolve_left (by decide)⟩
  split
  next => exact hafter.1
  next hne =>
    have hown := hclass.resolve_left fun hnil => hne (List.isEmpty_iff.mpr hnil)
    refine List.nodup_cons.mpr ⟨fun hm => hown ?_, hafter.1⟩
    exact (mem_restNames hp hc (by decide) (hafter.2 hm)).1

/-- The attributes of a tag that is written in full are written in full in the converted tag. -/
theorem isFull_converted (hf : ∀ a ∈ p.attributes, a.IsFull) :
    ∀ a ∈ convertedAttributes p found, a.IsFull := by
  have hexisting : ∀ a ∈ p.attributes.find? (·.name == "style".toList), a.IsFull := fun a ha =>
    hf a (List.mem_of_find?_eq_some ha)
  simp only [convertedAttributes, List.forall_mem_append, List.forall_mem_map]
  exact ⟨isFull_classAttributes _, isFull_styleAttributes _ hexisting,
    fun q _ => isFull_toAttribute q, fun a ha => hf a (List.mem_filter.mp ha).1⟩

end

/-- That a text is one tag with some attributes, and all of the text is read. -/
def IsTag (text element : List Char) (attributes : List Attribute) : Prop :=
  ∃ body, text = '<' :: (element ++ (body ++ ['>'])) ∧ takeTag? (body ++ ['>']) = some (body, []) ∧
    readAttributes body = attributes

theorem isTag_written {attributes : List Attribute} (hs : ∀ a ∈ attributes, a.IsSound)
    (element : List Char) :
    IsTag ('<' :: (element ++ (written attributes ++ ['>']))) element (joined attributes) := by
  have hend : takeTag? ['>'] = some ([], []) := by
    rw [takeTag?]
    simp [show Expression.isPlainQuote '>' = false by decide]
  have htag := InlinePattern.takeTag?_written_append hs hend
  rw [List.append_nil] at htag
  exact ⟨written attributes, rfl, htag, InlinePattern.readAttributes_written hs⟩

theorem getLast?_elementFor (name : String) :
    ('<' :: (elementFor name).toList).getLast? ≠ some '/' := by
  have helements : ∀ entry ∈ elements, ('<' :: entry.2.toList).getLast? ≠ some '/' := by decide
  unfold elementFor
  cases hl : elements.lookup name with
  | none => decide
  | some element => exact helements _ (mem_of_lookup hl)

/-- The text of a tag before its bracket does not end with a slash. -/
theorem getLast?_written {attributes : List Attribute} (hs : ∀ a ∈ attributes, a.IsSound)
    {front : List Char} (hf : front.getLast? ≠ some '/') :
    (front ++ written attributes).getLast? ≠ some '/' := by
  induction attributes generalizing front with
  | nil => rwa [written, List.flatMap_nil, List.append_nil]
  | cons a attributes ih =>
    obtain ⟨ha, hrest⟩ := List.forall_mem_cons.mp hs
    have hsplit : front ++ written (a :: attributes) =
        front ++ [' '] ++ a.render ++ written attributes := by
      simp [written]
    rw [hsplit]
    refine ih hrest ?_
    rw [List.getLast?_append_of_ne_nil _ (InlinePattern.render_ne_nil ha)]
    exact InlinePattern.getLast?_attribute ha

theorem isOpening_written {attributes : List Attribute} (hs : ∀ a ∈ attributes, a.IsSound)
    (name : String) (front : List Char) :
    '<' :: ((elementFor name).toList ++ (written attributes ++ ['>'])) ≠ front ++ ['/', '>'] := by
  intro h
  have hconcat : '<' :: (elementFor name).toList ++ written attributes ++ ['>'] =
      front ++ ['/'] ++ ['>'] := by
    simpa using h
  refine getLast?_written hs (getLast?_elementFor name) ?_
  rw [List.append_cancel_right hconcat, List.getLast?_concat]

/-- That the replacement of a tag is one tag again. No name is there twice, unless a tag with a class
of its own gets another one. If the tag is written in full, its replacement has the classes that were
found, the styles that are known at run time only, the styles without a class and the other attributes
of the tag. It is not closed at once. -/
def ReadsAsTag (c : StyleConverter) (p : InlinePattern) (output : ConversionOutput) : Prop :=
  ∃ record found attributes, output = { conversions := [record] } ∧
    c.staticClasses p.styles = .ok found ∧
    IsTag record.converted.toList (elementFor p.tag).toList attributes ∧
    (found.flatMap (·.2) = [] ∨ "className".toList ∉ p.attributes.map (·.name) →
      (attributes.map (·.name)).Nodup) ∧
    ((∀ a ∈ p.attributes, a.IsFull) → attributes = convertedAttributes p found) ∧
    ∀ front, record.converted.toList ≠ front ++ ['/', '>']

/-- A tag whose parts can stand in another tag is replaced by one tag, if the classes of its static
styles can be looked up. -/
theorem converted_tag_reads_as_tag (c : StyleConverter) {names : List String} {source : List Char}
    {patterns : List InlinePattern} (h : InlinePattern.parse names source = .ok patterns)
    {p : InlinePattern} (hp : p ∈ patterns) (hf : p.failed = false) (hplain : c.IsPlainTag p) :
    ReturnsIff (∀ style ∈ staticStyles p.styles, c.CanLookUp style) (ReadsAsTag c p)
      (c.FailsOn (staticStyles p.styles)) (c.convertInline p) := by
  have hread := InlinePattern.isRead_of_parse h hp hf
  have hfound := (c.staticClasses_returns p.styles).eq_ok
  rw [convertInline, if_neg (by simp [hf])]
  refine ReturnsIff.of_iff (hfound.bind fun found hc => .pure _ ?_) (iff_of_eq (and_true _))
  have hs := hplain.isSound_converted hread hc
  have htext := (hplain.shows hread hc).toList_text hs
  refine ⟨_, found, joined (convertedAttributes p found), rfl, hc, ?_, ?_, ?_, ?_⟩
  · simp only [String.toList_append, htext]
    simpa using isTag_written hs (elementFor p.tag).toList
  · intro hclass
    exact (hplain.nodup_names hread hc hclass).sublist (InlinePattern.names_joined_sublist hs)
  · exact fun hfull => InlinePattern.joined_eq_self hs (isFull_converted hfull)
  · simp only [String.toList_append, htext]
    simpa using isOpening_written hs p.tag

/-- A tag with an attribute of each kind, one of them with the text of a region that ends early. -/
def mixedTag : List Char :=
  "<XStack gap=\x7b4\x7d width=\x7bw\x7d zz='q' \x7b...rest\x7d style=\x7bs\x7d ".toList ++
    "onPress=\x7b() => go(\"\x7d\")\x7d disabled />".toList

theorem mixedTag_reads_as_tag :
    ∃ p output, InlinePattern.parse InlinePattern.defaultTags mixedTag = .ok [p] ∧
      p.failed = false ∧ IsPlainTag {} p ∧ convertInline {} p = .ok output ∧
      ReadsAsTag {} p output ∧ output.conversions.map (·.converted) = [
        "<View className=\"gap-1\" style=\x7b[\x7b width: w \x7d, s]\x7d zz=\"q\" \x7b...rest\x7d " ++
          "onPress=\x7b() => go(\"\x7d\")\x7d disabled>"] := by
  have hfound : gives (isReplaced (convertInline {})
      (fun p => !p.failed && decide (IsPlainTag {} p))
      ("<View className=\"gap-1\" style=\x7b[\x7b width: w \x7d, s]\x7d zz=\"q\" \x7b...rest\x7d " ++
        "onPress=\x7b() => go(\"\x7d\")\x7d disabled>"))
      (InlinePattern.parse InlinePattern.defaultTags mixedTag) = true := by
    decide +kernel
  obtain ⟨p, output, hp, hq, hc, ht⟩ := exists_of_isReplaced hfound
  simp only [Bool.and_eq_true, Bool.not_eq_true', decide_eq_true_eq] at hq
  obtain ⟨hf, hplain⟩ := hq
  have hreturns := converted_tag_reads_as_tag {} hp List.mem_cons_self hf hplain
  obtain ⟨output', hc', hreads⟩ := hreturns.ok (hreturns.exists_ok_iff.mp ⟨output, hc⟩)
  have he : output = output' := Except.ok.inj (hc.symm.trans hc')
  subst he
  exact ⟨p, output, hp, hf, hplain, hc, hreads, ht⟩

/-- A tag that is closed at once. -/
def closedTag : List Char := "<XStack gap=\x7b4\x7d />".toList

/-- The replacement of a tag that is closed at once is an opening tag. -/
theorem closedTag_is_opened :
    ∃ p output, InlinePattern.parse InlinePattern.defaultTags closedTag = .ok [p] ∧
      p.failed = false ∧ (p.attributes.map (·.name)).Nodup ∧
      p.source.toList = "<XStack gap=\x7b4\x7d ".toList ++ ['/', '>'] ∧
      convertInline {} p = .ok output ∧
      output.conversions.map (·.converted) = ["<View className=\"gap-1\">"] := by
  have hfound : gives (isReplaced (convertInline {})
      (fun p => !p.failed && decide (p.attributes.map (·.name)).Nodup &&
        p.source.toList == "<XStack gap=\x7b4\x7d ".toList ++ ['/', '>'])
      "<View className=\"gap-1\">")
      (InlinePattern.parse InlinePattern.defaultTags closedTag) = true := by
    decide +kernel
  obtain ⟨p, output, hp, hq, hc, ht⟩ := exists_of_isReplaced hfound
  simp only [Bool.and_eq_true, Bool.not_eq_true', decide_eq_true_eq, beq_iff_eq] at hq
  exact ⟨p, output, hp, hq.1.1, hq.1.2, hq.2, hc, ht⟩

end Restyle.StyleConverter
