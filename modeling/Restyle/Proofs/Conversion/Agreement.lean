import Restyle.Proofs.Conversion.Theme
import Restyle.Proofs.Number.Numeral

namespace Restyle

namespace Scale

theorem token?_eq_some {words : List String} {cs : List Char} {numeral : Numeral}
    (h : token? words cs = some numeral) :
    ∃ front ∈ [] :: words.map String.toList, ∃ rest, cs = '$' :: (front ++ rest) ∧
      Numeral.readUnsigned? false rest = some numeral := by
  unfold token? at h
  split at h
  next cs =>
    cases hw : words.findSome? fun word => word.toList.isPrefixOf? cs with
    | none =>
      rw [hw] at h
      exact ⟨[], List.mem_cons_self, cs, rfl, h⟩
    | some rest =>
      rw [hw] at h
      obtain ⟨word, hm, hp⟩ := List.exists_of_findSome?_eq_some hw
      exact ⟨word.toList, List.mem_cons_of_mem _ (List.mem_map_of_mem hm), rest,
        by rw [← List.append_eq_of_isPrefixOf?_eq_some hp], h⟩
  next => cases h

/-- The number of a token is not negative, and nothing stands after it. -/
theorem token?_ends {words : List String} {cs : List Char} {numeral : Numeral}
    (h : token? words cs = some numeral) :
    numeral.negative = false ∧ cs.getLast? ≠ some '%' := by
  obtain ⟨front, -, rest, rfl, hr⟩ := token?_eq_some h
  refine ⟨Numeral.negative_of_readUnsigned? hr, fun hl => ?_⟩
  have hne : rest ≠ [] := by
    rintro rfl
    cases hr
  rw [← List.cons_append, List.getLast?_append_of_ne_nil _ hne] at hl
  rcases Numeral.mem_of_readUnsigned? hr '%' (List.mem_of_getLast? hl) with hd | hd
  · exact absurd hd (by decide)
  · exact absurd hd (by decide)

end Scale

namespace Rule

variable {stem : String} {cs : List Char} {numeral : Numeral}

theorem spacingClass_of_token (sizing : Bool) (h : Scale.spacingToken? cs = some numeral) :
    spacingClass stem sizing cs =
      numeral.value.map fun px => some (Utility.join stem (Scale.spacingSuffix px)) := by
  obtain ⟨front, -, rest, hcs, -⟩ := Scale.token?_eq_some h
  have hauto : (cs == "auto".toList) = false := by
    rw [hcs]
    rfl
  have hlast : (cs.getLast? == some '%') = false := beq_false_of_ne (Scale.token?_ends h).2
  rw [spacingClass, hauto, hlast, if_neg Bool.false_ne_true, if_neg Bool.false_ne_true, h]

theorem radiusClass_of_token (hf : (cs == Scale.fullRadiusToken.toList) = false)
    (h : Scale.radiusToken? cs = some numeral) :
    radiusClass stem cs =
      numeral.value.map fun px => some (Utility.join stem (Scale.radiusSuffix px)) := by
  rw [radiusClass, hf, if_neg Bool.false_ne_true, h]
  dsimp only
  cases hv : numeral.value with
  | error fault => rfl
  | ok px =>
    have hbelow := Numeral.not_isBelow_of_value (Scale.token?_ends h).1 hv
    show Except.ok (radiusOf? stem px) = _
    rw [radiusOf?, hbelow, if_neg Bool.false_ne_true]
    rfl

end Rule

namespace StyleConverter

variable {c : StyleConverter} {property stem token : String} {category : Category}

/-- That a token which a lookup finds has the class that a rule gives it, and no more, and that a
fault of the lookup is one of the rule. -/
structure Agrees (stem : String) (lookup : Except Fault TokenMapping)
    (rule : Except Fault (Option String)) : Prop where
  single : ∀ m, lookup = .ok m → m.classes = none
  same : (∃ m, lookup = .ok m ∧ m.className = none) ∨
    lookup.map (fun m => m.className.map (Utility.join stem)) = rule

theorem agrees_spacing (sizing : Bool) (cs : List Char) :
    Agrees stem (Palette.resolveSpacing (String.ofList cs)) (Rule.spacingClass stem sizing cs) := by
  rw [Palette.resolveSpacing, String.toList_ofList]
  cases hn : Scale.spacingToken? cs with
  | none => exact ⟨by rintro m ⟨⟩; rfl, .inl ⟨_, rfl, rfl⟩⟩
  | some numeral =>
    rw [Rule.spacingClass_of_token sizing hn]
    dsimp only
    cases numeral.value with
    | error fault => exact ⟨by rintro m ⟨⟩, .inr rfl⟩
    | ok px => exact ⟨by rintro m ⟨⟩; rfl, .inr rfl⟩

theorem agrees_radius (cs : List Char) :
    Agrees stem (Palette.resolveRadius (String.ofList cs)) (Rule.radiusClass stem cs) := by
  unfold Palette.resolveRadius
  cases hfull : String.ofList cs == Scale.fullRadiusToken with
  | true =>
    obtain rfl : cs = Scale.fullRadiusToken.toList := by
      rw [← eq_of_beq hfull, String.toList_ofList]
    exact ⟨by rintro m ⟨⟩; rfl, .inr rfl⟩
  | false =>
    have hlist : (cs == Scale.fullRadiusToken.toList) = false :=
      beq_false_of_ne fun he => ne_of_beq_false hfull (by rw [he, String.ofList_toList])
    rw [String.toList_ofList]
    cases hn : Scale.radiusToken? cs with
    | none => exact ⟨by rintro m ⟨⟩; rfl, .inl ⟨_, rfl, rfl⟩⟩
    | some numeral =>
      rw [Rule.radiusClass_of_token hlist hn]
      dsimp only
      cases numeral.value with
      | error fault => exact ⟨by rintro m ⟨⟩, .inr rfl⟩
      | ok px => exact ⟨by rintro m ⟨⟩; rfl, .inr rfl⟩

theorem agrees_color (palette : Palette) {cs : List Char} (hd : cs.head? = some '$') :
    Agrees stem (palette.resolveColor (String.ofList cs))
      (Rule.colorClass palette.colors stem cs) := by
  rw [Palette.resolveColor, Rule.colorClass, hd]
  cases Color.find? palette.colors (String.ofList cs) with
  | error fault => exact ⟨by rintro m ⟨⟩, .inr rfl⟩
  | ok found =>
    cases found with
    | none => exact ⟨by rintro m ⟨⟩; rfl, .inr rfl⟩
    | some pair => exact ⟨by rintro m ⟨⟩; rfl, .inr rfl⟩

/-- The tables of all properties but `fontFamily`, and the rules beside them. -/
theorem tokenTable?_eq_some (h : tokenTable? property = some (category, stem))
    (hp : property ≠ "fontFamily") :
    (category = .spacing ∧ ∃ sizing, Rule.find? property = some (.spacing stem sizing)) ∨
    (category = .color ∧ Rule.find? property = some (.color stem)) ∨
    (category = .radius ∧ Rule.find? property = some (.radius stem)) := by
  have hspacings : ∀ pair ∈ Utility.spacingStems,
      Rule.find? pair.1 = some (.spacing pair.2 false) := by decide +kernel
  have hsizings : ∀ pair ∈ Utility.sizingStems,
      Rule.find? pair.1 = some (.spacing pair.2 true) := by decide +kernel
  have hcolors : ∀ pair ∈ Utility.colorStems, Rule.find? pair.1 = some (.color pair.2) := by
    decide +kernel
  have hradii : ∀ pair ∈ Utility.radiusStems, Rule.find? pair.1 = some (.radius pair.2) := by
    decide +kernel
  unfold tokenTable? at h
  split at h
  next stem hl =>
    cases h
    rcases List.mem_append.mp (Fields.mem_of_get? hl) with hm | hm
    · exact .inl ⟨rfl, false, hspacings _ hm⟩
    · exact .inl ⟨rfl, true, hsizings _ hm⟩
  next =>
    split at h
    next stem hl =>
      cases h
      exact .inr (.inl ⟨rfl, hcolors _ (Fields.mem_of_get? hl)⟩)
    next =>
      split at h
      next stem hl =>
        cases h
        exact .inr (.inr ⟨rfl, hradii _ (Fields.mem_of_get? hl)⟩)
      next =>
        rw [if_neg (by simpa using hp)] at h
        cases h

theorem agrees_resolve (hc : c.palette.colors = c.ruleColors) (hp : property ≠ "fontFamily")
    (ht : tokenTable? property = some (category, stem)) (hd : token.toList.head? = some '$') :
    Agrees stem (c.palette.resolve (some category) token c.locale)
      (Rule.convert c.ruleColors property (.text token)) := by
  rcases tokenTable?_eq_some ht hp with ⟨rfl, sizing, hr⟩ | ⟨rfl, hr⟩ | ⟨rfl, hr⟩
  · rw [Rule.convert, hr]
    exact agrees_spacing sizing (Text.trim token.toList)
  · rw [Rule.convert, hr, ← hc]
    exact agrees_color c.palette (Text.head?_trim hd rfl)
  · rw [Rule.convert, hr]
    exact agrees_radius (Text.trim token.toList)

/-- The palette is asked for tokens of the properties that have a table, and for no other value. -/
theorem tokenClasses?_cases (c : StyleConverter) (property : String) (value : Json) :
    c.tokenClasses? property value = .ok none ∨
    ∃ token category stem, value = .text token ∧ token.toList.head? = some '$' ∧
      tokenTable? property = some (category, stem) ∧
      c.tokenClasses? property value =
        (c.palette.resolve (some category) token c.locale).map fun m =>
          m.className.map fun name => m.classes.getD [Utility.join stem name] := by
  unfold tokenClasses?
  split
  next token category stem ht =>
    by_cases hd : token.toList.head? = some '$'
    · refine .inr ⟨token, category, stem, rfl, hd, ht, ?_⟩
      rw [if_pos (beq_iff_eq.mpr hd)]
    · rw [if_neg fun he => hd (beq_iff_eq.mp he)]
      exact .inl rfl
  next => exact .inl rfl

theorem tokenClasses?_of_agrees (hc : c.palette.colors = c.ruleColors)
    (hp : property ≠ "fontFamily") (value : Json) :
    c.tokenClasses? property value = .ok none ∨
    c.tokenClasses? property value =
      (Rule.convert c.ruleColors property value).map fun found => found.map fun name => [name] := by
  rcases tokenClasses?_cases c property value with
    hnone | ⟨token, category, stem, rfl, hd, ht, hclasses⟩
  · exact .inl hnone
  have hagree := agrees_resolve hc hp ht hd
  rw [hclasses]
  rcases hagree.same with ⟨m, hm, hname⟩ | hsame
  · left
    rw [hm]
    simp only [Except.map, hname, Option.map_none]
  · right
    rw [← hsame]
    cases hm : c.palette.resolve (some category) token c.locale with
    | error fault => rfl
    | ok m =>
      simp only [Except.map, hagree.single m hm, Option.getD_none, Option.map_map,
        Function.comp_def]

theorem classesFor_of_agrees (hc : c.palette.colors = c.ruleColors)
    (hp : property ≠ "fontFamily") (value : Json) :
    c.classesFor property value =
      (Rule.convert c.ruleColors property value).map Option.toList := by
  rw [classesFor]
  rcases tokenClasses?_of_agrees hc hp value with hclasses | hclasses
  · rw [hclasses]
    cases Rule.convert c.ruleColors property value with
    | error fault => rfl
    | ok found => rfl
  · rw [hclasses]
    cases Rule.convert c.ruleColors property value with
    | error fault => rfl
    | ok found =>
      cases found with
      | none => rfl
      | some name => rfl

theorem convert_of_resolve (hc : c.palette.colors = c.ruleColors) (hp : property ≠ "fontFamily")
    (ht : tokenTable? property = some (category, stem)) (hd : token.toList.head? = some '$')
    {m : TokenMapping} (hm : c.palette.resolve (some category) token c.locale = .ok m)
    {name : String} (hname : m.className = some name) :
    Rule.convert c.ruleColors property (.text token) = .ok (some (Utility.join stem name)) := by
  have hagree := agrees_resolve hc hp ht hd
  rw [hm] at hagree
  rcases hagree.same with ⟨m', hm', hnone⟩ | hsame
  · obtain rfl : m = m' := Except.ok.inj hm'
    rw [hname] at hnone
    cases hnone
  · rw [← hsame]
    simp only [Except.map, hname, Option.map_some]

/-- With one dictionary of colours for the palette and the rules, the classes of a style are what
its rule gives, faults included, and a token that the palette finds has the class of its rule. -/
theorem classesFor_eq_convert (colors : Fields Json) (locale : Locale)
    (hp : property ≠ "fontFamily") :
    ∃ palette, Palette.ofJson (.object [("colors", .object colors)]) = .ok palette ∧
      ∀ c : StyleConverter, c = ⟨palette, Palette.colorsOr (some (.object colors)), locale⟩ →
        (∀ value, c.classesFor property value =
          (Rule.convert c.ruleColors property value).map Option.toList) ∧
        ∀ token category stem m name, tokenTable? property = some (category, stem) →
          token.toList.head? = some '$' →
          c.palette.resolve (some category) token locale = .ok m → m.className = some name →
          Rule.convert c.ruleColors property (.text token) =
            .ok (some (Utility.join stem name)) := by
  refine ⟨⟨Palette.colorsOr (some (.object colors)), Palette.orElse Palette.design.typography none⟩,
    rfl, ?_⟩
  rintro c rfl
  refine ⟨classesFor_of_agrees rfl hp, ?_⟩
  intro token category stem m name ht hd hm hname
  exact convert_of_resolve rfl hp ht hd hm hname

theorem classesFor_brand :
    "borderColor" ≠ "fontFamily" ∧
      ∃ palette, Palette.ofJson (.object [("colors", .object [("brand", .text "#123456")])]) =
        .ok palette ∧
        ∀ c : StyleConverter, c = ⟨palette,
            Palette.colorsOr (some (.object [("brand", .text "#123456")])), .named "ja"⟩ →
          c.classesFor "borderColor" (.text "$brand ") = .ok ["border-brand"] ∧
          c.classesFor "borderColor" (.text "$sand") = .ok [] ∧
          Rule.convert c.ruleColors "borderColor" (.text "$brand ") =
            .ok (some (Utility.join "border" "brand")) := by
  have hp : "borderColor" ≠ "fontFamily" := by decide
  obtain ⟨palette, hpalette, hagree⟩ :=
    classesFor_eq_convert [("brand", .text "#123456")] (.named "ja") hp
  refine ⟨hp, palette, hpalette, fun c hc => ?_⟩
  obtain ⟨hclasses, hfound⟩ := hagree c hc
  obtain rfl : palette = ⟨.object [("brand", .text "#123456")], Palette.design.typography⟩ :=
    (Except.ok.inj hpalette).symm
  subst hc
  have hm := exists_of_gives (p := fun m : TokenMapping => m.className = some "brand")
    (x := Palette.resolve ⟨.object [("brand", .text "#123456")], Palette.design.typography⟩
      (some .color) "$brand " (.named "ja")) (by decide +kernel)
  obtain ⟨m, hm, hname⟩ := hm
  have hbrand := hfound "$brand " .color "border" m "brand" (by decide +kernel) (by decide) hm
    (of_decide_eq_true hname)
  refine ⟨?_, ?_, hbrand⟩
  · rw [hclasses, hbrand]
    rfl
  · rw [hclasses]
    rfl

end StyleConverter

end Restyle
