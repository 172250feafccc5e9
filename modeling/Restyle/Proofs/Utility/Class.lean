import Mathlib.Data.List.Forall2
import Restyle.Proofs.Fields
import Restyle.Proofs.Number.Text
import Restyle.Proofs.Text.Words
import Restyle.Proofs.Traverse
import Restyle.Utility.Rule

namespace Restyle

open Text (isBlank IsSolid)

namespace Utility

variable {stem suffix value : String}

theorem isSolid_join (hs : IsSolid stem.toList) (h : ∀ c ∈ suffix.toList, isBlank c = false) :
    IsSolid (join stem suffix).toList := by
  unfold join
  split
  next => exact hs
  next =>
    rw [String.toList_append, String.toList_append]
    exact (hs.append (by decide)).append h

/-- That a class is not empty, and whether it has a blank in it. -/
structure IsClass (s : String) (blank : Bool) : Prop where
  ne_nil : s.toList ≠ []
  any_isBlank : s.toList.any isBlank = blank

theorem isClass_of_isSolid {s : String} (h : IsSolid s.toList) : IsClass s false :=
  ⟨h.ne_nil, List.any_eq_false.mpr fun c hc => by simp [h.notBlank c hc]⟩

theorem IsClass.isSolid_iff {s : String} {blank : Bool} (h : IsClass s blank) :
    IsSolid s.toList ↔ blank = false := by
  constructor
  · intro hs
    rw [← h.any_isBlank, (isClass_of_isSolid hs).any_isBlank]
  · rintro rfl
    refine ⟨h.ne_nil, fun c hc => ?_⟩
    simpa using List.any_eq_false.mp h.any_isBlank c hc

/-- A class with a value in brackets has the blanks of the value. -/
theorem isClass_arbitrary (hs : IsSolid stem.toList) (value : List Char) :
    IsClass (arbitrary stem (String.ofList value)) (value.any isBlank) := by
  have htext : (arbitrary stem (String.ofList value)).toList =
      stem.toList ++ ("-[".toList ++ (value ++ "]".toList)) := by
    simp [arbitrary]
  have hstem := (isClass_of_isSolid hs).any_isBlank
  have hopen : "-[".toList.any isBlank = false := by decide
  have hclose : "]".toList.any isBlank = false := by decide
  constructor
  · simp [htext, hs.ne_nil]
  · rw [htext, List.any_append, List.any_append, List.any_append, hstem, hopen, hclose,
      Bool.false_or, Bool.false_or, Bool.or_false]

theorem isSolid_arbitrary (hs : IsSolid stem.toList)
    (h : ∀ c ∈ value.toList, isBlank c = false) : IsSolid (arbitrary stem value).toList := by
  have hclass := isClass_arbitrary hs value.toList
  rw [String.ofList_toList] at hclass
  exact hclass.isSolid_iff.mpr (List.any_eq_false.mpr fun c hc => by simp [h c hc])

end Utility

namespace Scale

theorem isBlank_of_mem_pixels (px : Number) : ∀ c ∈ (pixels px).toList, isBlank c = false := by
  rw [pixels, String.toList_append]
  exact List.forall_mem_append.mpr
    ⟨fun c hc => isBlank_of_isNumeric (px.isNumeric_of_mem_text c hc), by decide⟩

/-- A name on a scale, or else the length in brackets, has no blanks. -/
theorem isBlank_of_mem_named? {scale : List (Int × String)}
    (hs : ∀ entry ∈ scale, ∀ c ∈ entry.2.toList, isBlank c = false) (px : Number) :
    ∀ c ∈ ((named? scale px).getD ("[" ++ pixels px ++ "]")).toList, isBlank c = false := by
  cases hn : named? scale px with
  | some name =>
    obtain ⟨n, -, hl⟩ := Option.bind_eq_some_iff.mp hn
    exact hs _ (mem_of_lookup hl)
  | none =>
    rw [Option.getD_none, String.toList_append, String.toList_append]
    exact List.forall_mem_append.mpr
      ⟨List.forall_mem_append.mpr ⟨by decide, isBlank_of_mem_pixels px⟩, by decide⟩

theorem isBlank_of_mem_spacingSuffix (px : Number) :
    ∀ c ∈ (spacingSuffix px).toList, isBlank c = false :=
  isBlank_of_mem_named? (by decide) px

theorem isBlank_of_mem_radiusSuffix (px : Number) :
    ∀ c ∈ (radiusSuffix px).toList, isBlank c = false := by
  unfold radiusSuffix
  split
  next => decide
  next => exact isBlank_of_mem_named? (by decide) px

end Scale

namespace Color

/-- That the names of a palette have no blanks in them. -/
def HasSolidNames (colors : Json) : Prop :=
  ∀ fields, colors.fields = .ok fields → ∀ name ∈ fields.names, ∀ c ∈ name.toList, isBlank c = false

theorem shadeToken?_eq_some {token : List Char} {family shade : String}
    (h : shadeToken? token = some (family, shade)) :
    ∀ c ∈ shade.toList, Text.isDigit c = true := by
  unfold shadeToken? at h
  split at h
  next =>
    dsimp only at h
    split at h
    next hall =>
      cases h
      rw [String.toList_ofList]
      exact List.all_eq_true.mp (Bool.and_eq_true_iff.mp hall).2
    next => cases h
  next => cases h

theorem isBlank_of_mem_find? {colors : Json} (hc : HasSolidNames colors) {token name : String}
    {value : Json} (h : find? colors token = .ok (some (name, value))) :
    ∀ c ∈ name.toList, isBlank c = false := by
  obtain ⟨fields, hf, h⟩ := bind_eq_ok h
  have hnames : ∀ name value, Fields.get? fields name = some value →
      ∀ c ∈ name.toList, isBlank c = false := fun name value hget =>
    hc fields hf name (List.mem_map_of_mem (f := (·.1)) (Fields.mem_of_get? hget))
  dsimp only at h
  split at h
  next color hget =>
    cases h
    exact hnames _ _ hget
  next =>
    split at h
    next => cases h
    next family shade hs =>
      split at h
      next shades hget =>
        obtain ⟨color, -, he⟩ := Option.map_eq_some_iff.mp (Except.ok.inj h)
        cases he
        rw [String.toList_append, String.toList_append]
        have hfamily : ∀ c ∈ (family.toList ++ "-".toList), isBlank c = false :=
          List.forall_mem_append.mpr ⟨hnames _ _ hget, by decide⟩
        exact List.forall_mem_append.mpr ⟨hfamily, fun c hc =>
          Text.isBlank_of_isDigit (shadeToken?_eq_some hs c hc)⟩
      next => cases h

end Color

namespace Rule

open Utility

variable {stem s : String} {cs : List Char}

theorem exists_of_ofMeasure {write : Number → Option String}
    (h : ofMeasure cs write = .ok (some s)) : ∃ x, write x = some s := by
  obtain ⟨x?, -, h⟩ := map_eq_ok h
  obtain ⟨x, -, h⟩ := Option.bind_eq_some_iff.mp h
  exact ⟨x, h⟩

theorem isSolid_arbitrary_text (hs : IsSolid stem.toList) (x : Number) :
    IsSolid (arbitrary stem x.text).toList :=
  isSolid_arbitrary hs fun c hc => isBlank_of_isNumeric (x.isNumeric_of_mem_text c hc)

theorem isSolid_arbitrary_pixels (hs : IsSolid stem.toList) (px : Number) :
    IsSolid (arbitrary stem (Scale.pixels px)).toList :=
  isSolid_arbitrary hs (Scale.isBlank_of_mem_pixels px)

theorem isSolid_flexClass (x : Number) : IsSolid (flexClass x).toList := by
  unfold flexClass
  split
  next => decide
  next => exact isSolid_arbitrary_text (by decide) x

theorem isSolid_growthClass (hs : IsSolid stem.toList) (x : Number) :
    IsSolid (growthClass stem x).toList := by
  unfold growthClass
  split
  next => exact hs
  next =>
    split
    next =>
      rw [String.toList_append]
      exact hs.append (by decide)
    next => exact isSolid_arbitrary_text hs x

theorem isSolid_layerClass (x : Number) : IsSolid (layerClass x).toList := by
  have hlayer : IsSolid "z".toList := by decide
  unfold layerClass
  split
  next =>
    split
    next =>
      rw [String.toList_append]
      exact IsSolid.append (by decide) fun c hc =>
        isBlank_of_isNumeric (x.isNumeric_of_mem_text c hc)
    next => exact isSolid_arbitrary_text hlayer x
  next => exact isSolid_arbitrary_text hlayer x

theorem isSolid_letterSpacingClass (px : Number) : IsSolid (letterSpacingClass px).toList := by
  unfold letterSpacingClass
  split
  next => decide
  next => exact isSolid_arbitrary_pixels (by decide) px

theorem isSolid_borderWidthClass (hs : IsSolid stem.toList) (px : Number) :
    IsSolid (borderWidthClass stem px).toList := by
  unfold borderWidthClass
  split
  next n _ =>
    split
    next =>
      rw [String.toList_append]
      exact hs.append (by decide)
    next =>
      split
      next => exact hs
      next =>
        split
        next =>
          exact isSolid_join hs fun c hc =>
            isBlank_of_isNumeric (isNumeric_of_mem_toString_int n c hc)
        next => exact isSolid_arbitrary_pixels hs px
  next => exact isSolid_arbitrary_pixels hs px

theorem isSolid_radiusOf? (hs : IsSolid stem.toList) {px : Number} (h : radiusOf? stem px = some s) :
    IsSolid s.toList := by
  unfold radiusOf? at h
  split at h
  next => cases h
  next =>
    cases h
    exact isSolid_join hs (Scale.isBlank_of_mem_radiusSuffix px)

theorem isSolid_radiusClass (hs : IsSolid stem.toList) (h : radiusClass stem cs = .ok (some s)) :
    IsSolid s.toList := by
  unfold radiusClass at h
  split at h
  next =>
    cases h
    exact isSolid_join hs (by decide)
  next =>
    split at h
    next =>
      obtain ⟨px, -, h⟩ := map_eq_ok h
      exact isSolid_radiusOf? hs h
    next =>
      obtain ⟨px, h⟩ := exists_of_ofMeasure h
      exact isSolid_radiusOf? hs h

theorem isSolid_zoomClass (h : zoomClass cs = .ok (some s)) : IsSolid s.toList := by
  unfold zoomClass at h
  split at h
  next => cases h
  next d _ =>
    split at h
    next => cases h
    next =>
      split at h
      next => cases h
      next =>
        split at h
        next n _ =>
          cases h
          rw [String.toList_append]
          exact IsSolid.append (by decide) fun c hc =>
            isBlank_of_isNumeric (isNumeric_of_mem_toString_int n c hc)
        next =>
          split at h
          next text ht =>
            cases h
            refine isSolid_arbitrary (by decide) fun c hc => ?_
            rw [String.toList_ofList] at hc
            exact isBlank_of_isNumeric (Decimal.isNumeric_of_mem_normalText? ht c hc)
          next => cases h

theorem isSolid_spacingOf (hs : IsSolid stem.toList) (px : Number) :
    IsSolid (spacingOf stem px).toList := by
  unfold spacingOf
  split
  next =>
    rw [String.toList_append]
    have hjoin := isSolid_join hs (Scale.isBlank_of_mem_spacingSuffix px.neg)
    exact IsSolid.append (by decide) hjoin.notBlank
  next => exact isSolid_join hs (Scale.isBlank_of_mem_spacingSuffix px)

/-- A text in percent is written as it is. -/
theorem isClass_spacingClass (hs : IsSolid stem.toList) {sizing : Bool}
    (h : spacingClass stem sizing cs = .ok (some s)) :
    IsClass s (cs.getLast? == some '%' && cs.any isBlank) := by
  have hname : ∀ text : String, (∀ c ∈ text.toList, isBlank c = false) →
      IsClass (stem ++ text) false := fun text ht =>
    isClass_of_isSolid (by rw [String.toList_append]; exact hs.append ht)
  unfold spacingClass at h
  split at h
  next he =>
    cases h
    rw [eq_of_beq he]
    exact hname "-auto" (by decide)
  next =>
    split at h
    next hp =>
      rw [hp, Bool.true_and]
      split at h
      next he =>
        cases h
        rw [eq_of_beq (Bool.and_eq_true_iff.mp he).2]
        exact hname "-full" (by decide)
      next =>
        cases h
        exact isClass_arbitrary hs cs
    next hp =>
      rw [Bool.not_eq_true] at hp
      rw [hp, Bool.false_and]
      apply isClass_of_isSolid
      split at h
      next =>
        obtain ⟨px, -, h⟩ := map_eq_ok h
        cases h
        exact isSolid_join hs (Scale.isBlank_of_mem_spacingSuffix px)
      next =>
        obtain ⟨px, h⟩ := exists_of_ofMeasure h
        cases h
        exact isSolid_spacingOf hs px

/-- The name of an opacity in percent, if it has one. -/
def namedOpacity? (cs : List Char) : Option Int :=
  (decimal? cs).bind fun d =>
    (if cs.getLast? == some '%' then some d else d.hundredfold?).bind fun percent =>
      (percent.toInt? 2).filter fun n => 0 ≤ n && n ≤ 100 && n % 5 == 0

theorem opacityClass_eq_ok (h : opacityClass cs = .ok (some s)) :
    (∃ n, namedOpacity? cs = some n ∧ s = "opacity-" ++ toString n) ∨
      namedOpacity? cs = none ∧ s = arbitrary "opacity" (String.ofList cs) := by
  unfold opacityClass at h
  split at h
  next => cases h
  next d hd =>
    split at h
    next => cases h
    next percent hp =>
      have hnamed : namedOpacity? cs =
          (percent.toInt? 2).filter fun n => 0 ≤ n && n ≤ 100 && n % 5 == 0 := by
        rw [namedOpacity?, hd, Option.bind_some, hp, Option.bind_some]
      rw [hnamed]
      split at h
      next n hn =>
        rw [hn, Option.filter_some]
        split at h
        next hr =>
          cases h
          exact .inl ⟨n, if_pos hr, rfl⟩
        next hr =>
          cases h
          exact .inr ⟨if_neg hr, rfl⟩
      next hn =>
        cases h
        rw [hn]
        exact .inr ⟨rfl, rfl⟩

theorem isClass_opacityClass (h : opacityClass cs = .ok (some s)) :
    IsClass s ((namedOpacity? cs).isNone && cs.any isBlank) := by
  rcases opacityClass_eq_ok h with ⟨n, hn, rfl⟩ | ⟨hn, rfl⟩
  · rw [hn]
    apply isClass_of_isSolid
    rw [String.toList_append]
    exact IsSolid.append (by decide) fun c hc =>
      isBlank_of_isNumeric (isNumeric_of_mem_toString_int n c hc)
  · rw [hn]
    exact isClass_arbitrary (by decide) cs

/-- A ratio is written without its spaces. -/
theorem isClass_aspectRatioClass (h : aspectRatioClass cs = .ok (some s)) :
    IsClass s (cs.contains '/' && cs.any fun c => c != ' ' && isBlank c) := by
  have hslash : (cs.filter (· != ' ')).contains '/' = cs.contains '/' := by
    simp
  unfold aspectRatioClass at h
  dsimp only at h
  rw [hslash] at h
  split at h
  next hc =>
    cases h
    rw [hc, Bool.true_and, ← List.any_filter]
    exact isClass_arbitrary (by decide) _
  next hc =>
    rw [Bool.not_eq_true] at hc
    rw [hc, Bool.false_and]
    obtain ⟨x, h⟩ := exists_of_ofMeasure h
    cases h
    apply isClass_of_isSolid
    split
    next => decide
    next => exact isSolid_arbitrary_text (by decide) x

/-- A colour is written as it is after a hash, and without its spaces as a function. -/
theorem isClass_colorClass {colors : Json} (hc : Color.HasSolidNames colors)
    (hs : IsSolid stem.toList) (h : colorClass colors stem cs = .ok (some s)) :
    IsClass s (if cs.head? == some '#' then cs.any isBlank
      else (colorFunctions.any fun f => f.toList.isPrefixOf cs) &&
        cs.any fun c => c != ' ' && isBlank c) := by
  unfold colorClass at h
  split at h
  next hd =>
    have hhead := eq_of_beq hd
    have hfunction : (colorFunctions.any fun f => f.toList.isPrefixOf cs) = false := by
      obtain ⟨tail, rfl⟩ := List.head?_eq_some_iff.mp hhead
      rfl
    obtain ⟨found, hfound, h⟩ := map_eq_ok h
    obtain ⟨⟨name, value⟩, rfl, rfl⟩ := Option.map_eq_some_iff.mp h
    rw [hfunction, hhead]
    exact isClass_of_isSolid (isSolid_join hs (Color.isBlank_of_mem_find? hc hfound))
  next =>
    split at h
    next hhash =>
      cases h
      rw [if_pos hhash]
      exact isClass_arbitrary hs cs
    next hhash =>
      rw [if_neg hhash]
      split at h
      next hf =>
        cases h
        rw [hf, Bool.true_and, ← List.any_filter]
        exact isClass_arbitrary hs _
      next hf =>
        rw [Bool.not_eq_true] at hf
        rw [hf, Bool.false_and]
        split at h
        next hl =>
          cases h
          obtain ⟨color, hl⟩ := Option.isSome_iff_exists.mp hl
          have hbuiltin : ∀ entry ∈ Color.builtin, ∀ c ∈ entry.1.toList, isBlank c = false := by
            decide
          exact isClass_of_isSolid (isSolid_join hs (hbuiltin _ (mem_of_lookup hl)))
        next => cases h

/-- The texts that a rule writes whatever the value is: its classes or its stem. -/
def fixedTexts : Rule → List String
  | .keyword table => table.map (·.2)
  | .growth stem | .length stem | .spacing stem _ | .color stem | .borderWidth stem
  | .radius stem => [stem]
  | _ => []

/-- Whether a rule writes a blank of the text of a value into the class. -/
def keepsBlank (cs : List Char) : Rule → Bool
  | .opacity => (namedOpacity? cs).isNone && cs.any isBlank
  | .aspectRatio => cs.contains '/' && cs.any fun c => c != ' ' && isBlank c
  | .spacing _ _ => cs.getLast? == some '%' && cs.any isBlank
  | .color _ =>
    if cs.head? == some '#' then cs.any isBlank
    else (colorFunctions.any fun f => f.toList.isPrefixOf cs) &&
      cs.any fun c => c != ' ' && isBlank c
  | _ => false

/-- The class that a rule gives is one word if and only if no blank is written into it. -/
theorem isClass_classOf {colors : Json} (hc : Color.HasSolidNames colors) {rule : Rule}
    (hr : ∀ text ∈ rule.fixedTexts, IsSolid text.toList)
    (h : rule.classOf colors cs = .ok (some s)) : IsClass s (rule.keepsBlank cs) := by
  have hstem : ∀ stem, rule.fixedTexts = [stem] → IsSolid stem.toList := fun stem he =>
    hr stem (he ▸ List.mem_singleton_self stem)
  cases rule with
  | opacity => exact isClass_opacityClass h
  | aspectRatio => exact isClass_aspectRatioClass h
  | spacing stem sizing => exact isClass_spacingClass (hstem stem rfl) h
  | color stem => exact isClass_colorClass hc (hstem stem rfl) h
  | keyword table =>
    refine isClass_of_isSolid (hr s ?_)
    exact List.mem_map_of_mem (f := (·.2)) (mem_of_lookup (Except.ok.inj h))
  | fontFamily =>
    have hfonts : ∀ entry ∈ Typeface.fontClasses, IsSolid entry.2.toList := by decide
    exact isClass_of_isSolid (hfonts _ (mem_of_lookup (Except.ok.inj h)))
  | zoom => exact isClass_of_isSolid (isSolid_zoomClass h)
  | radius stem => exact isClass_of_isSolid (isSolid_radiusClass (hstem stem rfl) h)
  | flex =>
    obtain ⟨x, h⟩ := exists_of_ofMeasure h
    cases h
    exact isClass_of_isSolid (isSolid_flexClass x)
  | growth stem =>
    obtain ⟨x, h⟩ := exists_of_ofMeasure h
    cases h
    exact isClass_of_isSolid (isSolid_growthClass (hstem stem rfl) x)
  | layer =>
    obtain ⟨x, h⟩ := exists_of_ofMeasure h
    cases h
    exact isClass_of_isSolid (isSolid_layerClass x)
  | length stem =>
    obtain ⟨px, h⟩ := exists_of_ofMeasure h
    cases h
    exact isClass_of_isSolid (isSolid_arbitrary_pixels (hstem stem rfl) px)
  | letterSpacing =>
    obtain ⟨px, h⟩ := exists_of_ofMeasure h
    cases h
    exact isClass_of_isSolid (isSolid_letterSpacingClass px)
  | rotation =>
    obtain ⟨x, h⟩ := exists_of_ofMeasure h
    cases h
    refine isClass_of_isSolid (isSolid_arbitrary (by decide) ?_)
    rw [String.toList_append]
    exact List.forall_mem_append.mpr
      ⟨fun c hc => isBlank_of_isNumeric (x.isNumeric_of_mem_text c hc), by decide⟩
  | borderWidth stem =>
    obtain ⟨px, h⟩ := exists_of_ofMeasure h
    cases h
    exact isClass_of_isSolid (isSolid_borderWidthClass (hstem stem rfl) px)

theorem isSolid_of_mem_fixedTexts {property : String} {rule : Rule}
    (hp : property ≠ "textDecorationLine") (h : find? property = some rule) :
    ∀ text ∈ rule.fixedTexts, IsSolid text.toList := by
  have hall : ∀ entry ∈ all, entry.1 ≠ "textDecorationLine" →
      ∀ text ∈ entry.2.fixedTexts, IsSolid text.toList := by decide +kernel
  exact hall _ (mem_of_lookup h) hp

/-- Whether the class of a style has a blank of its value in it. -/
def writesBlank (style : String × Json) : Bool :=
  (find? style.1).any (keepsBlank (Text.trim style.2.display.toList))

theorem isClass_convert {colors : Json} (hc : Color.HasSolidNames colors) {style : String × Json}
    (hp : style.1 ≠ "textDecorationLine") (h : convert colors style.1 style.2 = .ok (some s)) :
    IsClass s (writesBlank style) := by
  unfold convert at h
  split at h
  next rule hr =>
    split at h
    next =>
      rw [writesBlank, hr]
      exact isClass_classOf hc (isSolid_of_mem_fixedTexts hp hr) h
    next => cases h
  next => cases h

theorem forall_mem_iff_of_forall₂ {α β : Type} {p : α → Prop} {q : β → Prop} {xs : List α}
    {ys : List β} (h : List.Forall₂ (fun x y => q y ↔ p x) xs ys) :
    (∀ y ∈ ys, q y) ↔ ∀ x ∈ xs, p x := by
  induction h with
  | nil => simp
  | cons hxy _ ih => rw [List.forall_mem_cons, List.forall_mem_cons, hxy, ih]

/-- The classes of styles other than the line of a text, with colours whose names have no blanks: a
class has a blank in it exactly if its rule writes a blank of the value into it. The classes that are
joined by spaces are found again as words exactly if none has one. -/
theorem classes_are_words {colors : Json} (hc : Color.HasSolidNames colors)
    {styles : List (String × Json)} {classes : List String}
    (h : List.Forall₂ (fun style s => style.1 ≠ "textDecorationLine" ∧
      convert colors style.1 style.2 = .ok (some s)) styles classes) :
    List.Forall₂ (fun style s => s ≠ "" ∧ s.toList.any isBlank = writesBlank style)
        styles classes ∧
      (Text.words (" ".intercalate classes).toList = classes.map String.toList ↔
        ∀ style ∈ styles, writesBlank style = false) := by
  have hclass : List.Forall₂ (fun style s => IsClass s (writesBlank style)) styles classes :=
    h.imp fun style s hs => isClass_convert hc hs.1 hs.2
  constructor
  · exact hclass.imp fun style s hs => ⟨fun he => hs.ne_nil (by rw [he]; rfl), hs.any_isBlank⟩
  · rw [String.toList_intercalate]
    refine Text.words_intercalate_iff.trans ?_
    rw [List.forall_mem_map]
    exact forall_mem_iff_of_forall₂ (hclass.imp fun style s hs => hs.isSolid_iff)

theorem hasSolidNames_design : Color.HasSolidNames (.object Color.design) := by
  intro fields hf
  cases hf
  decide

/-- Styles whose classes have texts of the values in them. -/
def sampleStyles : List (String × Json) :=
  [("padding", .text "12.5%"), ("color", .text "rgb(0, 10, 20)"), ("aspectRatio", .text "16 / 9"),
    ("opacity", .text "50 %"), ("backgroundColor", .text "$coral500")]

theorem sampleStyles_are_words :
    List.Forall₂ (fun style s => convert (.object Color.design) style.1 style.2 = .ok (some s))
        sampleStyles
        ["p-[12.5%]", "text-[rgb(0,10,20)]", "aspect-[16/9]", "opacity-50", "bg-coral-500"] ∧
      Text.words "p-[12.5%] text-[rgb(0,10,20)] aspect-[16/9] opacity-50 bg-coral-500".toList =
        ["p-[12.5%]", "text-[rgb(0,10,20)]", "aspect-[16/9]", "opacity-50", "bg-coral-500"].map
          String.toList := by
  have h : List.Forall₂ (fun style s => style.1 ≠ "textDecorationLine" ∧
      convert (.object Color.design) style.1 style.2 = .ok (some s)) sampleStyles
      ["p-[12.5%]", "text-[rgb(0,10,20)]", "aspect-[16/9]", "opacity-50", "bg-coral-500"] :=
    .cons ⟨by decide, eq_ok_of_gives (by decide +kernel)⟩
      (.cons ⟨by decide, eq_ok_of_gives (by decide +kernel)⟩
      (.cons ⟨by decide, eq_ok_of_gives (by decide +kernel)⟩
      (.cons ⟨by decide, eq_ok_of_gives (by decide +kernel)⟩
      (.cons ⟨by decide, eq_ok_of_gives (by decide +kernel)⟩ .nil))))
  have hwords := (classes_are_words hasSolidNames_design h).2.mpr (by decide +kernel)
  exact ⟨h.imp fun _ _ hs => hs.2, hwords⟩

/-- Texts in percent, colours, ratios and opacities keep blanks. -/
theorem classes_with_blanks :
    convert (.object Color.design) "padding" (.text "10px 20%") = .ok (some "p-[10px 20%]") ∧
      convert (.object Color.design) "color" (.text "rgb(0,\t0, 0)") =
        .ok (some "text-[rgb(0,\t0,0)]") ∧
      convert (.object Color.design) "backgroundColor" (.text "#ff ff") =
        .ok (some "bg-[#ff ff]") ∧
      convert (.object Color.design) "aspectRatio" (.text "16\t/ 9") =
        .ok (some "aspect-[16\t/9]") ∧
      convert (.object Color.design) "opacity" (.text "53 %") = .ok (some "opacity-[53 %]") ∧
      (Text.words (" ".intercalate ["p-[10px 20%]", "bg-[#ff ff]"]).toList).length = 4 := by
  refine ⟨eq_ok_of_gives ?_, eq_ok_of_gives ?_, eq_ok_of_gives ?_, eq_ok_of_gives ?_,
    eq_ok_of_gives ?_, ?_⟩
  all_goals decide +kernel

end Rule

end Restyle
