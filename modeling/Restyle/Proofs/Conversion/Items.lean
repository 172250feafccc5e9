import Restyle.Proofs.Inline.Written
import Restyle.Proofs.Json.Layout

namespace Restyle.StyleConverter

open InlinePattern (Attribute isAttributeName written)
open Scan (FitsBraces FitsQuotes Keeps inBraces inQuotes)

/-- The attribute for the classes of a tag. -/
def classAttributes (classes : List String) : List Attribute :=
  if classes.isEmpty then []
  else [⟨"className".toList, inQuotes (" ".intercalate classes.eraseDups).toList, .quoted⟩]

/-- The object with the styles that are known at run time only. -/
def styleObject (dynamic : List StyleProperty) : List Char :=
  inBraces (' ' :: (", ".toList.intercalate (dynamic.map fun q => (styleEntry q).toList) ++ [' ']))

/-- The style attribute of a tag: the one that it has, or an object that comes before it. -/
def styleAttributes (dynamic : List StyleProperty) (existing : Option Attribute) : List Attribute :=
  match dynamic.isEmpty, existing with
  | true, none => []
  | true, some a => [a]
  | false, none => [⟨"style".toList, inBraces (styleObject dynamic), .braced⟩]
  | false, some a =>
    let inner := Text.trim (Expression.inside (Text.trim a.raw))
    [⟨"style".toList,
      inBraces ('[' :: (styleObject dynamic ++ (", ".toList ++ (inner ++ [']'])))), .braced⟩]

/-- The attribute for a style without a class. -/
def toAttribute (q : StyleProperty) : Attribute :=
  match q.value with
  | .text text => ⟨q.name.toList, inQuotes text.toList, .quoted⟩
  | value => ⟨q.name.toList, inBraces value.display.toList, .braced⟩

/-- The styles without a class. -/
def keptStyles (found : List (StyleProperty × List String)) : List StyleProperty :=
  (found.filter (·.2.isEmpty)).map (·.1)

/-- The attributes that are passed through as they are. -/
def otherAttributes (p : InlinePattern) : List Attribute :=
  p.attributes.filter fun a => a.isPassthrough && a.name != "style".toList

/-- The attributes of a converted tag. -/
def convertedAttributes (p : InlinePattern) (found : List (StyleProperty × List String)) :
    List Attribute :=
  classAttributes (found.flatMap (·.2)) ++
    (styleAttributes p.dynamicStyles (p.attributes.find? (·.name == "style".toList)) ++
      ((keptStyles found).map toAttribute ++ otherAttributes p))

/-- That the texts that are not empty are those of some attributes. -/
def Shows (texts : List String) (attributes : List Attribute) : Prop :=
  (texts.filter (· != "")).map String.toList = attributes.map (·.render)

theorem Shows.append {texts texts' : List String} {attributes attributes' : List Attribute}
    (h : Shows texts attributes) (h' : Shows texts' attributes') :
    Shows (texts ++ texts') (attributes ++ attributes') := by
  rw [Shows, List.filter_append, List.map_append, List.map_append, h, h']

theorem shows_singleton {text : String} {a : Attribute} (hs : a.IsSound)
    (h : text.toList = a.render) : Shows [text] [a] := by
  have hne : (text != "") = true := by
    rw [bne_iff_ne]
    rintro rfl
    exact InlinePattern.render_ne_nil hs h.symm
  have hkeep : [text].filter (· != "") = [text] := List.filter_cons_of_pos hne
  rw [Shows, hkeep, List.map_singleton, List.map_singleton, h]

theorem shows_map {α : Type} {xs : List α} {write : α → String} {read : α → Attribute}
    (hs : ∀ x ∈ xs, (read x).IsSound) (h : ∀ x ∈ xs, (write x).toList = (read x).render) :
    Shows (xs.map write) (xs.map read) := by
  induction xs with
  | nil => rfl
  | cons x xs ih =>
    obtain ⟨hsx, hsxs⟩ := List.forall_mem_cons.mp hs
    obtain ⟨hx, hxs⟩ := List.forall_mem_cons.mp h
    exact (shows_singleton hsx hx).append (ih hsxs hxs)

theorem shows_empty : Shows [""] [] := rfl

/-- The texts that are not empty are written one after the other, with a space before each. -/
theorem Shows.toList_text_of_ne_nil {texts : List String} {attributes : List Attribute}
    (h : Shows texts attributes) (hne : ∀ a ∈ attributes, a.render ≠ []) :
    (if " ".intercalate (texts.filter (· != "")) == "" then ""
      else " " ++ " ".intercalate (texts.filter (· != ""))).toList = written attributes := by
  have htext : (" ".intercalate (texts.filter (· != ""))).toList =
      [' '].intercalate (attributes.map (·.render)) := by
    rw [String.toList_intercalate, h]
    rfl
  cases attributes with
  | nil =>
    have hnil : " ".intercalate (texts.filter (· != "")) = "" := String.toList_eq_nil_iff.mp htext
    rw [hnil]
    rfl
  | cons a attributes =>
    have hwritten := InlinePattern.intercalate_eq_written a attributes
    have hsome : ¬(" ".intercalate (texts.filter (· != "")) == "") = true := by
      rw [beq_iff_eq]
      intro hnil
      rw [← htext, hnil] at hwritten
      simp [written, hne a List.mem_cons_self] at hwritten
    rw [if_neg hsome, String.toList_append, htext, ← hwritten]
    rfl

theorem Shows.toList_text {texts : List String} {attributes : List Attribute}
    (h : Shows texts attributes) (hs : ∀ a ∈ attributes, a.IsSound) :
    (if " ".intercalate (texts.filter (· != "")) == "" then ""
      else " " ++ " ".intercalate (texts.filter (· != ""))).toList = written attributes :=
  h.toList_text_of_ne_nil fun a ha => InlinePattern.render_ne_nil (hs a ha)

section

variable {dynamic : List StyleProperty} {existing : Option Attribute}

theorem isSound_classAttributes {classes : List String}
    (h : ∀ name ∈ classes, FitsQuotes name.toList) :
    ∀ a ∈ classAttributes classes, a.IsSound := by
  unfold classAttributes
  split
  next => exact fun _ ha => nomatch ha
  next =>
    rw [List.forall_mem_singleton]
    refine .quoted ⟨by decide, ⟨'\x22', rfl, by decide⟩, FitsQuotes.takeString? ?_⟩
    rw [String.toList_intercalate]
    have hnil : FitsQuotes [] := rfl
    have hblank : FitsQuotes " ".toList := rfl
    refine Scan.intercalate_of_append hnil (fun _ _ => FitsQuotes.append) hblank ?_
    rw [List.forall_mem_map]
    exact fun name hn => h name (List.mem_eraseDups.mp hn)

theorem shows_classAttribute {classes : List String}
    (h : ∀ name ∈ classes, FitsQuotes name.toList) :
    Shows [classAttribute classes] (classAttributes classes) := by
  have hs := isSound_classAttributes h
  unfold classAttribute
  unfold classAttributes at hs ⊢
  split
  next => exact shows_empty
  next hne =>
    rw [if_neg hne, List.forall_mem_singleton] at hs
    exact shows_singleton hs (by simp [inQuotes, Attribute.render])

/-- What the style attribute of a tag is made of. -/
structure FitsStyle (dynamic : List StyleProperty) (existing : Option Attribute) : Prop where
  names : ∀ q ∈ dynamic, isAttributeName q.name.toList = true
  values : ∀ q ∈ dynamic, Keeps q.value.display.toList
  sound : ∀ a ∈ existing, a.IsSound
  named : ∀ a ∈ existing, a.name = "style".toList
  inner : dynamic ≠ [] → ∀ a ∈ existing, a.kind = .quoted → FitsBraces (Expression.inside a.raw)

theorem keeps_styleObject (hn : ∀ q ∈ dynamic, isAttributeName q.name.toList = true)
    (hv : ∀ q ∈ dynamic, Keeps q.value.display.toList) : Keeps (styleObject dynamic) := by
  have hblank : Keeps [' '] := Scan.keeps_of_isMild (by decide)
  have hcolon : Keeps ": ".toList := Scan.keeps_of_isMild (by decide)
  have hentries : ∀ text ∈ dynamic.map fun q => (styleEntry q).toList, Keeps text := by
    rw [List.forall_mem_map]
    intro q hq
    have hentry : (styleEntry q).toList = q.name.toList ++ ": ".toList ++ q.value.display.toList := by
      simp [styleEntry]
    rw [hentry]
    exact ((InlinePattern.keeps_name (hn q hq)).append hcolon).append (hv q hq)
  have hall : Keeps (", ".toList.intercalate (dynamic.map fun q => (styleEntry q).toList)) :=
    Scan.intercalate_of_append (fun _ => rfl) (fun _ _ => Keeps.append)
      (Scan.keeps_of_isMild (by decide)) hentries
  exact (hblank.append (hall.append hblank)).braces

theorem trim_of_ends {c d : Char} (hc : Text.isBlank c = false) (hd : Text.isBlank d = false)
    (inner : List Char) : Text.trim (c :: (inner ++ [d])) = c :: (inner ++ [d]) := by
  refine Text.trim_of_isTrimmed ⟨by simpa using hc, ?_⟩
  rw [← List.cons_append, List.getLast?_concat]
  simpa using hd

/-- What stands between the ends of a style attribute can stand in a list. -/
theorem FitsStyle.keeps_inner (h : FitsStyle dynamic existing) (hd : dynamic ≠ []) {a : Attribute}
    (ha : a ∈ existing) : Keeps (Expression.inside (Text.trim a.raw)) := by
  have hnamed := h.named a ha
  have hinner := h.inner hd a ha
  cases h.sound a ha with
  | bare _ =>
    have hmild : ∀ c ∈ Expression.inside (Text.trim "true".toList), Scan.isMild c = true := by decide
    exact Scan.keeps_of_isMild hmild
  | unset _ => exact fun _ => rfl
  | @quoted name token hw =>
    obtain ⟨quote, inner, rfl, hq⟩ := InlinePattern.exists_eq_quoted hw.2.1 hw.2.2
    have hb : Text.isBlank quote = false := by
      simp only [Expression.isPlainQuote, Bool.or_eq_true, beq_iff_eq] at hq
      rcases hq with rfl | rfl <;> decide
    dsimp only
    rw [trim_of_ends hb hb]
    exact (hinner rfl).keeps
  | @braced name region hw =>
    obtain ⟨inner, rfl⟩ := Scan.takeBraces?_eq_concat hw.2
    dsimp only
    rw [List.cons_append, trim_of_ends (by decide) (by decide)]
    exact Scan.keeps_inside hw.2
  | spread _ _ => cases hnamed

theorem FitsStyle.isSound (h : FitsStyle dynamic existing) :
    ∀ a ∈ styleAttributes dynamic existing, a.IsSound := by
  have hobject := keeps_styleObject h.names h.values
  unfold styleAttributes
  split
  next => exact fun _ ha => nomatch ha
  next a _ => exact List.forall_mem_singleton.mpr (h.sound a rfl)
  next => exact List.forall_mem_singleton.mpr (.braced ⟨by decide, hobject.fitsBraces⟩)
  next a hd =>
    have hne : dynamic ≠ [] := fun hnil => by simp [hnil] at hd
    have hopen : Keeps ['['] := Scan.keeps_of_isMild (by decide)
    have hcomma : Keeps ", ".toList := Scan.keeps_of_isMild (by decide)
    have hinner := Scan.keeps_trim (h.keeps_inner hne rfl)
    have hclose : Keeps [']'] := Scan.keeps_of_isMild (by decide)
    have hlist := hopen.append (hobject.append (hcomma.append (hinner.append hclose)))
    exact List.forall_mem_singleton.mpr (.braced ⟨by decide, hlist.fitsBraces⟩)

theorem FitsStyle.render_eq (h : FitsStyle dynamic existing) {a : Attribute} (ha : a ∈ existing)
    (hvalued : ¬(a.kind = .bare ∧ a.raw = "true".toList)) : a.render = a.name ++ '=' :: a.raw := by
  have hnamed := h.named a ha
  cases h.sound a ha with
  | bare _ => exact absurd ⟨rfl, rfl⟩ hvalued
  | unset _ => rfl
  | quoted _ => rfl
  | braced _ => rfl
  | spread _ _ => cases hnamed

theorem FitsStyle.shows (h : FitsStyle dynamic existing)
    (hvalued : dynamic = [] → ∀ a ∈ existing, ¬(a.kind = .bare ∧ a.raw = "true".toList)) :
    Shows [styleAttribute (dynamic.map styleEntry)
      (existing.map fun a => ⟨String.ofList a.name, String.ofList a.raw⟩)]
      (styleAttributes dynamic existing) := by
  have hs := h.isSound
  have hobject : ("\x7b " ++ ", ".intercalate (dynamic.map styleEntry) ++ " \x7d").toList =
      styleObject dynamic := by
    simp [styleObject, inBraces, Function.comp_def]
  unfold styleAttributes at hs ⊢
  unfold styleAttribute
  rw [List.isEmpty_map]
  cases hd : dynamic.isEmpty with
  | true =>
    cases existing with
    | none => exact shows_empty
    | some a =>
      rw [hd, List.forall_mem_singleton] at hs
      refine shows_singleton hs ?_
      rw [h.render_eq rfl (hvalued (List.isEmpty_iff.mp hd) a rfl), h.named a rfl]
      simp
  | false =>
    cases existing with
    | none =>
      rw [hd, List.forall_mem_singleton] at hs
      refine shows_singleton hs ?_
      rw [Attribute.render, ← hobject]
      simp [inBraces]
    | some a =>
      rw [hd, List.forall_mem_singleton] at hs
      refine shows_singleton hs ?_
      rw [Attribute.render, ← hobject]
      simp [inBraces, Expression.inside]

end

theorem keeps_display_number (x : Number) : Keeps x.toJson.display.toList := by
  have hnumeric : ∀ c ∈ x.toJson.display.toList, isNumeric c = true := by
    cases x with
    | whole n =>
      show ∀ c ∈ (toString n).toList, isNumeric c = true
      exact isNumeric_of_mem_toString_int n
    | double x =>
      show ∀ c ∈ (String.ofList x.text).toList, isNumeric c = true
      rw [String.toList_ofList]
      exact x.isNumeric_of_mem_text
  refine Scan.keeps_of_isMild fun c hc => ?_
  have hplain := Json.isPlain_of_isNumeric (hnumeric c hc)
  simp only [Json.isPlain, Bool.and_eq_true] at hplain
  exact hplain.1

theorem isSound_toAttribute {q : StyleProperty} (hn : isAttributeName q.name.toList = true)
    (hv : (∃ text, q.value = .text text) ∨ ∃ number : Number, q.value = number.toJson)
    (hq : FitsQuotes q.value.display.toList) : (toAttribute q).IsSound := by
  unfold toAttribute
  split
  next text ht =>
    rw [ht] at hq
    exact .quoted ⟨hn, ⟨'\x22', rfl, by decide⟩, hq.takeString?⟩
  next hne =>
    obtain ⟨text, ht⟩ | ⟨number, ht⟩ := hv
    · exact absurd ht (hne text)
    · rw [ht]
      exact .braced ⟨hn, (keeps_display_number number).fitsBraces⟩

theorem toList_keptAttribute (q : StyleProperty) :
    (keptAttribute q).toList = (toAttribute q).render := by
  unfold keptAttribute toAttribute
  cases q.value <;> simp [inQuotes, inBraces, Attribute.render]

theorem name_toAttribute (q : StyleProperty) : (toAttribute q).name = q.name.toList := by
  unfold toAttribute
  split
  next => rfl
  next => rfl

theorem isFull_of_kind {a : Attribute} (h : a.kind = .quoted ∨ a.kind = .braced) : a.IsFull := by
  rcases h with hk | hk <;> exact ⟨by simp [hk], by simp [hk]⟩

theorem isFull_classAttributes (classes : List String) :
    ∀ a ∈ classAttributes classes, a.IsFull := by
  unfold classAttributes
  split
  next => exact fun _ ha => nomatch ha
  next => exact List.forall_mem_singleton.mpr (isFull_of_kind (.inl rfl))

theorem isFull_styleAttributes (dynamic : List StyleProperty) {existing : Option Attribute}
    (h : ∀ a ∈ existing, a.IsFull) : ∀ a ∈ styleAttributes dynamic existing, a.IsFull := by
  unfold styleAttributes
  split
  next => exact fun _ ha => nomatch ha
  next a _ => exact List.forall_mem_singleton.mpr (h a rfl)
  next => exact List.forall_mem_singleton.mpr (isFull_of_kind (.inr rfl))
  next => exact List.forall_mem_singleton.mpr (isFull_of_kind (.inr rfl))

theorem isFull_toAttribute (q : StyleProperty) : (toAttribute q).IsFull := by
  unfold toAttribute
  split
  next => exact isFull_of_kind (.inl rfl)
  next => exact isFull_of_kind (.inr rfl)

theorem ofList_ne_spread {name : List Char} (h : isAttributeName name = true) :
    (String.ofList name == "...") = false := by
  rw [beq_eq_false_iff_ne]
  intro he
  rw [← String.toList_inj, String.toList_ofList] at he
  rw [he] at h
  cases h

/-- An attribute that is passed through is written as it was. -/
theorem toList_passthroughText {a : Attribute} (h : a.IsSound) :
    (passthroughText ⟨String.ofList a.name, String.ofList a.raw⟩).toList = a.render := by
  have htrue : ∀ {raw : List Char} {c : Char}, c ∈ raw.head? → c ≠ 't' →
      (String.ofList raw == "true") = false := by
    intro raw c hc hne
    rw [beq_eq_false_iff_ne]
    intro he
    rw [← String.toList_inj, String.toList_ofList] at he
    rw [he] at hc
    cases hc
    exact hne rfl
  cases h with
  | bare hn => simp [passthroughText, ofList_ne_spread hn, Attribute.render]
  | unset hn => simp [passthroughText, ofList_ne_spread hn, Attribute.render]
  | quoted hw =>
    obtain ⟨hn, ⟨quote, hc, hq⟩, -⟩ := hw
    have hne : quote ≠ 't' := by
      rintro rfl
      cases hq
    simp [passthroughText, ofList_ne_spread hn, htrue hc hne, Attribute.render]
  | @braced name region hw =>
    obtain ⟨hn, ht⟩ := hw
    obtain ⟨read, hread⟩ : ∃ read, region = '{' :: read := Scan.takeBraces?_eq_cons ht
    have hc : '{' ∈ region.head? := by
      rw [hread]
      rfl
    simp [passthroughText, ofList_ne_spread hn, htrue hc (by decide), Attribute.render]
  | spread _ _ => simp [passthroughText, Attribute.render, inBraces]

theorem names_classAttributes (classes : List String) :
    (classAttributes classes).map (·.name) =
      if classes.isEmpty then [] else ["className".toList] := by
  unfold classAttributes
  split
  next => rfl
  next => rfl

theorem FitsStyle.names_styleAttributes {dynamic : List StyleProperty} {existing : Option Attribute}
    (h : FitsStyle dynamic existing) :
    (styleAttributes dynamic existing).map (·.name) = [] ∨
      (styleAttributes dynamic existing).map (·.name) = ["style".toList] := by
  unfold styleAttributes
  split
  next => exact .inl rfl
  next a _ =>
    refine .inr ?_
    rw [List.map_singleton, h.named a rfl]
  next => exact .inr rfl
  next => exact .inr rfl

end Restyle.StyleConverter
