import Restyle.Proofs.Declarative.Hit
import Restyle.Proofs.Scan.Sublist

namespace Restyle

namespace DeclarativePattern

/-- How the reading of an object ends. -/
inductive Outcome where
  | read
  | openString
  | excess (digits : Nat)
  deriving DecidableEq, Repr

namespace Outcome

/-- What comes of values that are read one after the other. Nothing stands for a string without an
end. -/
def ofTexts : List (Option (List Char)) → Outcome
  | [] => .read
  | none :: _ => .openString
  | some raw :: rest =>
    match Numeral.excess? (Text.trim raw) with
    | some n => .excess n
    | none => ofTexts rest

def andThen : Outcome → Outcome → Outcome
  | .read, next => next
  | first, _ => first

theorem ofTexts_append (front back : List (Option (List Char))) :
    ofTexts (front ++ back) = (ofTexts front).andThen (ofTexts back) := by
  induction front with
  | nil => rfl
  | cons text front ih =>
    cases text with
    | none => rfl
    | some raw =>
      simp only [List.cons_append, ofTexts]
      split
      next => rfl
      next => exact ih

/-- That a computation ends so. -/
def Describes {α : Type} : Outcome → Except Fault α → Prop
  | .read, x => ∃ a, x = .ok a
  | .openString, x => ∃ offset, x = .error (.unterminatedString offset)
  | .excess n, x => x = .error (.tooManyDigits n)

variable {α β γ : Type}

theorem describes_ok (a : α) : Describes .read (.ok a) := ⟨a, rfl⟩

theorem Describes.bind {first next : Outcome} {x : Except Fault α} {f : α → Except Fault β}
    (h : first.Describes x) (hf : ∀ a, x = .ok a → next.Describes (f a)) :
    (first.andThen next).Describes (x.bind f) := by
  cases first with
  | read =>
    obtain ⟨a, rfl⟩ := h
    exact hf a rfl
  | openString =>
    obtain ⟨offset, rfl⟩ := h
    exact ⟨offset, rfl⟩
  | excess n =>
    cases h
    rfl

/-- What always ends well does not change the outcome. -/
theorem Describes.bind_ok {outcome : Outcome} {x : Except Fault α} {f : α → Except Fault β}
    (h : outcome.Describes x) (hf : ∀ a, ∃ b, f a = .ok b) : outcome.Describes (x.bind f) := by
  have hbind : (outcome.andThen .read).Describes (x.bind f) := h.bind fun a _ => hf a
  cases outcome with
  | read => exact hbind
  | openString => exact hbind
  | excess n => exact hbind

theorem Describes.map {outcome : Outcome} {x : Except Fault α} (h : outcome.Describes x)
    (f : α → β) : outcome.Describes (x.map f) :=
  h.bind_ok fun a => ⟨f a, rfl⟩

theorem describes_foldlM {step : β → α → Except Fault β} {texts : α → List (Option (List Char))}
    {xs : List α} (h : ∀ acc, ∀ x ∈ xs, (ofTexts (texts x)).Describes (step acc x)) (acc : β) :
    (ofTexts (xs.flatMap texts)).Describes (xs.foldlM step acc) := by
  induction xs generalizing acc with
  | nil => exact describes_ok acc
  | cons x xs ih =>
    rw [List.flatMap_cons, ofTexts_append, List.foldlM_cons]
    exact (h acc x List.mem_cons_self).bind fun acc' _ =>
      ih (fun acc y hy => h acc y (List.mem_cons_of_mem x hy)) acc'

theorem describes_filterMapM {f : α → Except Fault (Option β)}
    {texts : α → List (Option (List Char))} {xs : List α}
    (h : ∀ x ∈ xs, (ofTexts (texts x)).Describes (f x)) :
    (ofTexts (xs.flatMap texts)).Describes (xs.filterMapM f) := by
  induction xs with
  | nil => exact describes_ok []
  | cons x xs ih =>
    have hi := ih fun y hy => h y (List.mem_cons_of_mem x hy)
    rw [List.flatMap_cons, ofTexts_append, List.filterMapM_cons]
    refine (h x List.mem_cons_self).bind fun found _ => ?_
    cases found with
    | none => exact hi
    | some b => exact hi.map (b :: ·)

theorem describes_literal? (raw : List Char) :
    (ofTexts [some raw]).Describes (Expression.literal? raw) := by
  simp only [ofTexts]
  cases h : Numeral.excess? (Text.trim raw) with
  | some n => exact Expression.literal?_of_excess? h
  | none => exact Expression.exists_literal? h

end Outcome

open Outcome

/-- What is read of an object whose entries are read one after the other. -/
def textsOf (read : List Char → List Char → List (Option (List Char))) (object : List Char) :
    List (Option (List Char)) :=
  match entries object with
  | .error _ => [none]
  | .ok found => found.flatMap fun (key, raw) => (raw.map (read key)).getD []

/-- What is read of the styles of an object; nested objects are left out. -/
def styleTexts (object : List Char) : List (Option (List Char)) :=
  textsOf (fun _ raw => if isObjectText raw then [] else [some raw]) object

/-- What is read of a value of a variant. -/
def valueTexts (group : List Char) : List (Option (List Char)) :=
  if isObjectText group then styleTexts group else []

/-- What is read of a variant. One that is a function, or holds one, is not read. -/
def variantTexts (raw : List Char) : List (Option (List Char)) :=
  if !isObjectText raw || Text.hasPart ['=', '>'] raw then []
  else textsOf (fun _ group => valueTexts group) raw

def variantsTexts (object : List Char) : List (Option (List Char)) :=
  textsOf (fun _ raw => variantTexts raw) object

/-- What is read of an entry of a definition. -/
def entryTexts (key raw : List Char) : List (Option (List Char)) :=
  if String.ofList key == "variants" then
    if isObjectText raw then variantsTexts raw else []
  else if settingKeys.contains (String.ofList key) || isObjectText raw then []
  else [some raw]

/-- What is read of the object of a definition. -/
def configTexts (object : List Char) : List (Option (List Char)) := textsOf entryTexts object

theorem describes_textsOf {α : Type} {read : List Char → List Char → List (Option (List Char))}
    {object : List Char} {f : List (List Char × Option (List Char)) → Except Fault α}
    (h : ∀ found, entries object = .ok found →
      (ofTexts (found.flatMap fun (key, raw) => (raw.map (read key)).getD [])).Describes
        (f found)) :
    (ofTexts (textsOf read object)).Describes ((entries object).bind f) := by
  unfold textsOf
  cases he : entries object with
  | ok found => exact h found he
  | error fault =>
    have hparts := map_eq_error (map_eq_error he)
    obtain ⟨offset, rfl⟩ := Scan.exists_offset_of_parts hparts
    exact ⟨offset, rfl⟩

theorem describes_parseStyles (object : List Char) :
    (ofTexts (styleTexts object)).Describes (parseStyles object) := by
  refine describes_textsOf fun found _ => describes_foldlM (fun styles entry _ => ?_) []
  obtain ⟨key, raw⟩ := entry
  cases raw with
  | none => exact describes_ok styles
  | some raw =>
    simp only [Option.map_some, Option.getD_some]
    cases isObjectText raw with
    | true => exact describes_ok styles
    | false => exact ((describes_literal? raw).map _).map _

theorem describes_parseValue (name group : List Char) :
    (ofTexts (valueTexts group)).Describes (parseValue name group) := by
  unfold valueTexts parseValue
  cases isObjectText group with
  | false => exact describes_ok _
  | true => exact (describes_parseStyles group).map _

theorem describes_parseVariant (name raw : List Char) :
    (ofTexts (variantTexts raw)).Describes (parseVariant name raw) := by
  unfold variantTexts parseVariant
  cases !isObjectText raw || Text.hasPart ['=', '>'] raw with
  | true => exact describes_ok _
  | false =>
    rw [if_neg Bool.false_ne_true, if_neg Bool.false_ne_true]
    refine describes_textsOf fun found _ =>
      (describes_filterMapM fun entry _ => ?_).bind_ok fun values => ⟨_, rfl⟩
    obtain ⟨value, group⟩ := entry
    cases group with
    | none => exact describes_ok none
    | some group => exact (describes_parseValue value group).map some

theorem describes_parseVariants (object : List Char) :
    (ofTexts (variantsTexts object)).Describes (parseVariants object) := by
  refine describes_textsOf fun found _ => describes_filterMapM fun entry _ => ?_
  obtain ⟨name, raw⟩ := entry
  cases raw with
  | none => exact describes_ok none
  | some raw => exact (describes_parseVariant name raw).map some

theorem describes_add (config : Config) (key raw : List Char) :
    (ofTexts (entryTexts key raw)).Describes (config.add key (some raw)) := by
  simp only [entryTexts, Config.add]
  split
  next =>
    split
    next => exact (describes_parseVariants raw).map _
    next => exact describes_ok config
  next =>
    split
    next => exact describes_ok config
    next =>
      refine (describes_literal? raw).bind_ok fun value => ?_
      cases value with
      | some value => exact ⟨_, rfl⟩
      | none =>
        cases (Expression.classify raw).isStatic with
        | true => exact ⟨_, rfl⟩
        | false => exact ⟨_, rfl⟩

/-- The reading of an object ends as its texts say. -/
theorem describes_parseConfig (object : List Char) :
    (ofTexts (configTexts object)).Describes (parseConfig object) := by
  refine describes_textsOf fun found _ =>
    (describes_foldlM (fun config entry _ => ?_) _).bind_ok fun config => ⟨_, rfl⟩
  obtain ⟨key, raw⟩ := entry
  cases raw with
  | none => exact describes_ok _
  | some raw => exact describes_add config key raw

/-- How the reading of the object at a header ends, if the object has an end. -/
def outcome? (hit : Scan.Hit (List Char × List Char)) : Option Outcome :=
  (Scan.takeBraces? ('{' :: hit.rest)).map fun (object, _) => ofTexts (configTexts object)

/-- That the definition at a header can be read: no number with too many digits comes before the
first string without an end. -/
def CanRead (hit : Scan.Hit (List Char × List Char)) : Prop :=
  ∀ digits, outcome? hit ≠ some (.excess digits)

/-- What a record tells of its header: where it is and what it names, and whether the object and
the strings in it have ends. -/
structure IsRecord (source : List Char) (hit : Scan.Hit (List Char × List Char))
    (p : DeclarativePattern) : Prop where
  location : p.location = Location.ofOffset source hit.offset
  component : p.component = String.ofList hit.value.1
  base : p.base = String.ofList hit.value.2
  failed : p.failed = true ↔ outcome? hit ≠ some .read

variable {source : List Char} {hit : Scan.Hit (List Char × List Char)}

theorem ofHit_of_excess {digits : Nat} (h : outcome? hit = some (.excess digits)) :
    ofHit source hit = .error (.tooManyDigits digits) := by
  obtain ⟨⟨object, rest⟩, ht, ho⟩ := Option.map_eq_some_iff.mp h
  have hfault : parseConfig object = .error (.tooManyDigits digits) := by
    have hconfig := describes_parseConfig object
    rwa [show ofTexts (configTexts object) = .excess digits from ho] at hconfig
  simp only [ofHit, readObject?, ht, hfault]
  rfl

theorem exists_failed (h : readObject? ('{' :: hit.rest) = .ok none)
    (hn : outcome? hit ≠ some .read) : ∃ p, ofHit source hit = .ok p ∧ IsRecord source hit p := by
  simp only [ofHit, h]
  exact ⟨_, rfl, rfl, rfl, rfl, by simp [hn]⟩

theorem exists_ofHit (h : CanRead hit) :
    ∃ p, ofHit source hit = .ok p ∧ IsRecord source hit p := by
  cases ht : Scan.takeBraces? ('{' :: hit.rest) with
  | none => exact exists_failed (by simp [readObject?, ht]) (by simp [outcome?, ht])
  | some found =>
    obtain ⟨object, rest⟩ := found
    have hout : outcome? hit = some (ofTexts (configTexts object)) := by simp [outcome?, ht]
    have hconfig := describes_parseConfig object
    cases ho : ofTexts (configTexts object) with
    | read =>
      rw [ho] at hconfig hout
      obtain ⟨config, hconfig⟩ := hconfig
      exact ⟨_, ofHit_of_object ht hconfig, rfl, rfl, rfl, by simp [hout, ofObject]⟩
    | openString =>
      rw [ho] at hconfig hout
      obtain ⟨offset, hconfig⟩ := hconfig
      exact exists_failed (by simp [readObject?, ht, hconfig]) (by simp [hout])
    | excess digits =>
      rw [ho] at hout
      exact absurd hout (h digits)

theorem ofHit_returns (source : List Char) (hit : Scan.Hit (List Char × List Char)) :
    ReturnsIff (CanRead hit) (IsRecord source hit) (·.isMisnumbered = true)
      (ofHit source hit) := by
  refine ⟨exists_ofHit, fun h => ?_⟩
  obtain ⟨digits, hd⟩ := Classical.not_forall.mp h
  exact ⟨.tooManyDigits digits, ofHit_of_excess (Classical.not_not.mp hd), rfl⟩

section

variable {object : List Char}

theorem sublist_of_mem_entries {found : List (List Char × Option (List Char))}
    {key raw : List Char} (h : entries object = .ok found) (hm : (key, some raw) ∈ found) :
    List.Sublist raw object := by
  obtain ⟨texts, ht, rfl⟩ := map_eq_ok h
  obtain ⟨parts, hp, rfl⟩ := map_eq_ok ht
  obtain ⟨entry, hentry, he⟩ := List.mem_map.mp hm
  obtain ⟨part, hpart, rfl⟩ := List.mem_map.mp (List.mem_filter.mp hentry).1
  have hvalue : List.Sublist raw (Text.trim part) := by
    unfold splitEntry at he
    split at he
    next => cases he
    next front value hcut =>
      cases he
      exact (Text.trim_sublist value).trans (Scan.cutAt?_suffix hcut).sublist
  have hinside := Scan.parts_sublist hp part hpart
  exact ((hvalue.trans (Text.trim_sublist part)).trans hinside).trans
    ((Expression.inside_sublist _).trans (Text.trim_sublist object))

/-- What is read of an object is cut out of it, if this holds of what is read of its entries. -/
theorem sublist_of_mem_textsOf {read : List Char → List Char → List (Option (List Char))}
    (hread : ∀ key value raw, some raw ∈ read key value → List.Sublist raw value)
    {raw : List Char} (hm : some raw ∈ textsOf read object) : List.Sublist raw object := by
  unfold textsOf at hm
  split at hm
  next => simp at hm
  next found he =>
    obtain ⟨⟨key, value⟩, hentry, hm⟩ := List.mem_flatMap.mp hm
    cases value with
    | none => cases hm
    | some value => exact (hread key value raw hm).trans (sublist_of_mem_entries he hentry)

theorem sublist_of_mem_styleTexts {raw : List Char} (hm : some raw ∈ styleTexts object) :
    List.Sublist raw object := by
  refine sublist_of_mem_textsOf (fun key value raw hm => ?_) hm
  split at hm
  next => cases hm
  next =>
    cases List.mem_singleton.mp hm
    exact List.Sublist.refl value

theorem sublist_of_mem_variantsTexts {raw : List Char} (hm : some raw ∈ variantsTexts object) :
    List.Sublist raw object := by
  refine sublist_of_mem_textsOf (fun _ variant raw hm => ?_) hm
  unfold variantTexts at hm
  split at hm
  next => cases hm
  next =>
    refine sublist_of_mem_textsOf (fun _ group raw hm => ?_) hm
    unfold valueTexts at hm
    split at hm
    next => exact sublist_of_mem_styleTexts hm
    next => cases hm

theorem sublist_of_mem_configTexts {raw : List Char} (hm : some raw ∈ configTexts object) :
    List.Sublist raw object := by
  refine sublist_of_mem_textsOf (fun key value raw hm => ?_) hm
  unfold entryTexts at hm
  split at hm
  next =>
    split at hm
    next => exact sublist_of_mem_variantsTexts hm
    next => cases hm
  next =>
    split at hm
    next => cases hm
    next =>
      cases List.mem_singleton.mp hm
      exact List.Sublist.refl value

end

theorem Outcome.exists_of_excess {texts : List (Option (List Char))} {digits : Nat}
    (h : ofTexts texts = .excess digits) :
    ∃ raw, some raw ∈ texts ∧ Numeral.excess? (Text.trim raw) = some digits := by
  induction texts with
  | nil => cases h
  | cons text texts ih =>
    cases text with
    | none => cases h
    | some raw =>
      simp only [ofTexts] at h
      split at h
      next n hn =>
        cases h
        exact ⟨raw, List.mem_cons_self, hn⟩
      next =>
        obtain ⟨raw', hm, hr⟩ := ih h
        exact ⟨raw', List.mem_cons_of_mem _ hm, hr⟩

/-- A definition with so few digits after its header can be read. -/
theorem canRead_of_countP {hit : Scan.Hit (List Char × List Char)}
    (h : hit.rest.countP Text.isDigit ≤ 4300) : CanRead hit := by
  intro digits ho
  obtain ⟨⟨object, rest⟩, ht, ho⟩ := Option.map_eq_some_iff.mp ho
  obtain ⟨raw, hm, hexcess⟩ := Outcome.exists_of_excess ho
  have hraw := (Text.trim_sublist raw).trans (sublist_of_mem_configTexts hm)
  have hcount := Numeral.countP_of_excess? hexcess hraw
  have hobject : object.countP Text.isDigit ≤ ('{' :: hit.rest).countP Text.isDigit := by
    rw [Scan.takeRegion?_append ht]
    exact (List.sublist_append_left object rest).countP_le
  have hbrace : ('{' :: hit.rest).countP Text.isDigit = hit.rest.countP Text.isDigit :=
    List.countP_cons_of_neg (by decide)
  omega

end DeclarativePattern

end Restyle
