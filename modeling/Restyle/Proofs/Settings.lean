import Restyle.Proofs.Job
import Restyle.Proofs.Json.Showable
import Restyle.Proofs.Returns
import Restyle.Settings

namespace Restyle.Settings

/-- Whether the theme is there, if it is a file of a host in memory. -/
def themeIsThere (files : Tree (List UInt8)) (config : Fields Json) : Except Fault Bool :=
  match themePath? config with
  | some path => Memory.isThere files (Path.normal path)
  | none => .ok true

/-- The checks of settings on a host in memory. -/
def allChecks (files : Tree (List UInt8)) (config : Fields Json) :
    List (Except Fault (List String)) :=
  topChecks (.object config) ++ checks config (themeIsThere files config)

theorem validate_object (config : Fields Json) (there : Except Fault Bool) :
    validate (.object config) there =
      .ofChecks (topChecks (.object config) ++ checks config there) := by
  cases config with
  | nil => rfl
  | cons field config => rfl

theorem findTheme_memory (config : Fields Json) (memory : Memory) :
    (findTheme (.object config) : Job (StateM Memory) (Except Fault Bool)) memory =
      (.ok (themeIsThere memory.files config), memory) := by
  unfold findTheme themeIsThere
  dsimp only
  cases themePath? config with
  | some path => rfl
  | none => rfl

theorem report_memory (v : Validation) (memory : Memory) :
    (v.report : Job (StateM Memory) Unit) memory =
      (v.fault.elim (.ok ()) .error, memory.printLines v.warnings) := by
  unfold Validation.report
  refine (Job.bind_memory_of_ok (Job.printLines_memory _ memory) _).trans ?_
  cases v.fault with
  | none => rfl
  | some fault => rfl

theorem review_memory (config : Fields Json) (memory : Memory) :
    (review (.object config) : Job (StateM Memory) Unit) memory =
      ((Validation.ofChecks (allChecks memory.files config)).fault.elim (.ok ()) .error,
        memory.printLines (Validation.ofChecks (allChecks memory.files config)).warnings) := by
  refine (Job.bind_memory_of_ok (findTheme_memory config memory) _).trans ?_
  rw [validate_object]
  exact report_memory _ memory

/-- What is wrong with settings, by the text of its warning. -/
inductive Complaint (files : Tree (List UInt8)) (config : Fields Json) : String → Prop
  | top {name : String} (hm : name ∈ config.names) (hn : name ∉ sectionNames) :
      Complaint files config (describeTop name)
  | shape {part : String × List String} {value : Json} (hp : part ∈ sections)
      (hv : config.get? part.1 = some value) (ho : value.isObject = false) :
      Complaint files config (describeSection part.1 value)
  | field {part : String × List String} {fields : Fields Json} {name : String}
      (hp : part ∈ sections) (hv : config.get? part.1 = some (.object fields))
      (hm : name ∈ fields.names) (hn : name ∉ part.2) :
      Complaint files config (describeField part name)
  | locale {value : Json} (hv : fieldOf config "tokens" "locale" = value)
      (hg : value.given = true) (hn : ∀ name ∈ Typeface.locales, value ≠ .text name) :
      Complaint files config (describeLocale value)
  | theme {path : String} (hv : fieldOf config "tokens" "theme" = .text path) (hne : path ≠ "")
      (ha : isAddress path = false) (ht : Memory.isThere files (Path.normal path) = .ok false) :
      Complaint files config (describeTheme path)
  | pattern {value : Json} (hv : fieldOf config "batch" "pattern" = value)
      (hg : value.given = true) (hn : ∀ entry ∈ filePatterns, value ≠ .text entry.1) :
      Complaint files config (describePattern value)
  | limit {value : Json} (hv : fieldOf config "batch" "limit" = value) (hne : value ≠ .null)
      (hn : ∀ n : Int, value = .whole n → n ≤ 0) : Complaint files config (describeLimit value)
  | skipped {value : Json} (hv : fieldOf config "batch" "skipDirs" = value) (hne : value ≠ .null)
      (hn : ∀ items, value ≠ .list items) : Complaint files config (describeSkipped value)
  | components {value : Json} (hv : fieldOf config "inline" "components" = value)
      (hne : value ≠ .null) (hn : ∀ names, value ≠ .texts names) :
      Complaint files config describeComponents

/-- Why a check of settings fails: a value is too long to show, a theme is no text, a pattern is a
list or an object, or the host refuses the path of the theme. -/
inductive Breaks (files : Tree (List UInt8)) (config : Fields Json) : Fault → Prop
  | locale (hs : (fieldOf config "tokens" "locale").isShowable = false) :
      Breaks files config .tooLongToShow
  | longTheme (hs : (fieldOf config "tokens" "theme").isShowable = false) :
      Breaks files config .tooLongToShow
  | theme {value : Json} (hv : fieldOf config "tokens" "theme" = value)
      (hg : value.given = true) (hn : value.isText = false) (hs : value.isShowable = true) :
      Breaks files config .wrongType
  | path {path : String} {fault : Fault} (hv : fieldOf config "tokens" "theme" = .text path)
      (hne : path ≠ "") (ha : isAddress path = false)
      (ht : Memory.isThere files (Path.normal path) = .error fault) : Breaks files config fault
  | pattern {value : Json} (hv : fieldOf config "batch" "pattern" = value)
      (hg : value.given = true) (hn : isAtom value = false) : Breaks files config .wrongType
  | longPattern {value : Json} (hv : fieldOf config "batch" "pattern" = value)
      (hn : isAtom value = true) (hs : value.isShowable = false) :
      Breaks files config .tooLongToShow
  | limit {value : Json} (hv : fieldOf config "batch" "limit" = value)
      (hs : value.isShowable = false) (hn : ∀ n : Int, value = .whole n → n ≤ 0) :
      Breaks files config .tooLongToShow

/-- That a check gives the warnings of some complaints, or fails for a reason. -/
def Checks (complaint : String → Prop) (fault : Fault → Prop) (x : Except Fault (List String)) :
    Prop :=
  ReturnsIff (∀ f, ¬ fault f)
    (fun lines => ∀ line, line ∈ lines ↔ ∃ text, complaint text ∧ line = warning text) fault x

section

variable {wrong : Bool} {condition : Prop} {complaint : String → Prop} {fault : Fault → Prop}

theorem Checks.congr {complaint' : String → Prop} {fault' : Fault → Prop}
    {x : Except Fault (List String)} (h : Checks complaint fault x)
    (hc : ∀ text, complaint text ↔ complaint' text) (hf : ∀ f, fault f ↔ fault' f) :
    Checks complaint' fault' x := by
  obtain rfl : complaint = complaint' := funext fun text => propext (hc text)
  obtain rfl : fault = fault' := funext fun f => propext (hf f)
  exact h

theorem checks_ok {lines : List String}
    (h : ∀ line, line ∈ lines ↔ ∃ text, complaint text ∧ line = warning text)
    (hf : ∀ f, ¬ fault f) : Checks complaint fault (.ok lines) :=
  ⟨fun _ => ⟨lines, rfl, h⟩, fun hn => absurd hf hn⟩

theorem checks_nil (hc : ∀ text, ¬ complaint text) (hf : ∀ f, ¬ fault f) :
    Checks complaint fault (.ok []) :=
  checks_ok (by simp [hc]) hf

theorem checks_error {f : Fault} (hf : fault f) : Checks complaint fault (.error f) :=
  ⟨fun hn => absurd hf (hn f), fun _ => ⟨f, rfl, hf⟩⟩

theorem mem_warnIf_iff (h : wrong = true ↔ condition) (text line : String) :
    line ∈ warnIf wrong text ↔ ∃ t, (condition ∧ t = text) ∧ line = warning t := by
  cases wrong with
  | true => simp [warnIf, h.mp rfl]
  | false => simp [warnIf, show ¬ condition from fun hc => Bool.false_ne_true (h.mpr hc)]

theorem warnShowing_checks (h : wrong = true ↔ condition) (value : Json) (text : String) :
    Checks (fun t => condition ∧ t = text)
      (fun f => f = .tooLongToShow ∧ condition ∧ value.isShowable = false)
      (warnShowing wrong value text) := by
  unfold warnShowing
  split
  next hw =>
    rw [Bool.and_eq_true, Bool.not_eq_true'] at hw
    exact checks_error ⟨rfl, h.mp hw.1, hw.2⟩
  next hw =>
    refine checks_ok (mem_warnIf_iff h text) ?_
    rintro f ⟨_, hc, hs⟩
    exact hw (by rw [h.mpr hc, hs]; rfl)

theorem unknownFields_checks (known : List String) (describe : String → String)
    (names : List String) :
    Checks (fun text => ∃ name ∈ names, name ∉ known ∧ text = describe name) (fun _ => False)
      (.ok (unknownFields known describe names)) := by
  refine checks_ok (fun line => ?_) fun _ => not_false
  simp only [unknownFields, List.mem_map, List.mem_filter, Bool.not_eq_true',
    List.contains_eq_mem, decide_eq_false_iff_not]
  constructor
  · rintro ⟨name, ⟨hm, hn⟩, rfl⟩
    exact ⟨describe name, ⟨name, hm, hn, rfl⟩, rfl⟩
  · rintro ⟨_, ⟨name, hm, hn, rfl⟩, rfl⟩
    exact ⟨name, ⟨hm, hn⟩, rfl⟩

end

theorem checkLocale_checks (value : Json) :
    Checks (fun text => (value.given = true ∧ ∀ name ∈ Typeface.locales, value ≠ .text name) ∧
        text = describeLocale value)
      (fun f => f = .tooLongToShow ∧
        (value.given = true ∧ ∀ name ∈ Typeface.locales, value ≠ .text name) ∧
        value.isShowable = false)
      (checkLocale value) := by
  refine warnShowing_checks ?_ value _
  cases value with
  | text s =>
    simp only [Bool.and_eq_true, Bool.not_eq_true', List.contains_eq_mem, decide_eq_false_iff_not]
    refine and_congr_right fun _ => ⟨?_, ?_⟩
    · rintro hn name hm ⟨⟩
      exact hn hm
    · intro hn hm
      exact hn s hm rfl
  | _ => simp

theorem checkLimit_checks (value : Json) :
    Checks (fun text => (value ≠ .null ∧ ∀ n : Int, value = .whole n → n ≤ 0) ∧
        text = describeLimit value)
      (fun f => f = .tooLongToShow ∧
        (value ≠ .null ∧ ∀ n : Int, value = .whole n → n ≤ 0) ∧ value.isShowable = false)
      (checkLimit value) := by
  refine warnShowing_checks ?_ value _
  cases value with
  | whole n => simp
  | _ => simp

theorem checkPattern_checks (value : Json) :
    Checks (fun text => (value.given = true ∧ ∀ entry ∈ filePatterns, value ≠ .text entry.1) ∧
        text = describePattern value)
      (fun f => (f = .wrongType ∧ value.given = true ∧ isAtom value = false) ∨
        (f = .tooLongToShow ∧ isAtom value = true ∧ value.isShowable = false))
      (checkPattern value) := by
  have hknown : (value.text?.bind fun name => filePatterns.lookup name).isNone = true ↔
      ∀ entry ∈ filePatterns, value ≠ .text entry.1 := by
    cases value with
    | text s =>
      simp only [Json.text?, Option.bind_some, Option.isNone_iff_eq_none, List.lookup_eq_none_iff,
        bne_iff_ne, ne_eq, Json.text.injEq]
    | _ => simp [Json.text?]
  unfold checkPattern
  split
  next hg =>
    rw [Bool.not_eq_true'] at hg
    refine checks_nil (by simp [hg]) ?_
    rintro f (⟨_, hgiven, _⟩ | ⟨_, _, hs⟩)
    · rw [hg] at hgiven
      cases hgiven
    · rw [Json.given_of_not_isShowable hs] at hg
      cases hg
  next hg =>
    rw [Bool.not_eq_true', Bool.not_eq_false] at hg
    split
    next ha =>
      refine (warnShowing_checks hknown value _).congr ?_ ?_
      · simp [hg]
      · intro f
        simp only [ha, Bool.true_eq_false, and_false, false_or, true_and]
        refine and_congr_right fun _ => ⟨And.right, fun hs => ⟨?_, hs⟩⟩
        exact fun entry _ => Json.ne_text_of_not_isShowable hs entry.1
    next ha => exact checks_error (.inl ⟨rfl, hg, Bool.eq_false_iff.mpr ha⟩)

theorem checkTheme_checks (value : Json) (there : Except Fault Bool) :
    Checks (fun text => ∃ path, value = .text path ∧ path ≠ "" ∧ isAddress path = false ∧
        there = .ok false ∧ text = describeTheme path)
      (fun f => (∃ path, value = .text path ∧ path ≠ "" ∧ isAddress path = false ∧
          there = .error f) ∨
        (f = .wrongType ∧ value.given = true ∧ value.isText = false ∧ value.isShowable = true) ∨
        (f = .tooLongToShow ∧ value.isShowable = false))
      (checkTheme value there) := by
  unfold checkTheme
  split
  next path =>
    split
    next ha =>
      have hnot : path ≠ "" → isAddress path ≠ false := by
        intro hne hf
        rw [hf, Bool.or_false, beq_iff_eq] at ha
        exact hne ha
      refine checks_nil ?_ ?_
      · rintro text ⟨_, ⟨⟩, hne, hf, _⟩
        exact hnot hne hf
      · rintro f (⟨_, ⟨⟩, hne, hf, _⟩ | ⟨_, _, ⟨⟩, _⟩ | ⟨_, ⟨⟩⟩)
        exact hnot hne hf
    next ha =>
      rw [Bool.not_eq_true, Bool.or_eq_false_iff, beq_eq_false_iff_ne] at ha
      cases there with
      | error f => exact checks_error (.inl ⟨path, rfl, ha.1, ha.2, rfl⟩)
      | ok there =>
        refine checks_ok (fun line => ?_) ?_
        · cases there with
          | true => simp [warnIf]
          | false => simp [warnIf, ha]
        · rintro f (⟨_, _, _, _, ⟨⟩⟩ | ⟨_, _, ⟨⟩, _⟩ | ⟨_, ⟨⟩⟩)
  next hn =>
    have htext : value.isText = false := by
      cases value with
      | text path => exact absurd rfl (hn path)
      | _ => rfl
    split
    next hg =>
      rw [Bool.not_eq_true'] at hg
      refine checks_nil ?_ ?_
      · rintro text ⟨path, rfl, _⟩
        exact hn path rfl
      · rintro f (⟨path, rfl, _⟩ | ⟨_, hgiven, _⟩ | ⟨_, hs⟩)
        · exact hn path rfl
        · rw [hg] at hgiven
          cases hgiven
        · rw [Json.given_of_not_isShowable hs] at hg
          cases hg
    next hg =>
      rw [Bool.not_eq_true', Bool.not_eq_false] at hg
      refine checks_error (.inr ?_)
      cases hs : value.isShowable with
      | true => exact .inl ⟨rfl, hg, htext, rfl⟩
      | false => exact .inr ⟨rfl, rfl⟩

theorem checkSection_checks (config : Fields Json) (part : String × List String) :
    Checks (fun text =>
        (∃ value, config.get? part.1 = some value ∧ value.isObject = false ∧
          text = describeSection part.1 value) ∨
        ∃ fields, config.get? part.1 = some (.object fields) ∧
          ∃ name ∈ Fields.names fields, name ∉ part.2 ∧ text = describeField part name)
      (fun _ => False) (.ok (checkSection config part)) := by
  unfold checkSection
  split
  next fields hv =>
    refine (unknownFields_checks part.2 (describeField part) _).congr (fun text => ?_) fun _ => .rfl
    simp [hv, Json.isObject]
  next value hn hv =>
    have ho : value.isObject = false := by
      cases value with
      | object fields => exact absurd rfl (hn fields)
      | _ => rfl
    refine checks_ok (fun line => ?_) fun _ => not_false
    rw [List.mem_singleton]
    constructor
    · rintro rfl
      exact ⟨_, .inl ⟨value, hv, ho, rfl⟩, rfl⟩
    · rintro ⟨_, ⟨_, hv', _, rfl⟩ | ⟨fields, hv', _⟩, rfl⟩
      · rw [hv] at hv'
        cases hv'
        rfl
      · rw [hv] at hv'
        cases hv'
        cases ho
  next hv => exact checks_nil (by simp [hv]) fun _ => not_false

theorem checkSkipped_checks (value : Json) :
    Checks (fun text => (value ≠ .null ∧ ∀ items, value ≠ .list items) ∧
        text = describeSkipped value)
      (fun _ => False) (.ok (checkSkipped value)) := by
  refine checks_ok (mem_warnIf_iff ?_ _) fun _ => not_false
  cases value with
  | _ => simp

theorem all_isText_iff {items : List Json} :
    items.all Json.isText = true ↔ ∃ names, Json.list items = .texts names := by
  constructor
  · intro h
    induction items with
    | nil => exact ⟨[], rfl⟩
    | cons item items ih =>
      rw [List.all_cons, Bool.and_eq_true] at h
      obtain ⟨names, hnames⟩ := ih h.2
      cases item with
      | text name =>
        exact ⟨name :: names, by rw [Json.texts, List.map_cons, Json.list.inj hnames]⟩
      | _ => cases h.1
  · rintro ⟨names, hnames⟩
    rw [Json.list.inj hnames]
    simp [Json.isText]

theorem checkComponents_checks (value : Json) :
    Checks (fun text => (value ≠ .null ∧ ∀ names, value ≠ .texts names) ∧
        text = describeComponents)
      (fun _ => False) (.ok (checkComponents value)) := by
  refine checks_ok (mem_warnIf_iff ?_ _) fun _ => not_false
  cases value with
  | list items =>
    have hall : (!items.all Json.isText) = true ↔ ¬ ∃ names, Json.list items = .texts names := by
      rw [Bool.not_eq_true', Bool.eq_false_iff, ne_eq, all_isText_iff]
    refine hall.trans ⟨fun hn => ⟨nofun, fun names hnames => hn ⟨names, hnames⟩⟩, ?_⟩
    rintro ⟨_, hn⟩ ⟨names, hnames⟩
    exact hn names hnames
  | _ => simp [Json.texts]

section

variable {files : Tree (List UInt8)} {config : Fields Json}

theorem themeIsThere_of_path {path : String} (hv : fieldOf config "tokens" "theme" = .text path)
    (hne : path ≠ "") (ha : isAddress path = false) :
    themeIsThere files config = Memory.isThere files (Path.normal path) := by
  have hpath : themePath? config = some path := by simp [themePath?, hv, hne, ha]
  rw [themeIsThere, hpath]

theorem mem_allChecks_iff {x : Except Fault (List String)} :
    x ∈ allChecks files config ↔
      x = .ok (unknownFields sectionNames describeTop config.names) ∨
      (∃ part ∈ sections, .ok (checkSection config part) = x) ∨
      x = checkLocale (fieldOf config "tokens" "locale") ∨
      x = checkTheme (fieldOf config "tokens" "theme") (themeIsThere files config) ∨
      x = checkPattern (fieldOf config "batch" "pattern") ∨
      x = checkLimit (fieldOf config "batch" "limit") ∨
      x = .ok (checkSkipped (fieldOf config "batch" "skipDirs")) ∨
      x = .ok (checkComponents (fieldOf config "inline" "components")) := by
  simp only [allChecks, topChecks, checks, List.mem_append, List.mem_map, List.mem_cons,
    List.not_mem_nil, or_false]

/-- Every check complains and fails for one of the reasons. -/
theorem exists_checks_of_mem {x : Except Fault (List String)} (hx : x ∈ allChecks files config) :
    ∃ complaint fault, Checks complaint fault x ∧
      (∀ text, complaint text → Complaint files config text) ∧
      (∀ f, fault f → Breaks files config f) := by
  rcases mem_allChecks_iff.mp hx with rfl | ⟨part, hp, rfl⟩ | rfl | rfl | rfl | rfl | rfl | rfl
  · refine ⟨_, _, unknownFields_checks _ _ _, ?_, nofun⟩
    rintro _ ⟨name, hm, hn, rfl⟩
    exact .top hm hn
  · refine ⟨_, _, checkSection_checks config part, ?_, nofun⟩
    rintro _ (⟨value, hv, ho, rfl⟩ | ⟨fields, hv, name, hm, hn, rfl⟩)
    · exact .shape hp hv ho
    · exact .field hp hv hm hn
  · refine ⟨_, _, checkLocale_checks _, ?_, ?_⟩
    · rintro _ ⟨⟨hg, hn⟩, rfl⟩
      exact .locale rfl hg hn
    · rintro _ ⟨rfl, _, hs⟩
      exact .locale hs
  · refine ⟨_, _, checkTheme_checks _ _, ?_, ?_⟩
    · rintro _ ⟨path, hv, hne, ha, ht, rfl⟩
      rw [themeIsThere_of_path hv hne ha] at ht
      exact .theme hv hne ha ht
    · rintro _ (⟨path, hv, hne, ha, ht⟩ | ⟨rfl, hg, hn, hs⟩ | ⟨rfl, hs⟩)
      · rw [themeIsThere_of_path hv hne ha] at ht
        exact .path hv hne ha ht
      · exact .theme rfl hg hn hs
      · exact .longTheme hs
  · refine ⟨_, _, checkPattern_checks _, ?_, ?_⟩
    · rintro _ ⟨⟨hg, hn⟩, rfl⟩
      exact .pattern rfl hg hn
    · rintro _ (⟨rfl, hg, hn⟩ | ⟨rfl, hn, hs⟩)
      · exact .pattern rfl hg hn
      · exact .longPattern rfl hn hs
  · refine ⟨_, _, checkLimit_checks _, ?_, ?_⟩
    · rintro _ ⟨⟨hne, hn⟩, rfl⟩
      exact .limit rfl hne hn
    · rintro _ ⟨rfl, ⟨_, hn⟩, hs⟩
      exact .limit rfl hs hn
  · refine ⟨_, _, checkSkipped_checks _, ?_, nofun⟩
    rintro _ ⟨⟨hne, hn⟩, rfl⟩
    exact .skipped rfl hne hn
  · refine ⟨_, _, checkComponents_checks _, ?_, nofun⟩
    rintro _ ⟨⟨hne, hn⟩, rfl⟩
    exact .components rfl hne hn

/-- Every complaint is made by a check. -/
theorem exists_checks_of_complaint {text : String} (h : Complaint files config text) :
    ∃ x ∈ allChecks files config, ∃ complaint fault, Checks complaint fault x ∧ complaint text := by
  cases h with
  | top hm hn =>
    refine ⟨.ok (unknownFields sectionNames describeTop config.names), ?_, _, _,
      unknownFields_checks _ _ _, _, hm, hn, rfl⟩
    simp [mem_allChecks_iff]
  | @shape part value hp hv ho =>
    refine ⟨.ok (checkSection config part), ?_, _, _, checkSection_checks config part,
      .inl ⟨value, hv, ho, rfl⟩⟩
    exact mem_allChecks_iff.mpr (.inr (.inl ⟨part, hp, rfl⟩))
  | @field part fields name hp hv hm hn =>
    refine ⟨.ok (checkSection config part), ?_, _, _, checkSection_checks config part,
      .inr ⟨fields, hv, name, hm, hn, rfl⟩⟩
    exact mem_allChecks_iff.mpr (.inr (.inl ⟨part, hp, rfl⟩))
  | locale hv hg hn =>
    subst hv
    refine ⟨_, ?_, _, _, checkLocale_checks _, ⟨hg, hn⟩, rfl⟩
    simp [mem_allChecks_iff]
  | @theme path hv hne ha ht =>
    rw [← themeIsThere_of_path hv hne ha] at ht
    refine ⟨_, ?_, _, _, checkTheme_checks _ _, path, hv, hne, ha, ht, rfl⟩
    simp [mem_allChecks_iff]
  | pattern hv hg hn =>
    subst hv
    refine ⟨_, ?_, _, _, checkPattern_checks _, ⟨hg, hn⟩, rfl⟩
    simp [mem_allChecks_iff]
  | limit hv hne hn =>
    subst hv
    refine ⟨_, ?_, _, _, checkLimit_checks _, ⟨hne, hn⟩, rfl⟩
    simp [mem_allChecks_iff]
  | skipped hv hne hn =>
    subst hv
    refine ⟨_, ?_, _, _, checkSkipped_checks _, ⟨hne, hn⟩, rfl⟩
    simp [mem_allChecks_iff]
  | components hv hne hn =>
    subst hv
    refine ⟨_, ?_, _, _, checkComponents_checks _, ⟨hne, hn⟩, rfl⟩
    simp [mem_allChecks_iff]

/-- Every reason to fail makes a check fail. -/
theorem exists_checks_of_breaks {f : Fault} (h : Breaks files config f) :
    ∃ x ∈ allChecks files config, ∃ complaint fault, Checks complaint fault x ∧ fault f := by
  cases h with
  | locale hs =>
    refine ⟨_, ?_, _, _, checkLocale_checks _, rfl, ⟨?_, ?_⟩, hs⟩
    · simp [mem_allChecks_iff]
    · exact Json.given_of_not_isShowable hs
    · exact fun name _ => Json.ne_text_of_not_isShowable hs name
  | longTheme hs =>
    refine ⟨_, ?_, _, _, checkTheme_checks _ (themeIsThere files config),
      .inr (.inr ⟨rfl, hs⟩)⟩
    simp [mem_allChecks_iff]
  | theme hv hg hn hs =>
    subst hv
    refine ⟨_, ?_, _, _, checkTheme_checks _ (themeIsThere files config),
      .inr (.inl ⟨rfl, hg, hn, hs⟩)⟩
    simp [mem_allChecks_iff]
  | @path path _ hv hne ha ht =>
    rw [← themeIsThere_of_path hv hne ha] at ht
    refine ⟨_, ?_, _, _, checkTheme_checks _ _, .inl ⟨path, hv, hne, ha, ht⟩⟩
    simp [mem_allChecks_iff]
  | pattern hv hg hn =>
    subst hv
    refine ⟨_, ?_, _, _, checkPattern_checks _, .inl ⟨rfl, hg, hn⟩⟩
    simp [mem_allChecks_iff]
  | longPattern hv hn hs =>
    subst hv
    refine ⟨_, ?_, _, _, checkPattern_checks _, .inr ⟨rfl, hn, hs⟩⟩
    simp [mem_allChecks_iff]
  | limit hv hs hn =>
    subst hv
    refine ⟨_, ?_, _, _, checkLimit_checks _, rfl, ⟨?_, hn⟩, hs⟩
    · simp [mem_allChecks_iff]
    · intro hnull
      rw [hnull] at hs
      cases hs

end

namespace Validation

variable {checks : List (Except Fault (List String))}

theorem exists_of_mem_warnings {line : String} (h : line ∈ (ofChecks checks).warnings) :
    ∃ lines, .ok lines ∈ checks ∧ line ∈ lines := by
  fun_induction ofChecks checks with
  | case1 => cases h
  | case2 lines checks rest ih =>
    rcases List.mem_append.mp h with hline | hrest
    · exact ⟨lines, List.mem_cons_self, hline⟩
    · obtain ⟨later, hlater, hline⟩ := ih hrest
      exact ⟨later, List.mem_cons_of_mem _ hlater, hline⟩
  | case3 => cases h

theorem mem_of_fault {f : Fault} (h : (ofChecks checks).fault = some f) : .error f ∈ checks := by
  fun_induction ofChecks checks with
  | case1 => cases h
  | case2 lines checks rest ih => exact List.mem_cons_of_mem _ (ih h)
  | case3 fault checks =>
    cases h
    exact List.mem_cons_self

/-- If no check fails, all their warnings are given. -/
theorem exists_of_mem_checks (h : (ofChecks checks).fault = none)
    {x : Except Fault (List String)} (hx : x ∈ checks) :
    ∃ lines, x = .ok lines ∧ ∀ line ∈ lines, line ∈ (ofChecks checks).warnings := by
  fun_induction ofChecks checks with
  | case1 => cases hx
  | case2 lines checks rest ih =>
    rcases List.mem_cons.mp hx with rfl | hx
    · exact ⟨lines, rfl, fun line hline => List.mem_append_left _ hline⟩
    · obtain ⟨later, rfl, hlater⟩ := ih h hx
      exact ⟨later, rfl, fun line hline => List.mem_append_right _ (hlater line hline)⟩
  | case3 => cases h

end Validation

/-- What a look at settings does: its lines are warnings of complaints. It returns unless there is a
reason to fail, and then no complaint is left out. -/
structure IsReview (files : Tree (List UInt8)) (config : Fields Json) (lines : List String)
    (outcome : Except Fault Unit) : Prop where
  sound : ∀ line ∈ lines, ∃ text, Complaint files config text ∧ line = warning text
  returns : ReturnsIff (∀ f, ¬ Breaks files config f)
    (fun _ => ∀ text, Complaint files config text → warning text ∈ lines)
    (Breaks files config) outcome

section

variable {files : Tree (List UInt8)} {config : Fields Json}

theorem not_breaks_of_fault_eq_none
    (h : (Validation.ofChecks (allChecks files config)).fault = none) (f : Fault) :
    ¬ Breaks files config f := by
  intro hb
  obtain ⟨x, hx, complaint, fault, hchecks, hf⟩ := exists_checks_of_breaks hb
  obtain ⟨lines, rfl, _⟩ := Validation.exists_of_mem_checks h hx
  exact hchecks.exists_ok_iff.mp ⟨lines, rfl⟩ f hf

theorem isReview_ofChecks (files : Tree (List UInt8)) (config : Fields Json) :
    IsReview files config (Validation.ofChecks (allChecks files config)).warnings
      ((Validation.ofChecks (allChecks files config)).fault.elim (.ok ()) .error) := by
  constructor
  · intro line hline
    obtain ⟨lines, hlines, hmem⟩ := Validation.exists_of_mem_warnings hline
    obtain ⟨complaint, fault, hchecks, hsound, _⟩ := exists_checks_of_mem hlines
    obtain ⟨text, htext, rfl⟩ := (hchecks.result_of_eq_ok rfl line).mp hmem
    exact ⟨text, hsound text htext, rfl⟩
  · cases hfault : (Validation.ofChecks (allChecks files config)).fault with
    | some f =>
      obtain ⟨complaint, fault, hchecks, _, hbreaks⟩ :=
        exists_checks_of_mem (Validation.mem_of_fault hfault)
      have hb := hbreaks f (hchecks.fault_of_eq_error rfl)
      exact ⟨fun hn => absurd hb (hn f), fun _ => ⟨f, rfl, hb⟩⟩
    | none =>
      refine ⟨fun _ => ⟨(), rfl, ?_⟩, fun hn => absurd (not_breaks_of_fault_eq_none hfault) hn⟩
      intro text htext
      obtain ⟨x, hx, complaint, fault, hchecks, hc⟩ := exists_checks_of_complaint htext
      obtain ⟨lines, rfl, hlines⟩ := Validation.exists_of_mem_checks hfault hx
      exact hlines _ ((hchecks.result_of_eq_ok rfl _).mpr ⟨text, hc, rfl⟩)

theorem isShowable_fieldOf (h : (Json.object config).isShowable = true) (part field : String) :
    (fieldOf config part field).isShowable = true := by
  unfold fieldOf
  split
  next fields hpart =>
    have hfields := Json.haveShowable_iff.mp h _ (Fields.mem_of_get? hpart)
    cases hv : Fields.get? fields field with
    | none => rfl
    | some value => exact Json.haveShowable_iff.mp hfields _ (Fields.mem_of_get? hv)
  next => rfl

/-- Settings that can be shown only fail for the type of a value or the length of a path. -/
theorem Breaks.of_isShowable {f : Fault} (h : Breaks files config f)
    (hs : (Json.object config).isShowable = true) :
    f = .wrongType ∨ ∃ name, f = .badPath .nameTooLong name := by
  have hshow := isShowable_fieldOf hs
  cases h with
  | locale hn => rw [hshow] at hn; cases hn
  | longTheme hn => rw [hshow] at hn; cases hn
  | theme hv hg hn hs => exact .inl rfl
  | path hv hne ha ht => exact .inr ⟨_, Memory.isThere_eq_error ht⟩
  | pattern hv hg hn => exact .inl rfl
  | longPattern hv hn hs => rw [← hv, hshow] at hs; cases hs
  | limit hv hs hn => rw [← hv, hshow] at hs; cases hs

end

section

variable (memory : Memory) (path : String)

/-- Why settings cannot be loaded: the host refuses the path, the file holds no value, or a check of
the settings in it fails. -/
inductive LoadFails : Fault → Prop
  | path {f : Fault} (hp : Memory.isThere memory.files (Path.normal path) = .error f) :
      LoadFails f
  | file {f : Fault} (hp : Memory.isThere memory.files (Path.normal path) = .ok true)
      (hj : memory.json path = .error f) : LoadFails f
  | settings {config : Fields Json} {f : Fault}
      (hp : Memory.isThere memory.files (Path.normal path) = .ok true)
      (hj : memory.json path = .ok (.object config)) (hb : Breaks memory.files config f)
      (hf : f = .wrongType ∨ ∃ name, f = .badPath .nameTooLong name) : LoadFails f

/-- The settings that are loaded, with the lines that are printed. -/
inductive LoadsTo : Fields Json → List String → Prop
  | absent (hp : Memory.isThere memory.files (Path.normal path) = .ok false) : LoadsTo [] []
  | shapeless {value : Json} (hp : Memory.isThere memory.files (Path.normal path) = .ok true)
      (hj : memory.json path = .ok value) (ho : value.isObject = false) :
      LoadsTo [] [warning (describeFormat path)]
  | settings {config : Fields Json} {lines : List String}
      (hp : Memory.isThere memory.files (Path.normal path) = .ok true)
      (hj : memory.json path = .ok (.object config))
      (hl : ∀ line, line ∈ lines ↔
        ∃ text, Complaint memory.files config text ∧ line = warning text) :
      LoadsTo config lines

end

/-- What loading settings does. -/
def IsLoad (memory : Memory) (path : String) (run : Except Fault (Fields Json) × Memory) : Prop :=
  ∃ lines, run.2 = memory.printLines lines ∧
    ReturnsIff (∀ f, ¬ LoadFails memory path f) (fun config => LoadsTo memory path config lines)
      (LoadFails memory path) run.1

section

variable {memory : Memory} {path : String}

theorem isLoad_error {f : Fault} (hf : LoadFails memory path f) (lines : List String) :
    IsLoad memory path (.error f, memory.printLines lines) :=
  ⟨lines, rfl, fun hn => absurd hf (hn f), fun _ => ⟨f, rfl, hf⟩⟩

theorem isLoad_ok {lines : List String} {config : Fields Json}
    (hl : LoadsTo memory path config lines) (hn : ∀ f, ¬ LoadFails memory path f) :
    IsLoad memory path (.ok config, memory.printLines lines) :=
  ⟨lines, rfl, fun _ => ⟨config, rfl, hl⟩, fun hf => absurd hn hf⟩

theorem isShowable_of_json {value : Json} (h : memory.json path = .ok value) :
    value.isShowable = true := by
  obtain ⟨source, _, hread⟩ := bind_eq_ok h
  split at hread
  next hvalue =>
    cases hread
    exact Json.isShowable_of_read hvalue
  next => cases hread

theorem LoadFails.exists_breaks {value : Json} {f : Fault} (h : LoadFails memory path f)
    (hp : Memory.isThere memory.files (Path.normal path) = .ok true)
    (hj : memory.json path = .ok value) :
    ∃ config, value = .object config ∧ Breaks memory.files config f := by
  cases h with
  | path hp' =>
    rw [hp] at hp'
    cases hp'
  | file hp' hj' =>
    rw [hj] at hj'
    cases hj'
  | @settings config _ hp' hj' hb hf =>
    rw [hj] at hj'
    cases hj'
    exact ⟨config, rfl, hb⟩

theorem isLoad_settings {config : Fields Json}
    (hp : Memory.isThere memory.files (Path.normal path) = .ok true)
    (hj : memory.json path = .ok (.object config)) {lines : List String}
    {outcome : Except Fault Unit} (h : IsReview memory.files config lines outcome) :
    IsLoad memory path (outcome.map fun _ => config, memory.printLines lines) := by
  have hshow := isShowable_of_json hj
  cases outcome with
  | error f =>
    have hb := h.returns.fault_of_eq_error rfl
    exact isLoad_error (.settings hp hj hb (hb.of_isShowable hshow)) lines
  | ok _ =>
    have hl : ∀ line, line ∈ lines ↔
        ∃ text, Complaint memory.files config text ∧ line = warning text := by
      refine fun line => ⟨h.sound line, ?_⟩
      rintro ⟨text, htext, rfl⟩
      exact h.returns.result_of_eq_ok rfl text htext
    refine isLoad_ok (.settings hp hj hl) fun f hf => ?_
    obtain ⟨_, ⟨⟩, hb⟩ := hf.exists_breaks hp hj
    exact h.returns.exists_ok_iff.mp ⟨(), rfl⟩ f hb

theorem isLoad_load (memory : Memory) (path : String) :
    IsLoad memory path ((load path : Job (StateM Memory) (Fields Json)) memory) := by
  have hthere := Job.isThere_memory (Path.normal path) memory
  have hjson := Job.readJson_memory memory path
  unfold load
  cases hp : Memory.isThere memory.files (Path.normal path) with
  | error f =>
    rw [hp] at hthere
    have hload := isLoad_error (.path hp) []
    rw [Memory.printLines_nil] at hload
    rwa [Job.bind_memory_of_error hthere]
  | ok there =>
    rw [hp] at hthere
    rw [Job.bind_memory_of_ok hthere]
    cases there with
    | false =>
      have hload := isLoad_ok (.absent hp) fun f hf => by
        cases hf with
        | path hp' | file hp' | settings hp' =>
          rw [hp] at hp'
          cases hp'
      rw [Memory.printLines_nil] at hload
      exact hload
    | true =>
      rw [if_neg (by decide)]
      cases hj : memory.json path with
      | error f =>
        rw [hj] at hjson
        have hload := isLoad_error (.file hp hj) []
        rw [Memory.printLines_nil] at hload
        rwa [Job.bind_memory_of_error hjson]
      | ok value =>
        rw [hj] at hjson
        rw [Job.bind_memory_of_ok hjson]
        split
        next config =>
          rw [Job.bind_pure_memory (review_memory config memory)]
          exact isLoad_settings hp hj (isReview_ofChecks memory.files config)
        next hn =>
          rw [Job.bind_pure_memory (Job.printLine_memory _ memory)]
          have ho : value.isObject = false := by
            cases value with
            | object config => exact absurd rfl (hn config)
            | _ => rfl
          refine isLoad_ok (.shapeless hp hj ho) fun f hf => ?_
          obtain ⟨config, rfl, _⟩ := hf.exists_breaks hp hj
          exact hn config rfl

end

/-- A look at settings prints a warning of each complaint and returns, unless a check fails; loading
them fails as well if the file cannot be read or holds no value. -/
theorem settings_are_checked (memory : Memory) :
    (∀ config : Fields Json, ∃ lines,
      ((review (.object config) : Job (StateM Memory) Unit) memory).2 = memory.printLines lines ∧
      IsReview memory.files config lines
        ((review (.object config) : Job (StateM Memory) Unit) memory).1) ∧
    ∀ path, IsLoad memory path ((load path : Job (StateM Memory) (Fields Json)) memory) := by
  refine ⟨fun config => ?_, isLoad_load memory⟩
  rw [review_memory]
  exact ⟨_, rfl, isReview_ofChecks memory.files config⟩

/-- A theme that is no text, also in a file, and a file pattern that is a list. -/
def numberedTheme : Fields Json := [("tokens", .object [("theme", .whole 5)])]
def listedPattern : Fields Json := [("batch", .object [("pattern", .texts ["**/*"])])]
def themedMemory : Memory :=
  { files := .folder [("a.json", .file "\x7b\"tokens\": \x7b\"theme\": 5\x7d\x7d".toUTF8.toList)] }

theorem settings_are_not_always_checked :
    ((review (.object numberedTheme) : Job (StateM Memory) Unit) {}).1 = .error .wrongType ∧
    ((review (.object listedPattern) : Job (StateM Memory) Unit) {}).1 = .error .wrongType ∧
    ∃ fault, ((load "a.json" : Job (StateM Memory) (Fields Json)) themedMemory).1 = .error fault ∧
      fault.isReported = false := by
  refine ⟨rfl, rfl, ?_⟩
  have hfails : failsWith (!·.isReported)
      ((load "a.json" : Job (StateM Memory) (Fields Json)) themedMemory).1 = true := by
    decide +kernel
  obtain ⟨fault, hfault, hreported⟩ := exists_of_failsWith hfails
  exact ⟨fault, hfault, Bool.not_eq_true' _ ▸ hreported⟩

end Restyle.Settings
