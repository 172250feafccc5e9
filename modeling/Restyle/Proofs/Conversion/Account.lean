import Mathlib.Data.List.Forall2
import Restyle.Analysis.Basic
import Restyle.Conversion.Converter
import Restyle.Proofs.Traverse

namespace Restyle

section

variable {α β ε : Type}

theorem forall₂_of_mapM {f : α → Except ε β} {xs : List α} {ys : List β}
    (h : xs.mapM f = .ok ys) : List.Forall₂ (fun x y => f x = .ok y) xs ys := by
  induction xs generalizing ys with
  | nil =>
    cases h
    exact .nil
  | cons x xs ih =>
    obtain ⟨y, tail, hy, ht, rfl⟩ := mapM_cons_eq_ok h
    exact .cons hy (ih ht)

theorem map_eq_map_of_mapM {γ : Type} {f : α → Except ε β} {xs : List α} {ys : List β} {g : α → γ}
    {g' : β → γ} (hg : ∀ x y, f x = .ok y → g' y = g x) (h : xs.mapM f = .ok ys) :
    ys.map g' = xs.map g := by
  have hall := forall₂_of_mapM h
  clear h
  induction hall with
  | nil => rfl
  | cons hy _ ih => rw [List.map_cons, List.map_cons, hg _ _ hy, ih]

/-- The second list is the first one in the order of the lines, and what stands on one line keeps
its order. -/
structure IsByLine (line : α → Int) (xs ys : List α) : Prop where
  perm : ys.Perm xs
  sorted : ys.Pairwise fun a b => line a ≤ line b
  ties : ∀ n, ys.filter (line · == n) = xs.filter (line · == n)

theorem isByLine_mergeSort (line : α → Int) (xs : List α) :
    IsByLine line xs (xs.mergeSort fun a b => line a ≤ line b) := by
  have htrans : ∀ a b c : α, decide (line a ≤ line b) = true → decide (line b ≤ line c) = true →
      decide (line a ≤ line c) = true := by
    intro a b c hab hbc
    simp only [decide_eq_true_eq] at hab hbc ⊢
    omega
  have htotal : ∀ a b : α, (decide (line a ≤ line b) || decide (line b ≤ line a)) = true := by
    intro a b
    simp only [Bool.or_eq_true, decide_eq_true_eq]
    omega
  have hperm := List.mergeSort_perm xs fun a b => decide (line a ≤ line b)
  refine ⟨hperm, ?_, fun n => ?_⟩
  · have hsorted := List.pairwise_mergeSort htrans htotal xs
    exact hsorted.imp fun h => by simpa only [decide_eq_true_eq] using h
  · -- the entries of one line are in order already, so sorting keeps them as a sublist
    have hline : (xs.filter (line · == n)).Pairwise fun a b => decide (line a ≤ line b) = true := by
      refine List.pairwise_of_forall_mem_list fun a ha b hb => ?_
      have hla := (List.mem_filter.mp ha).2
      have hlb := (List.mem_filter.mp hb).2
      simp only [beq_iff_eq, decide_eq_true_eq] at hla hlb ⊢
      omega
    have hsub := List.sublist_mergeSort htrans htotal hline List.filter_sublist
    have hfilter := hsub.filter (line · == n)
    rw [List.filter_filter, List.filter_congr (q := (line · == n)) (by simp)] at hfilter
    exact (hfilter.eq_of_length (hperm.filter (line · == n)).length_eq.symm).symm

end

namespace Pattern

def isTag : Pattern → Bool
  | .inline _ => true
  | _ => false

/-- Whether a pattern is not replaced: what cannot be read, and a component that is not automatic. -/
def isSkipped (p : Pattern) : Bool := p.failed || (!p.isTag && !p.isAutoConvertible)

theorem isSkipped_template (p : TemplatePattern) :
    (template p).isSkipped = !p.isAutoConvertible := by
  show (p.failed || (true && !p.isAutoConvertible)) = !p.isAutoConvertible
  cases hf : p.failed with
  | false => rfl
  | true => simp [TemplatePattern.isAutoConvertible, hf]

theorem isSkipped_declarative (p : DeclarativePattern) :
    (declarative p).isSkipped = !p.isAutoConvertible := by
  show (p.failed || (true && !p.isAutoConvertible)) = !p.isAutoConvertible
  cases hf : p.failed with
  | false => rfl
  | true => simp [DeclarativePattern.isAutoConvertible, hf]

theorem isSkipped_inline (p : InlinePattern) : (inline p).isSkipped = p.failed :=
  Bool.or_false p.failed

end Pattern

/-- Whether a record is about a pattern: it has its text, its line and its kind. -/
def Conversion.IsOf (record : Conversion) (p : Pattern) : Prop :=
  record.source = p.source ∧ record.line = p.location.line ∧ record.kind = p.kind

def Skipped.IsOf (record : Skipped) (p : Pattern) : Prop :=
  record.source = p.source ∧ record.line = p.location.line

namespace StyleConverter

variable {c : StyleConverter}

theorem replace_eq_ok {p : Pattern} {component base : String} {styles : Fields Json}
    {output : ConversionOutput} (h : c.replace p component base styles = .ok output) :
    ∃ record : Conversion, output = { conversions := [record] } ∧ record.IsOf p := by
  obtain ⟨⟨classes, unmapped⟩, _, he⟩ := bind_eq_ok h
  cases he
  exact ⟨_, rfl, rfl, rfl, rfl⟩

theorem convertInline_eq_ok {p : InlinePattern} {output : ConversionOutput}
    (hf : p.failed = false) (h : c.convertInline p = .ok output) :
    ∃ record : Conversion, output = { conversions := [record] } ∧ record.IsOf (.inline p) := by
  simp only [convertInline, hf, Bool.false_eq_true, if_false] at h
  obtain ⟨found, _, he⟩ := bind_eq_ok h
  cases he
  exact ⟨_, rfl, rfl, rfl, rfl⟩

/-- Whether one pattern is found, of which `q` holds, and is replaced by a text. -/
def isReplaced {α : Type} (convert : α → Except Fault ConversionOutput) (q : α → Bool)
    (text : String) : List α → Bool
  | [p] => q p && gives (·.conversions.map (·.converted) == [text]) (convert p)
  | _ => false

theorem exists_of_isReplaced {α : Type} {found : Except Fault (List α)}
    {convert : α → Except Fault ConversionOutput} {q : α → Bool} {text : String}
    (h : gives (isReplaced convert q text) found = true) :
    ∃ p output, found = .ok [p] ∧ q p = true ∧ convert p = .ok output ∧
      output.conversions.map (·.converted) = [text] := by
  obtain ⟨patterns, hp, h⟩ := exists_of_gives h
  unfold isReplaced at h
  split at h
  next p =>
    obtain ⟨hq, h⟩ := Bool.and_eq_true_iff.mp h
    obtain ⟨output, hc, ht⟩ := exists_of_gives h
    exact ⟨p, output, hp, hq, hc, eq_of_beq ht⟩
  next => cases h

/-- A pattern gives one record, either of what replaces it or of why nothing does. -/
theorem convert_eq_ok {p : Pattern} {output : ConversionOutput} (h : c.convert p = .ok output) :
    (p.isSkipped = true ∧ ∃ record : Skipped, output = { skipped := [record] } ∧ record.IsOf p) ∨
    (p.isSkipped = false ∧
      ∃ record : Conversion, output = { conversions := [record] } ∧ record.IsOf p) := by
  have hskip : ∀ q : Pattern, ∃ record : Skipped, skip q = { skipped := [record] } ∧
      record.IsOf q := fun q => ⟨_, rfl, rfl, rfl⟩
  cases p with
  | template p =>
    rw [Pattern.isSkipped_template]
    simp only [convert, convertTemplate] at h
    split at h
    next ha => exact Or.inr ⟨by simp [ha], replace_eq_ok h⟩
    next ha =>
      cases h
      exact Or.inl ⟨by simpa using ha, hskip _⟩
  | declarative p =>
    rw [Pattern.isSkipped_declarative]
    simp only [convert, convertDeclarative] at h
    split at h
    next ha => exact Or.inr ⟨by simp [ha], replace_eq_ok h⟩
    next ha =>
      cases h
      exact Or.inl ⟨by simpa using ha, hskip _⟩
  | inline p =>
    rw [Pattern.isSkipped_inline]
    cases hf : p.failed with
    | false => exact Or.inr ⟨rfl, convertInline_eq_ok hf h⟩
    | true =>
      simp only [convert, convertInline, hf, if_true] at h
      cases h
      exact Or.inl ⟨rfl, hskip _⟩

/-- The records before they are put in order, one for each pattern and in the order of the
patterns. -/
theorem forall₂_concat {patterns : List Pattern} {outputs : List ConversionOutput}
    (h : List.Forall₂ (fun p output => c.convert p = .ok output) patterns outputs) :
    List.Forall₂ Conversion.IsOf (ConversionOutput.concat outputs).conversions
        (patterns.filter (!·.isSkipped)) ∧
      List.Forall₂ Skipped.IsOf (ConversionOutput.concat outputs).skipped
        (patterns.filter (·.isSkipped)) := by
  induction h with
  | nil => exact ⟨.nil, .nil⟩
  | @cons p output patterns outputs hc _ ih =>
    obtain ⟨hconversions, hskipped⟩ := ih
    rcases convert_eq_ok hc with ⟨hs, record, rfl, hr⟩ | ⟨hs, record, rfl, hr⟩
    · rw [List.filter_cons_of_neg (by simp [hs]), List.filter_cons_of_pos hs]
      exact ⟨hconversions, .cons hr hskipped⟩
    · rw [List.filter_cons_of_pos (by simp [hs]), List.filter_cons_of_neg (by simp [hs])]
      exact ⟨.cons hr hconversions, hskipped⟩

end StyleConverter

/-- What is replaced is what is automatic, and the tags with some style that is not static. -/
theorem SourcePatterns.countP_not_isSkipped (patterns : SourcePatterns) :
    patterns.all.countP (!·.isSkipped) = patterns.all.countP (·.isAutoConvertible) +
      patterns.inline.countP fun p => !p.failed && !p.dynamicStyles.isEmpty := by
  have htags : patterns.inline.countP (fun p => !p.failed) =
      patterns.inline.countP (·.isAutoConvertible) +
        patterns.inline.countP fun p => !p.failed && !p.dynamicStyles.isEmpty := by
    rw [List.countP_eq_countP_filter_add _ _ (fun p => p.dynamicStyles.isEmpty),
      List.countP_filter, List.countP_filter]
    rfl
  simp only [all, List.countP_append, List.countP_map, Function.comp_def,
    Pattern.isSkipped_template, Pattern.isSkipped_declarative, Pattern.isSkipped_inline,
    Pattern.isAutoConvertible, Bool.not_not, htags]
  omega

/-- Conversion gives one record for each pattern that analysis counts, by line and then in the
order of the patterns. It passes over what cannot be read and the components that are not
automatic; a tag with a style that is not static is converted all the same. -/
theorem StyleConverter.convertSource_accounts {c : StyleConverter} {tags : Json}
    {source : List Char} {output : ConversionOutput}
    (h : c.convertSource tags source = .ok output) (file : String) :
    ∃ analysis conversions skipped, Analysis.ofSource file tags source = .ok analysis ∧
      SourcePatterns.parse tags source = .ok analysis.patterns ∧
      List.Forall₂ Conversion.IsOf conversions (analysis.patterns.all.filter (!·.isSkipped)) ∧
      List.Forall₂ Skipped.IsOf skipped (analysis.patterns.all.filter (·.isSkipped)) ∧
      IsByLine (·.line) conversions output.conversions ∧
      IsByLine (·.line) skipped output.skipped ∧
      output.conversions.length = analysis.summary.auto +
        (analysis.patterns.inline.countP fun p => !p.failed && !p.dynamicStyles.isEmpty) ∧
      output.conversions.length + output.skipped.length = analysis.summary.total := by
  obtain ⟨patterns, hp, h⟩ := bind_eq_ok h
  obtain ⟨outputs, ho, he⟩ := bind_eq_ok h
  cases he
  obtain ⟨hconversions, hskipped⟩ := forall₂_concat (forall₂_of_mapM ho)
  have hc := isByLine_mergeSort (·.line) (ConversionOutput.concat outputs).conversions
  have hs := isByLine_mergeSort (·.line) (ConversionOutput.concat outputs).skipped
  have hlc : (ConversionOutput.concat outputs).sort.conversions.length =
      patterns.all.countP (!·.isSkipped) := by
    rw [List.countP_eq_length_filter, ← hconversions.length_eq]
    exact hc.perm.length_eq
  have hls : (ConversionOutput.concat outputs).sort.skipped.length =
      patterns.all.countP (·.isSkipped) := by
    rw [List.countP_eq_length_filter, ← hskipped.length_eq]
    exact hs.perm.length_eq
  refine ⟨⟨file, patterns, .ofPatterns patterns.all, patterns.tokens⟩, _, _, ?_, hp, hconversions,
    hskipped, hc, hs, ?_, ?_⟩
  · rw [Analysis.ofSource, hp]
    rfl
  · rw [hlc]
    exact patterns.countP_not_isSkipped
  · have htotal := List.length_eq_countP_add_countP (·.isSkipped) (l := patterns.all)
    have hnot : patterns.all.countP (fun p => ¬p.isSkipped = true) =
        patterns.all.countP (!·.isSkipped) := by
      refine List.countP_congr fun p _ => ?_
      simp
    show _ = patterns.all.length
    rw [hlc, hls]
    omega

/-- Patterns of all kinds on one line, and a tag without an end on the next. -/
def StyleConverter.crowdedSource : List Char :=
  ("<Button gap=\x7bn\x7d/> const A = styled(C, \x7b variants: \x7b s: f \x7d \x7d) " ++
    "const B = styled.View\x60top: 4;\x60\n<Image a").toList

theorem StyleConverter.convertSource_crowdedSource :
    ∃ output, ({} : StyleConverter).convertSource .null crowdedSource = .ok output ∧
      output.conversions.length = 2 ∧ output.skipped.length = 2 ∧
      ∃ analysis conversions skipped, Analysis.ofSource "a" .null crowdedSource = .ok analysis ∧
        SourcePatterns.parse .null crowdedSource = .ok analysis.patterns ∧
        List.Forall₂ Conversion.IsOf conversions
          (analysis.patterns.all.filter (!·.isSkipped)) ∧
        List.Forall₂ Skipped.IsOf skipped (analysis.patterns.all.filter (·.isSkipped)) ∧
        IsByLine (·.line) conversions output.conversions ∧
        IsByLine (·.line) skipped output.skipped ∧
        output.conversions.length = analysis.summary.auto +
          (analysis.patterns.inline.countP fun p => !p.failed && !p.dynamicStyles.isEmpty) ∧
        output.conversions.length + output.skipped.length = analysis.summary.total := by
  have hconverts : gives (fun _ => true)
      (({} : StyleConverter).convertSource .null crowdedSource) = true := by decide +kernel
  have hcounts : gives (fun analysis => analysis.summary.auto == 1 && analysis.summary.total == 4 &&
      (analysis.patterns.inline.countP fun p => !p.failed && !p.dynamicStyles.isEmpty) == 1)
      (Analysis.ofSource "a" .null crowdedSource) = true := by decide +kernel
  obtain ⟨output, ho, _⟩ := exists_of_gives hconverts
  obtain ⟨counted, hc, hq⟩ := exists_of_gives hcounts
  obtain ⟨analysis, conversions, skipped, ha, haccount⟩ := convertSource_accounts ho "a"
  have he : counted = analysis := Except.ok.inj (hc.symm.trans ha)
  subst he
  simp only [Bool.and_eq_true, beq_iff_eq] at hq
  have hauto := haccount.2.2.2.2.2.1
  have htotal := haccount.2.2.2.2.2.2
  exact ⟨output, ho, by omega, by omega, counted, conversions, skipped, ha, haccount⟩

end Restyle
