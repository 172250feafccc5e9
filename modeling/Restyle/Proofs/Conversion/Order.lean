import Restyle.Proofs.Conversion.Account

namespace Restyle

section

variable {α : Type} {line : α → Int} {xs ys zs : List α}

theorem mem_of_ties (h : ∀ n, ys.filter (line · == n) = zs.filter (line · == n)) {a : α}
    (ha : a ∈ ys) : a ∈ zs := by
  have hm : a ∈ ys.filter (line · == line a) := List.mem_filter.mpr ⟨ha, beq_self_eq_true _⟩
  rw [h] at hm
  exact (List.mem_filter.mp hm).1

theorem line_head_le {y a : α} (h : (y :: ys).Pairwise fun a b => line a ≤ line b)
    (ha : a ∈ y :: ys) : line y ≤ line a := by
  rcases List.mem_cons.mp ha with rfl | ha
  · exact Int.le_refl _
  · exact (List.pairwise_cons.mp h).1 a ha

/-- What stands on each line decides about the whole, if the lines are in order. -/
theorem eq_of_ties (hy : ys.Pairwise fun a b => line a ≤ line b)
    (hz : zs.Pairwise fun a b => line a ≤ line b)
    (h : ∀ n, ys.filter (line · == n) = zs.filter (line · == n)) : ys = zs := by
  induction ys generalizing zs with
  | nil =>
    cases zs with
    | nil => rfl
    | cons z zs => cases mem_of_ties (fun n => (h n).symm) (List.mem_cons_self (a := z))
  | cons y ys ih =>
    cases zs with
    | nil => cases mem_of_ties h (List.mem_cons_self (a := y))
    | cons z zs =>
      have hyz := line_head_le hy (mem_of_ties (fun n => (h n).symm) List.mem_cons_self)
      have hzy := line_head_le hz (mem_of_ties h List.mem_cons_self)
      have hline : line z = line y := by omega
      have hfirst := h (line y)
      simp only [List.filter_cons, hline, beq_self_eq_true, if_true] at hfirst
      obtain ⟨rfl, _⟩ := List.cons.inj hfirst
      have hrest : ∀ n, ys.filter (line · == n) = zs.filter (line · == n) := by
        intro n
        have hn := h n
        rw [List.filter_cons, List.filter_cons] at hn
        split at hn
        next => exact (List.cons.inj hn).2
        next => exact hn
      rw [ih (List.pairwise_cons.mp hy).2 (List.pairwise_cons.mp hz).2 hrest]

/-- There is one order by line that keeps what stands on one line. -/
theorem IsByLine.unique (h : IsByLine line xs ys) (h' : IsByLine line xs zs) : ys = zs :=
  eq_of_ties h.sorted h'.sorted fun n => (h.ties n).trans (h'.ties n).symm

/-- What was in order before more was added may as well not have been. -/
theorem IsByLine.of_append {added : List α} (h : IsByLine line xs ys)
    (h' : IsByLine line (ys ++ added) zs) : IsByLine line (xs ++ added) zs where
  perm := h'.perm.trans (h.perm.append_right added)
  sorted := h'.sorted
  ties n := by rw [h'.ties n, List.filter_append, List.filter_append, h.ties n]

theorem mergeSort_append_mergeSort (line : α → Int) (xs added : List α) :
    ((xs.mergeSort fun a b => line a ≤ line b) ++ added).mergeSort (fun a b => line a ≤ line b) =
      (xs ++ added).mergeSort fun a b => line a ≤ line b :=
  ((isByLine_mergeSort line xs).of_append (isByLine_mergeSort line _)).unique
    (isByLine_mergeSort line _)

end

namespace ConversionOutput

variable {a b c : ConversionOutput}

theorem append_assoc : a ++ b ++ c = a ++ (b ++ c) :=
  congrArg₂ mk (List.append_assoc ..) (List.append_assoc ..)

theorem append_empty : a ++ ({} : ConversionOutput) = a :=
  congrArg₂ mk (List.append_nil _) (List.append_nil _)

theorem sort_append_sort : (a.sort ++ b).sort = (a ++ b).sort :=
  congrArg₂ mk (mergeSort_append_mergeSort Conversion.line _ _)
    (mergeSort_append_mergeSort Skipped.line _ _)

/-- That an output has the records of another one by line, and those of one line in their order. -/
structure IsSortOf (sorted output : ConversionOutput) : Prop where
  conversions : IsByLine Conversion.line output.conversions sorted.conversions
  skipped : IsByLine Skipped.line output.skipped sorted.skipped

theorem isSortOf_sort (output : ConversionOutput) : output.sort.IsSortOf output :=
  ⟨isByLine_mergeSort Conversion.line _, isByLine_mergeSort Skipped.line _⟩

theorem isSortOf_iff : a.IsSortOf b ↔ a = b.sort := by
  constructor
  · intro h
    exact congrArg₂ mk (h.conversions.unique b.isSortOf_sort.conversions)
      (h.skipped.unique b.isSortOf_sort.skipped)
  · rintro rfl
    exact b.isSortOf_sort

/-- What is done to an output. -/
inductive Step where
  | extend (other : ConversionOutput)
  | sort

namespace Step

def apply (output : ConversionOutput) : Step → ConversionOutput
  | .extend other => output ++ other
  | .sort => output.sort

/-- The records that a step adds. -/
def added : Step → ConversionOutput
  | .extend other => other
  | .sort => {}

end Step

/-- An output after some steps. -/
def run (start : ConversionOutput) (steps : List Step) : ConversionOutput :=
  steps.foldl Step.apply start

theorem sort_apply_append (output : ConversionOutput) (step : Step) (more : ConversionOutput) :
    (step.apply output ++ more).sort = (output ++ (step.added ++ more)).sort := by
  cases step with
  | extend other => exact congrArg sort append_assoc
  | sort => exact sort_append_sort

theorem sort_run (start : ConversionOutput) (steps : List Step) :
    (run start steps).sort = (concat (start :: steps.map Step.added)).sort := by
  induction steps generalizing start with
  | nil => exact congrArg sort append_empty.symm
  | cons step steps ih =>
    calc (run (step.apply start) steps).sort
        = (concat (step.apply start :: steps.map Step.added)).sort := ih (step.apply start)
      _ = (start ++ (step.added ++ concat (steps.map Step.added))).sort :=
          sort_apply_append start step (concat (steps.map Step.added))

/-- After any steps of which the last one sorts, the records are all that was there and that was
added, by line, and on one line in the order in which they were added. -/
theorem isSortOf_run_iff (start : ConversionOutput) (steps : List Step)
    (output : ConversionOutput) :
    run start (steps ++ [.sort]) = output ↔
      output.IsSortOf (concat (start :: steps.map Step.added)) := by
  have hlast : run start (steps ++ [.sort]) = (run start steps).sort := List.foldl_concat ..
  rw [hlast, sort_run, isSortOf_iff]
  exact eq_comm

end ConversionOutput

end Restyle
