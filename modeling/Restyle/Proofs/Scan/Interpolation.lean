import Restyle.Expression.Classification
import Restyle.Proofs.Scan.Balanced
import Restyle.Proofs.Text.Search

namespace Restyle.Scan

/-- A text that is cut at some regions: what stands before the first one, and each of them with what
stands between it and the next one. -/
structure Cut where
  front : List Char
  rest : List (List Char × List Char)
  deriving DecidableEq

namespace Cut

def regions (cut : Cut) : List (List Char) := cut.rest.map (·.1)

/-- What stands before, between and after the regions. -/
def gaps (cut : Cut) : List (List Char) := cut.front :: cut.rest.map (·.2)

/-- The text with something written in the place of each region, which may depend on its number. -/
def fill (write : Nat → List Char → List Char) (cut : Cut) : List Char :=
  cut.front ++ (cut.rest.mapIdx fun index piece => write index piece.1 ++ piece.2).flatten

def text (cut : Cut) : List Char := cut.fill fun _ region => region

def empty : Cut := ⟨[], []⟩

/-- The cut with a character in front. -/
def cons (c : Char) (cut : Cut) : Cut := ⟨c :: cut.front, cut.rest⟩

/-- The cut with a region in front. -/
def consRegion (region : List Char) (cut : Cut) : Cut := ⟨[], (region, cut.front) :: cut.rest⟩

section

variable (write : Nat → List Char → List Char) (c : Char) (region : List Char) (cut : Cut)

@[simp] theorem fill_empty : empty.fill write = [] := rfl

@[simp] theorem fill_cons : (cut.cons c).fill write = c :: cut.fill write := rfl

@[simp] theorem fill_consRegion : (cut.consRegion region).fill write =
    write 0 region ++ cut.fill fun index region => write (index + 1) region := by
  simp [consRegion, fill, List.mapIdx_cons]

@[simp] theorem text_empty : empty.text = [] := rfl

@[simp] theorem text_cons : (cut.cons c).text = c :: cut.text := rfl

@[simp] theorem text_consRegion : (cut.consRegion region).text = region ++ cut.text :=
  fill_consRegion _ region cut

@[simp] theorem regions_empty : empty.regions = [] := rfl

@[simp] theorem regions_cons : (cut.cons c).regions = cut.regions := rfl

@[simp] theorem regions_consRegion : (cut.consRegion region).regions = region :: cut.regions := rfl

end

/-- The text starts with the first gap. -/
theorem front_prefix_text (cut : Cut) : cut.front <+: cut.text := List.prefix_append _ _

end Cut

/-- How the search for interpolations goes over a text: from the first place where one opens to its
end, and on from there, until none opens or the one that opens has no end. The text is cut at those
that are found. -/
inductive Searches : List Char → Cut → Prop where
  | absent {cs : List Char} (h : Text.cut? ['$', '{'] cs = none) : Searches cs ⟨cs, []⟩
  | unended {cs gap after : List Char} (h : Text.cut? ['$', '{'] cs = some (gap, after))
      (hr : takeBraces? ('{' :: after) = none) : Searches cs ⟨cs, []⟩
  | found {cs gap after region rest : List Char} {cut : Cut}
      (h : Text.cut? ['$', '{'] cs = some (gap, after))
      (hr : takeBraces? ('{' :: after) = some (region, rest)) (hs : Searches rest cut) :
      Searches cs ⟨gap, ('$' :: region, cut.front) :: cut.rest⟩

section

variable {c : Char} {cs tail gap after : List Char} {cut : Cut}

theorem cut?_dollar_brace (after : List Char) :
    Text.cut? ['$', '{'] ('$' :: '{' :: after) = some ([], after) := rfl

theorem cut?_cons_of_head (h : c = '$' → tail.head? ≠ some '{') :
    Text.cut? ['$', '{'] (c :: tail) =
      (Text.cut? ['$', '{'] tail).map fun found => (c :: found.1, found.2) := by
  have hnone : ['$', '{'].isPrefixOf? (c :: tail) = none := by
    rw [List.isPrefixOf?]
    split
    next hc =>
      have hhead := h (eq_of_beq hc).symm
      cases tail with
      | nil => rfl
      | cons d tail =>
        have hd : d ≠ '{' := by simpa using hhead
        simp [List.isPrefixOf?, hd.symm]
    next => rfl
  rw [Text.cut?, hnone]

theorem interpolations_of_cut?_none (h : Text.cut? ['$', '{'] cs = none) :
    interpolations cs = [] := by
  induction cs with
  | nil => exact interpolations.eq_1
  | cons c tail ih =>
    by_cases hopen : c = '$' ∧ tail.head? = some '{'
    · obtain ⟨rfl, hbrace⟩ := hopen
      obtain ⟨inner, rfl⟩ := List.head?_eq_some_iff.mp hbrace
      rw [cut?_dollar_brace] at h
      cases h
    · have hhead : c = '$' → tail.head? ≠ some '{' := fun hc hbrace => hopen ⟨hc, hbrace⟩
      rw [cut?_cons_of_head hhead, Option.map_eq_none_iff] at h
      rw [interpolations_of_head hhead, ih h]

/-- There are no interpolations before the first place where one opens. -/
theorem interpolations_of_cut?_some (h : Text.cut? ['$', '{'] cs = some (gap, after)) :
    interpolations cs = interpolations ('$' :: '{' :: after) := by
  induction cs generalizing gap with
  | nil => cases h
  | cons c tail ih =>
    by_cases hopen : c = '$' ∧ tail.head? = some '{'
    · obtain ⟨rfl, hbrace⟩ := hopen
      obtain ⟨inner, rfl⟩ := List.head?_eq_some_iff.mp hbrace
      rw [cut?_dollar_brace] at h
      cases h
      rfl
    · have hhead : c = '$' → tail.head? ≠ some '{' := fun hc hbrace => hopen ⟨hc, hbrace⟩
      rw [cut?_cons_of_head hhead] at h
      obtain ⟨⟨before, after'⟩, hc, he⟩ := Option.map_eq_some_iff.mp h
      cases he
      rw [interpolations_of_head hhead, ih hc]

/-- The search passes over a character that opens no interpolation. -/
theorem Searches.cons (h : Searches tail cut) (hd : c = '$' → tail.head? ≠ some '{') :
    Searches (c :: tail) (cut.cons c) := by
  cases h with
  | absent hn => exact .absent (by rw [cut?_cons_of_head hd, hn]; rfl)
  | unended hc hr => exact .unended (by rw [cut?_cons_of_head hd, hc]; rfl) hr
  | found hc hr hs => exact .found (by rw [cut?_cons_of_head hd, hc]; rfl) hr hs

theorem Searches.consRegion {region rest : List Char} (h : Searches rest cut)
    (hr : takeBraces? tail = some (region, rest)) :
    Searches ('$' :: tail) (cut.consRegion ('$' :: region)) := by
  obtain ⟨read, rfl⟩ := takeBraces?_eq_cons hr
  have ht : tail = '{' :: (read ++ rest) := takeRegion?_append hr
  subst ht
  exact .found (cut?_dollar_brace _) hr h

end

/-- How the reader of a template literal goes over a text to the backtick that ends the literal: by
a backslash and the character after it, by an interpolation as a whole, or by one character. The
interpolations that it steps over are listed, and `rest` is what follows the backtick. -/
inductive StepsOver (rest : List Char) : List (List Char) → List Char → Prop where
  | stop : StepsOver rest [] ('\x60' :: rest)
  | escape {c : Char} {cs : List Char} {regions : List (List Char)}
      (h : StepsOver rest regions cs) : StepsOver rest regions ('\\' :: c :: cs)
  | region {tail region cs : List Char} {regions : List (List Char)}
      (hr : takeBraces? tail = some (region, cs)) (h : StepsOver rest regions cs) :
      StepsOver rest (('$' :: region) :: regions) ('$' :: tail)
  | letter {c : Char} {cs : List Char} {regions : List (List Char)} (he : c ≠ '\\')
      (hd : c = '$' → cs.head? ≠ some '{') (hq : c ≠ '\x60') (h : StepsOver rest regions cs) :
      StepsOver rest regions (c :: cs)

theorem Fills.exists_stepsOver {cs : List Char} (h : Fills (.string '\x60') cs)
    (rest : List Char) : ∃ regions, StepsOver rest regions (cs ++ rest) := by
  generalize hcontext : Context.string '\x60' = context at h
  induction h with
  | quote hq =>
    cases hcontext
    exact ⟨[], .stop⟩
  | escape _ ih =>
    obtain ⟨regions, hs⟩ := ih hcontext
    exact ⟨regions, hs.escape⟩
  | @letter quote c cs he hq hd h ih =>
    obtain ⟨regions, hs⟩ := ih hcontext
    cases hcontext
    have hhead : c = '$' → (cs ++ rest).head? ≠ some '{' := by
      rw [h.head?_append]
      exact hd rfl
    exact ⟨regions, hs.letter he hhead hq⟩
  | @interpolation inner cs hi _ _ ih =>
    obtain ⟨regions, hs⟩ := ih hcontext
    have hregion : IsRegion '{' '}' ('{' :: inner) := ⟨inner, rfl, by decide, hi⟩
    have hr := hregion.takeRegion? (cs ++ rest)
    rw [← List.append_assoc] at hr
    exact ⟨_, .region hr hs⟩
  | closing => cases hcontext
  | plain => cases hcontext
  | literal => cases hcontext
  | nested => cases hcontext

namespace StepsOver

variable {rest cs : List Char} {regions : List (List Char)}

theorem exists_fills (h : StepsOver rest regions cs) :
    ∃ read, cs = read ++ rest ∧ Fills (.string '\x60') read := by
  induction h with
  | stop => exact ⟨['\x60'], rfl, .quote (by decide)⟩
  | @escape c _ _ _ ih =>
    obtain ⟨read, rfl, hf⟩ := ih
    exact ⟨'\\' :: c :: read, rfl, hf.escape⟩
  | region hr _ ih =>
    obtain ⟨read, rfl, hf⟩ := ih
    obtain ⟨rfl, inner, rfl, _, hi⟩ := takeRegion?_eq_some_iff.mp hr
    exact ⟨'$' :: '{' :: inner ++ read, by simp, .interpolation hi hf⟩
  | @letter c _ _ he hd hq _ ih =>
    obtain ⟨read, rfl, hf⟩ := ih
    rw [hf.head?_append] at hd
    exact ⟨c :: read, rfl, .letter he hq (fun _ => hd) hf⟩

theorem exists_eq_append (h : StepsOver rest regions cs) :
    ∃ body, cs = body ++ '\x60' :: rest := by
  induction h with
  | stop => exact ⟨[], rfl⟩
  | @escape c _ _ _ ih =>
    obtain ⟨body, rfl⟩ := ih
    exact ⟨'\\' :: c :: body, rfl⟩
  | @region _ region _ _ hr _ ih =>
    obtain ⟨body, rfl⟩ := ih
    exact ⟨'$' :: (region ++ body), by simp [takeRegion?_append hr]⟩
  | @letter c _ _ _ _ _ _ ih =>
    obtain ⟨body, rfl⟩ := ih
    exact ⟨c :: body, rfl⟩

end StepsOver

/-- The reader of a template literal takes such steps, from the first backtick to the last one. -/
theorem takeTemplate?_eq_some_iff {cs literal rest : List Char} :
    takeTemplate? ('\x60' :: cs) = some (literal, rest) ↔
      '\x60' :: cs = literal ++ rest ∧ ∃ regions, StepsOver rest regions cs := by
  constructor
  · intro h
    refine ⟨takeTemplate?_append h, ?_⟩
    obtain ⟨⟨read, rest'⟩, hr, he⟩ := Option.map_eq_some_iff.mp (takeTemplate?_eq_takeString? h)
    cases he
    obtain ⟨inner, after, rfl, hi, ha⟩ := filled_of_run (.string '\x60') 0 [] hr
    obtain rfl : [] = after := by simpa [Context.leave, run] using ha
    rw [run_append hr, List.append_nil]
    exact hi.exists_stepsOver rest
  · rintro ⟨happend, regions, hs⟩
    obtain ⟨read, rfl, hf⟩ := hs.exists_fills
    have hr := hf.run_append 0 [] rest
    obtain rfl : '\x60' :: read = literal := List.append_cancel_right happend
    simp only [Context.enter, Context.leave] at hr
    simp [takeTemplate?, takeString?, hr, run]

namespace StepsOver

variable {rest cs body : List Char} {regions : List (List Char)}

theorem exists_takeTemplate? (h : StepsOver rest regions cs) :
    ∃ literal, takeTemplate? ('\x60' :: cs) = some (literal, rest) := by
  obtain ⟨read, hread, _⟩ := h.exists_fills
  refine ⟨'\x60' :: read, takeTemplate?_eq_some_iff.mpr ⟨?_, regions, h⟩⟩
  rw [hread, List.cons_append]

/-- Without backslashes, the search in the text before the last backtick takes the same steps. -/
theorem interpolations_eq (h : StepsOver rest regions cs) (hb : cs = body ++ '\x60' :: rest)
    (he : '\\' ∉ body) : interpolations body = regions := by
  induction h generalizing body with
  | stop =>
    obtain rfl : [] = body := List.append_cancel_right hb
    simp [interpolations]
  | @escape c cs regions hs ih =>
    obtain ⟨inner, rfl⟩ := hs.exists_eq_append
    obtain rfl : '\\' :: c :: inner = body := List.append_cancel_right hb
    simp at he
  | @region tail region cs regions hr hs ih =>
    obtain ⟨inner, rfl⟩ := hs.exists_eq_append
    obtain rfl : '$' :: (region ++ inner) = body := by
      rw [takeRegion?_append hr, ← List.append_assoc, ← List.cons_append] at hb
      exact List.append_cancel_right hb
    have hinner : '\\' ∉ inner := fun hm =>
      he (List.mem_cons_of_mem _ (List.mem_append_right region hm))
    rw [interpolations_of_region (takeBraces?_read_append hr inner), ih rfl hinner]
  | @letter c cs regions hc hd hq hs ih =>
    obtain ⟨inner, rfl⟩ := hs.exists_eq_append
    obtain rfl : c :: inner = body := List.append_cancel_right hb
    have hhead : c = '$' → inner.head? ≠ some '{' := by
      intro hdollar hbrace
      refine hd hdollar ?_
      rw [List.head?_append, hbrace]
      rfl
    rw [interpolations_of_head hhead, ih rfl fun hm => he (List.mem_cons_of_mem c hm)]

/-- Without backslashes, no interpolation opens and no backtick stands in what the reader goes over
by single characters. -/
theorem exists_cut (h : StepsOver rest regions cs) (hb : cs = body ++ '\x60' :: rest)
    (he : '\\' ∉ body) :
    ∃ cut : Cut, cut.text = body ∧ cut.regions = regions ∧
      ∀ gap ∈ cut.gaps, Text.hasPart ['$', '{'] gap = false ∧ '\x60' ∉ gap := by
  induction h generalizing body with
  | stop =>
    obtain rfl : [] = body := List.append_cancel_right hb
    exact ⟨.empty, rfl, rfl, by simp [Cut.gaps, Cut.empty, Text.hasPart_pair_nil]⟩
  | @escape c cs regions hs ih =>
    obtain ⟨inner, rfl⟩ := hs.exists_eq_append
    obtain rfl : '\\' :: c :: inner = body := List.append_cancel_right hb
    simp at he
  | @region tail region cs regions hr hs ih =>
    obtain ⟨inner, rfl⟩ := hs.exists_eq_append
    obtain rfl : '$' :: (region ++ inner) = body := by
      rw [takeRegion?_append hr, ← List.append_assoc, ← List.cons_append] at hb
      exact List.append_cancel_right hb
    obtain ⟨cut, rfl, rfl, hgaps⟩ := ih rfl fun hm =>
      he (List.mem_cons_of_mem _ (List.mem_append_right region hm))
    refine ⟨cut.consRegion ('$' :: region), by simp, by simp, ?_⟩
    exact List.forall_mem_cons.mpr ⟨⟨Text.hasPart_pair_nil, List.not_mem_nil⟩, hgaps⟩
  | @letter c cs regions hc hd hq hs ih =>
    obtain ⟨inner, rfl⟩ := hs.exists_eq_append
    obtain rfl : c :: inner = body := List.append_cancel_right hb
    obtain ⟨cut, rfl, rfl, hgaps⟩ := ih rfl fun hm => he (List.mem_cons_of_mem c hm)
    obtain ⟨⟨hfront, htick⟩, hrest⟩ := List.forall_mem_cons.mp hgaps
    have hopen : ('$' == c && cut.front.head? == some '{') = false := by
      rw [Bool.and_eq_false_imp]
      intro hdollar
      rw [beq_eq_false_iff_ne]
      intro hbrace
      obtain ⟨after, ht⟩ := cut.front_prefix_text
      refine hd (eq_of_beq hdollar).symm ?_
      rw [← ht, List.append_assoc, List.head?_append, hbrace]
      rfl
    refine ⟨cut.cons c, rfl, rfl, List.forall_mem_cons.mpr ⟨⟨?_, ?_⟩, hrest⟩⟩
    · rw [Cut.cons, Text.hasPart_pair_cons, hopen, hfront]
      rfl
    · simpa [Cut.cons, Ne.symm hq] using htick

end StepsOver

theorem templateAt?_eq_some {source literal : List Char} {start : Int}
    (h : templateAt? source start = some literal) :
    0 ≤ start ∧ ∃ cs rest, source.drop start.toNat = '\x60' :: cs ∧
      takeTemplate? ('\x60' :: cs) = some (literal, rest) := by
  simp only [templateAt?, bind] at h
  split at h
  next => cases h
  next hstart =>
    obtain ⟨⟨found, rest⟩, ht, hl⟩ := Option.bind_eq_some_iff.mp h
    cases hl
    obtain ⟨read, rfl⟩ := takeTemplate?_eq_cons ht
    have hdrop : source.drop start.toNat = '\x60' :: (read ++ rest) := takeTemplate?_append ht
    rw [hdrop] at ht
    exact ⟨by omega, read ++ rest, rest, hdrop, ht⟩

/-- From the backtick that opens a template literal without backslashes, the reader in the source
text steps over exactly those interpolations that are found in the text between the backticks, to
the end of the literal. What is left of that text between them neither opens an interpolation nor
has a backtick. -/
theorem interpolations_are_stepped_over {source literal : List Char} {start : Int}
    (h : templateAt? source start = some literal) (he : '\\' ∉ literal) :
    (∀ regions rest, StepsOver rest regions (source.drop (start.toNat + 1)) ↔
      regions = interpolations (Expression.inside literal) ∧
        source.drop start.toNat = literal ++ rest) ∧
    ∃ cut : Cut, cut.text = Expression.inside literal ∧
      cut.regions = interpolations (Expression.inside literal) ∧
      ∀ gap ∈ cut.gaps, Text.hasPart ['$', '{'] gap = false ∧ '\x60' ∉ gap := by
  obtain ⟨hstart, cs, rest, hdrop, ht⟩ := templateAt?_eq_some h
  obtain ⟨happend, regions, hs⟩ := takeTemplate?_eq_some_iff.mp ht
  obtain ⟨body, rfl⟩ := hs.exists_eq_append
  obtain rfl : literal = '\x60' :: (body ++ ['\x60']) := by
    have heq : literal ++ rest = '\x60' :: (body ++ ['\x60']) ++ rest := by simp [← happend]
    exact List.append_cancel_right heq
  have hbody : '\\' ∉ body := fun hm => he (List.mem_cons_of_mem _ (List.mem_append_left _ hm))
  have hinside : Expression.inside ('\x60' :: (body ++ ['\x60'])) = body := by
    simp [Expression.inside]
  have hnext : source.drop (start.toNat + 1) = body ++ '\x60' :: rest := by
    rw [← List.drop_drop, hdrop]
    rfl
  have hfound := hs.interpolations_eq rfl hbody
  rw [hinside, hnext, hdrop]
  constructor
  · intro regions' rest'
    constructor
    · intro hs'
      obtain ⟨literal', ht'⟩ := hs'.exists_takeTemplate?
      rw [ht] at ht'
      cases ht'
      exact ⟨(hs'.interpolations_eq rfl hbody).symm, by simp⟩
    · rintro ⟨rfl, hrest⟩
      obtain rfl : rest = rest' := by simpa using hrest
      rwa [hfound]
  · obtain ⟨cut, htext, hregions, hgaps⟩ := hs.exists_cut rfl hbody
    exact ⟨cut, htext, by rw [hregions, hfound], hgaps⟩

/-- A literal with a dollar sign before an interpolation and one before the last backtick, another
literal with an interpolation of its own inside of the first one, and a backtick inside of the
second one. -/
def nestedLiteral : List Char :=
  "\x60a$$\x7bf(\x60\x7d$\x7bb\x7d\x60)\x7dc$\x7b'\x7d\x60'\x7d$\x60".toList

def nestedRegions : List (List Char) :=
  ["$\x7bf(\x60\x7d$\x7bb\x7d\x60)\x7d".toList, "$\x7b'\x7d\x60'\x7d".toList]

theorem nestedRegions_are_stepped_over :
    templateAt? ("x = ".toList ++ nestedLiteral ++ [';']) 4 = some nestedLiteral ∧
      '\\' ∉ nestedLiteral ∧
      interpolations (Expression.inside nestedLiteral) = nestedRegions ∧
      StepsOver [';'] nestedRegions (nestedLiteral.drop 1 ++ [';']) ∧
      ∃ cut : Cut, cut.text = Expression.inside nestedLiteral ∧ cut.regions = nestedRegions ∧
        ∀ gap ∈ cut.gaps, Text.hasPart ['$', '{'] gap = false ∧ '\x60' ∉ gap := by
  have h : templateAt? ("x = ".toList ++ nestedLiteral ++ [';']) 4 = some nestedLiteral := by
    decide +kernel
  have he : '\\' ∉ nestedLiteral := by decide +kernel
  have hfound : interpolations (Expression.inside nestedLiteral) = nestedRegions := by
    decide +kernel
  obtain ⟨hsteps, cut, htext, hregions, hgaps⟩ := interpolations_are_stepped_over h he
  refine ⟨h, he, hfound, ?_, cut, htext, by rw [hregions, hfound], hgaps⟩
  exact (hsteps nestedRegions [';']).mpr ⟨hfound.symm, by decide +kernel⟩

end Restyle.Scan
