import Restyle.Migration.Variants
import Restyle.Proofs.Declarative.ObjectText
import Restyle.Proofs.Scan.Keeps
import Restyle.Proofs.Token.Form

namespace Restyle

namespace Scan

/-- A text with which a region can begin. -/
def Leads (opening closing : Char) (text : List Char) : Prop :=
  ∀ cs, Fills (.region opening closing) cs → Fills (.region opening closing) (text ++ cs)

/-- The characters that mean nothing to the reader of a region. -/
def isQuiet (opening closing c : Char) : Bool := !isQuote c && c != opening && c != closing

section

variable {opening closing : Char} {text after : List Char}

theorem Leads.append (h : Leads opening closing text) (ha : Leads opening closing after) :
    Leads opening closing (text ++ after) := by
  intro cs hcs
  rw [List.append_assoc]
  exact h _ (ha _ hcs)

theorem leads_of_isQuiet (h : ∀ c ∈ text, isQuiet opening closing c = true) :
    Leads opening closing text := by
  intro cs hcs
  induction text with
  | nil => exact hcs
  | cons c text ih =>
    obtain ⟨hc, ht⟩ := List.forall_mem_cons.mp h
    simp only [isQuiet, Bool.and_eq_true, Bool.not_eq_true', bne_iff_ne, ne_eq] at hc
    obtain ⟨⟨hq, ho⟩, hcl⟩ := hc
    exact .plain hq ho hcl (ih ht)

theorem leads_inQuotes (hq : '\x22' ∉ text) (he : '\\' ∉ text) :
    Leads opening closing (inQuotes text) := by
  have hinner : Fills (.string '\x22') (text ++ ['\x22']) := by
    induction text with
    | nil => exact .quote (by decide)
    | cons c text ih =>
      have hc : c ≠ '\\' ∧ c ≠ '\x22' :=
        ⟨fun h => he (h ▸ List.mem_cons_self), fun h => hq (h ▸ List.mem_cons_self)⟩
      have hrest := ih (fun h => hq (List.mem_cons_of_mem c h))
        (fun h => he (List.mem_cons_of_mem c h))
      exact .letter hc.1 hc.2 (fun h => absurd h (by decide)) hrest
  intro cs hcs
  exact .literal (by decide) hinner hcs

theorem Leads.isRegion (h : Leads '(' ')' text) : IsRegion '(' ')' ('(' :: (text ++ [')'])) :=
  ⟨text ++ [')'], rfl, by decide, h _ (.closing (by decide) (by decide))⟩

/-- Outside of strings a reader stays in its region or leaves it. -/
theorem foldl_step_of_not_isQuote (h : ∀ c ∈ text, isQuote c = false) (depth : Nat) :
    text.foldl step [.region opening closing depth] = [] ∨
      ∃ depth', text.foldl step [.region opening closing depth] =
        [.region opening closing depth'] := by
  induction text generalizing depth with
  | nil => exact .inr ⟨depth, rfl⟩
  | cons c text ih =>
    obtain ⟨hc, ht⟩ := List.forall_mem_cons.mp h
    rw [List.foldl_cons]
    simp only [step, hc, Bool.false_eq_true, if_false]
    split
    next => exact ih ht (depth + 1)
    next =>
      split
      next =>
        cases depth with
        | zero => exact .inl (foldl_step_nil text)
        | succ depth => exact ih ht depth
      next => exact ih ht depth

/-- A region that is open before another one is not closed with it. -/
theorem takeRegion?_ne_whole {region : List Char} (h : IsRegion '(' ')' region)
    (ht : ∀ c ∈ text, isQuote c = false) :
    takeRegion? '(' ')' ('(' :: (text ++ region)) ≠ some ('(' :: (text ++ region), []) := by
  intro hwhole
  obtain ⟨-, -, read, hrun, hread⟩ := takeRegion?_cons hwhole
  obtain ⟨inner, rfl, -, hfills⟩ := h
  have hbefore : text.foldl step [.region '(' ')' 0] = [] ∨
      ∃ depth, text.foldl step [.region '(' ')' 0] = [.region '(' ')' depth] :=
    foldl_step_of_not_isQuote ht 0
  rcases hbefore with hleft | ⟨depth, hin⟩
  · -- it is closed in the text before
    cases hfirst : run [.region '(' ')' 0] text with
    | none => exact absurd hleft (run_eq_none_iff.mp hfirst)
    | some found =>
      obtain ⟨read', rest⟩ := found
      rw [run_append hfirst, List.append_assoc, run_read_append hfirst] at hrun
      have hrest := (Prod.ext_iff.mp (Option.some.inj hrun)).2
      simp at hrest
  · -- it is open when the other one begins, and so it is when that ends
    have hend : (text ++ '(' :: inner).foldl step [.region '(' ')' 0] = [.region '(' ')' depth] := by
      rw [List.foldl_append, hin]
      exact hfills.foldl_step (depth + 1) []
    have hnone : run [.region '(' ')' 0] (text ++ '(' :: inner) = none := by
      rw [run_eq_none_iff, hend]
      exact List.cons_ne_nil _ _
    rw [hnone] at hrun
    cases hrun

end

end Scan

namespace DeclarativePattern

/-- The entries of an object's text by name, with the value of each as `read` gives it. -/
def readObject {α : Type} (read : List Char → Except Fault α) (object : List Char) :
    Except Fault (List (String × Option α)) := do
  (← entries object).mapM fun (key, raw) =>
    match raw with
    | none => return (String.ofList key, none)
    | some raw => (read raw).map fun value => (String.ofList key, some value)

end DeclarativePattern

namespace Migration

open DeclarativePattern (IsKey IsClosed isComma entryText entries readObject)

/-- A name or a list of classes that can stand in double quotes on a line. -/
structure IsPlain (s : String) : Prop where
  quote : '\x22' ∉ s.toList
  escape : '\\' ∉ s.toList
  line : '\n' ∉ s.toList

instance (s : String) : Decidable (IsPlain s) :=
  decidable_of_iff ('\x22' ∉ s.toList ∧ '\\' ∉ s.toList ∧ '\n' ∉ s.toList)
    ⟨fun h => ⟨h.1, h.2.1, h.2.2⟩, fun h => ⟨h.quote, h.escape, h.line⟩⟩

/-- A text that can be the value of a field, in a call or by itself. -/
structure IsValue (text : List Char) : Prop where
  closed : IsClosed text
  leads : Scan.Leads '(' ')' text

/-- The text of a name in an object. -/
def keyText (name : String) : List Char := (objectKey name).toList

theorem keyText_eq (name : String) :
    keyText name = if isBareKey name.toList then name.toList else Scan.inQuotes name.toList := by
  unfold keyText objectKey
  split
  next => rfl
  next => simp [Scan.inQuotes]

theorem isName_of_isBareKey {name : List Char} (h : isBareKey name = true) (hn : '\n' ∉ name) :
    Expression.isName name = true := by
  have hchomp : Text.chomp name = name := by
    unfold Text.chomp
    split
    next hl => exact absurd (List.mem_of_getLast? (eq_of_beq hl)) hn
    next => rfl
  unfold isBareKey at h
  rw [hchomp] at h
  cases name with
  | nil => cases h
  | cons c name =>
    obtain ⟨hc, htail⟩ := Bool.and_eq_true_iff.mp h
    rw [Expression.isName, Bool.and_eq_true]
    refine ⟨by rw [Expression.startsName, hc, Bool.true_or], ?_⟩
    refine List.all_eq_true.mpr fun d hd => ?_
    rw [Expression.continuesName, List.all_eq_true.mp htail d hd, Bool.true_or]

theorem isKey_keyText {name : String} (h : IsPlain name) : IsKey (keyText name) name.toList := by
  rw [keyText_eq]
  split
  next hb => exact DeclarativePattern.isKey_name (isName_of_isBareKey hb h.line)
  next => exact DeclarativePattern.isKey_quoted (by decide) h.quote h.escape

theorem leads_of_inert {text : List Char} (h : ∀ c ∈ text, Scan.isInert isComma c = true) :
    Scan.Leads '(' ')' text := by
  refine Scan.leads_of_isQuiet fun c hc => ?_
  have hi := h c hc
  simp only [Scan.isInert, Scan.isOpening, Scan.isClosing, Bool.and_eq_true, Bool.not_eq_true',
    Bool.or_eq_false_iff, beq_eq_false_iff_ne] at hi
  simp [Scan.isQuiet, hi]

theorem leads_keyText {name : String} (h : IsPlain name) : Scan.Leads '(' ')' (keyText name) := by
  rw [keyText_eq]
  split
  next hb =>
    have hname := (Expression.isName_all (isName_of_isBareKey hb h.line)).2
    exact leads_of_inert fun c hc => DeclarativePattern.inert_of_continuesName (hname c hc)
  next => exact Scan.leads_inQuotes h.quote h.escape

theorem isValue_inQuotes {s : String} (h : IsPlain s) : IsValue (Scan.inQuotes s.toList) :=
  ⟨DeclarativePattern.isClosed_quoted (by decide) h.quote h.escape,
    Scan.leads_inQuotes h.quote h.escape⟩

def spaces (n : Nat) : List Char := List.replicate n ' '

/-- A line of an object for one field. -/
def lineText (indent : Nat) (field : String × List Char) : List Char :=
  spaces (indent + 2) ++ (entryText (keyText field.1, field.2) ++ [',', '\n'])

/-- The text of an object with each field on lines of its own. -/
def blockText (indent : Nat) (fields : List (String × List Char)) : List Char :=
  '{' :: ('\n' :: (fields.flatMap (lineText indent) ++ spaces indent)) ++ ['}']

structure IsField (field : String × List Char) : Prop where
  name : IsPlain field.1
  value : IsValue field.2

section

variable {indent : Nat} {field : String × List Char} {fields : List (String × List Char)}

theorem isBlank_spaces (n : Nat) : ∀ c ∈ spaces n, Text.isBlank c = true := by
  intro c hc
  rw [List.eq_of_mem_replicate hc]
  decide

theorem inert_of_isBlank {c : Char} (h : Text.isBlank c = true) : Scan.isInert isComma c = true := by
  have hne : ∀ d, Text.isBlank d = false → c ≠ d := fun d hd => Text.ne_of_isBlank h hd
  simp [Scan.isInert, Scan.isQuote, Scan.isOpening, Scan.isClosing, isComma,
    hne '\x27' (by decide), hne '\x22' (by decide), hne '\x60' (by decide), hne '/' (by decide),
    hne '(' (by decide), hne '{' (by decide), hne '[' (by decide), hne ')' (by decide),
    hne '}' (by decide), hne ']' (by decide), hne ',' (by decide)]

theorem crosses_blanks {blanks : List Char} (h : ∀ c ∈ blanks, Text.isBlank c = true)
    (depth : Int) : Scan.Crosses isComma depth depth blanks :=
  Scan.crosses_inert fun c hc => inert_of_isBlank (h c hc)

theorem leads_blanks {blanks : List Char} (h : ∀ c ∈ blanks, Text.isBlank c = true) :
    Scan.Leads '(' ')' blanks :=
  leads_of_inert fun c hc => inert_of_isBlank (h c hc)

theorem trim_blanks {blanks : List Char} (h : ∀ c ∈ blanks, Text.isBlank c = true) :
    Text.trim blanks = [] := by
  have hall : Text.trim ([] ++ blanks) = Text.trim [] := Text.trim_append_of_blank h
  rw [List.nil_append] at hall
  rw [hall]
  rfl

/-- The parts of the lines of an object are its entries, whatever blanks stand around them. -/
theorem splitCommas_lines {front back : List Char} (h : ∀ field ∈ fields, IsField field)
    (hf : ∀ c ∈ front, Text.isBlank c = true) (hb : ∀ c ∈ back, Text.isBlank c = true)
    (offset : Nat) :
    (Scan.parts isComma 0 offset (front ++ (fields.flatMap (lineText indent) ++ back))).map
        (fun found => (found.map Text.trim).filter (!·.isEmpty)) =
      .ok (fields.map fun field => entryText (keyText field.1, field.2)) := by
  induction fields generalizing front offset with
  | nil =>
    have hblanks : ∀ c ∈ front ++ back, Text.isBlank c = true :=
      fun c hc => (List.mem_append.mp hc).elim (hf c) (hb c)
    have hwhole := Scan.parts_whole (crosses_blanks hblanks 0) offset
    rw [List.flatMap_nil, List.nil_append, hwhole]
    simp [Except.map, trim_blanks hblanks]
  | cons field fields ih =>
    obtain ⟨hfield, hfields⟩ := List.forall_mem_cons.mp h
    have hkey := isKey_keyText hfield.name
    have hvalue := hfield.value.closed
    have hlead : ∀ c ∈ front ++ spaces (indent + 2), Text.isBlank c = true :=
      fun c hc => (List.mem_append.mp hc).elim (hf c) (isBlank_spaces _ c)
    have hentry : Scan.Crosses isComma 0 0
        ((front ++ spaces (indent + 2)) ++ entryText (keyText field.1, field.2)) :=
      (crosses_blanks hlead 0).append
        (DeclarativePattern.crosses_entryText hkey hvalue (Int.le_refl 0))
    have htext : front ++ ((field :: fields).flatMap (lineText indent) ++ back) =
        ((front ++ spaces (indent + 2)) ++ entryText (keyText field.1, field.2)) ++
          ',' :: (['\n'] ++ (fields.flatMap (lineText indent) ++ back)) := by
      simp [lineText]
    have hline : ∀ c ∈ ['\n'], Text.isBlank c = true := List.all_eq_true.mp (by decide)
    have hrest := ih hfields hline
      (offset + ((front ++ spaces (indent + 2)) ++ entryText (keyText field.1, field.2)).length + 1)
    have hends : Text.IsTrimmed (entryText (keyText field.1, field.2)) ∧
        entryText (keyText field.1, field.2) ≠ [] :=
      DeclarativePattern.isTrimmed_entryText hkey hvalue
    have htrim : Text.trim ((front ++ spaces (indent + 2)) ++ entryText (keyText field.1, field.2)) =
        entryText (keyText field.1, field.2) := by
      rw [Text.trim_blank_append hlead, Text.trim_of_isTrimmed hends.1]
    rw [htext, Scan.parts_cut hentry (by decide) (by decide) (by decide) (by decide) (by decide)]
    obtain ⟨found, hfound, hparts⟩ := map_eq_ok hrest
    rw [hfound]
    simp only [Except.map, List.map_cons, htrim]
    rw [List.filter_cons_of_pos (by simpa using hends.2), hparts]

theorem splitEntry_entryText (h : IsField field) :
    DeclarativePattern.splitEntry (entryText (keyText field.1, field.2)) =
      (field.1.toList, some field.2) :=
  DeclarativePattern.splitEntry_entryText (isKey_keyText h.name) h.value.closed

theorem entries_blockText (h : ∀ field ∈ fields, IsField field) (indent : Nat) :
    entries (blockText indent fields) =
      .ok (fields.map fun field => (field.1.toList, some field.2)) := by
  have hline : ∀ c ∈ ['\n'], Text.isBlank c = true := List.all_eq_true.mp (by decide)
  have hsplit : Scan.splitCommas ('\n' :: (fields.flatMap (lineText indent) ++ spaces indent)) =
      .ok (fields.map fun field => entryText (keyText field.1, field.2)) :=
    splitCommas_lines h hline (isBlank_spaces indent) 0
  rw [entries, blockText, DeclarativePattern.inside_braces, hsplit]
  simp only [Except.map, List.map_map]
  congr 1
  exact List.map_congr_left fun field hf => splitEntry_entryText (h field hf)

theorem readObject_blockText {α β : Type} {read : List Char → Except Fault β}
    {xs : List α} {field : α → String × List Char} {value : α → β}
    (h : ∀ x ∈ xs, IsField (field x) ∧ read (field x).2 = .ok (value x)) (indent : Nat) :
    readObject read (blockText indent (xs.map field)) =
      .ok (xs.map fun x => ((field x).1, some (value x))) := by
  have hfields : ∀ f ∈ xs.map field, IsField f := by
    intro f hf
    obtain ⟨x, hx, rfl⟩ := List.mem_map.mp hf
    exact (h x hx).1
  rw [readObject, entries_blockText hfields, List.map_map]
  show ((xs.map _).mapM _) = _
  rw [List.mapM_map]
  induction xs with
  | nil => rfl
  | cons x xs ih =>
    obtain ⟨⟨-, hx⟩, hxs⟩ := List.forall_mem_cons.mp h
    have hrest := ih hxs (List.forall_mem_cons.mp hfields).2
    refine (mapM_cons_of_ok (y := ((field x).1, some (value x))) ?_ xs).trans ?_
    · simp [Function.comp_def, hx, Except.map, String.ofList_toList]
    · rw [hrest]
      rfl

theorem crosses_lineText (h : IsField field) {depth : Int} (hd : 0 < depth) :
    Scan.Crosses isComma depth depth (lineText indent field) := by
  have hentry : Scan.Crosses isComma depth depth (entryText (keyText field.1, field.2)) :=
    DeclarativePattern.crosses_entryText (isKey_keyText h.name) h.value.closed (by omega)
  have hcomma : Scan.Crosses isComma depth depth [','] := by
    have hdepth : (depth == 0) = false := by simp; omega
    exact Scan.crosses_char (by decide) (by decide) (by simp [hdepth])
  have hline : Scan.Crosses isComma depth depth ['\n'] :=
    crosses_blanks (List.all_eq_true.mp (by decide)) depth
  exact (crosses_blanks (isBlank_spaces _) depth).append (hentry.append (hcomma.append hline))

theorem leads_lineText (h : IsField field) : Scan.Leads '(' ')' (lineText indent field) := by
  have hcolon : Scan.Leads '(' ')' [':', ' '] :=
    Scan.leads_of_isQuiet (List.all_eq_true.mp (by decide))
  have hcomma : Scan.Leads '(' ')' [',', '\n'] :=
    Scan.leads_of_isQuiet (List.all_eq_true.mp (by decide))
  have hentry := ((leads_keyText h.name).append hcolon).append h.value.leads
  exact (leads_blanks (isBlank_spaces _)).append (hentry.append hcomma)

/-- An object on lines of its own is a value again. -/
theorem isValue_blockText (h : ∀ field ∈ fields, IsField field) (indent : Nat) :
    IsValue (blockText indent fields) := by
  have hline : ∀ c ∈ ['\n'], Text.isBlank c = true := List.all_eq_true.mp (by decide)
  constructor
  · refine DeclarativePattern.isClosed_braces fun depth hd => ?_
    have hlines : Scan.Crosses isComma depth depth (fields.flatMap (lineText indent)) :=
      Scan.flatMap_of_append (Scan.crosses_nil depth) (fun _ _ => Scan.Crosses.append)
        fun field hf => crosses_lineText (h field hf) hd
    exact (crosses_blanks hline depth).append
      (hlines.append (crosses_blanks (isBlank_spaces indent) depth))
  · have hopen : Scan.Leads '(' ')' ['{'] := Scan.leads_of_isQuiet (List.all_eq_true.mp (by decide))
    have hclose : Scan.Leads '(' ')' ['}'] := Scan.leads_of_isQuiet (List.all_eq_true.mp (by decide))
    have hlines : Scan.Leads '(' ')' (fields.flatMap (lineText indent)) :=
      Scan.flatMap_of_append (fun _ hcs => hcs) (fun _ _ => Scan.Leads.append)
        fun field hf => leads_lineText (h field hf)
    exact (hopen.append ((leads_blanks hline).append
      (hlines.append (leads_blanks (isBlank_spaces indent))))).append hclose

end

/-- The values of a variant as an object. -/
def valuesText (values : Fields String) : List Char :=
  blockText 6 (values.map fun value => (value.1, Scan.inQuotes value.2.toList))

def variantsText (variants : VariantClasses) : List Char :=
  blockText 4 (variants.map fun variant => (variant.1, valuesText variant.2))

def choicesText (variants : VariantClasses) : List Char :=
  blockText 2 [("variants", variantsText variants)]

/-- What stands between the parentheses of the call. -/
def argumentsText (base : List String) (variants : VariantClasses) : List Char :=
  "\n  ".toList ++ Scan.inQuotes (" ".intercalate base).toList ++
    ",\n  ".toList ++ choicesText variants ++ "\n".toList

/-- That all names and classes of variants can stand in double quotes. -/
def ArePlain (variants : VariantClasses) : Prop :=
  ∀ variant ∈ variants, IsPlain variant.1 ∧
    ∀ value ∈ variant.2, IsPlain value.1 ∧ IsPlain value.2

instance (variants : VariantClasses) : Decidable (ArePlain variants) :=
  inferInstanceAs (Decidable (∀ variant ∈ variants, IsPlain variant.1 ∧
    ∀ value ∈ variant.2, IsPlain value.1 ∧ IsPlain value.2))

section

variable {base : List String} {variants : VariantClasses}

theorem intercalate_concat (separator last : List Char) (texts : List (List Char)) :
    separator.intercalate (texts ++ [last]) = texts.flatMap (· ++ separator) ++ last := by
  induction texts with
  | nil => simp
  | cons text texts ih =>
    obtain ⟨next, rest, he⟩ := List.exists_cons_of_ne_nil (List.append_ne_nil_of_right_ne_nil texts
      (List.cons_ne_nil last []))
    rw [List.cons_append, he, List.intercalate_cons_cons, ← he, ih]
    simp

theorem flatMap_variantLines (name : String) (values : Fields String) :
    ((variantLines name values).map String.toList).flatMap (· ++ ['\n']) =
      lineText 4 (name, valuesText values) := by
  have hlines : variantLines name values = ["      " ++ objectKey name ++ ": \x7b"] ++
      values.map (fun value => "        " ++ objectKey value.1 ++ ": \"" ++ value.2 ++ "\",") ++
      ["      \x7d,"] := rfl
  have hvalues : ((values.map fun value =>
      "        " ++ objectKey value.1 ++ ": \"" ++ value.2 ++ "\",").map String.toList).flatMap
        (· ++ ['\n']) =
      (values.map fun value => (value.1, Scan.inQuotes value.2.toList)).flatMap (lineText 6) := by
    rw [List.flatMap_map, List.flatMap_map, List.flatMap_map]
    refine List.flatMap_congr fun value _ => ?_
    simp [lineText, entryText, keyText, spaces, Scan.inQuotes, List.replicate]
  rw [hlines, List.map_append, List.map_append, List.flatMap_append, List.flatMap_append,
    hvalues]
  simp [lineText, entryText, keyText, spaces, valuesText, blockText, List.replicate]

theorem toList_renderVariants (chooser : String) :
    (renderVariants chooser base variants).toList =
      ("const " ++ chooser ++ " = cva").toList ++ '(' :: (argumentsText base variants ++ [')']) := by
  have hrender : renderVariants chooser base variants = "\n".intercalate
      (["const " ++ chooser ++ " = cva(", "  \"" ++ " ".intercalate base ++ "\",", "  \x7b",
          "    variants: \x7b"] ++
        variants.flatMap (fun variant => variantLines variant.1 variant.2) ++
        ["    \x7d,", "  \x7d", ")"]) := rfl
  have hvariants : ((variants.flatMap fun variant => variantLines variant.1 variant.2).map
      String.toList).flatMap (· ++ ['\n']) =
      (variants.map fun variant => (variant.1, valuesText variant.2)).flatMap (lineText 4) := by
    rw [List.map_flatMap, List.flatMap_assoc, List.flatMap_map]
    exact List.flatMap_congr fun variant _ => flatMap_variantLines variant.1 variant.2
  have hlast : ∀ front : List String, front ++ ["    \x7d,", "  \x7d", ")"] =
      (front ++ ["    \x7d,", "  \x7d"]) ++ [")"] := by simp
  have hnewline : "\n".toList = ['\n'] := rfl
  have hkey : objectKey "variants" = "variants" := by decide +kernel
  rw [hrender, hlast, String.toList_intercalate, List.map_append, List.map_singleton,
    intercalate_concat, List.map_append, List.map_append, List.flatMap_append, List.flatMap_append,
    hnewline, hvariants]
  simp [argumentsText, choicesText, variantsText, blockText, lineText, entryText, keyText, hkey,
    spaces, Scan.inQuotes, List.replicate]

theorem isPlain_intercalate (h : ∀ name ∈ base, IsPlain name) : IsPlain (" ".intercalate base) := by
  have hmem : ∀ c, c ∉ [' '] → (∀ name ∈ base, c ∉ name.toList) →
      c ∉ (" ".intercalate base).toList := by
    intro c hc hbase
    rw [String.toList_intercalate]
    have happend : ∀ text after, c ∉ text → c ∉ after → c ∉ text ++ after :=
      fun text after ht ha hm => (List.mem_append.mp hm).elim ht ha
    have htexts : ∀ text ∈ base.map String.toList, c ∉ text := by
      rw [List.forall_mem_map]
      exact hbase
    exact @Scan.intercalate_of_append (c ∉ ·) List.not_mem_nil happend _ hc _ htexts
  exact ⟨hmem _ (by decide) fun name hn => (h name hn).quote,
    hmem _ (by decide) fun name hn => (h name hn).escape,
    hmem _ (by decide) fun name hn => (h name hn).line⟩

theorem isField_values {values : Fields String}
    (h : ∀ value ∈ values, IsPlain value.1 ∧ IsPlain value.2) :
    ∀ field ∈ values.map fun value => (value.1, Scan.inQuotes value.2.toList), IsField field := by
  rw [List.forall_mem_map]
  exact fun value hv => ⟨(h value hv).1, isValue_inQuotes (h value hv).2⟩

theorem isField_variants (h : ArePlain variants) :
    ∀ field ∈ variants.map fun variant => (variant.1, valuesText variant.2), IsField field := by
  rw [List.forall_mem_map]
  exact fun variant hv => ⟨(h variant hv).1, isValue_blockText (isField_values (h variant hv).2) 6⟩

theorem isField_choices (h : ArePlain variants) : IsField ("variants", variantsText variants) := by
  have hname : IsPlain "variants" := ⟨by decide, by decide, by decide⟩
  exact ⟨hname, isValue_blockText (isField_variants h) 4⟩

theorem isValue_choicesText (h : ArePlain variants) : IsValue (choicesText variants) :=
  isValue_blockText (List.forall_mem_singleton.mpr (isField_choices h)) 2

/-- The classes of the values of a variant, as literals that are read. -/
def literalsOf (values : Fields String) : List (String × Option (Option Json)) :=
  values.map fun value => (value.1, some (some (.text value.2)))

theorem readObject_valuesText {values : Fields String}
    (h : ∀ value ∈ values, IsPlain value.1 ∧ IsPlain value.2) :
    readObject Expression.literal? (valuesText values) = .ok (literalsOf values) := by
  refine readObject_blockText (fun value hv => ?_) 6
  obtain ⟨hname, hclasses⟩ := h value hv
  have hliteral : Expression.literal? (Scan.inQuotes value.2.toList) =
      .ok (some (.text (String.ofList value.2.toList))) :=
    Expression.literal?_quoted (by decide) hclasses.quote
  rw [String.ofList_toList] at hliteral
  exact ⟨⟨hname, isValue_inQuotes hclasses⟩, hliteral⟩

/-- The variants with the classes of their values, as they are read. -/
def choicesOf (variants : VariantClasses) :
    List (String × Option (List (String × Option (Option Json)))) :=
  variants.map fun variant => (variant.1, some (literalsOf variant.2))

theorem readObject_variantsText (h : ArePlain variants) :
    readObject (readObject Expression.literal?) (variantsText variants) =
      .ok (choicesOf variants) := by
  refine readObject_blockText (fun variant hv => ?_) 4
  exact ⟨isField_variants h _ (List.mem_map.mpr ⟨variant, hv, rfl⟩),
    readObject_valuesText (h variant hv).2⟩

theorem readObject_choicesText (h : ArePlain variants) :
    readObject (readObject (readObject Expression.literal?)) (choicesText variants) =
      .ok [("variants", some (choicesOf variants))] := by
  have hone : readObject (readObject (readObject Expression.literal?))
      (blockText 2 ([variants].map fun all => ("variants", variantsText all))) =
      .ok ([variants].map fun all => ("variants", some (choicesOf all))) := by
    refine readObject_blockText (fun all ha => ?_) 2
    rw [List.mem_singleton.mp ha]
    exact ⟨isField_choices h, readObject_variantsText h⟩
  exact hone

theorem splitCommas_argumentsText (hbase : ∀ name ∈ base, IsPlain name) (h : ArePlain variants) :
    Scan.splitCommas (argumentsText base variants) =
      .ok [Scan.inQuotes (" ".intercalate base).toList, choicesText variants] := by
  have hblanks : ∀ c ∈ "\n  ".toList, Text.isBlank c = true := List.all_eq_true.mp (by decide)
  have hline : ∀ c ∈ "\n".toList, Text.isBlank c = true := List.all_eq_true.mp (by decide)
  have hquoted := (isValue_inQuotes (isPlain_intercalate hbase)).closed
  have hobject := (isValue_choicesText h).closed
  have htext : argumentsText base variants =
      ("\n  ".toList ++ Scan.inQuotes (" ".intercalate base).toList) ++
        ',' :: ("\n  ".toList ++ choicesText variants ++ "\n".toList) := by
    simp [argumentsText]
  have hfirst := (crosses_blanks hblanks 0).append (hquoted.crosses 0 (Int.le_refl 0))
  have hsecond := ((crosses_blanks hblanks 0).append (hobject.crosses 0 (Int.le_refl 0))).append
    (crosses_blanks hline 0)
  have htrim : Text.trim ("\n  ".toList ++ Scan.inQuotes (" ".intercalate base).toList) =
      Scan.inQuotes (" ".intercalate base).toList := by
    rw [Text.trim_blank_append hblanks, Text.trim_of_isTrimmed hquoted.trimmed]
  have htrim' : Text.trim ("\n  ".toList ++ choicesText variants ++ "\n".toList) =
      choicesText variants :=
    Text.trim_append_blanks hblanks hline hobject.trimmed hobject.ne_nil
  have hparts : Scan.parts isComma 0 0 (argumentsText base variants) =
      .ok ["\n  ".toList ++ Scan.inQuotes (" ".intercalate base).toList,
        "\n  ".toList ++ choicesText variants ++ "\n".toList] := by
    rw [htext, Scan.parts_cut hfirst (by decide) (by decide) (by decide) (by decide) (by decide),
      Scan.parts_whole hsecond]
    rfl
  show (Scan.parts isComma 0 0 (argumentsText base variants)).map _ = _
  rw [hparts]
  simp only [Except.map, List.map_cons, List.map_nil, htrim, htrim']
  rw [List.filter_cons_of_pos (by simpa using hquoted.ne_nil),
    List.filter_cons_of_pos (by simpa using hobject.ne_nil), List.filter_nil]

theorem isRegion_argumentsText (hbase : ∀ name ∈ base, IsPlain name) (h : ArePlain variants) :
    Scan.IsRegion '(' ')' ('(' :: (argumentsText base variants ++ [')'])) := by
  have hblanks : Scan.Leads '(' ')' "\n  ".toList := leads_blanks (List.all_eq_true.mp (by decide))
  have hline : Scan.Leads '(' ')' "\n".toList := leads_blanks (List.all_eq_true.mp (by decide))
  have hcomma : Scan.Leads '(' ')' ",\n  ".toList :=
    Scan.leads_of_isQuiet (List.all_eq_true.mp (by decide))
  have hquoted := (isValue_inQuotes (isPlain_intercalate hbase)).leads
  have hobject := (isValue_choicesText h).leads
  exact ((((hblanks.append hquoted).append hcomma).append hobject).append hline).isRegion

end

/-- The offset of the first parenthesis of a text. -/
def firstParenthesis (text : List Char) : Nat := (text.takeWhile (· != '(')).length

/-- The text in parentheses at the first parenthesis of a text. -/
def firstRegion? (text : List Char) : Option (List Char) :=
  Scan.regionAt? text (firstParenthesis text) "(" ")"

section

variable {front rest : List Char}

theorem drop_firstParenthesis (h : '(' ∉ front) :
    (front ++ '(' :: rest).drop (firstParenthesis (front ++ '(' :: rest)) = '(' :: rest := by
  have hfront : ∀ c ∈ front, (c != '(') = true := by
    intro c hc
    rw [bne_iff_ne]
    rintro rfl
    exact h hc
  have hhead : ∀ c ∈ ('(' :: rest).head?, (c != '(') = false := by
    rintro c ⟨⟩
    rfl
  rw [firstParenthesis, Text.takeWhile_append_of_head hfront hhead, List.drop_left]

theorem regionAt?_eq_some {region : List Char} (h : Scan.IsRegion '(' ')' region) :
    Scan.regionAt? (front ++ region) front.length "(" ")" = some region := by
  refine Scan.regionAt?_eq_some_iff.mpr ⟨front, [], ?_, rfl, h⟩
  rw [List.append_nil]

theorem firstRegion?_eq (text : List Char) : firstRegion? text =
    (Scan.takeRegion? '(' ')' (text.drop (firstParenthesis text))).map Prod.fst := by
  have hopen : "(" = String.singleton '(' := rfl
  have hclose : ")" = String.singleton ')' := rfl
  have hstart : ¬(firstParenthesis text : Int) < 0 := by omega
  rw [firstRegion?, hopen, hclose, Scan.regionAt?_singleton, if_neg hstart, Int.toNat_natCast]

end

/-- The definition of a chooser is the call of a function, and what stands in its parentheses is read
as the classes of the base and an object with all variants. The first parenthesis opens the call if
the name of the chooser has none. If it has one, and no quotes, the text is not read to its end from
there. -/
theorem renderVariants_read_back (chooser : String) {base : List String}
    {variants : VariantClasses} (hbase : ∀ name ∈ base, IsPlain name) (h : ArePlain variants) :
    ∃ call object,
      (renderVariants chooser base variants).toList =
        ("const " ++ chooser ++ " = cva").toList ++ call ∧
      Scan.regionAt? (renderVariants chooser base variants).toList
        ("const " ++ chooser ++ " = cva").toList.length "(" ")" = some call ∧
      ('(' ∉ chooser.toList →
        firstRegion? (renderVariants chooser base variants).toList = some call) ∧
      ('(' ∈ chooser.toList → (∀ c ∈ chooser.toList, Scan.isQuote c = false) →
        firstRegion? (renderVariants chooser base variants).toList ≠
          some ((renderVariants chooser base variants).toList.drop
            (firstParenthesis (renderVariants chooser base variants).toList))) ∧
      Scan.splitCommas (Expression.inside call) =
        .ok [Scan.inQuotes (" ".intercalate base).toList, object] ∧
      readObject (readObject (readObject Expression.literal?)) object =
        .ok [("variants", some (choicesOf variants))] := by
  have hregion := isRegion_argumentsText hbase h
  have htext : (renderVariants chooser base variants).toList = _ := toList_renderVariants chooser
  refine ⟨'(' :: (argumentsText base variants ++ [')']), choicesText variants, htext, ?_, ?_, ?_,
    ?_, readObject_choicesText h⟩
  · rw [htext]
    exact regionAt?_eq_some hregion
  · intro hchooser
    have hfront : '(' ∉ ("const " ++ chooser ++ " = cva").toList := by simp [hchooser]
    have htake := hregion.takeRegion? []
    rw [List.append_nil] at htake
    rw [htext, firstRegion?_eq, drop_firstParenthesis hfront, htake, Option.map_some]
  · intro hchooser hquotes hwhole
    obtain ⟨start, later, hsplit, hstart⟩ := List.eq_append_cons_of_mem hchooser
    have hfront : '(' ∉ "const ".toList ++ start := by simp [hstart]
    have hplace : (renderVariants chooser base variants).toList = ("const ".toList ++ start) ++
        '(' :: ((later ++ " = cva".toList) ++ '(' :: (argumentsText base variants ++ [')'])) := by
      rw [htext]
      simp [hsplit]
    have hbetween : ∀ c ∈ later ++ " = cva".toList, Scan.isQuote c = false := by
      intro c hc
      rcases List.mem_append.mp hc with hc | hc
      · exact hquotes c (by simp [hsplit, hc])
      · have hall : " = cva".toList.all (!Scan.isQuote ·) = true := by decide
        simpa using List.all_eq_true.mp hall c hc
    rw [firstRegion?_eq, hplace, drop_firstParenthesis hfront] at hwhole
    obtain ⟨⟨found, rest⟩, htake, he⟩ := Option.map_eq_some_iff.mp hwhole
    have happend := Scan.takeRegion?_append htake
    cases he
    have hrest : rest = [] := List.self_eq_append_right.mp happend
    rw [hrest] at htake
    exact Scan.takeRegion?_ne_whole hregion hbetween htake
  · have hinside : Expression.inside ('(' :: (argumentsText base variants ++ [')'])) =
        argumentsText base variants := List.dropLast_concat
    rw [hinside, splitCommas_argumentsText hbase h]

/-- Names that need quotes, classes with marks in them, and a variant without values. -/
def markedVariants : VariantClasses := [
  ("size", [("1x", "a:b, \x7bc\x7d // 'd"), ("größe", ""), ("", "e (f")]),
  ("my-kind", []),
  ("a: \x7b", [("b,", "x\x60")])]

theorem markedVariants_read_back : ∃ call object,
    firstRegion? (renderVariants "cardVariants" ["p-2", "m-[1,2]"] markedVariants).toList =
      some call ∧
    Scan.splitCommas (Expression.inside call) = .ok ["\"p-2 m-[1,2]\"".toList, object] ∧
    readObject (readObject (readObject Expression.literal?)) object =
      .ok [("variants", some (choicesOf markedVariants))] := by
  have hbase : ∀ name ∈ ["p-2", "m-[1,2]"], IsPlain name := by decide
  have hplain : ArePlain markedVariants := by decide
  obtain ⟨call, object, -, -, hfirst, -, hsplit, hread⟩ :=
    renderVariants_read_back "cardVariants" hbase hplain
  exact ⟨call, object, hfirst (by decide), hsplit, hread⟩

/-- With a parenthesis in the name of the chooser the first parenthesis is never closed. -/
theorem marked_chooser_is_not_closed :
    IsPlain "a(" ∧ firstRegion? (renderVariants "a(" [] []).toList = none := by decide +kernel

end Migration

end Restyle
