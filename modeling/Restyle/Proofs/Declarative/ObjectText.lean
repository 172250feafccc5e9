import Restyle.Pattern.Declarative
import Restyle.Proofs.Expression.Literal
import Restyle.Proofs.Expression.Name
import Restyle.Proofs.Scan.Split
import Restyle.Proofs.Text.Search

namespace Restyle.DeclarativePattern

/-- The text of one entry. -/
def entryText (field : List Char × List Char) : List Char := field.1 ++ [':', ' '] ++ field.2

/-- The text of an object with the given keys and values. -/
def objectText (fields : List (List Char × List Char)) : List Char :=
  ['{', ' '] ++ [',', ' '].intercalate (fields.map entryText) ++ [' ', '}']

def isComma (c : Char) : Bool := c == ','

/-- What a value's text must be so that it stays in its own entry, however deep. -/
structure IsClosed (value : List Char) : Prop where
  ne_nil : value ≠ []
  trimmed : Text.IsTrimmed value
  crosses : ∀ depth : Int, 0 ≤ depth → Scan.Crosses isComma depth depth value

/-- An entry with a name for its key and a closed value. -/
structure IsEntry (field : List Char × List Char) : Prop where
  name : Expression.isName field.1 = true
  closed : IsClosed field.2

theorem inert_of_continuesName {c : Char} (h : Expression.continuesName c = true) :
    Scan.isInert isComma c = true := by
  have hn : ∀ d : Char, Expression.continuesName d = false → c ≠ d := fun d hd =>
    Expression.continuesName_ne h hd
  simp [Scan.isInert, Scan.isQuote, Scan.isOpening, Scan.isClosing, isComma,
    hn '\x27' (by decide), hn '\x22' (by decide), hn '\x60' (by decide), hn '/' (by decide),
    hn '(' (by decide), hn '{' (by decide), hn '[' (by decide), hn ')' (by decide),
    hn '}' (by decide), hn ']' (by decide), hn ',' (by decide)]

theorem crosses_name {name : List Char} (h : Expression.isName name = true) (depth : Int) :
    Scan.Crosses isComma depth depth name :=
  Scan.crosses_inert fun c hc => inert_of_continuesName ((Expression.isName_all h).2 c hc)

theorem isTrimmed_name {name : List Char} (h : Expression.isName name = true) :
    Text.IsTrimmed name :=
  Text.isTrimmed_of_all fun c hc =>
    Expression.isBlank_of_continuesName ((Expression.isName_all h).2 c hc)

/-- What the text of a key must be so that it is cut off at its colon and read as a name. -/
structure IsKey (key name : List Char) : Prop where
  ne_nil : key ≠ []
  trimmed : Text.IsTrimmed key
  crosses : ∀ depth : Int, Scan.Crosses isComma depth depth key
  cut : ∀ after, Scan.cutColon? (key ++ ':' :: after) = some (key, after)
  read : (Expression.unquote? Expression.isPlainQuote key).getD key = name

theorem isKey_name {name : List Char} (h : Expression.isName name = true) : IsKey name name where
  ne_nil := (Expression.isName_all h).1
  trimmed := isTrimmed_name h
  crosses := crosses_name h
  cut := by
    have hkey : ∀ d ∈ name, Scan.isQuote d = false ∧ Scan.isOpening d = false ∧
        Scan.isClosing d = false ∧ (d == ':') = false := by
      intro d hd
      have hc := (Expression.isName_all h).2 d hd
      have hi := inert_of_continuesName hc
      simp only [Scan.isInert, Bool.and_eq_true, Bool.not_eq_true'] at hi
      exact ⟨hi.1.1.1.1, hi.1.1.2, hi.1.2,
        beq_eq_false_iff_ne.mpr (Expression.continuesName_ne hc (by decide))⟩
    exact Scan.cutAt?_of_not_mem hkey (by decide) (by decide) (by decide) (by decide)
  read := by
    have hquote : Expression.unquote? Expression.isPlainQuote name = none := by
      refine Expression.unquote?_eq_none fun c hc => ?_
      have hn := (Expression.isName_all h).2 c (List.mem_of_head? hc)
      simp [Expression.isPlainQuote, Expression.continuesName_ne hn (d := '\x27') (by decide),
        Expression.continuesName_ne hn (d := '\x22') (by decide)]
    rw [hquote, Option.getD_none]

section

variable {quote : Char} {cs : List Char}

theorem takeString?_of_isPlainQuote (hq : Expression.isPlainQuote quote = true) (h : quote ∉ cs)
    (he : '\\' ∉ cs) : Scan.isQuote quote = true ∧
      Scan.takeString? (quote :: cs ++ [quote]) = some (quote :: cs ++ [quote], []) := by
  rw [Expression.isPlainQuote, Bool.or_eq_true, beq_iff_eq, beq_iff_eq] at hq
  rcases hq with rfl | rfl
  · exact ⟨by decide, Scan.takeString?_quoted (by decide) (by decide) h he⟩
  · exact ⟨by decide, Scan.takeString?_quoted (by decide) (by decide) h he⟩

theorem isClosed_quoted (hq : Expression.isPlainQuote quote = true) (h : quote ∉ cs)
    (he : '\\' ∉ cs) : IsClosed (quote :: cs ++ [quote]) := by
  obtain ⟨hquote, htoken⟩ := takeString?_of_isPlainQuote hq h he
  exact ⟨by simp, Expression.isTrimmed_quoted hq cs,
    fun depth _ => Scan.crosses_string ⟨quote, rfl, hquote⟩ htoken⟩

theorem isKey_quoted (hq : Expression.isPlainQuote quote = true) (h : quote ∉ cs)
    (he : '\\' ∉ cs) : IsKey (quote :: cs ++ [quote]) cs := by
  obtain ⟨hquote, htoken⟩ := takeString?_of_isPlainQuote hq h he
  refine ⟨by simp, Expression.isTrimmed_quoted hq cs,
    fun depth => Scan.crosses_string ⟨quote, rfl, hquote⟩ htoken, ?_, ?_⟩
  · exact Scan.cutAt?_string_append hquote htoken (by decide) (by decide) (by decide) (by decide)
  · rw [Expression.unquote?_quoted hq h, Option.getD_some]

end

section

variable {field : List Char × List Char} {name : List Char}

theorem crosses_entryText (hk : IsKey field.1 name) (hv : IsClosed field.2) {depth : Int}
    (hd : 0 ≤ depth) : Scan.Crosses isComma depth depth (entryText field) := by
  have hcolon : Scan.Crosses isComma depth depth [':', ' '] :=
    Scan.crosses_inert (List.all_eq_true.mp (by decide))
  exact ((hk.crosses depth).append hcolon).append (hv.crosses depth hd)

theorem isTrimmed_entryText (hk : IsKey field.1 name) (hv : IsClosed field.2) :
    Text.IsTrimmed (entryText field) ∧ entryText field ≠ [] := by
  obtain ⟨c, tail, he⟩ := List.exists_cons_of_ne_nil hk.ne_nil
  have hfirst := hk.trimmed.1
  refine ⟨⟨?_, ?_⟩, by simp [entryText]⟩
  · rw [he] at hfirst
    simpa [entryText, he] using hfirst
  · rw [entryText, List.getLast?_append_of_ne_nil _ hv.ne_nil]
    exact hv.trimmed.2

/-- The entry of a key and its value is read back. -/
theorem splitEntry_entryText (hk : IsKey field.1 name) (hv : IsClosed field.2) :
    splitEntry (entryText field) = (name, some field.2) := by
  have hcut : Scan.cutColon? (entryText field) = some (field.1, ' ' :: field.2) := by
    have ht := hk.cut (' ' :: field.2)
    simpa [entryText] using ht
  have hvalue : Text.trim (' ' :: field.2) = field.2 := by
    have hf : ∀ c ∈ [' '], Text.isBlank c = true := List.all_eq_true.mp (by decide)
    have hb : ∀ c ∈ [], Text.isBlank c = true := by simp
    simpa using Text.trim_append_blanks hf hb hv.trimmed hv.ne_nil
  simp only [splitEntry, hcut, Text.trim_of_isTrimmed hk.trimmed, hk.read, hvalue]

end

theorem IsEntry.isKey {field : List Char × List Char} (h : IsEntry field) :
    IsKey field.1 field.1 := isKey_name h.name

/-- The parts of a listing with the blanks that stand in it. -/
def padded : List (List Char) → List (List Char)
  | [] => [[' ', ' ']]
  | [text] => [' ' :: text ++ [' ']]
  | text :: next :: texts => (' ' :: text) :: padded (next :: texts)

theorem crosses_space (depth : Int) : Scan.Crosses isComma depth depth [' '] :=
  Scan.crosses_inert (List.all_eq_true.mp (by decide))

theorem parts_listing {texts : List (List Char)}
    (h : ∀ text ∈ texts, Scan.Crosses isComma 0 0 text) (offset : Nat) :
    Scan.parts isComma 0 offset (' ' :: [',', ' '].intercalate texts ++ [' ']) =
      .ok (padded texts) := by
  fun_induction padded texts generalizing offset with
  | case1 => exact Scan.parts_whole ((crosses_space 0).append (crosses_space 0)) offset
  | case2 text =>
    have ht := h text List.mem_cons_self
    rw [List.intercalate_singleton]
    exact Scan.parts_whole (((crosses_space 0).append ht).append (crosses_space 0)) offset
  | case3 text next texts ih =>
    have ht := h text List.mem_cons_self
    have hi := ih (fun t hm => h t (List.mem_cons_of_mem text hm))
    have he : ' ' :: [',', ' '].intercalate (text :: next :: texts) ++ [' '] =
        (' ' :: text) ++ ',' :: (' ' :: [',', ' '].intercalate (next :: texts) ++ [' ']) := by
      simp [List.intercalate_cons_cons]
    have hfirst : Scan.Crosses isComma 0 0 (' ' :: text) := (crosses_space 0).append ht
    rw [he, Scan.parts_cut (c := ',') hfirst (by decide) (by decide) (by decide) (by decide)
      (by decide), hi]
    rfl

theorem trim_padded {texts : List (List Char)}
    (h : ∀ text ∈ texts, Text.IsTrimmed text ∧ text ≠ []) :
    ((padded texts).map Text.trim).filter (!·.isEmpty) = texts := by
  have hspace : ∀ c ∈ [' '], Text.isBlank c = true := List.all_eq_true.mp (by decide)
  fun_induction padded texts with
  | case1 => decide
  | case2 text =>
    obtain ⟨ht, hne⟩ := h text List.mem_cons_self
    have htrim := Text.trim_append_blanks hspace hspace ht hne
    rw [List.singleton_append] at htrim
    simp only [List.map_cons, List.map_nil, htrim]
    rw [List.filter_cons_of_pos (by simpa using hne), List.filter_nil]
  | case3 text next texts ih =>
    obtain ⟨ht, hne⟩ := h text List.mem_cons_self
    have hi := ih (fun t hm => h t (List.mem_cons_of_mem text hm))
    have hnone : ∀ c ∈ [], Text.isBlank c = true := by simp
    have htrim := Text.trim_append_blanks hspace hnone ht hne
    rw [List.singleton_append, List.append_nil] at htrim
    simp only [List.map_cons, htrim]
    rw [List.filter_cons_of_pos (by simpa using hne), hi]

theorem isTrimmed_objectText (fields : List (List Char × List Char)) :
    Text.IsTrimmed (objectText fields) := by
  refine ⟨by simp [objectText]; decide, ?_⟩
  rw [objectText, List.getLast?_append_of_ne_nil _ (by simp)]
  simp
  decide

/-- The entries of an object's text are its fields, in order. -/
theorem entries_objectText {fields : List (List Char × List Char)}
    (h : ∀ field ∈ fields, IsEntry field) :
    entries (objectText fields) = .ok (fields.map fun field => (field.1, some field.2)) := by
  have hinside : Expression.inside (objectText fields) =
      ' ' :: [',', ' '].intercalate (fields.map entryText) ++ [' '] := by
    have he : (objectText fields).drop 1 =
        (' ' :: [',', ' '].intercalate (fields.map entryText) ++ [' ']) ++ ['}'] := by
      simp [objectText]
    rw [Expression.inside, he, List.dropLast_concat]
  have hcross : ∀ text ∈ fields.map entryText, Scan.Crosses isComma 0 0 text := by
    intro text hm
    obtain ⟨field, hf, rfl⟩ := List.mem_map.mp hm
    exact crosses_entryText (h field hf).isKey (h field hf).closed (Int.le_refl 0)
  have htexts : ∀ text ∈ fields.map entryText, Text.IsTrimmed text ∧ text ≠ [] := by
    intro text hm
    obtain ⟨field, hf, rfl⟩ := List.mem_map.mp hm
    exact isTrimmed_entryText (h field hf).isKey (h field hf).closed
  have hparts : Scan.splitCommas (Expression.inside (objectText fields)) =
      .ok (fields.map entryText) := by
    show (Scan.parts isComma 0 0 (Expression.inside (objectText fields))).map _ = _
    rw [hinside, parts_listing hcross]
    exact congrArg Except.ok (trim_padded htexts)
  rw [entries, Text.trim_of_isTrimmed (isTrimmed_objectText fields), hparts]
  simp only [Except.map, List.map_map]
  congr 1
  exact List.map_congr_left fun field hf =>
    splitEntry_entryText (h field hf).isKey (h field hf).closed

theorem crosses_listing {texts : List (List Char)} {depth : Int} (hd : 0 < depth)
    (h : ∀ text ∈ texts, Scan.Crosses isComma depth depth text) :
    Scan.Crosses isComma depth depth ([',', ' '].intercalate texts) := by
  have hcomma : Scan.Crosses isComma depth depth [',', ' '] := by
    have hdepth : (depth == 0) = false := by simp; omega
    have hone : Scan.Crosses isComma depth depth [','] :=
      Scan.crosses_char (by decide) (by decide) (by simp [hdepth])
    exact hone.append (crosses_space depth)
  induction texts with
  | nil => exact Scan.crosses_nil depth
  | cons text texts ih =>
    have ht := h text List.mem_cons_self
    have hi := ih fun t hm => h t (List.mem_cons_of_mem text hm)
    cases texts with
    | nil => simpa using ht
    | cons next texts =>
      rw [List.intercalate_cons_cons]
      exact (ht.append hcomma).append hi

theorem isTrimmed_braces (inner : List Char) : Text.IsTrimmed ('{' :: inner ++ ['}']) := by
  refine ⟨by simp; decide, ?_⟩
  rw [List.getLast?_append_of_ne_nil _ (by simp)]
  simp
  decide

theorem isClosed_braces {inner : List Char}
    (h : ∀ depth : Int, 0 < depth → Scan.Crosses isComma depth depth inner) :
    IsClosed ('{' :: inner ++ ['}']) where
  ne_nil := by simp
  trimmed := isTrimmed_braces inner
  crosses := by
    intro depth hd
    have hopen : Scan.Crosses isComma depth (depth + 1) ['{'] :=
      Scan.crosses_char (by decide) (by decide) rfl
    have hclose : Scan.Crosses isComma (depth + 1) depth ['}'] := by
      have hone : Scan.Crosses isComma (depth + 1) (Scan.deepen (depth + 1) '}') ['}'] :=
        Scan.crosses_char (by decide) (by decide) rfl
      have he : Scan.deepen (depth + 1) '}' = depth := by
        show depth + 1 - 1 = depth
        omega
      rwa [he] at hone
    exact (hopen.append (h (depth + 1) (by omega))).append hclose

/-- An object is a closed value itself. -/
theorem isClosed_objectText {fields : List (List Char × List Char)}
    (h : ∀ field ∈ fields, IsEntry field) : IsClosed (objectText fields) := by
  have htext : objectText fields =
      '{' :: ([' '] ++ [',', ' '].intercalate (fields.map entryText) ++ [' ']) ++ ['}'] := by
    simp [objectText]
  rw [htext]
  refine isClosed_braces fun depth hd => ?_
  have hlist : Scan.Crosses isComma depth depth
      ([',', ' '].intercalate (fields.map entryText)) := by
    refine crosses_listing hd ?_
    intro text hm
    obtain ⟨field, hf, rfl⟩ := List.mem_map.mp hm
    exact crosses_entryText (h field hf).isKey (h field hf).closed (by omega)
  exact ((crosses_space depth).append hlist).append (crosses_space depth)

theorem inside_braces (inner : List Char) :
    Expression.inside (Text.trim ('{' :: inner ++ ['}'])) = inner := by
  rw [Text.trim_of_isTrimmed (isTrimmed_braces inner)]
  simp [Expression.inside]

end Restyle.DeclarativePattern
