import Restyle.Pattern.Header
import Restyle.Proofs.Expression.Name
import Restyle.Proofs.Scan.Find
import Restyle.Proofs.Text.Search
import Restyle.Proofs.Text.Trim

namespace Restyle.Header

def IsBlanks (cs : List Char) : Prop := ∀ c ∈ cs, Text.isBlank c = true

def IsWord (cs : List Char) : Prop := cs ≠ [] ∧ ∀ c ∈ cs, Text.isWord c = true

section

variable {blanks word rest : List Char} {c : Char}

theorem skipBlanks_append (hb : IsBlanks blanks) (hc : Text.isBlank c = false) :
    Text.skipBlanks (blanks ++ c :: rest) = c :: rest :=
  Text.dropWhile_append_of_head hb (by rintro d ⟨⟩; exact hc)

theorem exists_skipBlanks (cs : List Char) :
    ∃ blanks, IsBlanks blanks ∧ cs = blanks ++ Text.skipBlanks cs :=
  ⟨cs.takeWhile Text.isBlank, fun _ => List.all_eq_true.mp List.all_takeWhile _,
    List.takeWhile_append_dropWhile.symm⟩

theorem someBlanks?_append (hne : blanks ≠ []) (hb : IsBlanks blanks)
    (hc : Text.isBlank c = false) : someBlanks? (blanks ++ c :: rest) = some (c :: rest) := by
  obtain ⟨d, blanks, rfl⟩ := List.exists_cons_of_ne_nil hne
  obtain ⟨hd, hb⟩ := List.forall_mem_cons.mp hb
  rw [List.cons_append, someBlanks?, if_pos hd, skipBlanks_append hb hc]

theorem exists_someBlanks? {cs : List Char} (h : someBlanks? cs = some rest) :
    ∃ blanks, blanks ≠ [] ∧ IsBlanks blanks ∧ cs = blanks ++ rest := by
  cases cs with
  | nil => cases h
  | cons d cs =>
    rw [someBlanks?] at h
    split at h
    next hd =>
      cases h
      obtain ⟨blanks, hb, he⟩ := exists_skipBlanks cs
      exact ⟨d :: blanks, by simp, List.forall_mem_cons.mpr ⟨hd, hb⟩, by rw [List.cons_append, ← he]⟩
    next => cases h

theorem word?_append (hw : IsWord word) (hr : ∀ d ∈ rest.head?, Text.isWord d = false) :
    word? (word ++ rest) = some (word, rest) := by
  rw [word?, Text.takeWhile_append_of_head hw.2 hr, Text.dropWhile_append_of_head hw.2 hr]
  simp [hw.1]

theorem word?_eq_some {cs : List Char} (h : word? cs = some (word, rest)) :
    IsWord word ∧ cs = word ++ rest := by
  simp only [word?] at h
  split at h
  next => cases h
  next hne =>
    cases h
    exact ⟨⟨by simpa using hne, fun _ => List.all_eq_true.mp List.all_takeWhile _⟩,
      List.takeWhile_append_dropWhile.symm⟩

theorem isWord_of_isBlank (h : Text.isBlank c = true) : Text.isWord c = false := by
  cases hw : Text.isWord c with
  | false => rfl
  | true =>
    rw [Text.isBlank_of_isWord hw] at h
    cases h

/-- A word ends at blanks and at a mark that is no part of words. -/
theorem word?_append_blanks (hw : IsWord word) (hb : IsBlanks blanks) (hc : Text.isWord c = false) :
    word? (word ++ (blanks ++ c :: rest)) = some (word, blanks ++ c :: rest) := by
  refine word?_append hw fun d hd => ?_
  cases blanks with
  | nil =>
    cases hd
    exact hc
  | cons b blanks =>
    cases hd
    exact isWord_of_isBlank (hb d List.mem_cons_self)

end

/-- The text of a definition up to the call that makes the component. -/
inductive IsDefinition (name : List Char) : List Char → Prop
  | mk {gap before after : List Char} (hne : gap ≠ []) (hgap : IsBlanks gap) (hname : IsWord name)
      (hbefore : IsBlanks before) (hafter : IsBlanks after) :
    IsDefinition name
      ("const".toList ++ (gap ++ (name ++ (before ++ '=' :: (after ++ "styled".toList)))))

theorem definition?_eq_some {cs name rest : List Char} (h : definition? cs = some (name, rest)) :
    ∃ text, IsDefinition name text ∧ cs = text ++ rest := by
  simp only [definition?, Option.bind_eq_bind, Option.bind_eq_some_iff] at h
  obtain ⟨cs₁, h₁, cs₂, h₂, ⟨word, cs₃⟩, h₃, cs₄, h₄, cs₅, h₅, he⟩ := h
  cases he
  obtain ⟨gap, hne, hgap, rfl⟩ := exists_someBlanks? h₂
  obtain ⟨hname, rfl⟩ := word?_eq_some h₃
  obtain ⟨before, hbefore, hb⟩ := exists_skipBlanks cs₃
  obtain ⟨after, hafter, ha⟩ := exists_skipBlanks cs₄
  rw [← List.append_eq_of_isPrefixOf?_eq_some h₄] at hb
  rw [← List.append_eq_of_isPrefixOf?_eq_some h₅] at ha
  refine ⟨_, .mk hne hgap hname hbefore hafter, ?_⟩
  rw [← List.append_eq_of_isPrefixOf?_eq_some h₁, hb, ha]
  simp only [List.append_assoc, List.cons_append, List.nil_append]

theorem IsDefinition.definition?_append {name text : List Char} (h : IsDefinition name text)
    (rest : List Char) : definition? (text ++ rest) = some (name, rest) := by
  cases h with
  | @mk gap before after hne hgap hname hbefore hafter =>
    obtain ⟨c, tail, rfl⟩ := List.exists_cons_of_ne_nil hname.1
    have hc := Text.isBlank_of_isWord (hname.2 c List.mem_cons_self)
    have hstyled : Text.skipBlanks (after ++ ("styled".toList ++ rest)) = "styled".toList ++ rest :=
      skipBlanks_append hafter (by decide)
    simp only [List.append_assoc, List.cons_append]
    simp only [definition?, List.isPrefixOf?_eq_some_iff_append_eq.mpr rfl, Option.bind_eq_bind,
      Option.bind_some]
    rw [someBlanks?_append hne hgap hc, Option.bind_some, ← List.cons_append,
      word?_append_blanks hname hbefore (by decide +kernel), Option.bind_some,
      skipBlanks_append hbefore (by decide)]
    show ("styled".toList.isPrefixOf? (Text.skipBlanks (after ++ ("styled".toList ++ rest)))).bind _ =
      _
    rw [hstyled, List.isPrefixOf?_eq_some_iff_append_eq.mpr rfl]
    rfl

/-- A character that stands in no blanks and in no word. -/
def isMark (c : Char) : Bool := !Text.isBlank c && !Text.isWord c

theorem IsBlanks.not_mem {blanks : List Char} (h : IsBlanks blanks) {c : Char}
    (hc : isMark c = true) : c ∉ blanks := by
  intro hm
  simp [isMark, h c hm] at hc

theorem IsWord.not_mem {word : List Char} (h : IsWord word) {c : Char} (hc : isMark c = true) :
    c ∉ word := by
  intro hm
  simp [isMark, h.2 c hm] at hc

/-- The only mark in a definition is its equals sign. -/
theorem IsDefinition.not_mem {name text : List Char} (h : IsDefinition name text) {c : Char}
    (hc : isMark c = true) (he : c ≠ '=') : c ∉ text := by
  cases h with
  | mk _ hgap hname hbefore hafter =>
    have hletters : ∀ word : List Char, word.all Text.isWord = true → c ∉ word := by
      intro word hw hm
      simp [isMark, List.all_eq_true.mp hw c hm] at hc
    simp only [List.mem_append, List.mem_cons, not_or]
    exact ⟨hletters _ (by decide +kernel), hgap.not_mem hc, hname.not_mem hc, hbefore.not_mem hc, he,
      hafter.not_mem hc, hletters _ (by decide +kernel)⟩

/-- The text of a definition by an object, up to and with its brace. -/
inductive IsDeclarative (name base : List Char) : List Char → Prop
  | mk {start before after gap last : List Char} (hstart : IsDefinition name start)
      (hbefore : IsBlanks before) (hafter : IsBlanks after) (hbase : IsWord base)
      (hgap : IsBlanks gap) (hlast : IsBlanks last) :
    IsDeclarative name base
      (start ++ (before ++ '(' :: (after ++ (base ++ (gap ++ ',' :: (last ++ ['{']))))))

theorem declarative?_eq_some {before : Option Char} {cs name base rest : List Char}
    (h : declarative? before cs = some ((name, base), rest)) :
    ∃ text, IsDeclarative name base text ∧ cs = text ++ rest := by
  simp only [declarative?, Option.bind_eq_bind, Option.bind_eq_some_iff] at h
  obtain ⟨⟨name', cs₁⟩, h₁, cs₂, h₂, ⟨base', cs₃⟩, h₃, cs₄, h₄, cs₅, h₅, he⟩ := h
  cases he
  obtain ⟨start, hstart, rfl⟩ := definition?_eq_some h₁
  obtain ⟨before, hbefore, hb⟩ := exists_skipBlanks cs₁
  obtain ⟨after, hafter, ha⟩ := exists_skipBlanks cs₂
  obtain ⟨hbase, hw⟩ := word?_eq_some h₃
  obtain ⟨gap, hgap, hg⟩ := exists_skipBlanks cs₃
  obtain ⟨last, hlast, hl⟩ := exists_skipBlanks cs₄
  rw [← List.append_eq_of_isPrefixOf?_eq_some h₂] at hb
  rw [hw] at ha
  rw [← List.append_eq_of_isPrefixOf?_eq_some h₄] at hg
  rw [← List.append_eq_of_isPrefixOf?_eq_some h₅] at hl
  refine ⟨_, .mk hstart hbefore hafter hbase hgap hlast, ?_⟩
  rw [hb, ha, hg, hl]
  simp only [List.append_assoc, List.cons_append, List.nil_append]

namespace IsDeclarative

variable {name base text : List Char}

theorem declarative?_append (h : IsDeclarative name base text) (before : Option Char)
    (rest : List Char) : declarative? before (text ++ rest) = some ((name, base), rest) := by
  cases h with
  | @mk start before after gap last hstart hbefore hafter hbase hgap hlast =>
    obtain ⟨c, tail, rfl⟩ := List.exists_cons_of_ne_nil hbase.1
    have hc := Text.isBlank_of_isWord (hbase.2 c List.mem_cons_self)
    simp only [List.append_assoc, List.cons_append, List.nil_append]
    simp only [declarative?, hstart.definition?_append, Option.bind_eq_bind, Option.bind_some]
    rw [skipBlanks_append hbefore (by decide)]
    show (word? (Text.skipBlanks (after ++ c :: (tail ++ _)))).bind _ = _
    rw [skipBlanks_append hafter hc, ← List.cons_append,
      word?_append_blanks hbase hgap (by decide +kernel), Option.bind_some]
    simp only [skipBlanks_append hgap (by decide : Text.isBlank ',' = false)]
    show ([ '{' ].isPrefixOf? (Text.skipBlanks (last ++ '{' :: rest))).bind _ = _
    rw [skipBlanks_append hlast (by decide)]
    rfl

/-- The brace of a header stands at its end only, and what closes an object or a call does not
stand in it. -/
theorem eq_concat (h : IsDeclarative name base text) :
    ∃ front, text = front ++ ['{'] ∧ ∀ c, c = '{' ∨ c = '}' ∨ c = ')' → c ∉ front := by
  cases h with
  | @mk start before after gap last hstart hbefore hafter hbase hgap hlast =>
    refine ⟨start ++ (before ++ '(' :: (after ++ (base ++ (gap ++ ',' :: last)))), by simp, ?_⟩
    intro c hc
    have hm : isMark c = true := by
      rcases hc with rfl | rfl | rfl
      · decide +kernel
      · decide +kernel
      · decide +kernel
    have hne : c ≠ '=' ∧ c ≠ '(' ∧ c ≠ ',' := by
      rcases hc with rfl | rfl | rfl
      · decide
      · decide
      · decide
    simp only [List.mem_append, List.mem_cons, not_or]
    exact ⟨hstart.not_mem hm hne.1, hbefore.not_mem hm, hne.2.1, hafter.not_mem hm,
      hbase.not_mem hm, hgap.not_mem hm, hne.2.2, hlast.not_mem hm⟩

end IsDeclarative

theorem consumes_declarative : Scan.Consumes declarative? where
  before _ _ _ := rfl
  front := by
    rintro before cs ⟨name, base⟩ rest h
    obtain ⟨text, ht, he⟩ := declarative?_eq_some h
    obtain ⟨front, rfl, _⟩ := ht.eq_concat
    exact ⟨_, by simp, he⟩

/-- A header does not go on after a brace or the end of a call. -/
theorem stopsAt_declarative {mark : Char} (hm : mark = '{' ∨ mark = '}' ∨ mark = ')') :
    Scan.StopsAt mark declarative? := by
  intro before cs after
  have hwhole : cs ++ mark :: after = cs ++ [mark] ++ after := by simp
  cases hs : declarative? before (cs ++ [mark]) with
  | some found =>
    obtain ⟨⟨name, base⟩, rest⟩ := found
    obtain ⟨text, ht, he⟩ := declarative?_eq_some hs
    rw [hwhole, he, List.append_assoc, ht.declarative?_append]
    rfl
  | none =>
    cases h : declarative? before (cs ++ mark :: after) with
    | none => rfl
    | some found =>
      obtain ⟨⟨name, base⟩, rest⟩ := found
      obtain ⟨text, ht, he⟩ := declarative?_eq_some h
      obtain ⟨front, hfront, hout⟩ := ht.eq_concat
      -- a header that went on after the mark would have the mark before its end
      have hback : ∃ back, cs ++ [mark] = text ++ back := by
        rw [hwhole] at he
        rcases List.append_eq_append_iff.mp he with ⟨more, hmore, _⟩ | ⟨back, hback, _⟩
        · rcases List.eq_nil_or_concat more with rfl | ⟨init, last, rfl⟩
          · exact ⟨[], by rw [hmore, List.append_nil, List.append_nil]⟩
          · rw [hfront, List.concat_eq_append, ← List.append_assoc] at hmore
            obtain ⟨hinit, _⟩ := List.append_inj' hmore rfl
            exact absurd (by rw [hinit]; simp) (hout mark hm)
        · exact ⟨back, hback⟩
      obtain ⟨back, hback⟩ := hback
      rw [hback, ht.declarative?_append] at hs
      cases hs

/-- Type arguments, if there are any. -/
inductive IsTypeArguments : List Char → Prop
  | absent : IsTypeArguments []
  | given {text : List Char} (h : '>' ∉ text) : IsTypeArguments ('<' :: text ++ ['>'])

theorem exists_skipTypeArguments (cs : List Char) :
    ∃ arguments, IsTypeArguments arguments ∧ cs = arguments ++ skipTypeArguments cs := by
  unfold skipTypeArguments
  split
  next rest =>
    split
    next rest' he =>
      refine ⟨'<' :: rest.takeWhile (· != '>') ++ ['>'], .given fun hm => ?_, ?_⟩
      · simpa using List.all_eq_true.mp List.all_takeWhile '>' hm
      · have hw := List.takeWhile_append_dropWhile (p := (· != '>')) (l := rest)
        rw [he] at hw
        simp [hw]
    next => exact ⟨[], .absent, rfl⟩
  next => exact ⟨[], .absent, rfl⟩

theorem IsTypeArguments.skipTypeArguments_append {arguments : List Char}
    (h : IsTypeArguments arguments) {rest : List Char} (hr : rest.head? ≠ some '<') :
    skipTypeArguments (arguments ++ rest) = rest := by
  cases h with
  | absent =>
    rw [List.nil_append]
    unfold skipTypeArguments
    split
    next => exact absurd rfl hr
    next => rfl
  | @given text ht =>
    have hd : (text ++ '>' :: rest).dropWhile (· != '>') = '>' :: rest := by
      refine Text.dropWhile_append_of_head (fun c hc => ?_) (by simp)
      simp only [bne_iff_ne, ne_eq]
      rintro rfl
      exact ht hc
    simp [skipTypeArguments, hd]

/-- The text of the element or component that a template is applied to. -/
inductive IsTemplateBase (base : List Char) : List Char → Prop
  | element {arguments : List Char} (hb : IsWord base) (ha : IsTypeArguments arguments) :
    IsTemplateBase base ('.' :: (base ++ arguments))
  | component {arguments : List Char} (ha : IsTypeArguments arguments) (hb : IsWord base) :
    IsTemplateBase base (arguments ++ '(' :: (base ++ [')']))

theorem templateBase?_eq_some {cs base rest : List Char}
    (h : templateBase? cs = some (base, rest)) :
    ∃ text, IsTemplateBase base text ∧ cs = text ++ rest := by
  unfold templateBase? at h
  split at h
  next cs =>
    obtain ⟨⟨word, after⟩, hw, he⟩ := Option.map_eq_some_iff.mp h
    cases he
    obtain ⟨hword, rfl⟩ := word?_eq_some hw
    obtain ⟨arguments, ha, he⟩ := exists_skipTypeArguments after
    refine ⟨_, .element hword ha, ?_⟩
    rw [List.cons_append, List.append_assoc, ← he]
  next =>
    simp only [Option.bind_eq_bind, Option.bind_eq_some_iff] at h
    obtain ⟨cs₁, h₁, ⟨word, cs₂⟩, h₂, cs₃, h₃, he⟩ := h
    cases he
    obtain ⟨arguments, ha, hs⟩ := exists_skipTypeArguments cs
    obtain ⟨hword, rfl⟩ := word?_eq_some h₂
    have hclose : [')'] ++ rest = cs₂ := List.append_eq_of_isPrefixOf?_eq_some h₃
    rw [← List.append_eq_of_isPrefixOf?_eq_some h₁, ← hclose] at hs
    refine ⟨_, .component ha hword, ?_⟩
    rw [hs]
    simp

/-- What the base of a template does not take up: blanks and a backtick. -/
theorem IsTemplateBase.templateBase?_append {base text : List Char} (h : IsTemplateBase base text)
    {rest : List Char} (hr : ∀ c ∈ rest.head?, Text.isBlank c = true ∨ c = '\x60') :
    templateBase? (text ++ rest) = some (base, rest) := by
  have hangle : rest.head? ≠ some '<' := by
    intro he
    rcases hr '<' he with hb | hb
    · exact absurd hb (by decide)
    · cases hb
  cases h with
  | @element arguments hb ha =>
    have hword : ∀ c ∈ (arguments ++ rest).head?, Text.isWord c = false := by
      cases ha with
      | absent =>
        intro c hc
        rcases hr c hc with hc | rfl
        · exact isWord_of_isBlank hc
        · decide +kernel
      | given =>
        rintro c ⟨⟩
        decide +kernel
    simp only [List.cons_append, List.append_assoc, templateBase?]
    rw [word?_append hb hword, Option.map_some, ha.skipTypeArguments_append hangle]
  | @component arguments ha hb =>
    have hclose : ∀ c ∈ (')' :: rest).head?, Text.isWord c = false := by
      rintro c ⟨⟩
      decide +kernel
    have hskip : skipTypeArguments (arguments ++ '(' :: (base ++ ')' :: rest)) =
        '(' :: (base ++ ')' :: rest) := ha.skipTypeArguments_append (by simp)
    have hdot : ∀ cs, arguments ++ '(' :: (base ++ ')' :: rest) ≠ '.' :: cs := by
      intro cs he
      cases ha with
      | absent => cases he
      | given => cases he
    simp only [List.append_assoc, List.cons_append, List.nil_append]
    unfold templateBase?
    split
    next cs he => exact absurd he (hdot cs)
    next =>
      rw [hskip]
      show ((word? (base ++ ')' :: rest)).bind _) = _
      rw [word?_append hb hclose]
      rfl

/-- The text of a definition by a template, up to its backtick. -/
inductive IsTemplate (name base : List Char) : List Char → Prop
  | mk {start call last : List Char} (hstart : IsDefinition name start)
      (hcall : IsTemplateBase base call) (hlast : IsBlanks last) :
    IsTemplate name base (start ++ (call ++ last))

theorem template?_eq_some {before : Option Char} {cs name base rest : List Char}
    (h : template? before cs = some ((name, base), rest)) :
    ∃ text, IsTemplate name base text ∧ cs = text ++ rest ∧ rest.head? = some '\x60' := by
  simp only [template?, Option.bind_eq_bind, Option.bind_eq_some_iff] at h
  obtain ⟨⟨name', cs₁⟩, h₁, ⟨base', cs₂⟩, h₂, he⟩ := h
  split at he
  next hh =>
    cases he
    obtain ⟨start, hstart, rfl⟩ := definition?_eq_some h₁
    obtain ⟨call, hcall, rfl⟩ := templateBase?_eq_some h₂
    obtain ⟨last, hlast, hl⟩ := exists_skipBlanks cs₂
    refine ⟨_, .mk hstart hcall hlast, ?_, eq_of_beq hh⟩
    rw [List.append_assoc, List.append_assoc, ← hl]
  next => cases he

theorem IsTemplate.template?_append {name base text : List Char} (h : IsTemplate name base text)
    (before : Option Char) {rest : List Char} (hr : rest.head? = some '\x60') :
    template? before (text ++ rest) = some ((name, base), rest) := by
  obtain ⟨tail, rfl⟩ := List.head?_eq_some_iff.mp hr
  cases h with
  | @mk start call last hstart hcall hlast =>
    have hhead : ∀ c ∈ (last ++ '\x60' :: tail).head?, Text.isBlank c = true ∨ c = '\x60' := by
      cases last with
      | nil =>
        rintro c ⟨⟩
        exact Or.inr rfl
      | cons d last =>
        rintro c ⟨⟩
        exact Or.inl (hlast _ List.mem_cons_self)
    simp only [List.append_assoc, template?, hstart.definition?_append, Option.bind_eq_bind,
      Option.bind_some]
    rw [hcall.templateBase?_append hhead, Option.bind_some]
    simp only [skipBlanks_append hlast (by decide : Text.isBlank '\x60' = false)]
    rfl

theorem consumes_template : Scan.Consumes template? where
  before _ _ _ := rfl
  front := by
    rintro before cs ⟨name, base⟩ rest h
    obtain ⟨text, ht, he, _⟩ := template?_eq_some h
    refine ⟨text, ?_, he⟩
    cases ht with
    | mk hstart =>
      cases hstart with
      | mk => simp

def isTagEnd (c : Char) : Bool := Text.isBlank c || c == '/' || c == '>'

/-- What follows a tag's name, if the name ends there. -/
def afterName? (cs : List Char) (name : String) : Option (String × List Char) := do
  let rest ← name.toList.isPrefixOf? cs
  let c ← rest.head?
  if isTagEnd c then some (name, rest) else none

theorem tag?_cons_angle (names : List String) (before : Option Char) (cs : List Char) :
    tag? names before ('<' :: cs) = names.findSome? (afterName? cs) := rfl

theorem afterName?_eq_some {cs rest : List Char} {name name' : String}
    (h : afterName? cs name = some (name', rest)) :
    name' = name ∧ cs = name.toList ++ rest ∧ ∃ c ∈ rest.head?, isTagEnd c = true := by
  simp only [afterName?, Option.bind_eq_bind, Option.bind_eq_some_iff] at h
  obtain ⟨rest', hp, c, hc, he⟩ := h
  split at he
  next hend =>
    cases he
    exact ⟨rfl, (List.append_eq_of_isPrefixOf?_eq_some hp).symm, c, hc, hend⟩
  next => cases he

theorem afterName?_append {name : String} {rest : List Char}
    (h : ∃ c ∈ rest.head?, isTagEnd c = true) :
    afterName? (name.toList ++ rest) name = some (name, rest) := by
  obtain ⟨c, hc, hend⟩ := h
  simp [afterName?, List.isPrefixOf?_eq_some_iff_append_eq.mpr rfl, Option.mem_def.mp hc, hend]

theorem tag?_eq_some {names : List String} {before : Option Char} {cs rest : List Char}
    {name : String} (h : tag? names before cs = some (name, rest)) :
    cs = '<' :: name.toList ++ rest ∧ ∃ c ∈ rest.head?, isTagEnd c = true := by
  unfold tag? at h
  split at h
  next cs =>
    obtain ⟨name', _, hn⟩ := List.exists_of_findSome?_eq_some h
    obtain ⟨rfl, rfl, hend⟩ := afterName?_eq_some hn
    exact ⟨rfl, hend⟩
  next => cases h

theorem consumes_tag (names : List String) : Scan.Consumes (tag? names) where
  before _ _ _ := rfl
  front := by
    intro before cs name rest h
    exact ⟨'<' :: name.toList, by simp, (tag?_eq_some h).1⟩

/-- A name that ends in a text ends there also if the text goes on. -/
theorem afterName?_of_append {cs rest : List Char} {name name' : String}
    (h : afterName? cs name = some (name', rest)) (after : List Char) :
    afterName? (cs ++ after) name = some (name', rest ++ after) := by
  obtain ⟨rfl, rfl, c, hc, hend⟩ := afterName?_eq_some h
  rw [List.append_assoc]
  refine afterName?_append ⟨c, ?_, hend⟩
  rw [List.head?_append, Option.mem_def.mp hc]
  rfl

/-- A tag is recognised by its name and the character after it. -/
theorem tag?_of_append {names : List String} {before : Option Char} {name : String}
    {rest after : List Char} (hne : rest ≠ [])
    (h : tag? names before ('<' :: name.toList ++ (rest ++ after)) = some (name, rest ++ after)) :
    tag? names before ('<' :: name.toList ++ rest) = some (name, rest) := by
  rw [List.cons_append, tag?_cons_angle] at h ⊢
  obtain ⟨earlier, name', later, rfl, hn, hnone⟩ := List.findSome?_eq_some_iff.mp h
  obtain ⟨rfl, _, c, hc, hend⟩ := afterName?_eq_some hn
  refine List.findSome?_eq_some_iff.mpr ⟨earlier, name, later, rfl, afterName?_append ?_, ?_⟩
  · obtain ⟨d, tail, rfl⟩ := List.exists_cons_of_ne_nil hne
    exact ⟨c, hc, hend⟩
  · -- an earlier name that ended here would end there as well
    intro other hm
    cases ho : afterName? (name.toList ++ rest) other with
    | none => rfl
    | some found =>
      have hlong := afterName?_of_append ho after
      rw [List.append_assoc, hnone other hm] at hlong
      cases hlong

theorem afterName?_append_mark {name : String} (hm : '>' ∉ name.toList) (cs after : List Char) :
    afterName? (cs ++ '>' :: after) name =
      (afterName? (cs ++ ['>']) name).map fun (name, rest) => (name, rest ++ after) := by
  have hwhole : cs ++ '>' :: after = cs ++ ['>'] ++ after := by simp
  cases hs : afterName? (cs ++ ['>']) name with
  | some found => rw [hwhole, afterName?_of_append hs, Option.map_some]
  | none =>
    cases h : afterName? (cs ++ '>' :: after) name with
    | none => rfl
    | some found =>
      obtain ⟨_, rest⟩ := found
      obtain ⟨_, he, c, hc, hend⟩ := afterName?_eq_some h
      -- the name has no mark, so it ends before the mark
      have hback : ∃ back, cs = name.toList ++ back ∧ rest = back ++ '>' :: after := by
        rcases List.append_eq_append_iff.mp he with ⟨more, hmore, hr⟩ | ⟨back, hback, hr⟩
        · cases more with
          | nil => exact ⟨[], by rw [hmore]; simp, hr.symm⟩
          | cons d more =>
            cases hr
            exact absurd (by rw [hmore]; simp) hm
        · exact ⟨back, hback, hr⟩
      obtain ⟨back, rfl, rfl⟩ := hback
      have hhead : c ∈ (back ++ ['>']).head? := by
        cases back with
        | nil => exact hc
        | cons d back => exact hc
      rw [List.append_assoc, afterName?_append ⟨c, hhead, hend⟩] at hs
      cases hs

theorem findSome?_afterName?_append_mark {names : List String}
    (h : ∀ name ∈ names, '>' ∉ name.toList) (cs after : List Char) :
    names.findSome? (afterName? (cs ++ '>' :: after)) =
      (names.findSome? (afterName? (cs ++ ['>']))).map
        fun (name, rest) => (name, rest ++ after) := by
  induction names with
  | nil => rfl
  | cons name names ih =>
    obtain ⟨hn, hs⟩ := List.forall_mem_cons.mp h
    rw [List.findSome?_cons, List.findSome?_cons, afterName?_append_mark hn, ih hs]
    cases afterName? (cs ++ ['>']) name with
    | none => rfl
    | some found => rfl

/-- A tag's name without the mark of its end does not go on after it. -/
theorem stopsAt_tag {names : List String} (h : ∀ name ∈ names, '>' ∉ name.toList) :
    Scan.StopsAt '>' (tag? names) := by
  intro before cs after
  have hother : ∀ c tail, c ≠ '<' → tag? names before (c :: tail) = none := by
    intro c tail hc
    unfold tag?
    split
    next he => exact absurd (List.cons.inj he).1 hc
    next => rfl
  cases cs with
  | nil => rfl
  | cons c cs =>
    rw [List.cons_append, List.cons_append]
    by_cases hc : c = '<'
    · subst hc
      exact findSome?_afterName?_append_mark h cs after
    · rw [hother c _ hc, hother c _ hc]
      rfl

end Restyle.Header
