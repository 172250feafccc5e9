import Restyle.Palette.Legacy
import Restyle.Proofs.Batch
import Restyle.Proofs.Scan.Find
import Restyle.Proofs.Template.Convertible

namespace Restyle

namespace TemplatePattern

/-- The characters of a path. -/
def isPathChar (c : Char) : Bool := c.isAlpha || c == '_' || c == '.'

/-- The beginning of every path. -/
def pathRoot : List Char := "theme.".toList

def IsPathText (cs : List Char) : Prop := ∀ c ∈ cs, isPathChar c = true

/-- That a path runs up to the end of a text. -/
def EndsInPath (front : List Char) : Prop :=
  ∃ earlier path, front = earlier ++ (pathRoot ++ path) ∧ IsPathText path

/-- That a text is a path with something after its beginning. -/
def IsPath (text : List Char) : Prop := ∃ path, path ≠ [] ∧ IsPathText path ∧ text = pathRoot ++ path

theorem isPathText_pathRoot : IsPathText pathRoot := List.all_eq_true.mp (by decide)

theorem isPathText_append {cs ds : List Char} (h : IsPathText cs) (h' : IsPathText ds) :
    IsPathText (cs ++ ds) := by
  intro c hc
  exact (List.mem_append.mp hc).elim (h c) (h' c)

theorem isPathText_takeWhile (cs : List Char) : IsPathText (cs.takeWhile isPathChar) :=
  fun c hc => List.all_eq_true.mp List.all_takeWhile c hc

theorem IsPath.isPathText {text : List Char} (h : IsPath text) : IsPathText text := by
  obtain ⟨path, -, hpath, rfl⟩ := h
  exact isPathText_append isPathText_pathRoot hpath

theorem themeRef?_eq_some_iff {before : Option Char} {cs value rest : List Char} :
    themeRef? before cs = some (value, rest) ↔
      IsPath value ∧ cs = value ++ rest ∧ ∀ c ∈ rest.head?, isPathChar c = false := by
  constructor
  · intro h
    obtain ⟨tail, ht, h⟩ := Option.bind_eq_some_iff.mp h
    have htext := (List.append_eq_of_isPrefixOf?_eq_some ht).symm
    dsimp only at h
    split at h
    next => cases h
    next hne =>
      cases h
      refine ⟨⟨tail.takeWhile isPathChar, fun hnil => hne (List.isEmpty_iff.mpr hnil),
        isPathText_takeWhile tail, rfl⟩, ?_, Text.head_dropWhile⟩
      rw [htext, List.append_assoc]
      exact congrArg _ List.takeWhile_append_dropWhile.symm
  · rintro ⟨⟨path, hne, hpath, rfl⟩, rfl, hrest⟩
    have ht := Text.takeWhile_append_of_head hpath hrest
    have hd := Text.dropWhile_append_of_head hpath hrest
    have hempty : path.isEmpty = false := by simpa using hne
    have hroot : pathRoot.isPrefixOf? (pathRoot ++ path ++ rest) = some (path ++ rest) := by
      rw [List.append_assoc, List.isPrefixOf?_eq_some_iff_append_eq.mpr rfl]
    have heq : themeRef? before (pathRoot ++ path ++ rest) =
        (pathRoot.isPrefixOf? (pathRoot ++ path ++ rest)).bind fun tail =>
          if (tail.takeWhile isPathChar).isEmpty then none
          else some (pathRoot ++ tail.takeWhile isPathChar, tail.dropWhile isPathChar) := rfl
    rw [heq, hroot, Option.bind_some, ht, hd, hempty]
    rfl

theorem consumes_themeRef : Scan.Consumes themeRef? where
  before _ _ _ := rfl
  front := by
    intro before cs value rest h
    obtain ⟨⟨path, hne, -, rfl⟩, hcs, -⟩ := themeRef?_eq_some_iff.mp h
    exact ⟨_, by simp [hne], hcs⟩

/-- Where a path begins, the rest of it is read. -/
theorem exists_themeRef?_of_isPath (before : Option Char) {text : List Char} (h : IsPath text)
    (rest : List Char) : ∃ more back, rest = more ++ back ∧ IsPathText more ∧
      themeRef? before (text ++ rest) = some (text ++ more, back) := by
  obtain ⟨path, hne, hpath, rfl⟩ := h
  have hmore := isPathText_takeWhile rest
  refine ⟨rest.takeWhile isPathChar, rest.dropWhile isPathChar,
    List.takeWhile_append_dropWhile.symm, hmore, themeRef?_eq_some_iff.mpr ⟨⟨path ++
      rest.takeWhile isPathChar, by simp [hne], isPathText_append hpath hmore, ?_⟩, ?_,
      Text.head_dropWhile⟩⟩
  · rw [List.append_assoc]
  · rw [List.append_assoc (pathRoot ++ path), List.takeWhile_append_dropWhile]

section EndsInPath

variable {front back : List Char}

theorem EndsInPath.append (h : EndsInPath back) (front : List Char) :
    EndsInPath (front ++ back) := by
  obtain ⟨earlier, path, rfl, hpath⟩ := h
  exact ⟨front ++ earlier, path, (List.append_assoc ..).symm, hpath⟩

/-- What stands before another character does not belong to the path at the end. -/
theorem EndsInPath.of_append {c : Char} (hc : isPathChar c = false)
    (h : EndsInPath (front ++ c :: back)) : EndsInPath back := by
  obtain ⟨earlier, path, he, hpath⟩ := h
  have htext := isPathText_append isPathText_pathRoot hpath
  rcases List.append_eq_append_iff.mp he with ⟨as, rfl, has⟩ | ⟨bs, -, hbs⟩
  · cases as with
    | nil =>
      have := htext c (by rw [← List.nil_append (pathRoot ++ path), ← has]; exact List.mem_cons_self)
      rw [hc] at this
      cases this
    | cons d as =>
      obtain ⟨-, rfl⟩ := List.cons.inj has
      exact ⟨as, path, rfl, hpath⟩
  · have := htext c (by rw [hbs]; simp)
    rw [hc] at this
    cases this

/-- Inside of the beginning of a path no other path begins. -/
theorem endsInPath_of_append_eq {path : List Char} (hne : front ≠ []) (hpath : IsPathText path)
    (h : pathRoot ++ path = front ++ back) (hb : ∀ c ∈ back.head?, c = 't') :
    EndsInPath front := by
  rcases List.append_eq_append_iff.mp h with ⟨as, rfl, rfl⟩ | ⟨bs, hroot, rfl⟩
  · exact ⟨[], as, rfl, fun c hc => hpath c (List.mem_append_left _ hc)⟩
  · cases bs with
    | nil => exact ⟨[], [], by simpa using hroot.symm, by simp [IsPathText]⟩
    | cons b bs =>
      obtain rfl := hb b rfl
      obtain ⟨f, front, rfl⟩ := List.exists_cons_of_ne_nil hne
      have hmem : 't' ∈ pathRoot.tail := by simp [hroot]
      exact absurd hmem (by decide)

end EndsInPath

/-- A path that no earlier one runs into is found. -/
theorem exists_mem_findFrom_themeRef {before : Option Char} {offset : Nat}
    {cs front text rest : List Char} (hcs : cs = front ++ (text ++ rest))
    (hfront : ¬EndsInPath front) (htext : IsPath text)
    (hrest : ∀ c ∈ rest.head?, isPathChar c = false) :
    ∃ hit ∈ Scan.findFrom themeRef? before offset cs, hit.value = text := by
  have hread : ∀ before, themeRef? before (text ++ rest) = some (text, rest) :=
    fun _ => themeRef?_eq_some_iff.mpr ⟨htext, rfl, hrest⟩
  obtain ⟨path, hne, hpath, rfl⟩ := htext
  induction before, offset, cs using Scan.find_rounds consumes_themeRef.readsText
    generalizing front with
  | nil before offset => simp [pathRoot] at hcs
  | skip before offset c tail hn ih =>
    rw [Scan.findFrom_of_none hn]
    cases front with
    | nil =>
      rw [hcs, List.nil_append, hread] at hn
      cases hn
    | cons d front =>
      obtain ⟨rfl, htail⟩ := List.cons.inj hcs
      exact ih (fun h => hfront (h.append [c])) htail
  | read before offset found value back hfound hv ih =>
    rw [Scan.findFrom_of_some hfound hv]
    obtain ⟨⟨path', -, hpath', rfl⟩, he, hback⟩ := themeRef?_eq_some_iff.mp hv
    obtain rfl := List.append_cancel_right he
    rcases List.append_eq_append_iff.mp hcs with ⟨as, has, htail⟩ | ⟨bs, has, hbs⟩
    · -- the place lies behind the first hit, in the text that is searched next
      obtain ⟨hit, hmem, hvalue⟩ := ih (fun h => hfront (has ▸ h.append _)) htail
      exact ⟨hit, List.mem_cons_of_mem _ hmem, hvalue⟩
    · cases front with
      | nil =>
        refine ⟨_, List.mem_cons_self, ?_⟩
        rw [hcs, List.nil_append, hread] at hv
        exact (Prod.ext_iff.mp (Option.some.inj hv)).1.symm
      | cons d front =>
        refine absurd (endsInPath_of_append_eq (List.cons_ne_nil d front) hpath' has ?_) hfront
        intro c hc
        cases bs with
        | nil => cases hc
        | cons b bs =>
          cases hc
          exact (List.cons.inj hbs).1.symm

/-- No earlier path runs into what is found. -/
theorem exists_place_of_mem_findFrom_themeRef {before : Option Char} {offset : Nat}
    {cs : List Char} {hit : Scan.Hit (List Char)}
    (h : hit ∈ Scan.findFrom themeRef? before offset cs) :
    ∃ front rest, cs = front ++ (hit.value ++ rest) ∧ ¬EndsInPath front ∧ IsPath hit.value ∧
      ∀ c ∈ rest.head?, isPathChar c = false := by
  induction before, offset, cs using Scan.find_rounds consumes_themeRef.readsText with
  | nil before offset =>
    rw [Scan.findFrom_nil] at h
    cases h
  | skip before offset c tail hn ih =>
    rw [Scan.findFrom_of_none hn] at h
    obtain ⟨front, rest, htail, hfront, hpath, hrest⟩ := ih h
    refine ⟨c :: front, rest, by rw [htail, List.cons_append], ?_, hpath, hrest⟩
    rintro ⟨earlier, path, he, hp⟩
    cases earlier with
    | nil =>
      -- such a path would have been read at this place
      have hlong : IsPath (pathRoot ++ (path ++ hit.value)) :=
        ⟨_, by obtain ⟨_, hne, -, hv⟩ := hpath; simp [hv, hne],
          isPathText_append hp hpath.isPathText, rfl⟩
      obtain ⟨more, back, -, -, hread⟩ := exists_themeRef?_of_isPath before hlong rest
      have hsame : c :: tail = pathRoot ++ (path ++ hit.value) ++ rest := by
        rw [htail, ← List.cons_append, he]
        simp only [List.nil_append, List.append_assoc]
      rw [hsame, hread] at hn
      cases hn
    | cons d earlier =>
      obtain ⟨-, rfl⟩ := List.cons.inj he
      exact hfront ⟨earlier, path, rfl, hp⟩
  | read before offset found value back hfound hv ih =>
    rw [Scan.findFrom_of_some hfound hv] at h
    obtain ⟨hvalue, he, hback⟩ := themeRef?_eq_some_iff.mp hv
    obtain rfl := List.append_cancel_right he
    rcases List.mem_cons.mp h with rfl | h
    · exact ⟨[], back, rfl, fun ⟨_, _, hnil, _⟩ => by simp [pathRoot] at hnil, hvalue, hback⟩
    · obtain ⟨front, rest, rfl, hfront, hpath, hrest⟩ := ih h
      refine ⟨found ++ front, rest, by rw [List.append_assoc], ?_, hpath, hrest⟩
      intro hend
      cases front with
      | nil =>
        obtain ⟨path, -, -, hv⟩ := hpath
        have := hback 't' (by rw [hv]; rfl)
        exact absurd this (by decide)
      | cons d front =>
        have hd : isPathChar d = false := hback d rfl
        exact hfront ((EndsInPath.of_append hd hend).append [d])

/-- That a text is a path in another one that goes on at neither end. -/
def IsLongestPath (text body : List Char) : Prop :=
  IsPath text ∧ ∃ front rest, body = front ++ (text ++ rest) ∧ ¬EndsInPath front ∧
    ∀ c ∈ rest.head?, isPathChar c = false

theorem mem_themeRefsOf_iff {body : List Char} {token : String} :
    token ∈ themeRefsOf body ↔ ∃ text, IsLongestPath text body ∧
      token = String.ofList (Text.dropTrailing (· == '.') text) := by
  rw [themeRefsOf, List.mem_eraseDups, List.mem_map]
  constructor
  · rintro ⟨hit, hmem, rfl⟩
    obtain ⟨front, rest, hbody, hfront, hpath, hrest⟩ := exists_place_of_mem_findFrom_themeRef hmem
    exact ⟨hit.value, ⟨hpath, front, rest, hbody, hfront, hrest⟩, rfl⟩
  · rintro ⟨text, ⟨hpath, front, rest, hbody, hfront, hrest⟩, rfl⟩
    obtain ⟨hit, hmem, rfl⟩ := exists_mem_findFrom_themeRef hbody hfront hpath hrest
    exact ⟨hit, hmem, rfl⟩

/-- Every path is a part of a longest one. -/
theorem exists_isLongestPath {body front text rest : List Char}
    (hbody : body = front ++ (text ++ rest)) (htext : IsPath text) :
    ∃ longer, IsLongestPath longer body ∧ text <:+: longer := by
  -- a path that runs into this one starts further to the left
  induction hn : front.length using Nat.strongRecOn generalizing front text with
  | _ n ih =>
    by_cases hfront : EndsInPath front
    · obtain ⟨earlier, path, rfl, hpath⟩ := hfront
      have hlonger : IsPath (pathRoot ++ (path ++ text)) :=
        ⟨path ++ text, by obtain ⟨_, hne, -, rfl⟩ := htext; simp [hne],
          isPathText_append hpath htext.isPathText, rfl⟩
      obtain ⟨longer, hlongest, hpart⟩ := ih earlier.length (by rw [← hn]; simp [pathRoot])
        (by rw [hbody]; simp only [List.append_assoc]) hlonger rfl
      refine ⟨longer, hlongest, List.IsInfix.trans ⟨pathRoot ++ path, [], ?_⟩ hpart⟩
      simp only [List.append_assoc, List.append_nil]
    · obtain ⟨more, back, rfl, -, hread⟩ := exists_themeRef?_of_isPath none htext rest
      obtain ⟨hlonger, -, hback⟩ := themeRef?_eq_some_iff.mp hread
      refine ⟨text ++ more, ⟨hlonger, front, back, ?_, hfront, hback⟩, ⟨[], more, rfl⟩⟩
      rw [hbody, List.append_assoc]

/-- That a text stands somewhere in another one where no path runs into it and none but points
follow on it. -/
def StandsWhole (text body : List Char) : Prop :=
  ∃ front rest, body = front ++ (text ++ rest) ∧ ¬EndsInPath front ∧
    ∀ c ∈ rest.takeWhile isPathChar, c = '.'

theorem mem_themeRefsOf_iff_standsWhole {body path : List Char} (hne : path ≠ [])
    (hlast : ∀ c ∈ path.getLast?, (c == '.') = false) :
    String.ofList (pathRoot ++ path) ∈ themeRefsOf body ↔
      IsPathText path ∧ StandsWhole (pathRoot ++ path) body := by
  rw [mem_themeRefsOf_iff]
  constructor
  · rintro ⟨text, ⟨hpath, front, rest, hbody, hfront, hrest⟩, htoken⟩
    obtain ⟨points, htext, hpoints⟩ := Text.exists_dropTrailing_append (· == '.') text
    rw [← String.ofList_injective htoken] at htext
    have hchars : IsPathText (pathRoot ++ path ++ points) := htext ▸ hpath.isPathText
    have hpoint : ∀ c ∈ points, isPathChar c = true :=
      fun c hc => hchars c (List.mem_append_right _ hc)
    refine ⟨fun c hc => hchars c (by simp [hc]), front, points ++ rest, ?_, hfront, ?_⟩
    · rw [hbody, htext, List.append_assoc]
    · rw [Text.takeWhile_append_of_head hpoint hrest]
      exact fun c hc => by simpa using hpoints c hc
  · rintro ⟨hpath, front, rest, hbody, hfront, hpoints⟩
    have hmore := isPathText_takeWhile rest
    refine ⟨pathRoot ++ path ++ rest.takeWhile isPathChar, ⟨⟨path ++ rest.takeWhile isPathChar,
      by simp [hne], isPathText_append hpath hmore, List.append_assoc ..⟩, front,
      rest.dropWhile isPathChar, ?_, hfront, Text.head_dropWhile⟩, ?_⟩
    · rw [hbody, List.append_assoc (pathRoot ++ path), List.takeWhile_append_dropWhile]
    · rw [Text.dropTrailing_append_of_all fun c hc => by simpa using hpoints c hc,
        Text.dropTrailing_of_getLast (by rwa [List.getLast?_append_of_ne_nil _ hne])]

/-- Of every path, at least what stands before the points at its end is part of a listed one. -/
theorem exists_mem_themeRefsOf {body front text rest : List Char}
    (hbody : body = front ++ (text ++ rest)) (htext : IsPath text) :
    ∃ token ∈ themeRefsOf body, Text.dropTrailing (· == '.') text <:+: token.toList := by
  obtain ⟨longer, hlongest, hpart⟩ := exists_isLongestPath hbody htext
  refine ⟨_, mem_themeRefsOf_iff.mpr ⟨longer, hlongest, rfl⟩, ?_⟩
  rw [String.toList_ofList]
  exact Text.dropTrailing_infix _ hpart

end TemplatePattern

namespace Legacy

/-- The full paths to the members of the former theme. -/
def themePaths : List String := ["theme.main.colors", "theme.fonts"]

theorem reference?_eq_some {paths : List String} {before : Option Char} {cs rest : List Char}
    {word : String} (h : reference? paths before cs = some (word, rest)) :
    ∃ path ∈ paths, cs = (path ++ "." ++ word).toList ++ rest ∧ word.toList ≠ [] ∧
      ∀ c ∈ word.toList, Text.isWord c = true := by
  unfold reference? at h
  split at h
  next =>
    obtain ⟨path, hpath, hfound⟩ := List.exists_of_findSome?_eq_some h
    obtain ⟨tail, ht, hfound⟩ := Option.bind_eq_some_iff.mp hfound
    have htext := (List.append_eq_of_isPrefixOf?_eq_some ht).symm
    dsimp only at hfound
    split at hfound
    next => cases hfound
    next hne =>
      cases hfound
      refine ⟨path, hpath, ?_, ?_, ?_⟩
      · simp only [htext, String.toList_append, String.toList_ofList, List.append_assoc,
          List.takeWhile_append_dropWhile]
      · rw [String.toList_ofList]
        exact fun hnil => hne (List.isEmpty_iff.mpr hnil)
      · rw [String.toList_ofList]
        exact fun c hc => List.all_eq_true.mp List.all_takeWhile c hc
  next => cases h

theorem readsText_reference (paths : List String) : Scan.ReadsText (reference? paths) := by
  intro before cs word rest h
  obtain ⟨path, -, hcs, -⟩ := reference?_eq_some h
  exact ⟨_, by simp, hcs⟩

/-- A reference stands in the text and ends in a word. -/
theorem exists_place_of_mem_findAll {paths : List String} {body : List Char}
    {hit : Scan.Hit String} (h : hit ∈ Scan.findAll (reference? paths) body) :
    ∃ path ∈ paths, ∃ word front, hit.text = (path ++ "." ++ word).toList ∧
      body = front ++ (hit.text ++ hit.rest) ∧ word.toList ≠ [] ∧
      ∀ c ∈ word.toList, Text.isWord c = true := by
  obtain ⟨front, previous, hbody, -, -, hv⟩ :=
    Scan.exists_place_of_mem_findFrom (readsText_reference paths) h
  obtain ⟨path, hpath, he, hne, hword⟩ := reference?_eq_some hv
  exact ⟨path, hpath, hit.value, front, List.append_cancel_right he, hbody, hne, hword⟩

/-- No path begins with another one. -/
theorem eq_of_prefix {path path' : String} {text : List Char} (h : path ∈ themePaths)
    (h' : path' ∈ "colors" :: themePaths) (hp : (path ++ ".").toList <+: text)
    (hp' : (path' ++ ".").toList <+: text) : path = path' := by
  have hall : ∀ a ∈ themePaths, ∀ b ∈ "colors" :: themePaths,
      (a ++ ".").toList <+: (b ++ ".").toList ∨ (b ++ ".").toList <+: (a ++ ".").toList →
        a = b := by
    decide +kernel
  exact hall path h path' h' (List.prefix_or_prefix_of_prefix hp hp')

theorem exists_place_of_mem_references {body : List Char} {path key : String}
    (hpath : path ∈ themePaths) (h : path ++ "." ++ key ∈ references body) :
    key.toList ≠ [] ∧ (∀ c ∈ key.toList, Text.isWord c = true) ∧
      ∃ front rest, body = front ++ ((path ++ "." ++ key).toList ++ rest) := by
  have hplace : ∃ path' ∈ "colors" :: themePaths, ∃ word front rest,
      path ++ "." ++ key = path' ++ "." ++ word ∧
      body = front ++ ((path' ++ "." ++ word).toList ++ rest) ∧ word.toList ≠ [] ∧
      ∀ c ∈ word.toList, Text.isWord c = true := by
    rcases List.mem_append.mp (List.mem_eraseDups.mp h) with h | h
    · obtain ⟨hit, hmem, he⟩ := List.mem_map.mp h
      obtain ⟨path', hp, word, front, ht, hbody, hw⟩ := exists_place_of_mem_findAll hmem
      refine ⟨path', List.mem_cons_of_mem _ hp, word, front, hit.rest, ?_, ht ▸ hbody, hw⟩
      rw [← he, ht, String.ofList_toList]
    · obtain ⟨hit, hmem, he⟩ := List.mem_map.mp h
      obtain ⟨path', hp, word, front, ht, hbody, hw⟩ :=
        exists_place_of_mem_findAll (List.mem_of_mem_filter hmem)
      refine ⟨path', List.mem_cons.mpr (.inl (List.mem_singleton.mp hp)), word, front, hit.rest,
        ?_, ht ▸ hbody, hw⟩
      rw [← he, ht, String.ofList_toList]
  obtain ⟨path', hpath', word, front, rest, he, hbody, hne, hword⟩ := hplace
  have hstart : ∀ a b : String, (a ++ ".").toList <+: (a ++ "." ++ b).toList :=
    fun a b => ⟨b.toList, String.toList_append.symm⟩
  obtain rfl := eq_of_prefix hpath hpath' (hstart path key) (he ▸ hstart path' word)
  obtain rfl : key = word := by simpa using he
  exact ⟨hne, hword, front, rest, hbody⟩

theorem exists_pathRoot_append {path : String} (h : path ∈ themePaths) :
    ∃ members, members ≠ [] ∧ TemplatePattern.IsPathText members ∧
      (path ++ ".").toList = TemplatePattern.pathRoot ++ members := by
  rcases List.mem_cons.mp h with rfl | h
  · exact ⟨"main.colors.".toList, by decide, List.all_eq_true.mp (by decide), by decide +kernel⟩
  · obtain rfl := List.mem_singleton.mp h
    exact ⟨"fonts.".toList, by decide, List.all_eq_true.mp (by decide), by decide +kernel⟩

end Legacy

namespace TemplatePattern

/-- The letters of a path. -/
def isPathLetter (c : Char) : Bool := c.isAlpha || c == '_'

theorem isPathChar_of_isPathLetter {c : Char} (h : isPathLetter c = true) : isPathChar c = true := by
  rw [isPathChar, Bool.or_eq_true]
  exact .inl h

theorem isPathLetter_of_isWord {c : Char} (hw : Text.isWord c = true) (hc : isPathChar c = true) :
    isPathLetter c = true := by
  rw [isPathChar, Bool.or_eq_true] at hc
  rcases hc with hc | hc
  · exact hc
  · rw [beq_iff_eq.mp hc] at hw
    exact absurd hw (by decide)

/-- A reference to the former theme is listed under its own name exactly if its last word has only
letters and the whole stands for itself somewhere. -/
theorem mem_themeRefsOf_iff_of_mem_references {body : List Char} {path key : String}
    (hpath : path ∈ Legacy.themePaths) (h : path ++ "." ++ key ∈ Legacy.references body) :
    path ++ "." ++ key ∈ themeRefsOf body ↔
      (∀ c ∈ key.toList, isPathLetter c = true) ∧
        StandsWhole (path ++ "." ++ key).toList body := by
  obtain ⟨hne, hword, -⟩ := Legacy.exists_place_of_mem_references hpath h
  obtain ⟨members, -, hmembers, hroot⟩ := Legacy.exists_pathRoot_append hpath
  have htext : (path ++ "." ++ key).toList = pathRoot ++ (members ++ key.toList) := by
    rw [String.toList_append, hroot, List.append_assoc]
  have hlast : ∀ c ∈ (members ++ key.toList).getLast?, (c == '.') = false := by
    intro c hc
    rw [List.getLast?_append_of_ne_nil _ hne] at hc
    have hw := hword c (List.mem_of_getLast? hc)
    refine beq_false_of_ne ?_
    rintro rfl
    exact absurd hw (by decide)
  rw [← String.ofList_toList (s := path ++ "." ++ key), htext,
    mem_themeRefsOf_iff_standsWhole (by simp [hne]) hlast, String.toList_ofList]
  refine and_congr_left' ⟨?_, ?_⟩
  · exact fun hall c hc =>
      isPathLetter_of_isWord (hword c hc) (hall c (List.mem_append_right _ hc))
  · exact fun hall => isPathText_append hmembers fun c hc => isPathChar_of_isPathLetter (hall c hc)

/-- The letters of a reference to the former theme are in any case part of what is listed. -/
theorem exists_mem_themeRefsOf_of_mem_references {body : List Char} {path key : String}
    (hpath : path ∈ Legacy.themePaths) (h : path ++ "." ++ key ∈ Legacy.references body) :
    ∃ token ∈ themeRefsOf body, Text.dropTrailing (· == '.')
      ((path ++ ".").toList ++ key.toList.takeWhile isPathLetter) <:+: token.toList := by
  obtain ⟨-, -, front, rest, hbody⟩ := Legacy.exists_place_of_mem_references hpath h
  obtain ⟨members, hne, hmembers, hroot⟩ := Legacy.exists_pathRoot_append hpath
  have hletters : IsPathText (key.toList.takeWhile isPathLetter) :=
    fun c hc => isPathChar_of_isPathLetter (List.all_eq_true.mp List.all_takeWhile c hc)
  have hplace : body = front ++ (((path ++ ".").toList ++ key.toList.takeWhile isPathLetter) ++
      (key.toList.dropWhile isPathLetter ++ rest)) := by
    rw [hbody, String.toList_append, List.append_assoc, List.append_assoc, ← List.append_assoc
      (key.toList.takeWhile isPathLetter), List.takeWhile_append_dropWhile]
  exact exists_mem_themeRefsOf hplace ⟨members ++ key.toList.takeWhile isPathLetter, by simp [hne],
    isPathText_append hmembers hletters, by rw [hroot, List.append_assoc]⟩

end TemplatePattern

theorem Batch.exists_mem_tokenCounts {analyses : List Analysis} {analysis : Analysis}
    (ha : analysis ∈ analyses) {token : String} (ht : token ∈ analysis.tokens) :
    ∃ count, 0 < count ∧ (token, count) ∈ tokenCounts analyses := by
  have hused : token ∈ analyses.flatMap (·.tokens) := List.mem_flatMap.mpr ⟨analysis, ha, ht⟩
  exact ⟨_, List.count_pos_iff.mpr hused,
    List.mem_map.mpr ⟨token, List.mem_eraseDups.mpr hused, rfl⟩⟩

namespace Analysis

variable {file : String} {tags : Json} {source : List Char} {analysis : Analysis}
  {p : TemplatePattern}

theorem tokens_of_ofSource (h : ofSource file tags source = .ok analysis) :
    TemplatePattern.parse source = .ok analysis.patterns.template ∧
      analysis.tokens = analysis.patterns.tokens := by
  obtain ⟨patterns, hparse, ha⟩ := bind_eq_ok h
  cases ha
  obtain ⟨template, htemplate, hrest⟩ := bind_eq_ok hparse
  obtain ⟨declarative, -, hrest⟩ := bind_eq_ok hrest
  obtain ⟨names, -, hrest⟩ := bind_eq_ok hrest
  obtain ⟨inline, -, hrest⟩ := bind_eq_ok hrest
  cases hrest
  exact ⟨htemplate, rfl⟩

theorem exists_template_of_ofSource (h : ofSource file tags source = .ok analysis)
    (hp : p ∈ analysis.patterns.template) (hf : p.failed = false) :
    ∃ hit ∈ Scan.findAll Header.template? source, ∃ literal rest,
      Scan.takeTemplate? hit.rest = some (literal, rest) ∧
      p.source = String.ofList (hit.text ++ literal) ∧
      p.themeRefs = TemplatePattern.themeRefsOf (Expression.inside literal) := by
  obtain ⟨hit, hhit, hread⟩ := exists_of_mem_mapM (tokens_of_ofSource h).1 hp
  obtain ⟨literal, rest, ht, hsource, hrefs, -⟩ := TemplatePattern.ofHit_eq_ok hread hf
  exact ⟨hit, hhit, literal, rest, ht, hsource, hrefs⟩

theorem mem_tokens_of_mem_themeRefs (h : ofSource file tags source = .ok analysis)
    (hp : p ∈ analysis.patterns.template) {token : String} (ht : token ∈ p.themeRefs) :
    token ∈ analysis.tokens := by
  have hlisted := List.mem_append_left (notedTokens p.properties) ht
  rw [(tokens_of_ofSource h).2]
  exact List.mem_eraseDups.mpr (List.mem_append_left _ (List.mem_append_left _
    (List.mem_flatMap.mpr ⟨p, hp, hlisted⟩)))

/-- The references to the former theme in a component's template are listed with the component, and
so counted in a batch, under their own names exactly if they have only letters in the last word and
stand for themselves. Of the others the letters are part of a longer name. -/
theorem references_listed_iff (h : ofSource file tags source = .ok analysis)
    (hp : p ∈ analysis.patterns.template) (hf : p.failed = false) :
    ∃ hit ∈ Scan.findAll Header.template? source, ∃ literal rest,
      Scan.takeTemplate? hit.rest = some (literal, rest) ∧
      p.source = String.ofList (hit.text ++ literal) ∧
      (∀ path ∈ Legacy.themePaths, ∀ key,
        path ++ "." ++ key ∈ Legacy.references (Expression.inside literal) →
          (path ++ "." ++ key ∈ p.themeRefs ↔
            (∀ c ∈ key.toList, TemplatePattern.isPathLetter c = true) ∧
              TemplatePattern.StandsWhole (path ++ "." ++ key).toList
                (Expression.inside literal)) ∧
          ∃ token ∈ p.themeRefs, Text.dropTrailing (· == '.')
            ((path ++ ".").toList ++ key.toList.takeWhile TemplatePattern.isPathLetter) <:+:
              token.toList) ∧
      ∀ token ∈ p.themeRefs, token ∈ analysis.tokens ∧
        ∀ files analyses skipped, analysis ∈ analyses →
          ((Batch.ofAnalyses files analyses skipped).tokenUsage.map (·.1)).Nodup ∧
          ∃ count, 0 < count ∧
            (token, count) ∈ (Batch.ofAnalyses files analyses skipped).tokenUsage := by
  obtain ⟨hit, hhit, literal, rest, ht, hsource, hrefs⟩ := exists_template_of_ofSource h hp hf
  refine ⟨hit, hhit, literal, rest, ht, hsource, ?_, ?_⟩
  · intro path hpath key hkey
    rw [hrefs]
    exact ⟨TemplatePattern.mem_themeRefsOf_iff_of_mem_references hpath hkey,
      TemplatePattern.exists_mem_themeRefsOf_of_mem_references hpath hkey⟩
  · intro token htoken
    have htokens := mem_tokens_of_mem_themeRefs h hp htoken
    exact ⟨htokens, fun files analyses skipped hmem =>
      ⟨Batch.nodup_tokenCounts analyses, Batch.exists_mem_tokenCounts hmem htokens⟩⟩

/-- References with and without digits, and one that goes on after its word. -/
def mixedSource : List Char :=
  ("const A = styled.V\x60a: $\x7btheme.fonts.body.bold\x7d $\x7btheme.main.colors.rustyRed\x7d;" ++
    "b: $\x7btheme.main.colors.red200\x7d $\x7btheme.main.colors.red400\x7d\x60").toList

def mixedReferences : List String := [
  "theme.fonts.body", "theme.main.colors.rustyRed", "theme.main.colors.red200",
  "theme.main.colors.red400"]

def mixedTokens : List String := [
  "theme.fonts.body.bold", "theme.main.colors.rustyRed", "theme.main.colors.red"]

theorem exists_mixedSource : ∃ analysis p, ofSource "A.tsx" .null mixedSource = .ok analysis ∧
    p ∈ analysis.patterns.template ∧ p.failed = false ∧ p.themeRefs = mixedTokens ∧
    analysis.tokens = mixedTokens := by
  obtain ⟨analysis, ha, hboth⟩ := exists_of_gives
    (p := fun analysis => analysis.tokens == mixedTokens &&
      analysis.patterns.template.any fun p => !p.failed && p.themeRefs == mixedTokens)
    (x := ofSource "A.tsx" .null mixedSource) (by decide +kernel)
  obtain ⟨htokens, hany⟩ := Bool.and_eq_true_iff.mp hboth
  obtain ⟨p, hp, hfields⟩ := List.any_eq_true.mp hany
  obtain ⟨hf, hrefs⟩ := Bool.and_eq_true_iff.mp hfields
  exact ⟨analysis, p, ha, hp, by simpa using hf, eq_of_beq hrefs, eq_of_beq htokens⟩

theorem references_mixedSource {hit : Scan.Hit (List Char × List Char)}
    (h : hit ∈ Scan.findAll Header.template? mixedSource) {literal rest : List Char}
    (ht : Scan.takeTemplate? hit.rest = some (literal, rest)) :
    Legacy.references (Expression.inside literal) = mixedReferences := by
  have hall : (Scan.findAll Header.template? mixedSource).all (fun hit =>
      (Scan.takeTemplate? hit.rest).all fun found =>
        Legacy.references (Expression.inside found.1) == mixedReferences) = true := by
    decide +kernel
  have hone := List.all_eq_true.mp hall hit h
  rw [ht] at hone
  exact eq_of_beq hone

theorem mixedSource_standsWhole : ∃ analysis p, ofSource "A.tsx" .null mixedSource = .ok analysis ∧
    p ∈ analysis.patterns.template ∧ p.failed = false ∧
    ∃ hit ∈ Scan.findAll Header.template? mixedSource, ∃ literal rest,
      Scan.takeTemplate? hit.rest = some (literal, rest) ∧
      TemplatePattern.StandsWhole "theme.main.colors.rustyRed".toList
        (Expression.inside literal) ∧
      ¬TemplatePattern.StandsWhole "theme.fonts.body".toList (Expression.inside literal) := by
  obtain ⟨analysis, p, ha, hp, hf, hrefs, -⟩ := exists_mixedSource
  obtain ⟨hit, hhit, literal, rest, ht, -, hlisted, -⟩ := references_listed_iff ha hp hf
  have hbody := references_mixedSource hhit ht
  rw [hrefs, hbody] at hlisted
  have hred := (hlisted "theme.main.colors" (by decide) "rustyRed" (by decide)).1
  have hfont := (hlisted "theme.fonts" (by decide) "body" (by decide)).1
  refine ⟨analysis, p, ha, hp, hf, hit, hhit, literal, rest, ht, (hred.mp (by decide)).2, ?_⟩
  intro hwhole
  exact absurd (hfont.mpr ⟨List.all_eq_true.mp (by decide), hwhole⟩) (by decide)

/-- Two colours of the former theme are listed and counted as one token, which is neither of them,
and a text style is not listed. -/
theorem mixedSource_merges_references : ∃ analysis p,
    ofSource "A.tsx" .null mixedSource = .ok analysis ∧ p ∈ analysis.patterns.template ∧
    (∃ hit ∈ Scan.findAll Header.template? mixedSource, ∃ literal rest,
      Scan.takeTemplate? hit.rest = some (literal, rest) ∧
      p.source = String.ofList (hit.text ++ literal) ∧
      Legacy.references (Expression.inside literal) = mixedReferences) ∧
    p.themeRefs = mixedTokens ∧
    (Batch.ofAnalyses ["A.tsx"] [analysis] []).tokenUsage =
      mixedTokens.map fun token => (token, 1) := by
  obtain ⟨analysis, p, ha, hp, hf, hrefs, htokens⟩ := exists_mixedSource
  obtain ⟨hit, hhit, literal, rest, ht, hsource, -⟩ := exists_template_of_ofSource ha hp hf
  refine ⟨analysis, p, ha, hp, ⟨hit, hhit, literal, rest, ht, hsource,
    references_mixedSource hhit ht⟩, hrefs, ?_⟩
  show Batch.tokenCounts [analysis] = _
  rw [Batch.tokenCounts, List.flatMap_singleton, htokens]
  decide

end Analysis

end Restyle
