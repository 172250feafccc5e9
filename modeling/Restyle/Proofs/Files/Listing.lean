import Mathlib.Data.List.Sort
import Restyle.Files.Sources
import Restyle.Proofs.Text.Trim

namespace Restyle

namespace Path

variable {name : String}

/-- The names that something in a folder can have. -/
structure IsName (name : String) : Prop where
  ne_empty : name ≠ ""
  noSlash : '/' ∉ name.toList

instance : Decidable (IsName name) :=
  decidable_of_iff (name ≠ "" ∧ '/' ∉ name.toList) ⟨fun h => ⟨h.1, h.2⟩, fun h => ⟨h.1, h.2⟩⟩

/-- The path of a folder without a slash at its end. -/
def stem (folder : String) : List Char :=
  if folder.toList.getLast? = some '/' then folder.toList.dropLast else folder.toList

theorem toList_child (folder name : String) :
    (child folder name).toList = stem folder ++ '/' :: name.toList := by
  by_cases h : folder.toList.getLast? = some '/'
  · obtain ⟨front, hfront⟩ := List.getLast?_eq_some_iff.mp h
    rw [child, stem, if_pos (beq_iff_eq.mpr h), if_pos h, String.toList_append, hfront,
      List.dropLast_concat, List.append_assoc]
    rfl
  · rw [child, stem, if_neg (fun hslash => h (beq_iff_eq.mp hslash)), if_neg h,
      String.toList_append, String.toList_append, List.append_assoc]
    rfl

theorem stem_child (folder : String) (h : IsName name) :
    stem (child folder name) = stem folder ++ '/' :: name.toList := by
  have hname : name.toList ≠ [] := fun hn => h.ne_empty (String.toList_eq_nil_iff.mp hn)
  have hlast : (child folder name).toList.getLast? ≠ some '/' := by
    intro hslash
    rw [toList_child, List.append_cons, List.getLast?_append_of_ne_nil _ hname] at hslash
    exact h.noSlash (List.mem_of_getLast? hslash)
  rw [stem, if_neg hlast, toList_child]

theorem append_stem_child (folder : String) (h : IsName name) (rest : List Char) :
    stem (child folder name) ++ '/' :: rest = stem folder ++ '/' :: (name.toList ++ '/' :: rest) := by
  rw [stem_child folder h, List.append_assoc, List.cons_append]

theorem child_injective (folder : String) : Function.Injective (child folder) := by
  intro name name' h
  have hlists := congrArg String.toList h
  rw [toList_child, toList_child] at hlists
  exact String.toList_inj.mp (List.cons.inj (List.append_cancel_left hlists)).2

/-- An ending without a slash ends a path if it ends the last name. -/
theorem suffix_child_iff {ending : String} (h : '/' ∉ ending.toList) (folder name : String) :
    ending.toList <:+ (child folder name).toList ↔ ending.toList <:+ name.toList := by
  rw [toList_child]
  constructor
  · intro hsuffix
    obtain hin | hover :=
      List.suffix_or_suffix_of_suffix hsuffix (List.suffix_append (stem folder) ('/' :: name.toList))
    · obtain heq | hin := List.suffix_cons_iff.mp hin
      · exact absurd (heq ▸ List.mem_cons_self) h
      · exact hin
    · exact absurd (hover.subset List.mem_cons_self) h
  · intro hsuffix
    exact hsuffix.trans ((List.suffix_cons _ _).trans (List.suffix_append _ _))

/-- The first slash ends the name that a path starts with. -/
theorem eq_of_append_slash {name' : String} (h : IsName name) (h' : IsName name')
    {rest rest' : List Char} (heq : name.toList ++ '/' :: rest = name'.toList ++ '/' :: rest') :
    name = name' := by
  have hfirst : ∀ {text : String} (_ : IsName text) (after : List Char),
      (text.toList ++ '/' :: after).takeWhile (· != '/') = text.toList := by
    intro text htext after
    refine Text.takeWhile_append_of_head (fun c hc => ?_) (fun c hc => ?_)
    · exact bne_iff_ne.mpr (fun hslash => htext.noSlash (hslash ▸ hc))
    · obtain rfl : '/' = c := Option.some.inj hc
      rfl
  rw [← String.toList_inj, ← hfirst h rest, heq, hfirst h' rest']

end Path

/-- What a file is called that has one of some endings and holds no type declarations. -/
def Matches (endings : List String) (name : String) : Prop :=
  (∃ ending ∈ endings, ending.toList <:+ name.toList) ∧ ¬ ".d.ts".toList <:+ name.toList

theorem hasEnding_iff {endings : List String} {name : String} :
    hasEnding endings name = true ↔ ∃ ending ∈ endings, ending.toList <:+ name.toList := by
  simp only [hasEnding, List.any_eq_true, List.isSuffixOf_iff_suffix]

theorem isSource_iff {endings : List String} {name : String} :
    isSource endings name = true ↔ Matches endings name := by
  simp only [isSource, Bool.and_eq_true, Bool.not_eq_true', ← Bool.not_eq_true, hasEnding_iff,
    List.mem_singleton, exists_eq_left, Matches]

namespace Tree

variable {α : Type} {tree : Tree α} {entries : List (String × Tree α)} {endings skipped : List String}
  {path : String} {found : List String}

/-- The trees that folders can hold: what is in one folder has different names. -/
inductive IsProper : Tree α → Prop
  | file (content : α) : IsProper (.file content)
  | folder {entries : List (String × Tree α)} (hnodup : (entries.map (·.1)).Nodup)
      (hname : ∀ e ∈ entries, Path.IsName e.1) (hentry : ∀ e ∈ entries, IsProper e.2) :
      IsProper (.folder entries)

/-- Whether an entry's name comes before that of another one. -/
def Before (e e' : String × Tree α) : Prop := e.1 < e'.1

instance : Std.Irrefl (Before (α := α)) := ⟨fun e => String.lt_irrefl e.1⟩

instance : Std.Antisymm (Before (α := α)) := ⟨fun _ _ h h' => absurd h' (String.lt_asymm h)⟩

/-- `Lists endings skipped path tree found`: the matching files of the folder `tree` at `path` are
`found`, its own ones by name and then those of its subfolders, the subfolders by name too. -/
inductive Lists (endings skipped : List String) : String → Tree α → List String → Prop
  | folder {path : String} {entries : List (String × Tree α)} {files : List String}
      {folders : List (String × Tree α)} {below : String × Tree α → List String}
      (hfile : ∀ name, name ∈ files ↔
        (∃ content, (name, .file content) ∈ entries) ∧ Matches endings name)
      (hfiles : files.Pairwise (· < ·))
      (hfolder : ∀ e, e ∈ folders ↔ e ∈ entries ∧ e.2.isFolder = true ∧ e.1 ∉ skipped)
      (hfolders : folders.Pairwise Before)
      (hbelow : ∀ e ∈ folders, Lists endings skipped (Path.child path e.1) e.2 (below e)) :
      Lists endings skipped path (.folder entries)
        (files.map (Path.child path) ++ folders.flatMap below)

theorem Lists.unique {found' : List String} (h : Lists endings skipped path tree found)
    (h' : Lists endings skipped path tree found') : found = found' := by
  induction h generalizing found' with
  | @folder path entries files folders below hfile hfiles hfolder hfolders hbelow ih =>
    cases h' with
    | @folder _ _ files' folders' below' hfile' hfiles' hfolder' hfolders' hbelow' =>
      obtain rfl : files = files' :=
        hfiles.eq_of_mem_iff hfiles' fun name => (hfile name).trans (hfile' name).symm
      obtain rfl : folders = folders' :=
        hfolders.eq_of_mem_iff hfolders' fun e => (hfolder e).trans (hfolder' e).symm
      have hsame : ∀ e ∈ folders, below e = below' e := fun e he => ih e he (hbelow' e he)
      rw [List.flatMap_congr hsame]

/-- A statement about all trees, from one about the entries of a folder. -/
theorem induction_entries {motive : Tree α → Prop} (file : ∀ content, motive (.file content))
    (folder : ∀ entries, (∀ e ∈ entries, motive e.2) → motive (.folder entries)) :
    ∀ tree, motive tree
  | .file content => file content
  | .folder entries => folder entries fun e _ => induction_entries file folder e.2
termination_by tree => sizeOf tree
decreasing_by
  have hlt := List.sizeOf_lt_of_mem ‹e ∈ entries›
  cases e
  simp only [Prod.mk.sizeOf_spec, Tree.folder.sizeOf_spec] at hlt ⊢
  omega

/-- The entries of a folder in the order of their names. -/
def byName (entries : List (String × Tree α)) : List (String × Tree α) :=
  entries.mergeSort fun e e' => e.1 ≤ e'.1

theorem mem_byName {e : String × Tree α} : e ∈ byName entries ↔ e ∈ entries :=
  List.mem_mergeSort

theorem pairwise_byName (h : (entries.map (·.1)).Nodup) :
    (byName entries).Pairwise Before := by
  have hle : (byName entries).Pairwise fun e e' => decide (e.1 ≤ e'.1) = true := by
    refine List.pairwise_mergeSort (fun a b c hab hbc => ?_) (fun a b => ?_) entries
    · exact decide_eq_true (String.le_trans (of_decide_eq_true hab) (of_decide_eq_true hbc))
    · rw [← Bool.decide_or]
      exact decide_eq_true (String.le_total a.1 b.1)
  have hperm : ((byName entries).map (·.1)).Perm (entries.map (·.1)) :=
    (List.mergeSort_perm entries _).map _
  have hne : (byName entries).Pairwise fun e e' => e.1 ≠ e'.1 :=
    List.pairwise_map.mp (hperm.nodup_iff.mpr h)
  refine (hle.and hne).imp fun {e e'} h => ?_
  exact String.not_le.mp fun hge => h.2 (String.le_antisymm (of_decide_eq_true h.1) hge)

theorem entrySources_eq_map (path : String) (entries : List (String × Tree α)) :
    entrySources endings skipped path entries = entries.map fun e =>
      ⟨e.1, e.2.isFolder, sources endings skipped (Path.child path e.1) e.1 e.2⟩ := by
  induction entries with
  | nil => rfl
  | cons e entries ih => rw [entrySources, ih, List.map_cons]

/-- The names of the files among the entries that match. -/
def ownFiles (endings : List String) (entries : List (String × Tree α)) : List String :=
  (entries.filter fun e => !e.2.isFolder && isSource endings e.1).map (·.1)

/-- The subfolders among the entries that are not passed over. -/
def subfolders (skipped : List String) (entries : List (String × Tree α)) :
    List (String × Tree α) :=
  entries.filter fun e => e.2.isFolder && !skipped.contains e.1

theorem ownFiles_cons_file (name : String) (content : α) (entries : List (String × Tree α)) :
    ownFiles endings ((name, .file content) :: entries) =
      (if isSource endings name then [name] else []) ++ ownFiles endings entries := by
  cases h : isSource endings name
  · simp [ownFiles, isFolder, h]
  · simp [ownFiles, isFolder, h]

theorem flatMap_sources_eq_map (path : String) (entries : List (String × Tree α)) :
    ((entries.filter fun e => !e.2.isFolder).flatMap fun e =>
      sources endings skipped (Path.child path e.1) e.1 e.2) =
      (ownFiles endings entries).map (Path.child path) := by
  induction entries with
  | nil => rfl
  | cons e entries ih =>
    obtain ⟨name, content | inner⟩ := e
    · rw [List.filter_cons_of_pos rfl, List.flatMap_cons, ih, ownFiles_cons_file, List.map_append,
        sources]
      split <;> rfl
    · rw [List.filter_cons_of_neg Bool.false_ne_true, ih]
      rfl

theorem sources_folder (path name : String) (entries : List (String × Tree α)) :
    sources endings skipped path name (.folder entries) =
      (ownFiles endings (byName entries)).map (Path.child path) ++
        (subfolders skipped (byName entries)).flatMap fun e =>
          sources endings skipped (Path.child path e.1) e.1 e.2 := by
  have hsort := List.map_mergeSort (l := entries) (r := fun e e' => decide (e.1 ≤ e'.1))
    (s := fun a b : EntrySources => decide (a.name ≤ b.name))
    (f := fun e => ⟨e.1, e.2.isFolder, sources endings skipped (Path.child path e.1) e.1 e.2⟩)
    (fun _ _ _ _ => rfl)
  rw [sources, gatherSources, entrySources_eq_map, ← hsort, List.filter_map, List.filter_map,
    List.flatMap_map, List.flatMap_map]
  exact congrArg (· ++ _) (flatMap_sources_eq_map path (byName entries))

theorem mem_ownFiles {name : String} : name ∈ ownFiles endings entries ↔
    (∃ content, (name, .file content) ∈ entries) ∧ Matches endings name := by
  simp only [ownFiles, List.mem_map, List.mem_filter, Bool.and_eq_true, Bool.not_eq_true',
    isSource_iff]
  constructor
  · rintro ⟨⟨_, content | inner⟩, ⟨hmem, hfile, hmatch⟩, rfl⟩
    · exact ⟨⟨content, hmem⟩, hmatch⟩
    · exact Bool.noConfusion hfile
  · rintro ⟨⟨content, hmem⟩, hmatch⟩
    exact ⟨(name, .file content), ⟨hmem, rfl, hmatch⟩, rfl⟩

theorem mem_subfolders {e : String × Tree α} : e ∈ subfolders skipped entries ↔
    e ∈ entries ∧ e.2.isFolder = true ∧ e.1 ∉ skipped := by
  simp only [subfolders, List.mem_filter, Bool.and_eq_true, Bool.not_eq_true',
    ← Bool.not_eq_true, List.contains_iff_mem]

theorem lists_sources (h : tree.IsProper) (hfolder : tree.isFolder = true) (path name : String) :
    Lists endings skipped path tree (tree.sources endings skipped path name) := by
  induction tree using induction_entries generalizing path name with
  | file content => exact Bool.noConfusion hfolder
  | folder entries ih =>
    obtain _ | ⟨hnodup, -, hentry⟩ := h
    have hsorted := pairwise_byName hnodup
    rw [sources_folder]
    refine .folder (fun name => ?_) ?_ (fun e => ?_) (hsorted.filter _) (fun e he => ?_)
    · simp only [mem_ownFiles, mem_byName]
    · exact List.pairwise_map.mpr (hsorted.filter _)
    · rw [mem_subfolders, mem_byName]
    · obtain ⟨hmem, hinner, -⟩ := mem_subfolders.mp he
      have hmem := mem_byName.mp hmem
      exact ih e hmem (hentry e hmem) hinner _ _

theorem Lists.exists_stem (h : Lists endings skipped path tree found) (hproper : tree.IsProper)
    {file : String} (hfile : file ∈ found) :
    ∃ rest, file.toList = Path.stem path ++ '/' :: rest := by
  induction h with
  | @folder path entries files folders below _ _ hfolder _ _ ih =>
    obtain _ | ⟨-, hname, hentry⟩ := hproper
    obtain hown | hin := List.mem_append.mp hfile
    · obtain ⟨name, -, rfl⟩ := List.mem_map.mp hown
      exact ⟨name.toList, Path.toList_child path name⟩
    · obtain ⟨e, he, hin⟩ := List.mem_flatMap.mp hin
      have hmem := ((hfolder e).mp he).1
      obtain ⟨rest, hrest⟩ := ih e he (hentry e hmem) hin
      exact ⟨e.1.toList ++ '/' :: rest,
        hrest.trans (Path.append_stem_child path (hname e hmem) rest)⟩

theorem Lists.nodup (h : Lists endings skipped path tree found) (hproper : tree.IsProper) :
    found.Nodup := by
  induction h with
  | @folder path entries files folders below hfile hfiles hfolder hfolders hbelow ih =>
    obtain _ | ⟨-, hname, hentry⟩ := hproper
    have hstart : ∀ e ∈ folders, ∀ file ∈ below e,
        ∃ rest, file.toList = Path.stem path ++ '/' :: (e.1.toList ++ '/' :: rest) := by
      intro e he file hin
      have hmem := ((hfolder e).mp he).1
      obtain ⟨rest, hrest⟩ := (hbelow e he).exists_stem (hentry e hmem) hin
      exact ⟨rest, hrest.trans (Path.append_stem_child path (hname e hmem) rest)⟩
    -- After the folder's path, one of its own files has no slash, and what is in a subfolder has
    -- the first one after the subfolder's name.
    refine List.nodup_append'.mpr ⟨?_, List.nodup_flatMap.mpr ⟨?_, ?_⟩, ?_⟩
    · exact hfiles.nodup.map (Path.child_injective path)
    · exact fun e he => ih e he (hentry e ((hfolder e).mp he).1)
    · refine hfolders.imp_of_mem fun {e e'} he he' hlt file hin hin' => ?_
      obtain ⟨rest, hrest⟩ := hstart e he file hin
      obtain ⟨rest', hrest'⟩ := hstart e' he' file hin'
      have heq := (List.cons.inj (List.append_cancel_left (hrest.symm.trans hrest'))).2
      have hnames := Path.eq_of_append_slash (hname e ((hfolder e).mp he).1)
        (hname e' ((hfolder e').mp he').1) heq
      rw [Before, hnames] at hlt
      exact String.lt_irrefl e'.1 hlt
    · intro file hown hin
      obtain ⟨name, hmem, rfl⟩ := List.mem_map.mp hown
      obtain ⟨e, he, hin⟩ := List.mem_flatMap.mp hin
      obtain ⟨rest, hrest⟩ := hstart e he _ hin
      rw [Path.toList_child] at hrest
      have heq := (List.cons.inj (List.append_cancel_left hrest)).2
      obtain ⟨⟨content, hentry⟩, -⟩ := (hfile name).mp hmem
      refine (hname _ hentry).noSlash ?_
      rw [heq]
      exact List.mem_append_right _ List.mem_cons_self

theorem Lists.filter {ending : String} (hending : ending ∈ endings) (hslash : '/' ∉ ending.toList)
    (h : Lists endings skipped path tree found) :
    Lists [ending] skipped path tree (found.filter (hasEnding [ending])) := by
  induction h with
  | @folder path entries files folders below hfile hfiles hfolder hfolders hbelow ih =>
    have hchild : hasEnding [ending] ∘ Path.child path = hasEnding [ending] := by
      funext name
      rw [Function.comp_apply, Bool.eq_iff_iff]
      simp only [hasEnding_iff, List.mem_singleton, exists_eq_left,
        Path.suffix_child_iff hslash path name]
    rw [List.filter_append, List.filter_map, hchild, List.filter_flatMap]
    refine .folder (fun name => ?_) (hfiles.filter _) hfolder hfolders ih
    rw [List.mem_filter, hfile, hasEnding_iff, and_assoc]
    refine and_congr_right fun _ => ⟨fun h => ⟨h.2, h.1.2⟩, fun h => ⟨⟨?_, h.2⟩, h.1⟩⟩
    obtain ⟨_, hsingle, hsuffix⟩ := h.1
    exact ⟨ending, hending, List.mem_singleton.mp hsingle ▸ hsuffix⟩

theorem Lists.exists_ending (h : Lists endings skipped path tree found) {file : String}
    (hfile : file ∈ found) : ∃ ending ∈ endings, ending.toList <:+ file.toList := by
  induction h with
  | @folder path entries files folders below hname _ _ _ _ ih =>
    obtain hown | hin := List.mem_append.mp hfile
    · obtain ⟨name, hmem, rfl⟩ := List.mem_map.mp hown
      obtain ⟨ending, hending, hsuffix⟩ := ((hname name).mp hmem).2.1
      refine ⟨ending, hending, hsuffix.trans ?_⟩
      rw [Path.toList_child]
      exact (List.suffix_cons _ _).trans (List.suffix_append _ _)
    · obtain ⟨e, he, hin⟩ := List.mem_flatMap.mp hin
      exact ih e he hin

/-- Texts of which none is an ending of another one. -/
def Exclusive (endings : List String) : Prop :=
  endings.Pairwise fun a b => ¬ a.toList <:+ b.toList ∧ ¬ b.toList <:+ a.toList

theorem disjoint_filter_of_exclusive {endings : List String} (h : Exclusive endings)
    (found : List String) :
    endings.Pairwise fun a b =>
      (found.filter (hasEnding [a])).Disjoint (found.filter (hasEnding [b])) := by
  refine h.imp fun {a b} hab file hin hin' => ?_
  simp only [List.mem_filter, hasEnding_iff, List.mem_singleton, exists_eq_left] at hin hin'
  exact (List.suffix_or_suffix_of_suffix hin.2 hin'.2).elim hab.1 hab.2

theorem Lists.perm_flatMap_filter (h : Lists endings skipped path tree found)
    (hproper : tree.IsProper) (hendings : Exclusive endings) :
    found.Perm (endings.flatMap fun ending => found.filter (hasEnding [ending])) := by
  have hnodup := h.nodup hproper
  have hsplit : (endings.flatMap fun ending => found.filter (hasEnding [ending])).Nodup :=
    List.nodup_flatMap.mpr
      ⟨fun _ _ => hnodup.filter _, disjoint_filter_of_exclusive hendings found⟩
  refine (List.perm_ext_iff_of_nodup hnodup hsplit).mpr fun file => ?_
  simp only [List.mem_flatMap, List.mem_filter, hasEnding_iff, List.mem_singleton, exists_eq_left]
  constructor
  · intro hfile
    obtain ⟨ending, hending, hsuffix⟩ := h.exists_ending hfile
    exact ⟨ending, hending, hfile, hsuffix⟩
  · rintro ⟨-, -, hfile, -⟩
    exact hfile

end Tree

variable {α : Type}

/-- The folders that are passed over if some are named or none. -/
def skippedNames (skipped : Option (List String)) : List String :=
  skipped.getD defaultSkippedFolders

def skipSetting (skipped : Option (List String)) : Json :=
  (skipped.map Json.texts).getD .null

theorem skippedFolders_skipSetting (skipped : Option (List String)) :
    skippedFolders (skipSetting skipped) = .ok (skippedNames skipped) := by
  cases skipped with
  | none => rfl
  | some names =>
    have hatoms : (names.map Json.text).all isAtom = true := by
      simp only [List.all_map, List.all_eq_true, Function.comp_apply]
      exact fun _ _ => rfl
    have htexts : (names.map Json.text).filterMap Json.text? = names := by
      rw [List.filterMap_map]
      exact List.filterMap_some
    show (if _ then _ else _) = _
    rw [if_pos hatoms, htexts]
    rfl

/-- The files found and as many of the others as the limit leaves room for. -/
theorem takeFiles_append (limit : Int) (found files : List String) :
    takeFiles (.whole limit) found files =
      .ok (found ++ files.take (limit - found.length).toNat) := by
  induction files generalizing found with
  | nil => simp [takeFiles]
  | cons file files ih =>
    have hstep : takeFiles (.whole limit) found (file :: files) =
        if limit ≤ found.length then .ok found
        else takeFiles (.whole limit) (found ++ [file]) files := by
      rw [takeFiles, reaches]
      simp [bind, Except.bind]
    rw [hstep]
    split
    next hfull =>
      have hroom : (limit - found.length).toNat = 0 := by omega
      rw [hroom, List.take_zero, List.append_nil]
    next hfull =>
      have hroom : (limit - found.length).toNat = (limit - (found ++ [file]).length).toNat + 1 := by
        rw [List.length_append, List.length_singleton]
        omega
      rw [ih, hroom, List.take_succ_cons, List.append_assoc, List.singleton_append]

theorem takeFiles_whole (limit : Int) (files : List String) :
    takeFiles (.whole limit) [] files = .ok (files.take (max limit 0).toNat) := by
  have hroom : (limit - ([] : List String).length).toNat = (max limit 0).toNat := by
    rw [List.length_nil]
    omega
  rw [takeFiles_append, hroom, List.nil_append]

/-- The file patterns that stand for one ending. -/
def singlePatterns : List String := ["**/*.tsx", "**/*.ts", "**/*.jsx", "**/*.js"]

/-- The files of a folder that each file pattern finds if there is no limit. -/
structure IsTraversal (directory : String) (skipped : Option (List String))
    (entries : List (String × Tree α)) (found : String → List String) : Prop where
  lists_iff : ∀ {pattern endings}, (pattern, endings) ∈ filePatterns → ∀ list,
    Tree.Lists endings (skippedNames skipped) (Path.normal directory) (.folder entries) list ↔
      list = found pattern
  cut : ∀ {pattern endings}, (pattern, endings) ∈ filePatterns → ∀ limit : Int,
    findSources directory (.text pattern) (.whole limit) (skipSetting skipped)
      (.ok (some (.folder entries))) = .ok ((found pattern).take (max limit 0).toNat)
  nodup : (found "**/*").Nodup
  perm : (found "**/*").Perm (singlePatterns.flatMap found)
  disjoint : singlePatterns.Pairwise fun a b => (found a).Disjoint (found b)

/-- The files that a file pattern finds. -/
def foundBy (directory : String) (skipped : Option (List String)) (entries : List (String × Tree α))
    (pattern : String) : List String :=
  (Tree.folder entries).sources ((filePatterns.lookup pattern).getD []) (skippedNames skipped)
    (Path.normal directory) ""

theorem lookup_filePatterns {pattern : String} {endings : List String}
    (h : (pattern, endings) ∈ filePatterns) : filePatterns.lookup pattern = some endings := by
  have hall : ∀ p ∈ filePatterns, filePatterns.lookup p.1 = some p.2 := by decide
  exact hall _ h

theorem findSources_eq_take {pattern : String} {endings : List String}
    (h : (pattern, endings) ∈ filePatterns) (directory : String) (skipped : Option (List String))
    (entries : List (String × Tree α)) (limit : Int) :
    findSources directory (.text pattern) (.whole limit) (skipSetting skipped)
      (.ok (some (.folder entries))) =
        .ok ((foundBy directory skipped entries pattern).take (max limit 0).toNat) := by
  have hendings : endingsOf (.text pattern) = .ok endings := by
    simp only [endingsOf, isAtom, if_true, Json.text?, Option.bind_some, lookup_filePatterns h]
  rw [← takeFiles_whole, foundBy, lookup_filePatterns h, findSources, hendings]
  show (skippedFolders (skipSetting skipped) >>= _) = _
  rw [skippedFolders_skipSetting]
  rfl

section Traversal

variable {entries : List (String × Tree α)} {pattern : String} {endings : List String}

theorem lists_foundBy (hproper : (Tree.folder entries).IsProper)
    (h : (pattern, endings) ∈ filePatterns) (directory : String) (skipped : Option (List String)) :
    Tree.Lists endings (skippedNames skipped) (Path.normal directory) (.folder entries)
      (foundBy directory skipped entries pattern) := by
  rw [foundBy, lookup_filePatterns h]
  exact Tree.lists_sources hproper rfl _ _

theorem foundBy_single (hproper : (Tree.folder entries).IsProper) (directory : String)
    (skipped : Option (List String)) {ending : String} (h : ending ∈ sourceEndings) :
    foundBy directory skipped entries ("**/*" ++ ending) =
      (foundBy directory skipped entries "**/*").filter (hasEnding [ending]) := by
  have hsingle : ∀ ending ∈ sourceEndings,
      ("**/*" ++ ending, [ending]) ∈ filePatterns ∧ '/' ∉ ending.toList := by decide
  obtain ⟨hpattern, hslash⟩ := hsingle ending h
  have hall : ("**/*", sourceEndings) ∈ filePatterns := by decide
  exact (lists_foundBy hproper hpattern directory skipped).unique
    ((lists_foundBy hproper hall directory skipped).filter h hslash)

theorem findSources_cuts_traversal (hproper : (Tree.folder entries).IsProper) (directory : String)
    (skipped : Option (List String)) : ∃ found, IsTraversal directory skipped entries found := by
  have hall : ("**/*", sourceEndings) ∈ filePatterns := by decide
  have hlists := lists_foundBy hproper hall directory skipped
  have hexclusive : Tree.Exclusive sourceEndings := by
    unfold Tree.Exclusive
    decide
  have hsingle : singlePatterns = sourceEndings.map ("**/*" ++ ·) := by decide
  refine ⟨foundBy directory skipped entries, fun h list => ⟨fun hlist => ?_, fun heq => ?_⟩,
    fun h limit => findSources_eq_take h directory skipped entries limit, hlists.nodup hproper,
    ?_, ?_⟩
  · exact hlist.unique (lists_foundBy hproper h directory skipped)
  · exact heq ▸ lists_foundBy hproper h directory skipped
  · rw [hsingle, List.flatMap_map,
      List.flatMap_congr fun ending h => foundBy_single hproper directory skipped h]
    exact hlists.perm_flatMap_filter hproper hexclusive
  · have hdisjoint :=
      Tree.disjoint_filter_of_exclusive hexclusive (foundBy directory skipped entries "**/*")
    rw [hsingle, List.pairwise_map]
    refine hdisjoint.imp_of_mem fun ha hb h => ?_
    rw [foundBy_single hproper directory skipped ha, foundBy_single hproper directory skipped hb]
    exact h

end Traversal

def libraryEntries : List (String × Tree Unit) := [("c.js", .file ()), ("d.ts", .file ())]

/-- A folder with type declarations, a folder that is passed over, and a file that comes after the
folders by its name. -/
def mixedEntries : List (String × Tree Unit) := [
  ("a.tsx", .file ()), ("b.d.ts", .file ()), ("dist", .folder [("x.ts", .file ())]),
  ("lib", .folder libraryEntries), ("z.ts", .file ())]

theorem isProper_of_files {entries : List (String × Tree Unit)}
    (hnodup : (entries.map (·.1)).Nodup) (hname : ∀ e ∈ entries, Path.IsName e.1)
    (hfile : ∀ e ∈ entries, e.2.isFolder = false) : (Tree.folder entries).IsProper := by
  refine .folder hnodup hname fun e he => ?_
  obtain ⟨name, content | inner⟩ := e
  · exact .file content
  · exact Bool.noConfusion (hfile _ he)

theorem isProper_mixedEntries : (Tree.folder mixedEntries).IsProper := by
  refine .folder (by decide) (by decide) fun e he => ?_
  simp only [mixedEntries, List.mem_cons, List.not_mem_nil, or_false] at he
  obtain rfl | rfl | rfl | rfl | rfl := he
  · exact .file ()
  · exact .file ()
  · exact isProper_of_files (by decide) (by decide) (by decide)
  · exact isProper_of_files (by decide) (by decide) (by decide)
  · exact .file ()

theorem sources_mixedEntries :
    (Tree.folder mixedEntries).sources sourceEndings defaultSkippedFolders "src" "" =
      ["src/a.tsx", "src/z.ts", "src/lib/c.js", "src/lib/d.ts"] := by
  have hlibrary : (Tree.folder libraryEntries).sources sourceEndings defaultSkippedFolders
      "src/lib" "lib" = ["src/lib/c.js", "src/lib/d.ts"] := by
    rw [Tree.sources_folder, Tree.byName, List.mergeSort_of_pairwise (by decide)]
    decide +kernel
  have hfolders : Tree.subfolders defaultSkippedFolders mixedEntries =
      [("lib", .folder libraryEntries)] := rfl
  have hfiles : Tree.ownFiles sourceEndings mixedEntries = ["a.tsx", "z.ts"] := by decide +kernel
  rw [Tree.sources_folder, Tree.byName, List.mergeSort_of_pairwise (by decide), hfolders, hfiles]
  exact congrArg (["src/a.tsx", "src/z.ts"] ++ · ++ []) hlibrary

theorem mixedEntries_cut_traversal :
    (Tree.folder mixedEntries).IsProper ∧
    ∃ found, IsTraversal "src" none mixedEntries found ∧
      found "**/*" = ["src/a.tsx", "src/z.ts", "src/lib/c.js", "src/lib/d.ts"] ∧
      findSources "src" (.text "**/*") (.whole 3) .null (.ok (some (.folder mixedEntries))) =
        .ok ["src/a.tsx", "src/z.ts", "src/lib/c.js"] := by
  obtain ⟨found, hfound⟩ := findSources_cuts_traversal isProper_mixedEntries "src" none
  have hall : ("**/*", sourceEndings) ∈ filePatterns := by decide
  have hlists : Tree.Lists sourceEndings defaultSkippedFolders "src" (.folder mixedEntries)
      ["src/a.tsx", "src/z.ts", "src/lib/c.js", "src/lib/d.ts"] :=
    sources_mixedEntries ▸ Tree.lists_sources isProper_mixedEntries rfl "src" ""
  have hlist := ((hfound.lists_iff hall _).mp hlists).symm
  refine ⟨isProper_mixedEntries, found, hfound, hlist, ?_⟩
  have hcut := hfound.cut hall 3
  rw [hlist] at hcut
  exact hcut

end Restyle
