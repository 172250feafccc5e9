import Restyle.Proofs.Absorption
import Restyle.Proofs.Conversion.Account
import Restyle.Proofs.Conversion.Obstacle

namespace Restyle

namespace Pattern

/-- Whether a pattern has to be moved over by hand. -/
def isManual (p : Pattern) : Bool := !p.isAutoConvertible && !p.isAssisted

theorem isAssisted_of_isAutoConvertible {p : Pattern} (h : p.isAutoConvertible = true) :
    p.isAssisted = false := by
  cases p with
  | template p => rfl
  | inline p => rfl
  | declarative p =>
    have hvariants : p.variants.isEmpty = true := (Bool.and_eq_true_iff.mp h).2
    simp [isAssisted, hvariants]

/-- There are three ways to move a pattern over, and each pattern has one of them. -/
theorem length_eq_countP (patterns : List Pattern) :
    patterns.length = patterns.countP (·.isAutoConvertible) + patterns.countP (·.isAssisted) +
      patterns.countP (·.isManual) := by
  induction patterns with
  | nil => rfl
  | cons p patterns ih =>
    have hone : 1 = (if p.isAutoConvertible then 1 else 0) + (if p.isAssisted then 1 else 0) +
        (if p.isManual then 1 else 0) := by
      cases ha : p.isAutoConvertible with
      | true => simp [isManual, ha, isAssisted_of_isAutoConvertible ha]
      | false => cases hs : p.isAssisted <;> simp [isManual, ha, hs]
    simp only [List.length_cons, List.countP_cons]
    omega

end Pattern

/-- The number by subtraction is that of the patterns left for the hand. -/
theorem Summary.manual_ofPatterns (patterns : List Pattern) :
    (ofPatterns patterns).manual = patterns.countP (·.isManual) := by
  have hlength := Pattern.length_eq_countP patterns
  show (patterns.length : Int) - patterns.countP (·.isAutoConvertible) -
    patterns.countP (·.isAssisted) = patterns.countP (·.isManual)
  omega

/-- That the summary of an analysis is that of its patterns, and its tokens are listed once. -/
structure Analysis.IsSound (a : Analysis) : Prop where
  summary : a.summary = .ofPatterns a.patterns.all
  nodup : a.tokens.Nodup

theorem Analysis.ofSource_eq_ok {file : String} {tags : Json} {source : List Char} {a : Analysis}
    (h : ofSource file tags source = .ok a) : a.file = file ∧ a.IsSound := by
  obtain ⟨patterns, _, ha⟩ := bind_eq_ok h
  cases ha
  exact ⟨rfl, rfl, nodup_eraseDups _⟩

namespace Batch

theorem isFull_ofPatterns (patterns : List Pattern) :
    isFull (.ofPatterns patterns) =
      (!patterns.isEmpty && patterns.all (·.isAutoConvertible)) := by
  rw [Bool.eq_iff_iff]
  simp [isFull, Summary.ofPatterns, List.countP_eq_length, List.length_pos_iff]

theorem isPartly_ofPatterns (patterns : List Pattern) :
    isPartly (.ofPatterns patterns) =
      (patterns.any (·.isAutoConvertible) && patterns.any (!·.isAutoConvertible)) := by
  rw [Bool.eq_iff_iff]
  simp [isPartly, Summary.ofPatterns, List.countP_eq_length, List.countP_pos_iff]

theorem isManual_ofPatterns (patterns : List Pattern) :
    isManual (.ofPatterns patterns) =
      (!patterns.isEmpty && patterns.all (!·.isAutoConvertible)) := by
  rw [Bool.eq_iff_iff]
  simp [isManual, Summary.ofPatterns, List.countP_eq_zero, List.length_pos_iff]

/-- A file with patterns is counted under one of the three, and any other under none. -/
theorem countP_add_countP {analyses : List Analysis} (h : ∀ a ∈ analyses, a.IsSound) :
    analyses.countP (isFull ·.summary) + analyses.countP (isPartly ·.summary) +
        analyses.countP (isManual ·.summary) =
      analyses.countP (!·.patterns.all.isEmpty) := by
  induction analyses with
  | nil => rfl
  | cons a analyses ih =>
    have hrest := ih fun b hb => h b (List.mem_cons_of_mem a hb)
    have hone : (if isFull a.summary then 1 else 0) + (if isPartly a.summary then 1 else 0) +
        (if isManual a.summary then 1 else 0) = if !a.patterns.all.isEmpty then 1 else 0 := by
      rw [(h a List.mem_cons_self).summary, isFull_ofPatterns, isPartly_ofPatterns,
        isManual_ofPatterns]
      cases a.patterns.all with
      | nil => rfl
      | cons p patterns =>
        cases hp : p.isAutoConvertible with
        | true => cases hall : patterns.all (·.isAutoConvertible) <;> grind
        | false => cases hall : patterns.all (!·.isAutoConvertible) <;> grind
    simp only [List.countP_cons]
    omega

theorem complexCase?_of_isSound {a : Analysis} (h : a.IsSound) :
    complexCase? a =
      if a.patterns.all.any (·.isManual) then some ⟨a.file, "; ".intercalate (reasons a)⟩
      else none := by
  have hiff : 0 < a.summary.manual ↔ a.patterns.all.any (·.isManual) = true := by
    rw [h.summary, Summary.manual_ofPatterns, Int.natCast_pos, List.countP_pos_iff, List.any_eq_true]
  simp only [complexCase?, hiff]

/-- What has to be moved over by hand has an obstacle, and so the file has a reason. -/
theorem reason_ne_empty {a : Analysis} (h : a.patterns.all.any (·.isManual) = true) :
    "; ".intercalate (reasons a) ≠ "" := by
  obtain ⟨p, hp, hm⟩ := List.any_eq_true.mp h
  have hworded : ∀ reason ∈ reasons a, reason ≠ "" := by
    intro reason hr
    obtain ⟨q, _, hq⟩ := List.mem_flatMap.mp (List.mem_eraseDups.mp hr)
    obtain ⟨o, ho, rfl⟩ := List.mem_map.mp hq
    exact q.areWorded_obstacles o ho
  have hsome : reasons a ≠ [] := by
    intro hnone
    have hobstacles : p.obstacles ≠ [] := by
      rw [Ne, p.obstacles_eq_nil_iff]
      simpa using (Bool.and_eq_true_iff.mp hm).1
    have hempty := List.flatMap_eq_nil_iff.mp (eraseDups_eq_nil_iff.mp hnone) p
      (List.mem_filter.mpr ⟨hp, hm⟩)
    exact hobstacles (List.map_eq_nil_iff.mp hempty)
  exact intercalate_ne_empty hsome hworded

theorem map_file_filterMap {analyses : List Analysis} (h : ∀ a ∈ analyses, a.IsSound) :
    (analyses.filterMap complexCase?).map (·.file) =
      (analyses.filter (·.patterns.all.any (·.isManual))).map (·.file) := by
  induction analyses with
  | nil => rfl
  | cons a analyses ih =>
    have hrest := ih fun b hb => h b (List.mem_cons_of_mem a hb)
    rw [List.filterMap_cons, List.filter_cons, complexCase?_of_isSound (h a List.mem_cons_self)]
    cases a.patterns.all.any (·.isManual) with
    | true => exact congrArg (a.file :: ·) hrest
    | false => exact hrest

theorem reason_ne_of_mem {analyses : List Analysis} (h : ∀ a ∈ analyses, a.IsSound)
    {c : ComplexCase} (hc : c ∈ analyses.filterMap complexCase?) : c.reason ≠ "" := by
  obtain ⟨a, ha, hcase⟩ := List.mem_filterMap.mp hc
  rw [complexCase?_of_isSound (h a ha)] at hcase
  split at hcase
  next hm =>
    cases hcase
    exact reason_ne_empty hm
  next => cases hcase

/-- The names under which the kinds of patterns are counted. -/
def kindNames : List (String × String) := [
  ("styledComponents", "styled-component"), ("tamaguiStyled", "tamagui"), ("uiCoreProps", "ui-core")]

/-- In how many files a kind of pattern occurs among all patterns, and how often. -/
def statsOfKind (analyses : List Analysis) (kind : String) : PatternStats where
  files := analyses.countP fun a => a.patterns.all.any (·.kind == kind)
  occurrences := (analyses.map fun a => a.patterns.all.countP (·.kind == kind)).sum

theorem statsOf_map_countP (analyses : List Analysis) (kind : String) :
    statsOf (analyses.map fun a => a.patterns.all.countP (·.kind == kind)) =
      statsOfKind analyses kind := by
  have hany : ∀ patterns : List Pattern,
      decide (0 < patterns.countP (·.kind == kind)) = patterns.any (·.kind == kind) := by
    intro patterns
    rw [Bool.eq_iff_iff, decide_eq_true_eq, List.countP_pos_iff, List.any_eq_true]
  rw [statsOf, statsOfKind, List.countP_map, ← List.sum_eq_foldl]
  simp only [Function.comp_def, hany]

theorem byPattern_ofAnalyses (files : List String) (analyses : List Analysis)
    (skipped : List String) :
    (ofAnalyses files analyses skipped).byPattern =
      kindNames.map fun (name, kind) => (name, statsOfKind analyses kind) := by
  have htemplate : ∀ patterns : SourcePatterns,
      patterns.all.countP (·.kind == "styled-component") = patterns.template.length := by
    simp [SourcePatterns.all, Function.comp_def, Pattern.kind]
  have hdeclarative : ∀ patterns : SourcePatterns,
      patterns.all.countP (·.kind == "tamagui") = patterns.declarative.length := by
    simp [SourcePatterns.all, Function.comp_def, Pattern.kind]
  have hinline : ∀ patterns : SourcePatterns,
      patterns.all.countP (·.kind == "ui-core") = patterns.inline.length := by
    simp [SourcePatterns.all, Function.comp_def, Pattern.kind]
  simp only [ofAnalyses, kindNames, List.map_cons, List.map_nil, ← statsOf_map_countP, htemplate,
    hdeclarative, hinline]

theorem count_flatMap_tokens {analyses : List Analysis} (h : ∀ a ∈ analyses, a.IsSound)
    (token : String) :
    (analyses.flatMap (·.tokens)).count token = analyses.countP (token ∈ ·.tokens) := by
  induction analyses with
  | nil => rfl
  | cons a analyses ih =>
    have hrest := ih fun b hb => h b (List.mem_cons_of_mem a hb)
    have hcount := (h a List.mem_cons_self).nodup.count (a := token)
    rw [List.flatMap_cons, List.count_append, List.countP_cons, hrest, hcount, Nat.add_comm]
    simp only [decide_eq_true_eq]

theorem mem_tokenCounts_iff {analyses : List Analysis} (h : ∀ a ∈ analyses, a.IsSound)
    (token : String) (count : Nat) :
    (token, count) ∈ tokenCounts analyses ↔
      0 < count ∧ count = analyses.countP (token ∈ ·.tokens) := by
  rw [← count_flatMap_tokens h token, tokenCounts, List.mem_map]
  constructor
  · rintro ⟨used, hused, he⟩
    cases he
    exact ⟨List.count_pos_iff.mpr (List.mem_eraseDups.mp hused), rfl⟩
  · rintro ⟨hpos, rfl⟩
    exact ⟨token, List.mem_eraseDups.mpr (List.count_pos_iff.mp hpos), rfl⟩

theorem nodup_tokenCounts (analyses : List Analysis) :
    ((tokenCounts analyses).map (·.1)).Nodup := by
  rw [tokenCounts, List.map_map]
  exact (List.map_id _).symm ▸ nodup_eraseDups _

/-- That a batch is the sum of analyses, with the paths of other files. -/
structure IsSumOf (batch : Batch) (analyses : List Analysis) (skipped : List String) : Prop where
  total : batch.totalFiles = analyses.length + skipped.length
  analyzed : batch.analyzed = analyses.length
  listed : batch.skippedFiles = skipped
  kinds : batch.byPattern = kindNames.map fun (name, kind) => (name, statsOfKind analyses kind)
  distinct : (batch.tokenUsage.map (·.1)).Nodup
  usage : ∀ token count, (token, count) ∈ batch.tokenUsage ↔
    0 < count ∧ count = analyses.countP (token ∈ ·.tokens)
  full : batch.summary.full = analyses.countP fun a =>
    !a.patterns.all.isEmpty && a.patterns.all.all (·.isAutoConvertible)
  partly : batch.summary.partly = analyses.countP fun a =>
    a.patterns.all.any (·.isAutoConvertible) && a.patterns.all.any (!·.isAutoConvertible)
  manual : batch.summary.manual = analyses.countP fun a =>
    !a.patterns.all.isEmpty && a.patterns.all.all (!·.isAutoConvertible)
  classified : batch.summary.full + batch.summary.partly + batch.summary.manual =
    analyses.countP (!·.patterns.all.isEmpty)
  complex : batch.complexCases.map (·.file) =
    (analyses.filter (·.patterns.all.any (·.isManual))).map (·.file)
  worded : ∀ c ∈ batch.complexCases, c.reason ≠ ""

theorem isSumOf_ofAnalyses {analyses : List Analysis} (h : ∀ a ∈ analyses, a.IsSound)
    {files skipped : List String} (hfiles : files.length = analyses.length + skipped.length) :
    (ofAnalyses files analyses skipped).IsSumOf analyses skipped where
  total := hfiles
  analyzed := rfl
  listed := rfl
  kinds := byPattern_ofAnalyses files analyses skipped
  distinct := nodup_tokenCounts analyses
  usage := mem_tokenCounts_iff h
  full := List.countP_congr fun a ha => by rw [(h a ha).summary, isFull_ofPatterns]
  partly := List.countP_congr fun a ha => by rw [(h a ha).summary, isPartly_ofPatterns]
  manual := List.countP_congr fun a ha => by rw [(h a ha).summary, isManual_ofPatterns]
  classified := countP_add_countP h
  complex := map_file_filterMap h
  worded := fun _ => reason_ne_of_mem h

end Batch

theorem InlinePattern.eq_wrongType_of_tagsOf {tags : Json} {fault : Fault}
    (h : tagsOf tags = .error fault) : fault = .wrongType := by
  unfold tagsOf at h
  split at h
  next => cases h
  next =>
    split at h
    next => cases h
    next => cases h
    next items _ =>
      obtain ⟨item, _, hitem⟩ := exists_of_mapM_eq_error h
      split at hitem
      next => cases hitem
      next =>
        cases hitem
        rfl
    next =>
      cases h
      rfl

/-- A fault in what a file holds is not one of the file. -/
theorem SourcePatterns.isUnreadable_of_parse {tags : Json} {source : List Char} {fault : Fault}
    (h : parse tags source = .error fault) : fault.isUnreadable = false := by
  rcases bind_eq_error h with ht | ⟨template, _, h⟩
  · exact Fault.isUnreadable_of_isMisnumbered
      ((TemplatePattern.parse_returns source).fault_of_eq_error ht)
  rcases bind_eq_error h with hd | ⟨declarative, _, h⟩
  · exact Fault.isUnreadable_of_isMisnumbered
      ((DeclarativePattern.parse_returns source).fault_of_eq_error hd)
  rcases bind_eq_error h with hn | ⟨names, _, h⟩
  · rw [InlinePattern.eq_wrongType_of_tagsOf hn]
    rfl
  rcases bind_eq_error h with hi | ⟨inline, _, h⟩
  · exact Fault.isUnreadable_of_isMisnumbered
      ((InlinePattern.parse_returns names source).fault_of_eq_error hi)
  · cases h

theorem Analysis.isUnreadable_of_ofSource {file : String} {tags : Json} {source : List Char}
    {fault : Fault} (h : ofSource file tags source = .error fault) :
    fault.isUnreadable = false := by
  rcases bind_eq_error h with hp | ⟨patterns, _, h⟩
  · exact SourcePatterns.isUnreadable_of_parse hp
  · cases h

namespace Batch

variable {tags : Json}

/-- Where a file is put by what reading it gave: to the analyses if there is a text, and else to the
paths, if the fault lies in the file. -/
def IsPut (tags : Json) (path : String) (text : Except Fault (List Char)) :
    Analysis ⊕ String → Prop
  | .inl a => text.bind (Analysis.ofSource path tags) = .ok a
  | .inr name => name = path ∧ ∃ fault, text = .error fault ∧ fault.isUnreadable = true

theorem isPut_of_take {path : String} {text : Except Fault (List Char)} {put : Analysis ⊕ String}
    (h : take (path, text.bind (Analysis.ofSource path tags)) = .ok put) :
    IsPut tags path text put := by
  unfold take at h
  split at h
  next a ha =>
    cases h
    exact ha
  next fault hf =>
    split at h
    next hu =>
      cases h
      rcases bind_eq_error hf with htext | ⟨source, _, hsource⟩
      · exact ⟨rfl, fault, htext, hu⟩
      · rw [Analysis.isUnreadable_of_ofSource hsource] at hu
        cases hu
    next => cases h

theorem ofReadings_eq_ok {readings : List (String × Except Fault Analysis)} {batch : Batch}
    (h : ofReadings readings = .ok batch) :
    ∃ sorted, readings.mapM take = .ok sorted ∧
      batch = ofAnalyses (readings.map (·.1)) (sorted.filterMap Sum.getLeft?)
        (sorted.filterMap Sum.getRight?) := by
  obtain ⟨sorted, hsorted, hbatch⟩ := bind_eq_ok h
  cases hbatch
  exact ⟨sorted, hsorted, rfl⟩

end Batch

/-- Whether a file of a host in memory can be read as text. -/
def Memory.canRead (memory : Memory) (path : String) : Bool := (memory.text path).isOk

namespace Batch

variable {memory : Memory} {path : String}

theorem canRead_of_isPut {a : Analysis} (h : IsPut tags path (memory.text path) (.inl a)) :
    memory.canRead path = true := by
  obtain ⟨source, hsource, _⟩ := bind_eq_ok h
  rw [Memory.canRead, hsource]
  rfl

theorem canRead_of_isPut_right {name : String}
    (h : IsPut tags path (memory.text path) (.inr name)) :
    name = path ∧ memory.canRead path = false := by
  obtain ⟨hname, fault, hfault, _⟩ := h
  refine ⟨hname, ?_⟩
  rw [Memory.canRead, hfault]
  rfl

theorem isSound_of_isPut {a : Analysis} {text : Except Fault (List Char)}
    (h : IsPut tags path text (.inl a)) : a.file = path ∧ a.IsSound := by
  obtain ⟨source, _, hsource⟩ := bind_eq_ok h
  exact Analysis.ofSource_eq_ok hsource

theorem exists_fault_of_isPut {put : Analysis ⊕ String}
    (h : IsPut tags path (memory.text path) put) (hn : memory.canRead path = false) :
    ∃ fault, memory.text path = .error fault ∧ fault.isUnreadable = true := by
  cases put with
  | inl a =>
    rw [canRead_of_isPut h] at hn
    cases hn
  | inr name => exact h.2

end Batch

namespace Program

/-- A batch is the sum of the analyses of those files found that can be read, in the order in which
they are found. The paths of the others are listed in that order. -/
theorem batchOf_isSumOf {memory after : Memory} {directory : String}
    {pattern limit skipped tags : Json} {batch : Batch}
    (h : (batchOf directory pattern limit skipped tags : Job (StateM Memory) Batch) memory =
      (.ok batch, after)) :
    ∃ paths analyses,
      (sourceFiles directory pattern limit skipped : Job (StateM Memory) (List String)) memory =
        (.ok paths, memory) ∧
      List.Forall₂ (fun path a => a.file = path ∧
          (analyzeFile tags path : Job (StateM Memory) Analysis) memory = (.ok a, memory))
        (paths.filter memory.canRead) analyses ∧
      (∀ path ∈ paths, memory.canRead path = false →
        ∃ fault, (Job.readText path : Job (StateM Memory) (List Char)) memory =
          (.error fault, memory) ∧ fault.isUnreadable = true) ∧
      batch.totalFiles = paths.length ∧
      batch.IsSumOf analyses (paths.filter (!memory.canRead ·)) := by
  rw [batchOf_memory] at h
  obtain ⟨paths, hpaths, hreadings⟩ := bind_eq_ok (congrArg Prod.fst h)
  obtain ⟨sorted, hsorted, rfl⟩ := Batch.ofReadings_eq_ok hreadings
  have hfound : (paths.map fun path =>
      (path, (memory.text path).bind (Analysis.ofSource path tags))).map (·.1) = paths := by
    rw [List.map_map]
    exact List.map_id paths
  rw [List.mapM_map, Function.comp_def] at hsorted
  have hput : List.Forall₂ (fun path => Batch.IsPut tags path (memory.text path)) paths sorted :=
    (forall₂_of_mapM hsorted).imp fun _ _ => Batch.isPut_of_take
  obtain ⟨hskipped, hanalyses⟩ := Batch.forall₂_sorted (fun _ _ => Batch.canRead_of_isPut)
    (fun _ _ => Batch.canRead_of_isPut_right) hput
  rw [List.map_id'] at hskipped
  have hsound : ∀ a ∈ sorted.filterMap Sum.getLeft?, a.IsSound := by
    intro a ha
    obtain ⟨put, hm, hleft⟩ := List.mem_filterMap.mp ha
    obtain rfl : put = .inl a := Sum.getLeft?_eq_some_iff.mp hleft
    obtain ⟨path, _, htake⟩ := exists_of_mem_mapM hsorted hm
    exact (Batch.isSound_of_isPut (Batch.isPut_of_take htake)).2
  -- every path found is that of a file that can be read or of one that cannot
  have hlength : paths.length =
      (sorted.filterMap Sum.getLeft?).length + (paths.filter (!memory.canRead ·)).length := by
    rw [← hanalyses.length_eq]
    exact List.length_eq_length_filter_add _
  rw [hfound, hskipped]
  refine ⟨paths, sorted.filterMap Sum.getLeft?, ?_, ?_, ?_, rfl,
    Batch.isSumOf_ofAnalyses hsound hlength⟩
  · rw [sourceFiles_memory, hpaths]
  · refine hanalyses.imp fun path a ha => ⟨(Batch.isSound_of_isPut ha).1, ?_⟩
    rw [analyzeFile_memory]
    exact congrArg (·, memory) ha
  · intro path hm hn
    obtain ⟨put, _, htake⟩ := exists_mem_of_mapM hsorted hm
    obtain ⟨fault, hfault, hu⟩ := Batch.exists_fault_of_isPut (Batch.isPut_of_take htake) hn
    refine ⟨fault, ?_, hu⟩
    rw [Job.readText_memory, hfault]

/-- A folder with an object of styles, a file that holds no text, an object beside a template with an
interpolation, and a file without patterns. -/
def mixedMemory : Memory where
  files := .folder [("src", .folder [
    ("a.tsx", .file "const A = styled(V, \x7b p: '$4' \x7d)".toUTF8.toList),
    ("b.tsx", .file [255]),
    ("c.tsx", .file ("const B = styled(V, \x7b p: '$4' \x7d)\n" ++
      "const C = styled.V\x60a: $\x7bb\x7d;\x60").toUTF8.toList),
    ("d.tsx", .file "x".toUTF8.toList)])]

theorem findSources_mixedMemory :
    findSources "src" (.text defaultFilePattern) (.whole defaultFileLimit) .null
      (Memory.folder? mixedMemory.files (Path.normal "src")) =
    .ok ["src/a.tsx", "src/b.tsx", "src/c.tsx", "src/d.tsx"] := by
  have hfolder : Memory.folder? mixedMemory.files (Path.normal "src") =
      .ok (some (.folder [("a.tsx", .file ()), ("b.tsx", .file ()), ("c.tsx", .file ()),
        ("d.tsx", .file ())])) := rfl
  have hsources : (Tree.folder [("a.tsx", .file ()), ("b.tsx", .file ()), ("c.tsx", .file ()),
      ("d.tsx", .file ())]).sources [".tsx"] defaultSkippedFolders "src" "" =
      ["src/a.tsx", "src/b.tsx", "src/c.tsx", "src/d.tsx"] := by
    rw [Tree.sources, Tree.gatherSources, List.mergeSort_of_pairwise (by decide)]
    decide +kernel
  rw [hfolder]
  exact congrArg (takeFiles (.whole defaultFileLimit) []) hsources

theorem batchOf_mixedMemory :
    ∃ batch, (batchOf "src" (.text defaultFilePattern) (.whole defaultFileLimit) .null .null :
        Job (StateM Memory) Batch) mixedMemory = (.ok batch, mixedMemory) ∧
      batch.totalFiles = 4 ∧ batch.skippedFiles = ["src/b.tsx"] ∧ batch.summary = ⟨1, 1, 0⟩ ∧
      batch.tokenUsage = [("$4", 2)] ∧ batch.complexCases.map (·.file) = ["src/c.tsx"] ∧
      ∃ analyses, batch.IsSumOf analyses ["src/b.tsx"] ∧ analyses.length = 3 := by
  have hgives : gives (fun batch : Batch => batch.totalFiles = 4 ∧
      batch.skippedFiles = ["src/b.tsx"] ∧ batch.summary = ⟨1, 1, 0⟩ ∧
      batch.tokenUsage = [("$4", 2)] ∧ batch.complexCases.map (·.file) = ["src/c.tsx"])
      (Batch.ofReadings (["src/a.tsx", "src/b.tsx", "src/c.tsx", "src/d.tsx"].map fun path =>
        (path, (mixedMemory.text path).bind (Analysis.ofSource path .null)))) = true := by
    decide +kernel
  obtain ⟨batch, hreadings, hbatch⟩ := exists_of_gives hgives
  obtain ⟨htotal, hskipped, hsummary, husage, hcomplex⟩ := of_decide_eq_true hbatch
  have hrun : (batchOf "src" (.text defaultFilePattern) (.whole defaultFileLimit) .null .null :
      Job (StateM Memory) Batch) mixedMemory = (.ok batch, mixedMemory) := by
    rw [batchOf_memory, findSources_mixedMemory]
    show (Batch.ofReadings _, mixedMemory) = _
    rw [hreadings]
  obtain ⟨paths, analyses, _, _, _, _, hsum⟩ := batchOf_isSumOf hrun
  have hlisted := hsum.listed.symm.trans hskipped
  have hlength : analyses.length + ["src/b.tsx"].length = 4 := by
    rw [← hlisted, ← hsum.total, htotal]
  exact ⟨batch, hrun, htotal, hskipped, hsummary, husage, hcomplex, analyses, hlisted ▸ hsum,
    Nat.succ.inj hlength⟩

end Program

end Restyle
