import Restyle.Program.Run
import Restyle.Proofs.Declarative.Readable
import Restyle.Proofs.Inline.Readable
import Restyle.Proofs.Job
import Restyle.Proofs.Template.Readable

namespace Restyle

theorem Fault.isUnreadable_of_isMisnumbered {fault : Fault} (h : fault.isMisnumbered = true) :
    fault.isUnreadable = false := by
  unfold isMisnumbered at h
  split at h
  next => rfl
  next => rfl
  next => cases h

/-- One record for each hit, in the order of the source text. -/
structure Recorded {α β : Type} (isRecord : Scan.Hit α → β → Prop) (hits : List (Scan.Hit α))
    (found : List β) : Prop where
  ordered : hits.Pairwise (·.offset < ·.offset)
  records : List.Forall₂ isRecord hits found

theorem mapM_findAll_returns {α β : Type} {recognize : Scan.Recognizer α}
    (hr : Scan.Consumes recognize) {canRead : Scan.Hit α → Prop} {isRecord : Scan.Hit α → β → Prop}
    {fault : Fault → Prop} {read : Scan.Hit α → Except Fault β}
    (h : ∀ hit, ReturnsIff (canRead hit) (isRecord hit) fault (read hit)) (source : List Char) :
    ReturnsIff (∀ hit ∈ Scan.findAll recognize source, canRead hit)
      (Recorded isRecord (Scan.findAll recognize source)) fault
      ((Scan.findAll recognize source).mapM read) :=
  (ReturnsIff.mapM fun hit _ => h hit).imp fun _ hrecords =>
    ⟨Scan.pairwise_findFrom hr none 0 source, hrecords⟩

/-- That every definition of a source text can be read. -/
structure IsReadable (source : List Char) : Prop where
  templates : ∀ hit ∈ Scan.findAll Header.template? source, TemplatePattern.CanRead hit
  objects : ∀ hit ∈ Scan.findAll Header.declarative? source, DeclarativePattern.CanRead hit
  tags : ∀ hit ∈ Scan.findAll (Header.tag? InlinePattern.defaultTags) source,
    InlinePattern.CanRead hit

/-- That a source text has no mark of placeholders, no more digits in all than one number may have,
and does not exceed the limit. -/
structure IsPlain (source : List Char) : Prop where
  unmarked : '\x00' ∉ source
  fewDigits : source.countP Text.isDigit ≤ 4300
  short : source.length ≤ TemplatePattern.lengthLimit

theorem IsPlain.isReadable {source : List Char} (h : IsPlain source) : IsReadable source := by
  have hdigits : ∀ {rest}, rest <:+ source → rest.countP Text.isDigit ≤ 4300 := fun hrest =>
    hrest.sublist.countP_le.trans h.fewDigits
  constructor
  · intro hit hm
    have hrest := Scan.rest_suffix_of_mem_findAll Header.consumes_template hm
    have hread := TemplatePattern.exists_ofHit source (fun hz => h.unmarked (hrest.subset hz))
      (hrest.length_le.trans h.short)
    exact (TemplatePattern.ofHit_returns source hit).exists_ok_iff.mp hread
  · intro hit hm
    exact DeclarativePattern.canRead_of_countP
      (hdigits (Scan.rest_suffix_of_mem_findAll Header.consumes_declarative hm))
  · intro hit hm
    exact InlinePattern.canRead_of_countP
      (hdigits (Scan.rest_suffix_of_mem_findAll (Header.consumes_tag _) hm))

/-- That there is one record for each definition of a source text. -/
structure SourcePatterns.Records (source : List Char) (patterns : SourcePatterns) : Prop where
  templates : Recorded (TemplatePattern.IsRecord source)
    (Scan.findAll Header.template? source) patterns.template
  objects : Recorded (DeclarativePattern.IsRecord source)
    (Scan.findAll Header.declarative? source) patterns.declarative
  tags : Recorded (InlinePattern.IsRecord source)
    (Scan.findAll (Header.tag? InlinePattern.defaultTags) source) patterns.inline

theorem TemplatePattern.parse_returns (source : List Char) :
    ReturnsIff (∀ hit ∈ Scan.findAll Header.template? source, CanRead hit)
      (Recorded (IsRecord source) (Scan.findAll Header.template? source))
      (·.isMisnumbered = true) (parse source) :=
  mapM_findAll_returns Header.consumes_template (ofHit_returns source) source

theorem DeclarativePattern.parse_returns (source : List Char) :
    ReturnsIff (∀ hit ∈ Scan.findAll Header.declarative? source, CanRead hit)
      (Recorded (IsRecord source) (Scan.findAll Header.declarative? source))
      (·.isMisnumbered = true) (parse source) :=
  mapM_findAll_returns Header.consumes_declarative (ofHit_returns source) source

theorem InlinePattern.parse_returns (names : List String) (source : List Char) :
    ReturnsIff (∀ hit ∈ Scan.findAll (Header.tag? names) source, CanRead hit)
      (Recorded (IsRecord source) (Scan.findAll (Header.tag? names) source))
      (·.isMisnumbered = true) (parse names source) :=
  mapM_findAll_returns (Header.consumes_tag names) (ofHit_returns source) source

theorem SourcePatterns.parse_returns (source : List Char) :
    ReturnsIff (IsReadable source) (Records source) (·.isMisnumbered = true)
      (parse .null source) := by
  have hall := (TemplatePattern.parse_returns source).bind fun template ht =>
    (DeclarativePattern.parse_returns source).bind fun declarative ho =>
      (InlinePattern.parse_returns InlinePattern.defaultTags source).bind fun inline hi =>
        .pure (SourcePatterns.mk template declarative inline) (Records.mk ht ho hi)
  exact hall.of_iff ⟨fun h => ⟨h.1, h.2.1, h.2.2.1⟩,
    fun h => ⟨h.templates, h.objects, h.tags, trivial⟩⟩

theorem Analysis.ofSource_returns (file : String) (source : List Char) :
    ReturnsIff (IsReadable source)
      (fun analysis => analysis.file = file ∧ analysis.patterns.Records source)
      (·.isMisnumbered = true) (ofSource file .null source) :=
  (SourcePatterns.parse_returns source).map fun _ h => ⟨rfl, h⟩

namespace Batch

variable {files : List (String × Except Fault (List Char))}

/-- That a file does not stand in the way of others, by what reading it gave: all its definitions can
be read, or it is only listed. -/
def CanTake : Except Fault (List Char) → Prop
  | .ok source => IsReadable source
  | .error fault => fault.isUnreadable = true

/-- What a file becomes: an analysis with all its definitions, or the path alone. -/
def IsTaken (file : String × Except Fault (List Char)) : Analysis ⊕ String → Prop
  | .inl analysis => analysis.file = file.1 ∧
      ∃ source, file.2 = .ok source ∧ analysis.patterns.Records source
  | .inr path => path = file.1 ∧ file.2.isOk = false

/-- That a batch sums up the files that could be read, each with all its definitions, and lists the
others. -/
def SumsUp (files : List (String × Except Fault (List Char))) (batch : Batch) : Prop :=
  ∃ analyses, batch = ofAnalyses (files.map (·.1)) analyses
      ((files.filter (!·.2.isOk)).map (·.1)) ∧
    List.Forall₂ (fun file analysis => IsTaken file (.inl analysis)) (files.filter (·.2.isOk))
      analyses

/-- Files that are put to the analyses or to the paths by whether they can be read stay in order on
both sides. -/
theorem forall₂_sorted {α : Type} {canRead : α → Bool} {path : α → String}
    {isPut : α → Analysis ⊕ String → Prop} {files : List α} {sorted : List (Analysis ⊕ String)}
    (hleft : ∀ file analysis, isPut file (.inl analysis) → canRead file = true)
    (hright : ∀ file name, isPut file (.inr name) → name = path file ∧ canRead file = false)
    (h : List.Forall₂ isPut files sorted) :
    sorted.filterMap Sum.getRight? = (files.filter (!canRead ·)).map path ∧
      List.Forall₂ (fun file analysis => isPut file (.inl analysis)) (files.filter canRead)
        (sorted.filterMap Sum.getLeft?) := by
  induction h with
  | nil => exact ⟨rfl, .nil⟩
  | @cons file put files sorted hput _ ih =>
    cases put with
    | inl analysis =>
      simp only [List.filter_cons, hleft file analysis hput]
      exact ⟨ih.1, .cons hput ih.2⟩
    | inr name =>
      obtain ⟨rfl, hcannot⟩ := hright file name hput
      simp only [List.filter_cons, hcannot]
      exact ⟨congrArg _ ih.1, ih.2⟩

theorem sumsUp_of_isTaken {sorted : List (Analysis ⊕ String)}
    (h : List.Forall₂ IsTaken files sorted) :
    SumsUp files (ofAnalyses (files.map (·.1)) (sorted.filterMap Sum.getLeft?)
      (sorted.filterMap Sum.getRight?)) := by
  have hleft : ∀ file analysis, IsTaken file (.inl analysis) → file.2.isOk = true := by
    rintro file analysis ⟨_, source, hsource, _⟩
    rw [hsource]
    rfl
  obtain ⟨hpaths, hanalyses⟩ := forall₂_sorted hleft (fun _ _ hput => hput) h
  exact ⟨_, by rw [hpaths], hanalyses⟩

/-- Where what reading a file gave is put, or the fault that ends it all. -/
def take (file : String × Except Fault Analysis) : Except Fault (Analysis ⊕ String) :=
  match file.2 with
  | .ok analysis => .ok (.inl analysis)
  | .error fault => if fault.isUnreadable then .ok (.inr file.1) else .error fault

theorem take_returns (path : String) (text : Except Fault (List Char)) :
    ReturnsIff (CanTake text) (IsTaken (path, text)) (·.isUnreadable = false)
      (take (path, text.bind (Analysis.ofSource path .null))) := by
  cases text with
  | error fault =>
    cases hf : fault.isUnreadable with
    | true => exact ⟨fun _ => ⟨.inr path, if_pos hf, rfl, rfl⟩, fun hn => absurd hf hn⟩
    | false =>
      have hn : ¬ fault.isUnreadable = true := by simp [hf]
      exact ⟨fun h => absurd h hn, fun _ => ⟨fault, if_neg hn, hf⟩⟩
  | ok source =>
    have hread := Analysis.ofSource_returns path source
    constructor
    · intro h
      obtain ⟨analysis, ha, hfile, hrecords⟩ := hread.ok h
      exact ⟨.inl analysis, by simp only [take, Except.bind, ha], hfile, source, rfl, hrecords⟩
    · intro hn
      obtain ⟨fault, hf, hm⟩ := hread.error hn
      have hfault := Fault.isUnreadable_of_isMisnumbered hm
      exact ⟨fault, by simp [take, Except.bind, hf, hfault], hfault⟩

/-- The analyses of files, each given by its path and what reading it gave. -/
def readingsOf (files : List (String × Except Fault (List Char))) :
    List (String × Except Fault Analysis) :=
  files.map fun file => (file.1, file.2.bind (Analysis.ofSource file.1 .null))

theorem ofReadings_returns (files : List (String × Except Fault (List Char))) :
    ReturnsIff (∀ file ∈ files, CanTake file.2) (SumsUp files) (·.isUnreadable = false)
      (ofReadings (readingsOf files)) := by
  have hall : ReturnsIff (∀ file ∈ files, CanTake file.2) (List.Forall₂ IsTaken files)
      (·.isUnreadable = false) ((readingsOf files).mapM take) := by
    rw [readingsOf, List.mapM_map]
    exact .mapM fun file _ => take_returns file.1 file.2
  have hpaths : (readingsOf files).map (·.1) = files.map (·.1) := by
    rw [readingsOf, List.map_map]
    rfl
  refine hall.map fun _ h => ?_
  rw [hpaths]
  exact sumsUp_of_isTaken h

end Batch

namespace Program

theorem analyzeFile_memory (memory : Memory) (tags : Json) (path : String) :
    (analyzeFile tags path : Job (StateM Memory) Analysis) memory =
      ((memory.text path).bind (Analysis.ofSource path tags), memory) :=
  Job.bind_memory (Job.readText_memory memory path) fun _ => rfl

/-- The source files below a folder of a host in memory, with what reading them gives. -/
def filesIn (memory : Memory) (directory : String) (pattern limit skipped : Json) :
    Except Fault (List (String × Except Fault (List Char))) :=
  (findSources directory pattern limit skipped
    (Memory.folder? memory.files (Path.normal directory))).map
      (·.map fun path => (path, memory.text path))

theorem sourceFiles_memory (memory : Memory) (directory : String) (pattern limit skipped : Json) :
    (sourceFiles directory pattern limit skipped : Job (StateM Memory) (List String)) memory =
      (findSources directory pattern limit skipped
        (Memory.folder? memory.files (Path.normal directory)), memory) := by
  have hfolder : (Host.folder? (Path.normal directory) : StateM Memory _) memory =
      (Memory.folder? memory.files (Path.normal directory), memory) := rfl
  unfold sourceFiles
  rw [Job.lift_bind_memory hfolder]
  rfl

theorem batchOf_memory (memory : Memory) (directory : String)
    (pattern limit skipped tags : Json) :
    (batchOf directory pattern limit skipped tags : Job (StateM Memory) Batch) memory =
      ((findSources directory pattern limit skipped
        (Memory.folder? memory.files (Path.normal directory))).bind fun paths =>
          Batch.ofReadings (paths.map fun path =>
            (path, (memory.text path).bind (Analysis.ofSource path tags))), memory) := by
  have hreading : ∀ path, (do
      let reading ← ExceptT.lift (analyzeFile tags path : Job (StateM Memory) Analysis).run
      return (path, reading) : Job (StateM Memory) (String × Except Fault Analysis)) memory =
      (.ok (path, (memory.text path).bind (Analysis.ofSource path tags)), memory) := fun path =>
    Job.lift_bind_memory (analyzeFile_memory memory tags path) _
  exact Job.bind_memory (sourceFiles_memory memory directory pattern limit skipped) fun paths =>
    Job.bind_memory (f := fun readings => Job.lift (Batch.ofReadings readings))
      (Job.mapM_memory hreading paths) fun _ => rfl

theorem batchOf_returns {memory : Memory} {directory : String} {pattern limit skipped : Json}
    {files : List (String × Except Fault (List Char))}
    (h : filesIn memory directory pattern limit skipped = .ok files) :
    ReturnsIff (∀ file ∈ files, Batch.CanTake file.2) (Batch.SumsUp files)
      (·.isUnreadable = false)
      ((batchOf directory pattern limit skipped .null : Job (StateM Memory) Batch) memory).1 := by
  obtain ⟨paths, hpaths, rfl⟩ := map_eq_ok h
  have hreadings : Batch.readingsOf (paths.map fun path => (path, memory.text path)) =
      paths.map fun path => (path, (memory.text path).bind (Analysis.ofSource path .null)) := by
    simp only [Batch.readingsOf, List.map_map, Function.comp_def]
  rw [batchOf_memory, hpaths]
  show ReturnsIff _ _ _ (Batch.ofReadings _)
  rw [← hreadings]
  exact Batch.ofReadings_returns _

end Program

/-- Every definition has one record, in the order of the source text, whether it is well formed or
not, unless a number stands in the way: that of a placeholder without an interpolation, or one with
too many digits. Such a fault ends the reading of the text, and the batch that the text is in. -/
theorem definitions_are_recorded (source : List Char) :
    ReturnsIff (∀ hit ∈ Scan.findAll Header.template? source, TemplatePattern.CanRead hit)
      (Recorded (TemplatePattern.IsRecord source) (Scan.findAll Header.template? source))
      (·.isMisnumbered = true) (TemplatePattern.parse source) ∧
    ReturnsIff (∀ hit ∈ Scan.findAll Header.declarative? source, DeclarativePattern.CanRead hit)
      (Recorded (DeclarativePattern.IsRecord source) (Scan.findAll Header.declarative? source))
      (·.isMisnumbered = true) (DeclarativePattern.parse source) ∧
    (∀ names, ReturnsIff
      (∀ hit ∈ Scan.findAll (Header.tag? names) source, InlinePattern.CanRead hit)
      (Recorded (InlinePattern.IsRecord source) (Scan.findAll (Header.tag? names) source))
      (·.isMisnumbered = true) (InlinePattern.parse names source)) ∧
    (∀ file, ReturnsIff (IsReadable source)
      (fun analysis => analysis.file = file ∧ analysis.patterns.Records source)
      (·.isMisnumbered = true) (Analysis.ofSource file .null source)) ∧
    (IsPlain source → IsReadable source) ∧
    ∀ memory directory pattern limit skipped files,
      Program.filesIn memory directory pattern limit skipped = .ok files →
      ReturnsIff (∀ file ∈ files, Batch.CanTake file.2) (Batch.SumsUp files)
        (·.isUnreadable = false)
        ((Program.batchOf directory pattern limit skipped .null :
          Job (StateM Memory) Batch) memory).1 :=
  ⟨TemplatePattern.parse_returns source, DeclarativePattern.parse_returns source,
    fun names => InlinePattern.parse_returns names source,
    fun file => Analysis.ofSource_returns file source, IsPlain.isReadable,
    fun _ _ _ _ _ _ h => Program.batchOf_returns h⟩

/-- A template, a tag and an object, none of which has an end. -/
def brokenText : List Char :=
  "const A = styled.V\x60a\n<Image b=\x7bc\nconst B = styled(V, \x7b d: 'e".toList

/-- A folder with such definitions in one file, and with a file that holds no text. -/
def brokenFolder : Tree (List UInt8) :=
  .folder [("a.tsx", .file (String.ofList brokenText).toUTF8.toList), ("b.tsx", .file [255])]

def brokenMemory : Memory where
  files := .folder [("src", brokenFolder)]

def brokenFiles : Except Fault (List (String × Except Fault (List Char))) :=
  Program.filesIn brokenMemory "src" (.text defaultFilePattern) (.whole defaultFileLimit) .null

theorem exists_brokenFiles :
    ∃ fault, fault.isUnreadable = true ∧
      brokenFiles = .ok [("src/a.tsx", .ok brokenText), ("src/b.tsx", .error fault)] := by
  have hfolder : Memory.folder? brokenMemory.files (Path.normal "src") =
      .ok (some (.folder [("a.tsx", .file ()), ("b.tsx", .file ())])) := rfl
  have hsources : (Tree.folder [("a.tsx", .file ()), ("b.tsx", .file ())]).sources [".tsx"]
      defaultSkippedFolders "src" "" = ["src/a.tsx", "src/b.tsx"] := by
    rw [Tree.sources, Tree.gatherSources, List.mergeSort_of_pairwise (by decide)]
    decide +kernel
  have hfirst : gives (· == brokenText) (brokenMemory.text "src/a.tsx") = true := by decide +kernel
  have hsecond : failsWith Fault.isUnreadable (brokenMemory.text "src/b.tsx") = true := by
    decide +kernel
  obtain ⟨text, htext, heq⟩ := exists_of_gives hfirst
  obtain ⟨fault, hfault, hu⟩ := exists_of_failsWith hsecond
  refine ⟨fault, hu, ?_⟩
  have hpaths : findSources "src" (.text defaultFilePattern) (.whole defaultFileLimit) .null
      (Memory.folder? brokenMemory.files (Path.normal "src")) = .ok ["src/a.tsx", "src/b.tsx"] := by
    rw [hfolder]
    exact congrArg (takeFiles (.whole defaultFileLimit) []) hsources
  rw [brokenFiles, Program.filesIn, hpaths, ← eq_of_beq heq]
  simp only [Except.map, List.map_cons, List.map_nil, htext, hfault]

theorem broken_definitions_are_recorded :
    IsPlain brokenText ∧
    (∃ analysis, Analysis.ofSource "src/a.tsx" .null brokenText = .ok analysis ∧
      analysis.patterns.template.length = 1 ∧ analysis.patterns.declarative.length = 1 ∧
      analysis.patterns.inline.length = 1) ∧
    ∃ batch, ((Program.batchOf "src" (.text defaultFilePattern) (.whole defaultFileLimit) .null
        .null : Job (StateM Memory) Batch) brokenMemory).1 = .ok batch ∧
      batch.analyzed = 1 ∧ batch.skippedFiles = ["src/b.tsx"] := by
  obtain ⟨_, _, _, hanalysis, hplain, hbatch⟩ := definitions_are_recorded brokenText
  have hshort : brokenText.length ≤ TemplatePattern.lengthLimit := by
    have hlength : brokenText.length ≤ 10 ^ 2 := by decide +kernel
    exact hlength.trans (Nat.pow_le_pow_right (by decide) (by decide))
  have hbroken : IsPlain brokenText := ⟨by decide +kernel, by decide +kernel, hshort⟩
  refine ⟨hbroken, ?_, ?_⟩
  · obtain ⟨analysis, ha, _, hrecords⟩ := (hanalysis "src/a.tsx").ok (hplain hbroken)
    refine ⟨analysis, ha, ?_, ?_, ?_⟩
    · rw [← hrecords.templates.records.length_eq]
      decide +kernel
    · rw [← hrecords.objects.records.length_eq]
      decide +kernel
    · rw [← hrecords.tags.records.length_eq]
      decide +kernel
  · obtain ⟨fault, hfault, hfiles⟩ := exists_brokenFiles
    have htake : ∀ file ∈ [("src/a.tsx", .ok brokenText), ("src/b.tsx", .error fault)],
        Batch.CanTake file.2 := by
      simp [Batch.CanTake, hfault, hplain hbroken]
    obtain ⟨batch, hb, analyses, rfl, htaken⟩ := (hbatch _ _ _ _ _ _ hfiles).ok htake
    exact ⟨_, hb, htaken.length_eq.symm, rfl⟩

/-- A template with a placeholder for an interpolation that it does not have. -/
def markedText : List Char := "const A = styled.V\x60a: \x005\x00;\x60".toList

/-- One such template, and there is no batch at all. -/
theorem marked_definition_is_not_recorded :
    (Scan.findAll Header.template? markedText).length = 1 ∧
    (∃ fault, TemplatePattern.parse markedText = .error fault ∧
      fault.message = "index out of range") ∧
    (∃ fault, Analysis.ofSource "a.tsx" .null markedText = .error fault ∧
      fault.message = "index out of range") ∧
    ∃ fault, Batch.ofReadings (Batch.readingsOf [("a.tsx", .ok markedText), ("b.tsx", .ok [])]) =
      .error fault ∧ fault.message = "index out of range" := by
  have htemplates : failsWith (·.message == "index out of range")
      (TemplatePattern.parse markedText) = true := by decide +kernel
  have hanalysis : failsWith (·.message == "index out of range")
      (Analysis.ofSource "a.tsx" .null markedText) = true := by decide +kernel
  have hbatch : failsWith (·.message == "index out of range")
      (Batch.ofReadings (Batch.readingsOf [("a.tsx", .ok markedText), ("b.tsx", .ok [])])) =
      true := by decide +kernel
  refine ⟨by decide +kernel, ?_, ?_, ?_⟩
  · obtain ⟨fault, hf, hm⟩ := exists_of_failsWith htemplates
    exact ⟨fault, hf, eq_of_beq hm⟩
  · obtain ⟨fault, hf, hm⟩ := exists_of_failsWith hanalysis
    exact ⟨fault, hf, eq_of_beq hm⟩
  · obtain ⟨fault, hf, hm⟩ := exists_of_failsWith hbatch
    exact ⟨fault, hf, eq_of_beq hm⟩

end Restyle
