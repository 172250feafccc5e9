import Restyle.Proofs.Conversion.Theme
import Restyle.Proofs.Json.Layout
import Restyle.Proofs.Json.Showable
import Restyle.Proofs.Scan.Balanced
import Restyle.Proofs.Scan.Boundary
import Restyle.Tailwind

namespace Restyle

namespace Scan

theorem regionAt?_of_cut? {label text before rest region after : List Char}
    (hcut : Text.cut? label text = some (before, rest))
    (h : takeBraces? rest = some (region, after)) :
    regionAt? text (before.length + label.length : Nat) (.singleton '{') (.singleton '}') =
      some region := by
  have hdrop : text.drop (before.length + label.length) = rest := by
    rw [Text.cut?_append hcut, ← List.length_append]
    exact List.drop_left
  rw [takeBraces?] at h
  rw [regionAt?_singleton, if_neg (by omega), Int.toNat_natCast, hdrop, h]
  rfl

end Scan

theorem Color.isShowable_of_mem_classesOf {name : String} {value : Json}
    (h : value.isShowable = true) {field : String × Json} (hm : field ∈ classesOf name value) :
    field.2.isShowable = true := by
  cases value with
  | object shades =>
    obtain ⟨shade, hs, rfl⟩ := List.mem_map.mp hm
    exact Json.haveShowable_iff.mp h shade hs
  | _ =>
    rw [List.mem_singleton.mp hm]
    exact h

namespace Tailwind

theorem isShowable_of_mem_colors {colorTable colors : Fields Json} {typography : Json}
    {withLegacy : Bool} (h : Tailwind.colors ⟨.object colorTable, typography⟩ withLegacy = .ok colors)
    (hs : (Json.object colorTable).isShowable = true) :
    ∀ field ∈ colors, field.2.isShowable = true := by
  intro field hm
  cases h
  rcases List.mem_append.mp (Fields.mem_ofPairs_iff.mp hm).mem with hm | hm
  · obtain ⟨entry, he, hm⟩ := List.mem_flatMap.mp hm
    exact Color.isShowable_of_mem_classesOf (Json.haveShowable_iff.mp hs entry he) hm
  · split at hm
    next =>
      obtain ⟨former, -, rfl⟩ := List.mem_map.mp hm
      rfl
    next => cases hm

theorem isShowable_of_mem_fontFamilies {locale : Locale} {families : Fields Json}
    (h : fontFamilies locale = .ok families) : ∀ field ∈ families, field.2.isShowable = true := by
  intro field hm
  obtain ⟨fonts, -, rfl⟩ := map_eq_ok h
  rcases List.mem_append.mp (Fields.mem_ofPairs_iff.mp hm).mem with hm | hm
  · obtain ⟨font, -, rfl⟩ := List.mem_map.mp hm
    rfl
  · simp only [List.mem_cons, List.not_mem_nil, or_false] at hm
    rcases hm with rfl | rfl
    · rfl
    · rfl

/-- A file is written if the colours can be shown. -/
theorem Config.text_of_isShowable {config : Config}
    (hc : ∀ field ∈ config.colors, field.2.isShowable = true)
    (hf : ∀ field ∈ config.fontFamilies, field.2.isShowable = true) :
    config.text = .ok config.render := by
  have htables : config.toJson.isShowable = true := by
    simp [toJson, Json.isShowable, Json.haveShowable, Json.haveShowable_iff.mpr hc,
      Json.haveShowable_iff.mpr hf]
  rw [text, if_pos htables]

theorem toList_block (value : Json) : (block value).toList = (value.renderAt 3).toList := by
  rw [block, String.toList_ofList]
  exact (Json.isLaidOut_renderAt 3 0 value).indented

namespace Config

/-- The lines up to the colours. -/
def front : List Char :=
  "/** @type \x7bimport('tailwindcss').Config\x7d */".toList ++ ("\n".toList ++
  ("module.exports = \x7b".toList ++ ("\n".toList ++
  ("  content: [".toList ++ ("\n".toList ++
  ((",\n".intercalate (contentGlobs.map fun glob => "    '" ++ glob ++ "'")).toList ++ (",".toList ++
    ("\n".toList ++
  ("  ],".toList ++ ("\n".toList ++
  ("  presets: [require('nativewind/preset')],".toList ++ ("\n".toList ++
  ("  theme: \x7b".toList ++ ("\n".toList ++
  ("    extend: \x7b".toList ++ ("\n".toList ++
  "      colors: ".toList))))))))))))))))

/-- The text between the colours and the fonts. -/
def middle : List Char := ",".toList ++ ("\n".toList ++ "      fontFamily: ".toList)

/-- The lines after the fonts up to the last brace. -/
def back : List Char :=
  ",".toList ++ ("\n".toList ++ ("    \x7d,".toList ++ ("\n".toList ++ ("  \x7d,".toList ++
    ("\n".toList ++ ("  plugins: [],".toList ++ "\n".toList))))))

/-- The two tables and the lines after them. -/
def tables (config : Config) : List Char :=
  (block (.object config.colors)).toList ++ (middle ++
    ((block (.object config.fontFamilies)).toList ++ back))

theorem toList_render (config : Config) :
    config.render.toList = front ++ (config.tables ++ ['}']) := by
  have hbrace : ['}'] = "\x7d".toList := by decide
  rw [hbrace]
  unfold tables front middle back
  simp only [render, String.intercalate_cons_cons,
    String.intercalate_singleton, String.toList_append, List.append_assoc]

/-- The two labels stand in the lines before the colours, the first one before a brace that is open at
the second. -/
theorem cut?_front :
    (∃ before inner, Text.cut? "module.exports = ".toList front = some (before, '{' :: inner) ∧
      inner.foldl Scan.step [.region '{' '}' 0] = [.region '{' '}' 2]) ∧
    ∃ before, Text.cut? "colors: ".toList front = some (before, []) := by
  have hcut : Text.cut? "module.exports = ".toList front = some (front.take 44, '{' :: front.drop 62) ∧
      (front.drop 62).foldl Scan.step [.region '{' '}' 0] = [.region '{' '}' 2] ∧
      Text.cut? "colors: ".toList front = some (front.take (front.length - 8), []) := by
    decide +kernel
  exact ⟨⟨_, _, hcut.1, hcut.2.1⟩, _, hcut.2.2⟩

theorem keeps_block (fields : Fields Json) : Scan.Keeps (block (.object fields)).toList := by
  rw [toList_block]
  exact (Json.isLaidOut_renderAt 0 3 (.object fields)).keeps

/-- Two of the three open braces are closed after the tables, the last one is left. -/
theorem foldl_tables (config : Config) :
    config.tables.foldl Scan.step [.region '{' '}' 2] = [.region '{' '}' 0] := by
  have hmiddle : Scan.Keeps middle := Scan.keeps_of_isMild (List.all_eq_true.mp (by decide))
  have hback : back.foldl Scan.step [.region '{' '}' 2] = [.region '{' '}' 0] := by decide
  rw [tables, List.foldl_append, keeps_block, List.foldl_append, hmiddle, List.foldl_append,
    keeps_block, hback]

/-- The exported object is closed by the last brace of the file. -/
theorem exported_region (config : Config) : ∃ before exported,
    Text.cut? "module.exports = ".toList config.render.toList = some (before, exported) ∧
    Scan.regionAt? config.render.toList (before.length + "module.exports = ".toList.length : Nat)
      (.singleton '{') (.singleton '}') = some exported := by
  obtain ⟨⟨before, inner, hcut, hinner⟩, -⟩ := cut?_front
  have hrun : Scan.run [.region '{' '}' 0] (inner ++ config.tables ++ ['}']) =
      some (inner ++ config.tables ++ ['}'], []) := by
    apply Scan.run_of_foldl
    rw [List.foldl_append, hinner, foldl_tables]
  have htake : Scan.takeBraces? ('{' :: (inner ++ config.tables ++ ['}'])) =
      some ('{' :: (inner ++ config.tables ++ ['}']), []) := by
    rw [Scan.takeBraces?_cons_brace, hrun]
    rfl
  have htail := Text.cut?_append_right hcut (config.tables ++ ['}'])
  rw [← toList_render, List.cons_append, ← List.append_assoc] at htail
  exact ⟨before, _, htail, Scan.regionAt?_of_cut? htail htake⟩

/-- The table of colours is closed by its own brace. -/
theorem colors_region (config : Config) : ∃ before written after,
    Text.cut? "colors: ".toList config.render.toList = some (before, written ++ after) ∧
    Scan.regionAt? config.render.toList (before.length + "colors: ".toList.length : Nat)
      (.singleton '{') (.singleton '}') = some written ∧
    written = (Json.object config.colors).render.toList.flatMap fun c =>
      if c = '\n' then "\n      ".toList else [c] := by
  obtain ⟨-, before, hcut⟩ := cut?_front
  have htail := Text.cut?_append_right hcut (config.tables ++ ['}'])
  rw [← toList_render, List.nil_append, tables, List.append_assoc] at htail
  have hkeeps := (Json.isLaidOut_objectInside 0 3 config.colors).keeps
  have htake := hkeeps.takeBraces?
    (middle ++ ((block (.object config.fontFamilies)).toList ++ back) ++ ['}'])
  rw [← Json.toList_renderAt_object, ← toList_block] at htake
  refine ⟨before, _, _, htail, Scan.regionAt?_of_cut? htail htake, ?_⟩
  rw [block, String.toList_ofList]
  simp only [beq_iff_eq]

end Config

/-- Every palette with a table of colours gives a file for every locale, unless a colour is a number
with too many digits. The object after `module.exports = ` is all the rest of the file, and the one
after `colors: ` is the written table of colours, six blanks after each of its line breaks. -/
theorem render_reads_as_regions (colorTable : Fields Json) (typography : Json) (withLegacy : Bool)
    (locale : String) :
    ∃ config, configure ⟨.object colorTable, typography⟩ withLegacy (.named locale) = .ok config ∧
      colors ⟨.object colorTable, typography⟩ withLegacy = .ok config.colors ∧
      ((Json.object colorTable).isShowable = true → config.text = .ok config.render) ∧
      (∃ before exported,
        Text.cut? "module.exports = ".toList config.render.toList = some (before, exported) ∧
        Scan.regionAt? config.render.toList (before.length + "module.exports = ".toList.length : Nat)
          (.singleton '{') (.singleton '}') = some exported) ∧
      ∃ before written after,
        Text.cut? "colors: ".toList config.render.toList = some (before, written ++ after) ∧
        Scan.regionAt? config.render.toList (before.length + "colors: ".toList.length : Nat)
          (.singleton '{') (.singleton '}') = some written ∧
        written = (Json.object config.colors).render.toList.flatMap fun c =>
          if c = '\n' then "\n      ".toList else [c] := by
  have hcolors : ∃ fields, colors ⟨.object colorTable, typography⟩ withLegacy = .ok fields ∧ _ :=
    exists_colors rfl withLegacy
  obtain ⟨fields, hcolors, -⟩ := hcolors
  obtain ⟨families, hfamilies⟩ : ∃ families, fontFamilies (.named locale) = .ok families := ⟨_, rfl⟩
  refine ⟨⟨fields, families⟩, ?_, hcolors, fun hs => ?_, Config.exported_region _,
    Config.colors_region _⟩
  · rw [configure, hcolors, hfamilies]
    rfl
  · exact Config.text_of_isShowable (isShowable_of_mem_colors hcolors hs)
      (isShowable_of_mem_fontFamilies hfamilies)

end Tailwind

end Restyle
