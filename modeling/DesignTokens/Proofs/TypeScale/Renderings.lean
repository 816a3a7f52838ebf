import DesignTokens.Proofs.Json.RoundTrip
import DesignTokens.Proofs.Settings.Document
import DesignTokens.Proofs.Text.Lines
import DesignTokens.Proofs.TypeScale.Generate
import DesignTokens.TypeScale.Export

/-!
# The renderings of a scale agree

A generated scale is looked up by index, and it is written as JSON, as a style sheet and as a
Tailwind theme extension.  The four treat an index that is asked for twice in ways of their own, and
still they agree (`renderings_agree`): all show the steps asked for, each with the size that lookup
gives, as often as they were asked for or once under each index.

What a text shows is said of what is read from it: of the document that `Json.read?` makes of it,
and of the sections of its lines.  The style sheet is written from lines without line breaks
(`toCss_eq`), and its headings stand nowhere else in it, so that its sections can be told.
-/

namespace DesignTokens

open Number

namespace TypeScale

variable {options : ScaleOptions} {scale : TypeScale}

/-! ### Lookup -/

/-- Lookup finds the steps asked for and no others. -/
theorem step?_of_generate (h : generate options = .ok scale) (index : ℤ) :
    scale.step? index = if index ∈ options.steps then some (Step.compute options index)
      else none := by
  obtain ⟨-, -, rfl⟩ := generate_eq_ok_iff.mp h
  change (options.steps.map (Step.compute options)).find? (·.index == index) = _
  induction options.steps with
  | nil => rfl
  | cons first indices ih =>
    have hindex : (Step.compute options first).index = first := rfl
    rw [List.map_cons, List.find?_cons, ih, hindex]
    by_cases hfirst : first = index
    · simp [hfirst]
    · simp [beq_false_of_ne hfirst, Ne.symm hfirst]

/-- The size at a step, as lookup gives it. -/
def sizeText? (scale : TypeScale) (index : ℤ) : Option String :=
  (scale.step? index).map fun step => step.clamp.toText

theorem sizeText?_of_generate (h : generate options = .ok scale) (index : ℤ) :
    scale.sizeText? index =
      if index ∈ options.steps then some (Step.compute options index).clamp.toText else none := by
  rw [sizeText?, step?_of_generate h]
  split_ifs <;> rfl

/-! ### JSON -/

theorem isWhole_of_isInt32 {n : ℤ} (h : IsInt32 n) : Json.isWhole n = true := by
  unfold IsInt32 at h
  simp only [Json.isWhole, Bool.and_eq_true, decide_eq_true_eq]
  omega

/-- The fields of an entry of a document that name a step and give its size. -/
def entryFields (entry : Datum) : Option Datum × Option Datum × Option Datum :=
  (entry.get? "step", entry.get? "label", entry.get? "clamp")

theorem entryFields_image_view {index : ℤ} (h : IsInt32 index) (options : ScaleOptions) :
    entryFields (Json.image (Step.compute options index).view) =
      (some (.integer index), some (.text s!"step-{index}"),
        some (.text (Step.compute options index).clamp.toText)) := by
  have hindex : Json.image (.integer index) = .integer index := by
    rw [Json.image, if_pos (isWhole_of_isInt32 h)]
  simp only [entryFields, Json.get?_image]
  refine Prod.ext ?_ rfl
  exact congrArg some hindex

/-- The document has an entry for each index, in their order, with the size that lookup gives. -/
def ShownInJson (scale : TypeScale) (indices : List ℤ) : Prop :=
  ∃ document entries,
    Json.read? scale.toJson = some document ∧ document.get? "steps" = some (.list entries) ∧
    entries.map entryFields =
      indices.map fun index =>
        (some (.integer index), some (.text s!"step-{index}"), (scale.sizeText? index).map .text)

theorem shownInJson (h : generate options = .ok scale)
    (hsteps : ∀ index ∈ options.steps, IsInt32 index) : scale.ShownInJson options.steps := by
  have hsize := sizeText?_of_generate h
  obtain ⟨-, -, rfl⟩ := generate_eq_ok_iff.mp h
  refine ⟨_, _, Json.read?_pretty _, Json.get?_image .., ?_⟩
  rw [Json.imageItems_eq_map, List.map_map, List.map_map, List.map_map]
  refine List.map_congr_left fun index hindex => ?_
  rw [hsize, if_pos hindex]
  exact entryFields_image_view (hsteps index hindex) options

/-! ### Theme extension -/

theorem toString_injective : Function.Injective (toString : ℤ → String) := by
  intro n m h
  exact Int.repr_inj.mp h

/-- The table of sizes of a theme extension. -/
def sizeTable? (document : Datum) : Option Datum :=
  (document.get? "theme").bind fun theme => (theme.get? "extend").bind fun extend =>
    extend.get? "fontSize"

/-- The theme extension has each index once, in the order in which the indices first occur, with the
size that lookup gives. -/
def ShownInTheme (scale : TypeScale) (indices : List ℤ) : Prop :=
  ∃ body document fields, scale.toTailwind = "module.exports = " ++ body ++ ";\n" ∧
    Json.read? body = some document ∧ sizeTable? document = some (.table fields) ∧
    fields.map Prod.fst = indices.eraseDups.map toString ∧ (fields.map Prod.fst).Nodup ∧
    ∀ index : ℤ, fields.lookup (toString index) = (scale.sizeText? index).map .text

theorem shownInTheme (h : generate options = .ok scale) : scale.ShownInTheme options.steps := by
  have hsize := sizeText?_of_generate h
  obtain ⟨-, -, rfl⟩ := generate_eq_ok_iff.mp h
  set pairs : List (String × Datum) := options.steps.map fun index =>
    (toString index, .text (Step.compute options index).clamp.toText) with hpairs
  have htable : textTable ((options.steps.map (Step.compute options)).map fun step =>
      (toString step.index, step.clamp.toText)) = .table (Datum.collect pairs) := by
    rw [textTable, List.map_map, List.map_map]
    rfl
  refine ⟨_, _, Json.imageFields (Datum.collect pairs), rfl, Json.read?_pretty _, ?_, ?_, ?_, ?_⟩
  · rw [htable]
    rfl
  · rw [Json.keys_imageFields, Datum.keys_collect, hpairs, List.map_map,
      ← Datum.eraseDups_map toString_injective]
    rfl
  · rw [Json.keys_imageFields]
    exact Datum.nodup_keys_collect pairs
  · intro index
    rw [Json.lookup_imageFields, Datum.lookup_collect, hpairs, ← List.map_reverse,
      Datum.lookup_map toString_injective, hsize]
    simp only [List.mem_reverse]
    split_ifs <;> rfl

/-! ### Style sheet -/

section StyleSheet

open Text

theorem toString_text (text : String) : toString text = text :=
  rfl

/-- The comment at the head of a style sheet, without its line break. -/
def header (options : ScaleOptions) : String :=
  let ratio := options.ratio
  s!"/* Base: {plain options.baseSize}px | Ratio: {ratio.toText} ({plain ratio.value})"
    ++ s!" | Viewport: {plain options.minViewport}px - {plain options.maxViewport}px */"

theorem headerLine_eq (options : ScaleOptions) : headerLine options = unlines [header options] := by
  have hend : "px */\n" = "px */" ++ "\n" := by simp
  unfold headerLine header
  rw [unlines_cons, unlines_nil, String.append_empty, hend]
  simp only [toString_text, String.append_assoc]

/-- The line that declares the size at a step. -/
def sizeLine (index : ℤ) (size : String) : String :=
  s!"  --step-{index}: {size};"

/-- The line that gives text the size at a step. -/
def ruleLine (index : ℤ) : String :=
  s!".text-step-{index} \x7b font-size: var(--step-{index}); \x7d"

theorem declaration_eq (step : Step Float) :
    step.declaration = sizeLine step.index step.clamp.toText ++ "\n" := by
  have hend : ";\n" = ";" ++ "\n" := by simp
  have hname : "  --step-" = "  --" ++ "step-" := by simp
  unfold Step.declaration sizeLine Step.label
  rw [hend, hname]
  simp only [toString_text, String.append_assoc]

theorem utilityClass_eq (step : Step Float) : step.utilityClass = ruleLine step.index ++ "\n" := by
  have hend : "); \x7d\n" = "); \x7d" ++ "\n" := by simp
  have hclass : ".text-step-" = ".text-" ++ "step-" := by simp
  have hname : " \x7b font-size: var(--step-" = " \x7b font-size: var(--" ++ "step-" := by simp
  unfold Step.utilityClass ruleLine Step.label
  rw [hend, hclass, hname]
  simp only [toString_text, String.append_assoc]

/-- The lines that declare tokens under a name. -/
def tokenDeclarations (name : String) (tokens : List (String × String)) : List String :=
  tokens.map fun (token, value) => s!"  --{name}-{token}: {value};"

theorem tokenLines_eq (name : String) (tokens : List (String × String)) :
    tokenLines name tokens = unlines (tokenDeclarations name tokens) := by
  rw [tokenLines, unlines, tokenDeclarations, List.map_map]
  congr 1
  refine List.map_congr_left fun token _ => ?_
  obtain ⟨token, value⟩ := token
  have hend : ";\n" = ";" ++ "\n" := by simp
  simp only [Function.comp_apply, toString_text, hend, String.append_assoc]

/-- The lines between the sizes and the rules: the tokens that go with every scale. -/
def commonLines : List String :=
  ["  /* Line Heights */"] ++
    tokenDeclarations "leading" (lineHeights.map fun (name, value) => (name, plain value))
    ++ ["", "  /* Letter Spacing */"] ++ tokenDeclarations "tracking" letterSpacings
    ++ ["", "  /* Font Weights */"]
    ++ tokenDeclarations "font" (fontWeights.map fun (name, value) => (name, toString value))
    ++ ["\x7d", ""]

/-- The lines that declare the sizes of a scale. -/
def sizeLines (scale : TypeScale) : List String :=
  scale.steps.map fun step => sizeLine step.index step.clamp.toText

/-- The lines of a style sheet above its rules. -/
def linesAbove (scale : TypeScale) : List String :=
  ["/* Typography Scale - Generated */", header scale.options, "", ":root \x7b"] ++
    "  /* Font Sizes */" :: (scale.sizeLines ++ "" :: commonLines)

/-- The rules of a style sheet. -/
def ruleLines (scale : TypeScale) : List String :=
  scale.steps.map fun step => ruleLine step.index

/-- A style sheet line by line. -/
theorem toCss_eq (scale : TypeScale) :
    scale.toCss = unlines (scale.linesAbove ++ "/* Utility Classes */" :: scale.ruleLines) := by
  have hsizes : String.join (scale.steps.map Step.declaration) = unlines scale.sizeLines := by
    rw [unlines, sizeLines, List.map_map]
    exact congrArg String.join (List.map_congr_left fun step _ => declaration_eq step)
  have hrules : String.join (scale.steps.map Step.utilityClass) = unlines scale.ruleLines := by
    rw [unlines, ruleLines, List.map_map]
    exact congrArg String.join (List.map_congr_left fun step _ => utilityClass_eq step)
  have htitle :
      "/* Typography Scale - Generated */\n" = unlines ["/* Typography Scale - Generated */"] := by
    simp [unlines]
  have hroot :
      "\n:root \x7b\n  /* Font Sizes */\n" = unlines ["", ":root \x7b", "  /* Font Sizes */"] := by
    simp [unlines]
  have hheights : "\n  /* Line Heights */\n" = unlines ["", "  /* Line Heights */"] := by
    simp [unlines]
  have hspacing : "\n  /* Letter Spacing */\n" = unlines ["", "  /* Letter Spacing */"] := by
    simp [unlines]
  have hweights : "\n  /* Font Weights */\n" = unlines ["", "  /* Font Weights */"] := by
    simp [unlines]
  have hclasses :
      "\x7d\n\n/* Utility Classes */\n" = unlines ["\x7d", "", "/* Utility Classes */"] := by
    simp [unlines]
  unfold toCss linesAbove commonLines
  rw [htitle, hroot, hheights, hspacing, hweights, hclasses, hsizes, hrules, headerLine_eq,
    tokenLines_eq, tokenLines_eq, tokenLines_eq]
  simp only [← unlines_append, List.append_assoc, List.cons_append, List.nil_append]

/-! ### Line breaks and headings -/

theorem lineBreak_notMem_of_isNumberChar {cs : List Char} (h : ∀ c ∈ cs, isNumberChar c = true) :
    '\n' ∉ cs := by
  intro hmem
  exact absurd (h '\n' hmem) (by decide)

theorem lineBreak_notMem_clamp (clamp : Clamp Float) : '\n' ∉ clamp.toText.toList := by
  have hterm : ∀ x, '\n' ∉ (Clamp.term x).toList := fun x =>
    lineBreak_notMem_of_isNumberChar (isNumberChar_of_mem_fixed two_ne_zero _)
  unfold Clamp.toText
  simp [toString_text, hterm]

theorem lineBreak_notMem_sizeLine (index : ℤ) {size : String} (h : '\n' ∉ size.toList) :
    '\n' ∉ (sizeLine index size).toList := by
  have hindex : '\n' ∉ index.repr.toList :=
    lineBreak_notMem_of_isNumberChar (isNumberChar_of_mem_toString index)
  unfold sizeLine
  simp [toString_text, hindex, h]

theorem lineBreak_notMem_ruleLine (index : ℤ) : '\n' ∉ (ruleLine index).toList := by
  have hindex : '\n' ∉ index.repr.toList :=
    lineBreak_notMem_of_isNumberChar (isNumberChar_of_mem_toString index)
  unfold ruleLine
  simp [toString_text, hindex]

theorem lineBreak_notMem_header (options : ScaleOptions) : '\n' ∉ (header options).toList := by
  have hplain : ∀ x, '\n' ∉ (plain x).toList := fun x =>
    lineBreak_notMem_of_isNumberChar (isNumberChar_of_mem_plain x)
  have hratio : '\n' ∉ options.ratio.toText.toList := by
    cases options.ratio with
    | preset preset => cases preset <;> decide
    | custom x => exact hplain x
  unfold header
  simp [toString_text, hplain, hratio]

/-- The lines that all scales have are single lines, and none is the heading of the rules. -/
theorem commonLines_spec :
    ∀ line ∈ commonLines, '\n' ∉ line.toList ∧ line ≠ "/* Utility Classes */" := by
  decide +kernel

theorem lineBreak_notMem_lines (scale : TypeScale) :
    ∀ line ∈ scale.linesAbove ++ "/* Utility Classes */" :: scale.ruleLines,
      '\n' ∉ line.toList := by
  intro line hline
  simp only [linesAbove, List.mem_append, List.mem_cons, List.not_mem_nil, or_false] at hline
  rcases hline with ((rfl | rfl | rfl | rfl) | rfl | hline | rfl | hline) | rfl | hline
  · decide
  · exact lineBreak_notMem_header scale.options
  · decide
  · decide
  · decide
  · obtain ⟨step, -, rfl⟩ := List.mem_map.mp hline
    exact lineBreak_notMem_sizeLine step.index (lineBreak_notMem_clamp step.clamp)
  · decide
  · exact (commonLines_spec line hline).1
  · decide
  · obtain ⟨step, -, rfl⟩ := List.mem_map.mp hline
    exact lineBreak_notMem_ruleLine step.index

theorem parts_toCss (scale : TypeScale) :
    parts '\n' scale.toCss =
      scale.linesAbove ++ "/* Utility Classes */" :: (scale.ruleLines ++ [""]) := by
  rw [toCss_eq, parts_unlines (lineBreak_notMem_lines scale), List.append_assoc, List.cons_append]

theorem sizeLine_ne (index : ℤ) (size : String) :
    sizeLine index size ≠ "" ∧ sizeLine index size ≠ "/* Utility Classes */" := by
  unfold sizeLine
  constructor
  · intro h
    simpa [toString_text] using congrArg String.toList h
  · intro h
    simpa [toString_text] using congrArg String.toList h

theorem ruleLine_ne (index : ℤ) : ruleLine index ≠ "" := by
  unfold ruleLine
  intro h
  simpa [toString_text] using congrArg String.toList h

theorem header_ne (options : ScaleOptions) :
    header options ≠ "  /* Font Sizes */" ∧ header options ≠ "/* Utility Classes */" := by
  unfold header
  constructor
  · intro h
    simpa [toString_text] using congrArg String.toList h
  · intro h
    simpa [toString_text] using congrArg String.toList h

theorem utilityHeading_notMem_linesAbove (scale : TypeScale) :
    "/* Utility Classes */" ∉ scale.linesAbove := by
  intro hmem
  simp only [linesAbove, List.mem_append, List.mem_cons, List.not_mem_nil, or_false] at hmem
  rcases hmem with (hmem | hmem | hmem | hmem) | hmem | hmem | hmem | hmem
  · exact absurd hmem (by decide)
  · exact (header_ne scale.options).2 hmem.symm
  · exact absurd hmem (by decide)
  · exact absurd hmem (by decide)
  · exact absurd hmem (by decide)
  · obtain ⟨step, -, heq⟩ := List.mem_map.mp hmem
    exact (sizeLine_ne step.index step.clamp.toText).2 heq
  · exact absurd hmem (by decide)
  · exact (commonLines_spec _ hmem).2 rfl

theorem mem_linesAbove {line : String} (h : line ∈ scale.sizeLines) : line ∈ scale.linesAbove := by
  unfold linesAbove
  exact List.mem_append_right _ (List.mem_cons_of_mem _ (List.mem_append_left _ h))

/-- The section of sizes has a line for each step and no others. -/
theorem sectionOf_sizes (scale : TypeScale) :
    sectionOf "  /* Font Sizes */" (parts '\n' scale.toCss) = scale.sizeLines := by
  have hfront :
      "  /* Font Sizes */" ∉
        ["/* Typography Scale - Generated */", header scale.options, "", ":root \x7b"] := by
    simp [(header_ne scale.options).1.symm]
  have hbody : "" ∉ scale.sizeLines := by
    intro hmem
    obtain ⟨step, -, heq⟩ := List.mem_map.mp hmem
    exact (sizeLine_ne step.index step.clamp.toText).1 heq
  have hsection :=
    sectionOf_append
      (commonLines ++ "/* Utility Classes */" :: (scale.ruleLines ++ [""])) hfront hbody
  rw [parts_toCss, linesAbove]
  simpa only [List.append_assoc, List.cons_append] using hsection

/-- The section of rules has a line for each step and no others. -/
theorem sectionOf_rules (scale : TypeScale) :
    sectionOf "/* Utility Classes */" (parts '\n' scale.toCss) = scale.ruleLines := by
  have hbody : "" ∉ scale.ruleLines := by
    intro hmem
    obtain ⟨step, -, heq⟩ := List.mem_map.mp hmem
    exact ruleLine_ne step.index heq
  rw [parts_toCss]
  exact sectionOf_append [] (utilityHeading_notMem_linesAbove scale) hbody

theorem takeWhile_parts_toCss (scale : TypeScale) :
    (parts '\n' scale.toCss).takeWhile (· != "/* Utility Classes */") = scale.linesAbove := by
  have habove : ∀ line ∈ scale.linesAbove, (line != "/* Utility Classes */") = true := by
    intro line hline
    rw [bne_iff_ne]
    rintro rfl
    exact utilityHeading_notMem_linesAbove scale hline
  rw [parts_toCss, List.takeWhile_append_of_pos habove, List.takeWhile_cons_of_neg (by simp),
    List.append_nil]

/-- The style sheet has a declaration and a rule for each index, in their order: the declarations
with the sizes that lookup gives, and above the rules that refer to them. -/
structure ShownInCss (scale : TypeScale) (indices : List ℤ) : Prop where
  sizes : (sectionOf "  /* Font Sizes */" (parts '\n' scale.toCss)).map some =
    indices.map fun index => (scale.sizeText? index).map (sizeLine index)
  rules : sectionOf "/* Utility Classes */" (parts '\n' scale.toCss) = indices.map ruleLine
  declared : ∀ index ∈ indices, ∃ size, sizeLine index size ∈
    (parts '\n' scale.toCss).takeWhile (· != "/* Utility Classes */")

theorem shownInCss (h : generate options = .ok scale) : scale.ShownInCss options.steps := by
  have hsize := sizeText?_of_generate h
  obtain ⟨-, -, rfl⟩ := generate_eq_ok_iff.mp h
  refine ⟨?_, ?_, ?_⟩
  · rw [sectionOf_sizes, sizeLines, List.map_map, List.map_map]
    refine List.map_congr_left fun index hindex => ?_
    rw [hsize, if_pos hindex]
    rfl
  · rw [sectionOf_rules, ruleLines, List.map_map]
    rfl
  · intro index hindex
    refine ⟨(Step.compute options index).clamp.toText, ?_⟩
    rw [takeWhile_parts_toCss]
    exact mem_linesAbove (List.mem_map.mpr ⟨_, List.mem_map.mpr ⟨index, hindex, rfl⟩, rfl⟩)

end StyleSheet

/-! ### All renderings -/

/-- Lookup in a generated scale finds the steps asked for, as they are computed, and no others; and
all renderings show these steps with the sizes that lookup gives. -/
theorem renderings_agree (h : generate options = .ok scale)
    (hsteps : ∀ index ∈ options.steps, IsInt32 index) :
    (∀ index, scale.step? index = if index ∈
      options.steps then some (Step.compute options index) else none) ∧
      scale.ShownInJson options.steps ∧ scale.ShownInCss options.steps ∧
      scale.ShownInTheme options.steps :=
  ⟨step?_of_generate h, shownInJson h hsteps, shownInCss h, shownInTheme h⟩

/-- A step that is asked for twice is shown twice, and once where sizes stand under their steps. -/
theorem renderings_agree_repeated :
    ∃ scale, generate repeated = .ok scale ∧ (∀ index ∈ repeated.steps, IsInt32 index) ∧
      (scale.step? 3).isSome = true ∧ scale.step? 2 = none ∧
      scale.ShownInJson [3, -1, 3] ∧ scale.ShownInCss [3, -1, 3] ∧
      scale.ShownInTheme [3, -1, 3] := by
  have hsteps : ∀ index ∈ repeated.steps, IsInt32 index := by decide
  have hscale : generate repeated = .ok ⟨repeated, repeated.steps.map (Step.compute repeated)⟩ :=
    generate_eq_ok_iff.mpr ⟨ScaleOptions.check_eq_ok_iff.mp (by decide), by decide, rfl⟩
  obtain ⟨hstep, hshown⟩ := renderings_agree hscale hsteps
  refine ⟨_, hscale, hsteps, ?_, ?_, hshown⟩
  · rw [hstep]
    rfl
  · rw [hstep]
    rfl

end TypeScale

end DesignTokens
