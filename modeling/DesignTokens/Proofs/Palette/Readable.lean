import DesignTokens.Proofs.Command.Contrast
import DesignTokens.Proofs.Json.RoundTrip
import DesignTokens.Proofs.Palette.Ramp

/-!
# Every shade is readable

But for rounding, the contrast ratios of a colour with white and with black multiply to 21, so that
one of them is at least 4.5, which AA requires of normal text.  So every shade of every palette
passes AA, at any hue and under any name, and the JSON and the table that are printed say so
(`every_shade_is_readable`).
-/

namespace DesignTokens

open Number

/-! ### Shades -/

namespace Shade

/-- A shade passes a level exactly if its colour does, as normal text on white or on black. -/
theorem passes_ofHsl (key : ℕ) (hsl : Hsl) (level : Level) :
    (ofHsl key hsl).passes level =
      ((Verdict.evaluate (ofHsl key hsl).color .white level false).passes ||
        (Verdict.evaluate (ofHsl key hsl).color .black level false).passes) := by
  unfold passes
  rw [onWhite_ofHsl, onBlack_ofHsl]
  rfl

theorem passes_aa_ofHsl (key : ℕ) (hsl : Hsl) : (ofHsl key hsl).passes .aa = true := by
  rw [passes_ofHsl, Bool.or_eq_true, Verdict.passes_evaluate_iff, Verdict.passes_evaluate_iff]
  exact Contrast.le_ratio_white_or_black _

/-- The grade of a shade that passes AA is AA or AAA. -/
theorem grade_of_passes_aa {shade : Shade} (h : shade.passes .aa = true) :
    Report.grade shade = "AA" ∨ Report.grade shade = "AAA" := by
  unfold Report.grade
  split_ifs
  · exact .inr rfl
  · exact .inl rfl

theorem valuesOf_view (shade : Shade) :
    shade.view.valuesOf "passes_aa" = [.bool (shade.passes .aa)] := by
  simp [view, Datum.valuesOf, Datum.fieldValues]

end Shade

/-! ### Palettes and sets -/

namespace Palette

theorem exists_ofHsl_of_mem_generate {hue : Float} {name : String} {shade : Shade}
    (h : shade ∈ (generate hue name).shades) : ∃ key hsl, shade = .ofHsl key hsl := by
  obtain ⟨⟨key, s, l⟩, -, rfl⟩ := List.mem_map.mp h
  exact ⟨key, _, rfl⟩

theorem passes_aa_of_mem_generate {hue : Float} {name : String} {shade : Shade}
    (h : shade ∈ (generate hue name).shades) : shade.passes .aa = true := by
  obtain ⟨key, hsl, rfl⟩ := exists_ofHsl_of_mem_generate h
  exact Shade.passes_aa_ofHsl key hsl

theorem length_shades_generate (hue : Float) (name : String) :
    (generate hue name).shades.length = 11 := by
  have hkeys := congrArg List.length (keys_ramp (PaletteKind.ofPaletteName name) (normalizeHue hue))
  rwa [List.length_map] at hkeys

/-- A key that is not one of a palette itself occurs in its shades only. -/
theorem valuesOf_view {key : String} (h : key ∉ ["name", "kind", "hue", "shades"])
    (palette : Palette) :
    palette.view.valuesOf key = palette.shades.flatMap fun shade => shade.view.valuesOf key := by
  simp only [List.mem_cons, not_or, @eq_comm _ key] at h
  simp [view, Datum.valuesOf, Datum.fieldValues, Datum.itemValues_map, h]

theorem valuesOf_view_generate (hue : Float) (name : String) :
    (generate hue name).view.valuesOf "passes_aa" = List.replicate 11 (.bool true) := by
  rw [valuesOf_view (by decide), funext Shade.valuesOf_view, ← List.map_eq_flatMap,
    List.eq_replicate_iff, List.length_map]
  refine ⟨length_shades_generate hue name, ?_⟩
  intro datum hdatum
  obtain ⟨shade, hshade, rfl⟩ := List.mem_map.mp hdatum
  rw [passes_aa_of_mem_generate hshade]

end Palette

namespace TokenSet

/-- A set whose palettes were all generated, at any hues and under any names. -/
def IsGenerated (set : TokenSet) : Prop :=
  ∀ palette ∈ set.palettes, ∃ hue name, palette = .generate hue name

theorem isGenerated_generate (hue : Float) : (generate hue).IsGenerated := by
  intro palette hpalette
  obtain ⟨⟨name, hue⟩, -, rfl⟩ := List.mem_map.mp hpalette
  exact ⟨hue, name, rfl⟩

theorem isGenerated_single (hue : Float) (name : String) : (single hue name).IsGenerated := by
  intro palette hpalette
  obtain rfl := List.mem_singleton.mp hpalette
  exact ⟨hue, name, rfl⟩

theorem isGenerated_of_requestedSet {hue : Float} {name : Option String} {set : TokenSet}
    (h : requestedSet hue name = .ok set) : set.IsGenerated := by
  cases name with
  | none =>
    obtain rfl := Except.ok.inj h
    exact isGenerated_generate hue
  | some name =>
    unfold requestedSet at h
    dsimp only at h
    split_ifs at h
    obtain rfl := Except.ok.inj h
    exact isGenerated_single hue (Text.trim name)

theorem valuesOf_view (set : TokenSet) :
    set.view.valuesOf "passes_aa" = set.palettes.flatMap fun palette =>
      palette.view.valuesOf "passes_aa" := by
  simp [view, Datum.valuesOf, Datum.fieldValues, Datum.itemValues_map]

/-- `passes_aa` is true for each shade in the view of a generated set. -/
theorem valuesOf_view_of_isGenerated {set : TokenSet} (h : set.IsGenerated) :
    set.view.valuesOf "passes_aa" = List.replicate (11 * set.palettes.length) (.bool true) := by
  rw [valuesOf_view]
  unfold IsGenerated at h
  generalize set.palettes = palettes at h ⊢
  -- the palettes are gone through one by one, each with its eleven shades
  induction palettes with
  | nil => rfl
  | cons palette palettes ih =>
    rw [List.forall_mem_cons] at h
    obtain ⟨⟨hue, name, rfl⟩, hrest⟩ := h
    rw [List.flatMap_cons, Palette.valuesOf_view_generate, ih hrest,
      List.replicate_append_replicate, List.length_cons, Nat.mul_succ, Nat.add_comm]

/-- What the command for a palette prints, unless it fails, is a generated set. -/
theorem exists_isGenerated_of_run {hue : Option Float} {name : Option String} {format : Format}
    {files : Files} {directory : Place}
    (h : (Command.run (.palette hue name format) files directory).1.failure = none) :
    ∃ set : TokenSet, set.IsGenerated ∧
      (Command.run (.palette hue name format) files directory).1.output = set.render format := by
  obtain ⟨houtput, hfailure⟩ := withSettings_spec files directory (run hue name format)
  change (withSettings files directory (run hue name format)).failure = none at h
  change ∃ set : TokenSet, _ ∧ (withSettings files directory (run hue name format)).output = _
  rw [hfailure] at h
  rw [houtput]
  unfold run at h ⊢
  cases hset : requestedSet (hue.getD (Settings.inUse files directory).baseHue) name with
  | error failure => simp [hset, Outcome.failed] at h
  | ok set => exact ⟨set, isGenerated_of_requestedSet hset, rfl⟩

end TokenSet

/-! ### What is printed -/

/-- The last column of the row of a shade is its grade. -/
theorem Report.exists_shadeLine_eq (shade : Shade) :
    ∃ figures, Report.shadeLine shade = figures ++ "  " ++ Report.grade shade := by
  unfold Report.shadeLine Report.shadeColumns
  rw [← String.append_assoc, ← String.append_assoc]
  exact ⟨_, rfl⟩

/-- The rows of a palette follow its title and the names of the columns, one row for each of its
eleven shades, and the last column says AA or AAA. -/
theorem Palette.paletteLines_generate (hue : Float) (name : String) :
    (∃ title columns, Report.paletteLines (generate hue name) =
      title :: columns :: (generate hue name).shades.map Report.shadeLine) ∧
    (generate hue name).shades.length = 11 ∧
    ∀ shade ∈ (generate hue name).shades,
      (∃ figures, Report.shadeLine shade = figures ++ "  " ++ Report.grade shade) ∧
      (Report.grade shade = "AA" ∨ Report.grade shade = "AAA") := by
  refine ⟨⟨_, _, rfl⟩, length_shades_generate hue name, ?_⟩
  intro shade hshade
  exact ⟨Report.exists_shadeLine_eq shade,
    Shade.grade_of_passes_aa (passes_aa_of_mem_generate hshade)⟩

/-- The JSON of a generated set, read back, has `passes_aa` once for each shade, and it is true. -/
theorem TokenSet.exists_read?_render {set : TokenSet} (h : set.IsGenerated) :
    ∃ document, Json.read? (set.render .json) = some document ∧
      document.valuesOf "passes_aa" = List.replicate (11 * set.palettes.length) (.bool true) := by
  refine ⟨_, Json.read?_pretty_append set.view "\n" (by simp [Json.isSpace]), ?_⟩
  rw [Json.valuesOf_image, valuesOf_view_of_isGenerated h, List.map_replicate]
  rfl

/-- Every colour has contrast ratio 4.5 with white or with black, so every shade of every palette
passes AA, and a shade passes any level exactly if its colour does on white or on black.  What the
command for a palette prints says so: in the JSON, read back, `passes_aa` is true for each shade,
and in the table every row of a shade ends in AA or AAA. -/
theorem every_shade_is_readable :
    (∀ color, 4.5 ≤ Contrast.ratio color .white ∨ 4.5 ≤ Contrast.ratio color .black) ∧
    (∀ hue name, ∀ shade ∈ (Palette.generate hue name).shades,
      shade.passes .aa = true ∧
      ∀ level, shade.passes level =
        ((Verdict.evaluate shade.color .white level false).passes ||
          (Verdict.evaluate shade.color .black level false).passes)) ∧
    (∀ set : TokenSet, set.IsGenerated →
      set.view.valuesOf "passes_aa" = List.replicate (11 * set.palettes.length) (.bool true) ∧
      ∃ document, Json.read? (set.render .json) = some document ∧
        document.valuesOf "passes_aa" = List.replicate (11 * set.palettes.length) (.bool true)) ∧
    ∀ hue name format files directory,
      (Command.run (.palette hue name format) files directory).1.failure = none →
      ∃ set : TokenSet, set.IsGenerated ∧
        (Command.run (.palette hue name format) files directory).1.output = set.render format ∧
        (∃ heading, set.render .text =
          Text.unlines (heading :: set.palettes.flatMap fun palette =>
            "" :: Report.paletteLines palette)) ∧
        ∀ palette ∈ set.palettes,
          (∃ title columns, Report.paletteLines palette =
            title :: columns :: palette.shades.map Report.shadeLine) ∧
          palette.shades.length = 11 ∧
          ∀ shade ∈ palette.shades,
            (∃ figures, Report.shadeLine shade = figures ++ "  " ++ Report.grade shade) ∧
            (Report.grade shade = "AA" ∨ Report.grade shade = "AAA") := by
  refine ⟨Contrast.le_ratio_white_or_black, ?_, ?_, ?_⟩
  · intro hue name shade hshade
    obtain ⟨key, hsl, rfl⟩ := Palette.exists_ofHsl_of_mem_generate hshade
    exact ⟨Shade.passes_aa_ofHsl key hsl, Shade.passes_ofHsl key hsl⟩
  · intro set hgenerated
    exact ⟨TokenSet.valuesOf_view_of_isGenerated hgenerated,
      TokenSet.exists_read?_render hgenerated⟩
  · intro hue name format files directory hsucceeds
    obtain ⟨set, hgenerated, houtput⟩ := TokenSet.exists_isGenerated_of_run hsucceeds
    refine ⟨set, hgenerated, houtput, ⟨_, rfl⟩, ?_⟩
    intro palette hpalette
    obtain ⟨hue, name, rfl⟩ := hgenerated palette hpalette
    exact Palette.paletteLines_generate hue name

/-- Shade 950 of a neutral palette, and what is printed at the hue NaN, as JSON and as a table. -/
theorem every_shade_is_readable_nan :
    (∃ shade ∈ (Palette.generate 220.0 "neutral").shades,
      shade.key = 950 ∧ shade.passes .aa = true) ∧
    (TokenSet.generate nan).IsGenerated ∧
      (TokenSet.generate nan).view.valuesOf "passes_aa" = List.replicate 44 (.bool true) ∧
      (∃ document, Json.read? ((TokenSet.generate nan).render .json) = some document ∧
        document.valuesOf "passes_aa" = List.replicate 44 (.bool true)) ∧
    (Command.run (.palette (some nan) none .text) .empty ⟨"", []⟩).1.failure = none ∧
      ∃ (set : TokenSet) (heading : String),
        (Command.run (.palette (some nan) none .text) .empty ⟨"", []⟩).1.output =
          Text.unlines (heading :: set.palettes.flatMap fun palette =>
            "" :: Report.paletteLines palette) ∧
        ∀ palette ∈ set.palettes, ∀ shade ∈ palette.shades,
          (∃ figures, Report.shadeLine shade = figures ++ "  " ++ Report.grade shade) ∧
          (Report.grade shade = "AA" ∨ Report.grade shade = "AAA") := by
  obtain ⟨-, hshades, hjson, hcommand⟩ := every_shade_is_readable
  obtain ⟨-, dark, -, hdark, -, -⟩ := Palette.ramp_ends .neutral (normalizeHue 220.0)
  have hmem := List.mem_of_find?_eq_some hdark
  have hgenerated := TokenSet.isGenerated_generate nan
  have hsucceeds :
      (Command.run (.palette (some nan) none .text) .empty ⟨"", []⟩).1.failure = none :=
    (withSettings_spec .empty ⟨"", []⟩ (TokenSet.run (some nan) none .text)).2
  obtain ⟨set, -, houtput, ⟨heading, htext⟩, hrows⟩ :=
    hcommand (some nan) none .text .empty ⟨"", []⟩ hsucceeds
  exact ⟨⟨_, hmem, rfl, (hshades 220.0 "neutral" _ hmem).1⟩, hgenerated, (hjson _ hgenerated).1,
    (hjson _ hgenerated).2, hsucceeds, set, heading, houtput.trans htext,
    fun palette hpalette => (hrows palette hpalette).2.2⟩

end DesignTokens
