import DesignTokens.Palette.Basic
import DesignTokens.Proofs.Color.Channel
import DesignTokens.Proofs.Contrast.Ratio

/-!
# Ramps descend

From shade to shade of a palette no channel rises, at any hue: each pair `(s, l)` on either curve
dominates the next one.  Luminance and the contrast with black therefore never rise, and the
contrast with white never falls.  That the two ends differ strictly is seen from greys that stand
between them.
-/

namespace DesignTokens

open Number

/-- From the first shade to the second nothing gets lighter. -/
structure Shade.Descends (first second : Shade) : Prop where
  r : second.color.r ≤ first.color.r
  g : second.color.g ≤ first.color.g
  b : second.color.b ≤ first.color.b
  luminance : second.luminance ≤ first.luminance
  onWhite : first.onWhite ≤ second.onWhite
  onBlack : second.onBlack ≤ first.onBlack

namespace Shade

theorem luminance_ofHsl (key : ℕ) (hsl : Hsl) :
    (ofHsl key hsl).luminance = Contrast.luminance hsl.toRgb := by
  simp only [ofHsl]

theorem onWhite_ofHsl (key : ℕ) (hsl : Hsl) :
    (ofHsl key hsl).onWhite = Contrast.ratio hsl.toRgb .white := by
  simp only [ofHsl, Contrast.ratio]

theorem onBlack_ofHsl (key : ℕ) (hsl : Hsl) :
    (ofHsl key hsl).onBlack = Contrast.ratio hsl.toRgb .black := by
  simp only [ofHsl, Contrast.ratio]

/-- A dominated pair of saturation and lightness gives a shade that is nowhere lighter. -/
theorem descends_of_dominates {upper lower : Float × Float}
    (h : Hsl.Dominates upper lower) (hue : Float) (key key' : ℕ) :
    (ofHsl key ⟨hue, upper.1, upper.2⟩).Descends (ofHsl key' ⟨hue, lower.1, lower.2⟩) := by
  obtain ⟨hr, hg, hb⟩ := Hsl.toRgb_le_of_dominates h hue
  have hl := Contrast.luminance_le_iff.mpr (Contrast.luminance_mono hr hg hb)
  refine ⟨hr, hg, hb, ?_, ?_, ?_⟩
  · rw [luminance_ofHsl, luminance_ofHsl]
    exact hl
  · rw [onWhite_ofHsl, onWhite_ofHsl]
    exact Contrast.ratio_le_of_darker hl
      (Contrast.luminance_le_iff.mpr (Contrast.luminance_le_white _))
  · rw [onBlack_ofHsl, onBlack_ofHsl]
    exact Contrast.ratio_le_of_lighter hl
      (Contrast.luminance_le_iff.mpr (Contrast.luminance_black_le _))

/-- On either curve each pair dominates the next. -/
theorem curve_dominates (kind : PaletteKind) :
    (keys.zip (curve kind)).IsChain fun a b => Hsl.Dominates a.2 b.2 := by
  cases kind <;> decide +kernel

end Shade

namespace Palette

theorem keys_ramp (kind : PaletteKind) (hue : Float) :
    (ramp kind hue).map Shade.key = Shade.keys := by
  cases kind <;> rfl

/-- Every ramp descends, shade by shade. -/
theorem ramp_descends (kind : PaletteKind) (hue : Float) :
    (ramp kind hue).IsChain Shade.Descends := by
  unfold ramp
  rw [List.isChain_map]
  exact (Shade.curve_dominates kind).imp fun a b h => Shade.descends_of_dominates h hue a.1 b.1

/-- The first shade of a ramp is above the grey of lightness 60 and the last one below that of
50. -/
theorem ramp_ends (kind : PaletteKind) (hue : Float) :
    ∃ light dark, (ramp kind hue).find? (·.key == 50) =
      some (Shade.ofHsl 50 ⟨hue, light.1, light.2⟩) ∧
      (ramp kind hue).find? (·.key == 950) = some (Shade.ofHsl 950 ⟨hue, dark.1, dark.2⟩) ∧
      Hsl.Dominates light (0.0, 60.0) ∧ Hsl.Dominates (0.0, 50.0) dark := by
  cases kind with
  | chromatic => exact ⟨(95.0, 97.0), (95.0, 12.0), rfl, rfl, by decide +kernel, by decide +kernel⟩
  | neutral => exact ⟨(5.0, 98.0), (5.0, 4.0), rfl, rfl, by decide +kernel, by decide +kernel⟩

/-- The greys of lightness 60 and 50 have different contrasts with white and with black. -/
theorem grey_contrast :
    value (Contrast.ratio (Hsl.grey 50.0) .black) < value (Contrast.ratio (Hsl.grey 60.0) .black) ∧
      value (Contrast.ratio (Hsl.grey 60.0) .white) <
        value (Contrast.ratio (Hsl.grey 50.0) .white) := by
  decide +kernel

/-- The ends of a ramp are strictly apart in contrast. -/
theorem ramp_ends_apart {light dark : Float × Float} (hlight : Hsl.Dominates light (0.0, 60.0))
    (hdark : Hsl.Dominates (0.0, 50.0) dark) (hue : Float) :
    (Shade.ofHsl 950 ⟨hue, dark.1, dark.2⟩).onBlack <
      (Shade.ofHsl 50 ⟨hue, light.1, light.2⟩).onBlack ∧
      (Shade.ofHsl 50 ⟨hue, light.1, light.2⟩).onWhite <
        (Shade.ofHsl 950 ⟨hue, dark.1, dark.2⟩).onWhite := by
  -- between the ends lie two greys, which are apart and do not depend on the hue
  have hupper := Shade.descends_of_dominates hlight hue 50 0
  have hlower := Shade.descends_of_dominates hdark hue 0 950
  have hblack := hupper.onBlack
  have hblack' := hlower.onBlack
  have hwhite := hupper.onWhite
  have hwhite' := hlower.onWhite
  simp only [Shade.onBlack_ofHsl, Shade.onWhite_ofHsl, Hsl.toRgb_of_saturation_zero,
    le_iff_value_le (Contrast.ratio_isFinite _ _) (Contrast.ratio_isFinite _ _)]
    at hblack hblack' hwhite hwhite'
  rw [Shade.onBlack_ofHsl, Shade.onBlack_ofHsl, Shade.onWhite_ofHsl, Shade.onWhite_ofHsl,
    lt_iff_value_lt (Contrast.ratio_isFinite _ _) (Contrast.ratio_isFinite _ _),
    lt_iff_value_lt (Contrast.ratio_isFinite _ _) (Contrast.ratio_isFinite _ _)]
  exact ⟨(hblack'.trans_lt grey_contrast.1).trans_le hblack,
    (hwhite.trans_lt grey_contrast.2).trans_le hwhite'⟩

/-- A generated palette has its eleven shades in order; from shade to shade nothing gets lighter,
and its lightest and darkest shades are strictly apart in their contrast with black and with
white. -/
theorem generate_descends (baseHue : Float) (name : String) :
    (generate baseHue name).shades.map Shade.key =
      [50, 100, 200, 300, 400, 500, 600, 700, 800, 900, 950] ∧
      (generate baseHue name).shades.IsChain Shade.Descends ∧
      ∃ light dark, (generate baseHue name).shade? 50 = some light ∧
        (generate baseHue name).shade? 950 = some dark ∧
        dark.onBlack < light.onBlack ∧ light.onWhite < dark.onWhite := by
  refine ⟨keys_ramp _ _, ramp_descends _ _, ?_⟩
  obtain ⟨light, dark, hfirst, hlast, hlight, hdark⟩ :=
    ramp_ends (PaletteKind.ofPaletteName name) (normalizeHue baseHue)
  obtain ⟨hblack, hwhite⟩ := ramp_ends_apart hlight hdark (normalizeHue baseHue)
  exact ⟨_, _, hfirst, hlast, hblack, hwhite⟩

end Palette

end DesignTokens
