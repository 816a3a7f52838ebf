import DesignTokens.Proofs.Json.RoundTrip
import DesignTokens.Proofs.Number.Order
import DesignTokens.Proofs.Number.Places
import DesignTokens.Proofs.Palette.Hue
import DesignTokens.Proofs.Palette.Readable

/-!
# Figures in documents

In the JSON of a set luminances and contrast ratios are rounded to a few decimal places.  `roundTo`
is monotone, so that the rounded figures of a palette are ordered as the unrounded ones, and the
bounds of a figure, which have few places themselves, bound the rounded figure too
(`Palette.hasFigures_view`).  All of them are finite, and the JSON is read back as it was
(`TokenSet.image_view`).
-/

namespace DesignTokens

open Number

/-- Under a key a value has eleven floats in `[low, high]`, each of which is in the relation `order`
to all after it. -/
def Datum.HasFigures (datum : Datum) (key : String) (low high : Float)
    (order : Float → Float → Prop) : Prop :=
  ∃ xs : List Float,
    datum.valuesOf key = xs.map .float ∧ xs.length = 11 ∧ (∀ x ∈ xs, low ≤ x ∧ x ≤ high) ∧
    xs.Pairwise order

/-! ### Shades -/

/-- A shade with a key and with figures of the range that they can have. -/
structure Shade.InRange (shade : Shade) : Prop where
  key : shade.key ∈ keys
  luminance : 0.0 ≤ shade.luminance ∧ shade.luminance ≤ 1.0
  onWhite : 1.0 ≤ shade.onWhite ∧ shade.onWhite ≤ 21.0
  onBlack : 1.0 ≤ shade.onBlack ∧ shade.onBlack ≤ 21.0

namespace Shade

theorem ratio_between (a b : Rgb) : 1.0 ≤ Contrast.ratio a b ∧ Contrast.ratio a b ≤ 21.0 := by
  refine ⟨Contrast.one_le_ratio a b, ?_⟩
  rw [← Contrast.ratio_black_white]
  exact Contrast.ratio_le_black_white a b

theorem inRange_ofHsl {key : ℕ} (hkey : key ∈ keys) (hsl : Hsl) : (ofHsl key hsl).InRange where
  key := hkey
  luminance := by
    rw [luminance_ofHsl, ← Contrast.luminance_black, ← Contrast.luminance_white,
      Contrast.luminance_le_iff, Contrast.luminance_le_iff]
    exact ⟨Contrast.luminance_black_le _, Contrast.luminance_le_white _⟩
  onWhite := by
    rw [onWhite_ofHsl]
    exact ratio_between _ _
  onBlack := by
    rw [onBlack_ofHsl]
    exact ratio_between _ _

/-- Rounding does not change the bounds of a figure. -/
theorem roundTo_bounds :
    roundTo 0.0 4 = 0.0 ∧ roundTo 1.0 4 = 1.0 ∧ roundTo 1.0 2 = 1.0 ∧ roundTo 21.0 2 = 21.0 := by
  decide +kernel

variable {shade : Shade}

theorem InRange.rounded (h : shade.InRange) :
    (0.0 ≤ roundTo shade.luminance 4 ∧ roundTo shade.luminance 4 ≤ 1.0) ∧
      (1.0 ≤ roundTo shade.onWhite 2 ∧ roundTo shade.onWhite 2 ≤ 21.0) ∧
      1.0 ≤ roundTo shade.onBlack 2 ∧ roundTo shade.onBlack 2 ≤ 21.0 := by
  obtain ⟨hzero, hone, hone', htop⟩ := roundTo_bounds
  exact ⟨roundTo_between (by norm_num) hzero hone h.luminance,
    roundTo_between (by norm_num) hone' htop h.onWhite,
    roundTo_between (by norm_num) hone' htop h.onBlack⟩

theorem isWhole_of_mem_keys {key : ℕ} (h : key ∈ keys) : Json.isWhole key = true := by
  revert key
  decide

/-- The view of a shade in range is read back as it is. -/
theorem image_view (h : shade.InRange) : Json.image shade.view = shade.view := by
  obtain ⟨⟨hl, hl'⟩, ⟨hw, hw'⟩, hb, hb'⟩ := h.rounded
  have htop : (21.0 : Float).isFinite = true := by decide
  have hluminance := isFinite_of_le_of_le value_zero.1.finite value_unit.1.finite hl hl'
  have hwhite := isFinite_of_le_of_le value_unit.1.finite htop hw hw'
  have hblack := isFinite_of_le_of_le value_unit.1.finite htop hb hb'
  simp [view, Json.image, Json.imageFields, hluminance, hwhite, hblack, isWhole_of_mem_keys h.key]

end Shade

/-! ### Palettes -/

namespace Palette

theorem inRange_of_mem_generate {hue : Float} {name : String} {shade : Shade}
    (h : shade ∈ (generate hue name).shades) : shade.InRange := by
  obtain ⟨⟨key, s, l⟩, hmem, rfl⟩ := List.mem_map.mp h
  exact Shade.inRange_ofHsl (List.of_mem_zip hmem).1 _

theorem isFinite_roundTo_normalizeHue (hue : Float) :
    (roundTo (normalizeHue hue) 2).isFinite = true := by
  obtain ⟨hfinite, hnonneg, hle⟩ := bounded_normalizeHue hue
  have hbetween : 0.0 ≤ normalizeHue hue ∧ normalizeHue hue ≤ 360.0 := by
    rw [le_iff_value_le value_zero.1.finite hfinite, le_iff_value_le hfinite turn_spec.1,
      value_zero.2, turn_spec.2]
    exact ⟨hnonneg, hle⟩
  have hends : roundTo 0.0 2 = 0.0 ∧ roundTo 360.0 2 = 360.0 := by decide +kernel
  obtain ⟨hlow, hhigh⟩ := roundTo_between (by norm_num) hends.1 hends.2 hbetween
  exact isFinite_of_le_of_le value_zero.1.finite turn_spec.1 hlow hhigh

theorem image_view_generate (hue : Float) (name : String) :
    Json.image (generate hue name).view = (generate hue name).view := by
  have hshades :
      (generate hue name).shades.map (Json.image ∘ Shade.view) =
        (generate hue name).shades.map Shade.view :=
    List.map_congr_left fun shade hshade => Shade.image_view (inRange_of_mem_generate hshade)
  have hhue : (roundTo (generate hue name).hue 2).isFinite = true :=
    isFinite_roundTo_normalizeHue hue
  simp [view, Json.image, Json.imageFields, Json.imageItems_eq_map, hhue, hshades]

/-- A figure that is monotone along every ramp is so in the JSON, within its bounds. -/
theorem hasFigures_view {key : String} {low high : Float} {order : Float → Float → Prop}
    [Trans order order order] (figure : Shade → Float) (places : ℕ)
    (hkey : key ∉ ["name", "kind", "hue", "shades"])
    (hview : ∀ shade : Shade, shade.view.valuesOf key = [.float (roundTo (figure shade) places)])
    (hbounds : ∀ shade : Shade, shade.InRange →
      low ≤ roundTo (figure shade) places ∧ roundTo (figure shade) places ≤ high)
    (horder : ∀ a b : Shade, a.Descends b →
      order (roundTo (figure a) places) (roundTo (figure b) places))
    (hue : Float) (name : String) : (generate hue name).view.HasFigures key low high order := by
  refine ⟨(generate hue name).shades.map fun shade => roundTo (figure shade) places, ?_, ?_, ?_, ?_⟩
  · rw [valuesOf_view hkey, List.map_map, List.map_eq_flatMap]
    exact List.flatMap_congr fun shade _ => hview shade
  · rw [List.length_map]
    exact length_shades_generate hue name
  · intro x hx
    obtain ⟨shade, hshade, rfl⟩ := List.mem_map.mp hx
    exact hbounds shade (inRange_of_mem_generate hshade)
  · refine List.IsChain.pairwise ?_
    rw [List.isChain_map]
    exact (ramp_descends _ _).imp horder

theorem hasFigures_luminance (hue : Float) (name : String) :
    (generate hue name).view.HasFigures "luminance" 0.0 1.0 (· ≥ ·) := by
  refine hasFigures_view Shade.luminance 4 (by decide) ?_ (fun _ h => h.rounded.1) ?_ hue name
  · intro shade
    simp [Shade.view, Datum.valuesOf, Datum.fieldValues]
  · intro a b h
    exact roundTo_mono (by norm_num) h.luminance

theorem hasFigures_onWhite (hue : Float) (name : String) :
    (generate hue name).view.HasFigures "contrast_on_white" 1.0 21.0 (· ≤ ·) := by
  refine hasFigures_view Shade.onWhite 2 (by decide) ?_ (fun _ h => h.rounded.2.1) ?_ hue name
  · intro shade
    simp [Shade.view, Datum.valuesOf, Datum.fieldValues]
  · intro a b h
    exact roundTo_mono (by norm_num) h.onWhite

theorem hasFigures_onBlack (hue : Float) (name : String) :
    (generate hue name).view.HasFigures "contrast_on_black" 1.0 21.0 (· ≥ ·) := by
  refine hasFigures_view Shade.onBlack 2 (by decide) ?_ (fun _ h => h.rounded.2.2) ?_ hue name
  · intro shade
    simp [Shade.view, Datum.valuesOf, Datum.fieldValues]
  · intro a b h
    exact roundTo_mono (by norm_num) h.onBlack

end Palette

/-! ### Sets -/

namespace TokenSet

/-- The view of a generated set at a reduced hue is read back as it is. -/
theorem image_view {set : TokenSet} (h : set.IsGenerated) {hue : Float}
    (hhue : set.baseHue = normalizeHue hue) : Json.image set.view = set.view := by
  have hpalettes :
      set.palettes.map (Json.image ∘ Palette.view) = set.palettes.map Palette.view := by
    refine List.map_congr_left fun palette hpalette => ?_
    obtain ⟨hue, name, rfl⟩ := h palette hpalette
    exact Palette.image_view_generate hue name
  have hfinite : (roundTo set.baseHue 2).isFinite = true := by
    rw [hhue]
    exact Palette.isFinite_roundTo_normalizeHue hue
  simp [view, Json.image, Json.imageFields, Json.imageItems_eq_map, hfinite, hpalettes]

end TokenSet

/-- `roundTo` is monotone on all doubles, `±∞` included.  So at every hue, NaN and `±∞` included,
the view of a set is read back from its JSON, all its floats are finite, and along each of its
palettes the luminance is in `[0, 1]` and antitone, the contrast ratio with white is in `[1, 21]`
and monotone, and that with black is in `[1, 21]` and antitone. -/
theorem exported_figures_keep_order :
    (∀ places : ℕ, places ≤ 308 → ∀ x y : Float, x ≤ y → roundTo x places ≤ roundTo y places) ∧
      ∀ (hue : Float) (name : String), ∀ set ∈ [TokenSet.generate hue, TokenSet.single hue name],
        Json.read? set.toJson = some set.view ∧ (∀ x ∈ set.view.floats, x.isFinite = true) ∧
          ∃ palettes, set.view.get? "palettes" = some (.list palettes) ∧
            palettes.length = set.palettes.length ∧
            ∀ palette ∈ palettes,
              palette.HasFigures "luminance" 0.0 1.0 (· ≥ ·) ∧
                palette.HasFigures "contrast_on_white" 1.0 21.0 (· ≤ ·) ∧
                palette.HasFigures "contrast_on_black" 1.0 21.0 (· ≥ ·) := by
  refine ⟨fun places h x y hxy => roundTo_mono h hxy, ?_⟩
  intro hue name set hset
  obtain ⟨hgenerated, hhue⟩ : set.IsGenerated ∧ set.baseHue = normalizeHue hue := by
    rcases List.mem_pair.mp hset with rfl | rfl
    · exact ⟨TokenSet.isGenerated_generate hue, rfl⟩
    · exact ⟨TokenSet.isGenerated_single hue name, rfl⟩
  have himage := TokenSet.image_view hgenerated hhue
  have hfloats := Json.isFinite_of_mem_floats_image set.view
  rw [himage] at hfloats
  refine ⟨?_, hfloats, set.palettes.map Palette.view, rfl, List.length_map _, ?_⟩
  · exact (Json.read?_pretty set.view).trans (congrArg some himage)
  · intro palette hpalette
    obtain ⟨palette, hmem, rfl⟩ := List.mem_map.mp hpalette
    obtain ⟨hue, name, rfl⟩ := hgenerated palette hmem
    exact ⟨Palette.hasFigures_luminance hue name, Palette.hasFigures_onWhite hue name,
      Palette.hasFigures_onBlack hue name⟩

/-- A double that overflows when it is scaled and one that does not, and the hue NaN. -/
theorem exported_figures_keep_order_overflow :
    (1.0 : Float) ≤ 10.0 ∧ roundTo 1.0 308 ≤ roundTo 10.0 308 ∧
    (roundTo 10.0 308).isFinite = false ∧
      Json.read? (TokenSet.single (0.0 / 0.0) "brand").toJson =
        some (TokenSet.single (0.0 / 0.0) "brand").view := by
  have hle : (1.0 : Float) ≤ 10.0 := by decide
  exact ⟨hle, exported_figures_keep_order.1 308 le_rfl 1.0 10.0 hle, by decide +kernel,
    (exported_figures_keep_order.2 (0.0 / 0.0) "brand"
      _ (List.mem_cons_of_mem _ List.mem_cons_self)).1⟩

end DesignTokens
