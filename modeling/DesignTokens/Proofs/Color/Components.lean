import DesignTokens.Proofs.Color.Range
import DesignTokens.Proofs.Color.Saturation

/-!
# The ranges of hue, saturation and lightness

Over `ℚ` the components of a colour lie in `[0, 360)`, `[0, 100]` and `[0, 100]`.  In doubles hue
and lightness still do: the quotient that the hue is made from is in `[-1, 1]`, and where it is
negative it is at most `-1/256`, so that adding 6 does not round to 6 (`turns_bounds`,
`wrap_turns_bounds`).  The saturation depends on the maximum and the minimum of the channels alone
(`toHsl_eq`), and is above 100 exactly for those that `overshoots` lists
(`components_stay_in_range`).
-/

namespace DesignTokens

open Number

namespace Rgb

/-! ### Components by the greatest and the least channel -/

theorem least_le_greatest (color : Rgb) : color.least ≤ color.greatest :=
  (min_le_right _ _).trans (le_max_right _ _)

theorem greatest_lt (color : Rgb) : color.greatest < 256 :=
  max_lt (max_lt color.r.toNat_lt color.g.toNat_lt) color.b.toNat_lt

theorem least_eq_greatest_iff (color : Rgb) :
    color.least = color.greatest ↔ color.r = color.g ∧ color.g = color.b := by
  unfold least greatest
  rw [← UInt8.toNat_inj, ← UInt8.toNat_inj]
  omega

/-- The three components; saturation and lightness depend on the maximum and the minimum of the
channels alone. -/
theorem toHsl_eq (color : Rgb) :
    color.toHsl =
      if color.least = color.greatest then ⟨0.0, 0.0, lightness color.greatest color.least * 100.0⟩
      else
        ⟨hue (part color.r.toNat) (part color.g.toNat) (part color.b.toNat) (part color.greatest)
            (part color.greatest - part color.least),
          saturation color.greatest color.least * 100.0,
          lightness color.greatest color.least * 100.0⟩ := by
  have hr : color.r.toNat < 256 := color.r.toNat_lt
  have hg : color.g.toNat < 256 := color.g.toNat_lt
  have hb : color.b.toNat < 256 := color.b.toNat_lt
  have hgreatest :
      max (max (part color.r.toNat) (part color.g.toNat)) (part color.b.toNat) =
        part color.greatest := by
    rw [max_part hr hg, max_part (max_lt hr hg) hb, greatest]
  have hleast :
      min (min (part color.r.toNat) (part color.g.toNat)) (part color.b.toNat) =
        part color.least := by
    rw [min_part hr hg, min_part (min_lt_of_left_lt hr) hb, least]
  unfold toHsl
  dsimp only
  rw [← part_toNat, ← part_toNat, ← part_toNat, hgreatest, hleast]
  refine if_congr ?_ rfl rfl
  exact range_beq_zero_iff (color.least_le_greatest.trans_lt color.greatest_lt) color.greatest_lt
    color.least_le_greatest

theorem lightness_bounded (greatest least : ℕ) :
    Bounded 100 (lightness greatest least * 100.0) := by
  obtain ⟨htwo, hvalue⟩ : Bounded 2 2.0 ∧ value 2.0 = 2 := value_literal 2 (by decide)
  have hhundred : Bounded 100 100.0 := (value_literal 100 (by decide)).1
  have hsum := ((part_bounded greatest).add (part_bounded least) (by norm_num)).1
  have hhalf := div_roundsTo hsum.finite htwo.finite (by rw [hvalue]; norm_num)
  rw [hvalue] at hhalf
  have hle : value (part greatest + part least) ≤ 2 := by exact_mod_cast hsum.le
  have hbounded :=
    (hhalf.bounded (m := 1) (by linarith [hsum.nonneg]) (by push_cast; linarith) (by norm_num)).1
  exact (hbounded.mul hhundred (by norm_num)).1

theorem lightness_in_range (greatest least : ℕ) :
    0.0 ≤ lightness greatest least * 100.0 ∧ lightness greatest least * 100.0 ≤ 100.0 := by
  have hlightness := lightness_bounded greatest least
  have hhundred : Close 0 100.0 100 := Close.literal 100 (by decide)
  rw [le_iff_value_le value_zero.1.finite hlightness.finite,
    le_iff_value_le hlightness.finite hhundred.finite, value_zero.2, hhundred.value_eq]
  exact ⟨hlightness.nonneg, by simpa using hlightness.le⟩

/-- `0 < saturation < 100 + 10 ^ -9`. -/
theorem saturation_in_range {greatest least : ℕ} (hlt : least < greatest) (hbyte : greatest < 256) :
    0.0 ≤ saturation greatest least * 100.0 ∧ saturation greatest least * 100.0 < 100.000000001 ∧
      saturation greatest least * 100.0 ≠ 0.0 := by
  have hfinite := (close_saturation_percent hlt hbyte).finite
  obtain ⟨hpos, hle⟩ := saturation_bounds hlt hbyte
  obtain ⟨hmore, hvalue⟩ : Bounded 101 100.000000001 ∧ 100 + 2 ^ (-31 : ℤ) ≤ value 100.000000001 :=
    ⟨(literal_spec 101 (by decide)).1,
      le_value_literal ⟨100 * 2 ^ 31 + 1, -31, by norm_num, by norm_num, by norm_num⟩ 101
        (by decide) (by norm_num)⟩
  have hsmall : (2 : ℚ) ^ (-32 : ℤ) < 2 ^ (-31 : ℤ) := by norm_num
  refine ⟨?_, ?_, ?_⟩
  · rw [le_iff_value_le value_zero.1.finite hfinite, value_zero.2]
    exact hpos.le
  · rw [lt_iff_value_lt hfinite hmore.finite]
    linarith
  · intro hnone
    have hzero : value (saturation greatest least * 100.0) = 0 :=
      (congrArg value hnone).trans value_zero.2
    exact hpos.ne' hzero

/-! ### Hue -/

section Hue

variable {x y z greatest least : Float}

/-- `(y - z) / (max - min)`, from which the hue is made, is in `[-1, 1]`.  Where it is negative it
is so by more than one rounding. -/
theorem turns_bounds (hy : Bounded 1 y) (hz : Bounded 1 z) (hgreatest : Bounded 1 greatest)
    (hleast : Bounded 1 least) (hlt : value least < value greatest)
    (hyz : |value y - value z| ≤ value greatest - value least)
    (hapart : value y < value z → value y + 1 / 256 ≤ value z) :
    ((y - z) / (greatest - least)).isFinite = true ∧ |value ((y - z) / (greatest - least))| ≤ 1 ∧
      (value ((y - z) / (greatest - least)) < 0 →
        value ((y - z) / (greatest - least)) ≤ -(1 / 256)) := by
  obtain ⟨hrange, hpos, hle, hrangev⟩ := range_spec hgreatest hleast hlt
  have h1 : value greatest ≤ 1 := by simpa using hgreatest.le
  obtain ⟨hdiff, hdiffv, -⟩ :=
    (sub_roundsTo hy.finite hz.finite).of_abs_le_value value_unit.1.finite
      (by rw [value_unit.2, abs_one]; linarith [hleast.nonneg])
  have habs : |value (y - z)| ≤ value (greatest - least) := by
    rw [hdiffv, hrangev, abs_rounded]
    exact rounded_mono hyz
  have hquotient := div_roundsTo hdiff hrange hpos.ne'
  obtain ⟨hfinite, hvalue, hone⟩ := hquotient.of_abs_le_value value_unit.1.finite (by
    rw [value_unit.2, abs_one, abs_div, abs_of_pos hpos, div_le_one hpos]
    exact habs)
  rw [value_unit.2, abs_one] at hone
  refine ⟨hfinite, hone, ?_⟩
  intro hneg
  -- the quotient is negative only if the difference is, and then the channels are apart
  have hgrid : OnGrid (-(1 / 256)) := ⟨-1, -8, by norm_num, by norm_num, by norm_num⟩
  have hchannels : value y < value z := by
    by_contra hge
    have hnonneg : 0 ≤ value (y - z) := hdiffv ▸ rounded_nonneg (by linarith)
    exact absurd (hvalue ▸ rounded_nonneg (div_nonneg hnonneg hpos.le)) (not_le.mpr hneg)
  have hdiff' : value (y - z) ≤ -(1 / 256) :=
    hdiffv ▸ rounded_le hgrid (by linarith [hapart hchannels])
  rw [hvalue]
  refine rounded_le hgrid ?_
  rw [div_le_iff₀ hpos]
  linarith

/-- `60 · x < 360` for `x` below 6 by one part in 256 of a turn. -/
theorem degrees_bounds (hx : x.isFinite = true) (h0 : 0 ≤ value x) (h1 : value x ≤ 1535 / 256) :
    (60.0 * x).isFinite = true ∧ 0 ≤ value (60.0 * x) ∧ value (60.0 * x) < 360 := by
  have hsixty : Close 0 60.0 60 := Close.literal 60 (by decide)
  have hround := mul_roundsTo hsixty.finite hx
  rw [hsixty.value_eq] at hround
  obtain ⟨hbounded, hvalue⟩ :=
    hround.bounded (m := 360) (by linarith) (by push_cast; linarith) (by norm_num)
  refine ⟨hbounded.finite, hbounded.nonneg, ?_⟩
  have hle : value (60.0 * x) ≤ 23025 / 64 :=
    hvalue ▸ rounded_le ⟨23025, -6, by norm_num, by norm_num, by norm_num⟩ (by linarith)
  linarith

/-- Turns from the red channel: negative ones are wrapped modulo 6, and stay below 6. -/
theorem wrap_turns_bounds (hx : x.isFinite = true) (habs : |value x| ≤ 1)
    (hapart : value x < 0 → value x ≤ -(1 / 256)) :
    (wrap x 6.0).isFinite = true ∧ 0 ≤ value (wrap x 6.0) ∧ value (wrap x 6.0) ≤ 1535 / 256 := by
  obtain ⟨hlow, hhigh⟩ := abs_le.mp habs
  have hsix : Close 0 6.0 6 := Close.literal 6 (by decide)
  have hround := wrap_roundsTo hx hsix.finite (by rw [hsix.value_eq]; norm_num)
  rw [hsix.value_eq] at hround
  have hturns : 0 ≤ Int.fract (value x / 6) * 6 ∧ Int.fract (value x / 6) * 6 ≤ 1535 / 256 := by
    rcases le_or_gt 0 (value x) with hnonneg | hneg
    · rw [Int.fract_eq_self.mpr ⟨by linarith, by linarith⟩]
      constructor <;> linarith
    · have hfract : Int.fract (value x / 6) = value x / 6 + 1 := by
        rw [← Int.fract_add_one, Int.fract_eq_self]
        constructor <;> linarith
      rw [hfract]
      constructor <;> linarith [hapart hneg]
  obtain ⟨hbounded, hvalue⟩ :=
    hround.bounded (m := 6) hturns.1 (by push_cast; linarith) (by norm_num)
  refine ⟨hbounded.finite, hbounded.nonneg, ?_⟩
  rw [hvalue]
  exact rounded_le ⟨1535, -8, by norm_num, by norm_num, by norm_num⟩ hturns.2

/-- Turns from the green or the blue channel. -/
theorem shifted_turns_bounds {shift : Float} (hx : x.isFinite = true) (habs : |value x| ≤ 1)
    (hshift : shift.isFinite = true) (hlow : 1 ≤ value shift) (hhigh : value shift ≤ 4) :
    (x + shift).isFinite = true ∧ 0 ≤ value (x + shift) ∧ value (x + shift) ≤ 1535 / 256 := by
  obtain ⟨hbelow, habove⟩ := abs_le.mp habs
  obtain ⟨hbounded, -⟩ :=
    (add_roundsTo hx hshift).bounded (m := 5) (by linarith) (by push_cast; linarith) (by norm_num)
  refine ⟨hbounded.finite, hbounded.nonneg, ?_⟩
  have hle : value (x + shift) ≤ 5 := by exact_mod_cast hbounded.le
  linarith

/-- `turns_bounds` for bytes. -/
theorem channel_turns_bounds {c d top bottom : ℕ} (hc : bottom ≤ c ∧ c ≤ top)
    (hd : bottom ≤ d ∧ d ≤ top) (hlt : bottom < top) (hbyte : top < 256) :
    ((part c - part d) / (part top - part bottom)).isFinite = true ∧
      |value ((part c - part d) / (part top - part bottom))| ≤ 1 ∧
      (value ((part c - part d) / (part top - part bottom)) < 0 →
        value ((part c - part d) / (part top - part bottom)) ≤ -(1 / 256)) := by
  have hc256 := hc.2.trans_lt hbyte
  have hd256 := hd.2.trans_lt hbyte
  have hbottom256 := hlt.trans hbyte
  have hclow := (value_part_le_iff hbottom256 hc256).mpr hc.1
  have hchigh := (value_part_le_iff hc256 hbyte).mpr hc.2
  have hdlow := (value_part_le_iff hbottom256 hd256).mpr hd.1
  have hdhigh := (value_part_le_iff hd256 hbyte).mpr hd.2
  have hrange : value (part bottom) < value (part top) :=
    not_le.mp (mt (value_part_le_iff hbyte hbottom256).mp (by omega))
  refine turns_bounds (part_bounded c) (part_bounded d) (part_bounded top)
    (part_bounded bottom) hrange
    (abs_le.mpr ⟨by linarith, by linarith⟩) ?_
  intro hless
  -- different bytes are a whole byte apart, and their doubles hardly less
  have hcd : c < d := not_le.mp (mt (value_part_le_iff hd256 hc256).mpr (not_le.mpr hless))
  obtain ⟨-, hgap, -⟩ := shares_apart hcd hd256
  have hnearc := (abs_le.mp (close_part hc256).near).2
  have hneard := (abs_le.mp (close_part hd256).near).1
  have hsmall : (2 : ℚ) ^ (-53 : ℤ) ≤ 1 / 1000000 := by norm_num
  linarith

end Hue

/-- The hue of a colour that is not grey is in `[0, 360)`. -/
theorem hue_bounds {color : Rgb} (hlt : color.least < color.greatest) {degrees : Float}
    (hdegrees : degrees =
      hue (part color.r.toNat) (part color.g.toNat) (part color.b.toNat) (part color.greatest)
        (part color.greatest - part color.least)) :
    degrees.isFinite = true ∧ 0 ≤ value degrees ∧ value degrees < 360 := by
  have hr : color.least ≤ color.r.toNat ∧ color.r.toNat ≤ color.greatest :=
    ⟨(min_le_left _ _).trans (min_le_left _ _), (le_max_left _ _).trans (le_max_left _ _)⟩
  have hg : color.least ≤ color.g.toNat ∧ color.g.toNat ≤ color.greatest :=
    ⟨(min_le_left _ _).trans (min_le_right _ _), (le_max_right _ _).trans (le_max_left _ _)⟩
  have hb : color.least ≤ color.b.toNat ∧ color.b.toNat ≤ color.greatest :=
    ⟨min_le_right _ _, le_max_right _ _⟩
  have htwo : Close 0 2.0 2 := Close.literal 2 (by decide)
  have hfour : Close 0 4.0 4 := Close.literal 4 (by decide)
  rw [hdegrees]
  unfold hue
  split_ifs
  · -- only where red is the greatest channel can the turns be negative
    obtain ⟨hx, habs, hapart⟩ := channel_turns_bounds hg hb hlt color.greatest_lt
    obtain ⟨hturns, h0, h1⟩ := wrap_turns_bounds hx habs hapart
    exact degrees_bounds hturns h0 h1
  · obtain ⟨hx, habs, -⟩ := channel_turns_bounds hb hr hlt color.greatest_lt
    obtain ⟨hturns, h0, h1⟩ :=
      shifted_turns_bounds hx habs htwo.finite (by rw [htwo.value_eq]; norm_num)
        (by rw [htwo.value_eq]; norm_num)
    exact degrees_bounds hturns h0 h1
  · obtain ⟨hx, habs, -⟩ := channel_turns_bounds hr hg hlt color.greatest_lt
    obtain ⟨hturns, h0, h1⟩ :=
      shifted_turns_bounds hx habs hfour.finite (by rw [hfour.value_eq]; norm_num)
        hfour.value_eq.le
    exact degrees_bounds hturns h0 h1

theorem hue_in_range {color : Rgb} (hlt : color.least < color.greatest) {degrees : Float}
    (hdegrees : degrees =
      hue (part color.r.toNat) (part color.g.toNat) (part color.b.toNat) (part color.greatest)
        (part color.greatest - part color.least)) :
    0.0 ≤ degrees ∧ degrees < 360.0 := by
  obtain ⟨hfinite, hnonneg, hlt⟩ := hue_bounds hlt hdegrees
  have hturn : Close 0 360.0 360 := Close.literal 360 (by decide)
  rw [le_iff_value_le value_zero.1.finite hfinite, lt_iff_value_lt hfinite hturn.finite,
    value_zero.2, hturn.value_eq]
  exact ⟨hnonneg, hlt⟩

/-! ### All three -/

theorem toHsl_of_apart {color : Rgb} (h : color.least < color.greatest) :
    color.toHsl =
      ⟨hue (part color.r.toNat) (part color.g.toNat) (part color.b.toNat) (part color.greatest)
          (part color.greatest - part color.least),
        saturation color.greatest color.least * 100.0,
        lightness color.greatest color.least * 100.0⟩ := by
  rw [toHsl_eq, if_neg h.ne]

theorem toHsl_of_grey {color : Rgb} (h : color.least = color.greatest) :
    color.toHsl = ⟨0.0, 0.0, lightness color.greatest color.least * 100.0⟩ := by
  rw [toHsl_eq, if_pos h]

/-- Hue and lightness of every colour are in `[0, 360)` and `[0, 100]`, and exactly the greys have
hue and saturation `0`.  The saturation is in `[0, 100]` but for the colours that overshoot, whose
saturation is above 100 by less than `10 ^ -9`. -/
theorem components_stay_in_range (color : Rgb) :
    (0.0 ≤ color.toHsl.h ∧ color.toHsl.h < 360.0) ∧
      (0.0 ≤ color.toHsl.s ∧ color.toHsl.s < 100.000000001 ∧
        (color.toHsl.s ≤ 100.0 ↔ overshoots color.greatest color.least = false)) ∧
      (0.0 ≤ color.toHsl.l ∧ color.toHsl.l ≤ 100.0) ∧
      (color.toHsl.h = 0.0 ∧ color.toHsl.s = 0.0 ↔ color.r = color.g ∧ color.g = color.b) := by
  have hl := lightness_in_range color.greatest color.least
  rw [← least_eq_greatest_iff]
  rcases color.least_le_greatest.eq_or_lt with hgrey | hlt
  · have hnone : overshoots color.greatest color.least = false := hgrey ▸ overshoots_self _
    have hbounds :
        (0.0 : Float) ≤ 0.0 ∧ (0.0 : Float) < 360.0 ∧ (0.0 : Float) < 100.000000001 ∧
          (0.0 : Float) ≤ 100.0 := by
      decide
    obtain ⟨hself, hhue, hpercent, hfull⟩ := hbounds
    rw [toHsl_of_grey hgrey]
    exact ⟨⟨hself, hhue⟩, ⟨hself, hpercent, iff_of_true hfull hnone⟩, hl,
      iff_of_true ⟨rfl, rfl⟩ hgrey⟩
  · obtain ⟨hnonneg, hpercent, hsaturated⟩ := saturation_in_range hlt color.greatest_lt
    rw [toHsl_of_apart hlt]
    refine ⟨hue_in_range hlt rfl,
      ⟨hnonneg, hpercent, saturation_le_iff hlt color.greatest_lt⟩, hl, ?_⟩
    exact iff_of_false (fun hnone => hsaturated hnone.2) hlt.ne

/-- `#010000` has a saturation above 100. -/
example :
    overshoots (Rgb.greatest ⟨1, 0, 0⟩) (Rgb.least ⟨1, 0, 0⟩) = true ∧
    ¬(toHsl ⟨1, 0, 0⟩).s ≤ 100.0 := by
  decide +kernel

end Rgb

end DesignTokens
