import DesignTokens.Contrast.Basic
import DesignTokens.Proofs.Number.Literal
import DesignTokens.Proofs.Number.Power

/-!
# Luminance and contrast are monotone

A colour none of whose channels is above those of another is not lighter (`luminance_mono`), and
black and white are the ends, at `0` and `1` (`luminance_is_monotone_measure`).  The contrast with a
fixed colour grows as a colour moves away from it in luminance, on either side
(`ofLuminances_of_le`, `ofLuminances_of_ge`).  Both hold for the doubles that are computed, not only
for the formulas they stand for.
-/

namespace DesignTokens.Contrast

open Number

/-! ### Linearized channels -/

/-- `c / 255`. -/
theorem fraction_spec (c : UInt8) :
    Bounded 1 (c.toFloat / 255.0) ∧ value (c.toFloat / 255.0) = rounded (c.toNat / 255) := by
  obtain ⟨hc, hv⟩ := value_toFloat c
  obtain ⟨hbyte, h255⟩ : Bounded 255 255.0 ∧ value 255.0 = 255 := value_literal 255 (by decide)
  have hle : (c.toNat : ℚ) / 255 ≤ (1 : ℕ) := by
    rw [div_le_iff₀ (by norm_num), Nat.cast_one, one_mul]
    exact hv ▸ hc.le
  have h := div_roundsTo hc.finite hbyte.finite (by rw [h255]; norm_num)
  rw [h255, hv] at h
  exact h.bounded (by positivity) hle (by norm_num)

theorem fraction_mono {c d : UInt8} (hcd : c ≤ d) :
    value (c.toFloat / 255.0) ≤ value (d.toFloat / 255.0) := by
  rw [(fraction_spec c).2, (fraction_spec d).2]
  refine rounded_mono (div_le_div_of_nonneg_right ?_ (by norm_num))
  exact_mod_cast hcd

theorem scale_bounds : Bounded 2 1.055 ∧ 1 ≤ value 1.055 :=
  ⟨(literal_spec 2 (by decide)).1, le_value_literal onGrid_one 2 (by decide) (by norm_num)⟩

theorem slope_bounds : Bounded 13 12.92 ∧ 1 ≤ value 12.92 :=
  ⟨(literal_spec 13 (by decide)).1, le_value_literal onGrid_one 13 (by decide) (by norm_num)⟩

theorem exponent_bounds : Bounded 3 2.4 ∧ 1 ≤ value 2.4 :=
  ⟨(literal_spec 3 (by decide)).1, le_value_literal onGrid_one 3 (by decide) (by norm_num)⟩

/-- The base of the power, above the linear part. -/
theorem powBase_spec {x : Float} (hx : Bounded 1 x) :
    Bounded 2 ((x + 0.055) / 1.055) ∧
      value ((x + 0.055) / 1.055) = rounded (rounded (value x + value 0.055) / value 1.055) := by
  have hoffset : Bounded 1 0.055 := (literal_spec 1 (by decide)).1
  obtain ⟨hsum, hv⟩ := hx.add hoffset (by norm_num)
  have h := hsum.div (k := 1) scale_bounds.1.finite (by simpa using scale_bounds.2) (by norm_num)
  rwa [hv] at h

theorem powBase_mono {x y : Float} (hx : Bounded 1 x) (hy : Bounded 1 y) (hxy : value x ≤ value y) :
    value ((x + 0.055) / 1.055) ≤ value ((y + 0.055) / 1.055) := by
  rw [(powBase_spec hx).2, (powBase_spec hy).2]
  have hpos : 0 < value 1.055 := lt_of_lt_of_le one_pos scale_bounds.2
  exact rounded_mono (div_le_div_of_nonneg_right (rounded_mono (by linarith)) hpos.le)

theorem powBase_pos {x : Float} (hx : Bounded 1 x) : 0 < value ((x + 0.055) / 1.055) := by
  have hpos : 0 < value 1.055 := lt_of_lt_of_le one_pos scale_bounds.2
  have hscale : value 1.055 ≤ 2 := by simpa using scale_bounds.1.le
  have hgrid : ∀ k : ℤ, -1074 ≤ k → OnGrid (2 ^ k) := fun k hk => ⟨1, k, by norm_num, hk, by simp⟩
  have hoffset : 2 ^ (-5 : ℤ) ≤ value 0.055 :=
    le_value_literal (hgrid (-5) (by norm_num)) 1 (by decide) (by norm_num)
  have hsum : 2 ^ (-5 : ℤ) ≤ rounded (value x + value 0.055) :=
    le_rounded (hgrid (-5) (by norm_num)) (by linarith [hx.nonneg])
  have hquotient : 2 ^ (-6 : ℤ) ≤ rounded (value x + value 0.055) / value 1.055 := by
    rw [le_div_iff₀ hpos]
    calc (2 : ℚ) ^ (-6 : ℤ) * value 1.055 ≤ 2 ^ (-6 : ℤ) * 2 := by gcongr
      _ = 2 ^ (-5 : ℤ) := by norm_num
      _ ≤ rounded (value x + value 0.055) := hsum
  rw [(powBase_spec hx).2]
  exact lt_of_lt_of_le (zpow_pos (by norm_num) (-6))
    (le_rounded (hgrid (-6) (by norm_num)) hquotient)

/-- The curved part grows with the fraction. -/
theorem curved_mono {x y : Float} (hx : Bounded 1 x) (hy : Bounded 1 y) (hxy : value x ≤ value y) :
    pow ((x + 0.055) / 1.055) 2.4 ≤ pow ((y + 0.055) / 1.055) 2.4 :=
  pow_mono (powBase_spec hx).1.finite (powBase_spec hy).1.finite (powBase_pos hx)
    (powBase_mono hx hy hxy)
    exponent_bounds.1.finite (lt_of_lt_of_le one_pos exponent_bounds.2)

/-- The curved part at `255`. -/
theorem curved_end : pow ((1.0 + 0.055) / 1.055) 2.4 = 1.0 := by decide +kernel

/-- The curved part ends at `1`. -/
theorem curved_bounded {x : Float} (hx : Bounded 1 x) :
    Bounded 1 (pow ((x + 0.055) / 1.055) 2.4) := by
  obtain ⟨hone, hvalue⟩ : Bounded 1 1.0 ∧ value 1.0 = (1 : ℕ) := value_literal 1 (by decide)
  have hle : pow ((x + 0.055) / 1.055) 2.4 ≤ 1.0 := by
    rw [← curved_end]
    exact curved_mono hx hone (hvalue ▸ hx.le)
  obtain ⟨q, hq, hround⟩ :=
    exists_pow_roundsTo (powBase_spec hx).1.finite (powBase_pos hx) exponent_bounds.1.finite
      (lt_of_lt_of_le one_pos exponent_bounds.2)
  have hge : 0.0 ≤ pow ((x + 0.055) / 1.055) 2.4 := roundsTo_zero.le hround hq
  have hzero := value_zero.1.finite
  have hfinite := isFinite_of_le_of_le hzero hone.finite hge hle
  refine ⟨hfinite, ?_, ?_⟩
  · have h := (le_iff_value_le hzero hfinite).mp hge
    rwa [value_zero.2] at h
  · have h := (le_iff_value_le hfinite hone.finite).mp hle
    rwa [hvalue] at h

/-- The straight part. -/
theorem straight_spec {x : Float} (hx : Bounded 1 x) :
    Bounded 1 (x / 12.92) ∧ value (x / 12.92) = rounded (value x / value 12.92) :=
  hx.div (k := 1) slope_bounds.1.finite (by simpa using slope_bounds.2) (by norm_num)

theorem straight_mono {x y : Float} (hx : Bounded 1 x) (hy : Bounded 1 y)
    (hxy : value x ≤ value y) : value (x / 12.92) ≤ value (y / 12.92) := by
  rw [(straight_spec hx).2, (straight_spec hy).2]
  have hpos : 0 < value 12.92 := lt_of_lt_of_le one_pos slope_bounds.2
  exact rounded_mono (div_le_div_of_nonneg_right hxy hpos.le)

theorem linearize_bounded (c : UInt8) : Bounded 1 (linearize c) := by
  unfold linearize
  dsimp only
  split
  case isTrue => exact (straight_spec (fraction_spec c).1).1
  case isFalse => exact curved_bounded (fraction_spec c).1

/-- `10 / 255 ≤ linearThreshold < 11 / 255`. -/
theorem linearThreshold_bounds :
    linearThreshold.isFinite = true ∧ value ((10 : UInt8).toFloat / 255.0) ≤ value linearThreshold ∧
      value linearThreshold < value ((11 : UInt8).toFloat / 255.0) := by
  obtain ⟨hbounded, hvalue⟩ :
      Bounded 1 linearThreshold ∧ value linearThreshold = rounded (_ / 10 ^ _) :=
    literal_spec 1 (by decide)
  have hgrid : OnGrid (43 / 1024) := ⟨43, -10, by norm_num, by norm_num, by norm_num⟩
  have hgrid' : OnGrid (11 / 256) := ⟨11, -8, by norm_num, by norm_num, by norm_num⟩
  have hten : (10 : UInt8).toNat = 10 := rfl
  have heleven : (11 : UInt8).toNat = 11 := rfl
  rw [(fraction_spec 10).2, (fraction_spec 11).2, hvalue, hten, heleven]
  refine ⟨hbounded.finite, rounded_mono (by norm_num), ?_⟩
  calc rounded (_ / 10 ^ _) ≤ 43 / 1024 := rounded_le hgrid (by norm_num)
    _ < 11 / 256 := by norm_num
    _ ≤ rounded ((11 : ℕ) / 255) := le_rounded hgrid' (by norm_num)

/-- The channel values up to `10` lie on the straight part, and no others. -/
theorem fraction_le_linearThreshold_iff (c : UInt8) :
    c.toFloat / 255.0 ≤ linearThreshold ↔ c ≤ 10 := by
  obtain ⟨hfinite, hten, heleven⟩ := linearThreshold_bounds
  rw [le_iff_value_le (fraction_spec c).1.finite hfinite]
  constructor
  · intro h
    by_contra hc
    have hle : (11 : UInt8) ≤ c := by
      rw [UInt8.le_iff_toNat_le] at hc ⊢
      exact Nat.succ_le_of_lt (not_le.mp hc)
    exact absurd (fraction_mono hle) (not_le.mpr (h.trans_lt heleven))
  · intro h
    exact (fraction_mono h).trans hten

theorem linearize_mono_of_le_ten {c d : UInt8} (hcd : c ≤ d) (hd : d ≤ 10) :
    value (linearize c) ≤ value (linearize d) := by
  unfold linearize
  dsimp only
  rw [if_pos ((fraction_le_linearThreshold_iff d).mpr hd),
    if_pos ((fraction_le_linearThreshold_iff c).mpr (UInt8.le_trans hcd hd))]
  exact straight_mono (fraction_spec c).1 (fraction_spec d).1 (fraction_mono hcd)

theorem linearize_mono_of_not_le_ten {c d : UInt8} (hcd : c ≤ d) (hc : ¬c ≤ 10) :
    value (linearize c) ≤ value (linearize d) := by
  have hd : ¬d ≤ 10 := fun h => hc (UInt8.le_trans hcd h)
  rw [← le_iff_value_le (linearize_bounded c).finite (linearize_bounded d).finite]
  unfold linearize
  dsimp only
  rw [if_neg (mt (fraction_le_linearThreshold_iff d).mp hd),
    if_neg (mt (fraction_le_linearThreshold_iff c).mp hc)]
  exact curved_mono (fraction_spec c).1 (fraction_spec d).1 (fraction_mono hcd)

/-- `linearize` is monotone. -/
theorem linearize_mono {c d : UInt8} (hcd : c ≤ d) : value (linearize c) ≤ value (linearize d) := by
  by_cases hd : d ≤ 10
  · exact linearize_mono_of_le_ten hcd hd
  by_cases hc : c ≤ 10
  · -- the parts need not meet at the threshold: only the channel values on its two sides matter
    have h11 : (11 : UInt8) ≤ d := by
      rw [UInt8.le_iff_toNat_le] at hd ⊢
      exact Nat.succ_le_of_lt (not_le.mp hd)
    calc value (linearize c) ≤ value (linearize 10) := linearize_mono_of_le_ten hc (by decide)
      _ ≤ value (linearize 11) := by decide +kernel
      _ ≤ value (linearize d) := linearize_mono_of_not_le_ten h11 (by decide)
  · exact linearize_mono_of_not_le_ten hcd hc

/-! ### Luminance -/

/-- The luminance of linearized channels, with its roundings. -/
def weightedSum (r g b : ℚ) : ℚ :=
  rounded (rounded (rounded (value 0.2126 * r) + rounded (value 0.7152 * g)) +
    rounded (value 0.0722 * b))

theorem weights_bounded : Bounded 1 0.2126 ∧ Bounded 1 0.7152 ∧ Bounded 1 0.0722 :=
  ⟨(literal_spec 1 (by decide)).1, (literal_spec 1 (by decide)).1, (literal_spec 1 (by decide)).1⟩

theorem luminance_spec (color : Rgb) :
    Bounded 3 (luminance color) ∧
      value (luminance color) =
        weightedSum (value (linearize color.r)) (value (linearize color.g))
          (value (linearize color.b)) := by
  have hweighted : ∀ {w : Float} (c : UInt8), Bounded 1 w →
      Bounded 1 (w * linearize c) ∧
        value (w * linearize c) = rounded (value w * value (linearize c)) :=
    fun c hw => hw.mul (linearize_bounded c) (by norm_num)
  obtain ⟨hr, hrv⟩ := hweighted color.r weights_bounded.1
  obtain ⟨hg, hgv⟩ := hweighted color.g weights_bounded.2.1
  obtain ⟨hb, hbv⟩ := hweighted color.b weights_bounded.2.2
  obtain ⟨hrg, hrgv⟩ := hr.add hg (by norm_num)
  obtain ⟨hall, hallv⟩ := hrg.add hb (by norm_num)
  refine ⟨hall, hallv.trans ?_⟩
  rw [hrgv, hrv, hgv, hbv]
  rfl

/-- A colour none of whose channels is above those of another is not lighter. -/
theorem luminance_mono {a b : Rgb} (hr : a.r ≤ b.r) (hg : a.g ≤ b.g) (hb : a.b ≤ b.b) :
    value (luminance a) ≤ value (luminance b) := by
  have hweighted : ∀ {w : ℚ} {c d : UInt8}, 0 ≤ w → c ≤ d →
      rounded (w * value (linearize c)) ≤ rounded (w * value (linearize d)) :=
    fun hw hcd => rounded_mono (mul_le_mul_of_nonneg_left (linearize_mono hcd) hw)
  rw [(luminance_spec a).2, (luminance_spec b).2]
  refine rounded_mono (add_le_add (rounded_mono (add_le_add ?_ ?_)) ?_)
  · exact hweighted weights_bounded.1.nonneg hr
  · exact hweighted weights_bounded.2.1.nonneg hg
  · exact hweighted weights_bounded.2.2.nonneg hb

theorem luminance_black_le (color : Rgb) : value (luminance .black) ≤ value (luminance color) :=
  luminance_mono UInt8.zero_le UInt8.zero_le UInt8.zero_le

theorem luminance_le_white (color : Rgb) : value (luminance color) ≤ value (luminance .white) := by
  have hle : ∀ c : UInt8, c ≤ 255 := fun c =>
    UInt8.le_iff_toNat_le.mpr (Nat.le_of_lt_succ c.toNat_lt)
  exact luminance_mono (hle _) (hle _) (hle _)

theorem luminance_le_iff {a b : Rgb} :
    luminance a ≤ luminance b ↔ value (luminance a) ≤ value (luminance b) :=
  le_iff_value_le (luminance_spec a).1.finite (luminance_spec b).1.finite

theorem luminance_black : luminance .black = 0.0 := by decide +kernel

theorem luminance_white : luminance .white = 1.0 := by decide +kernel

/-- Raising channels never lowers the luminance, which runs from zero for black to one for white. -/
theorem luminance_is_monotone_measure :
    (∀ a b : Rgb, a.r ≤ b.r → a.g ≤ b.g → a.b ≤ b.b → luminance a ≤ luminance b) ∧
    luminance .black = 0.0 ∧ luminance .white = 1.0 ∧
    ∀ color, 0.0 ≤ luminance color ∧ luminance color ≤ 1.0 := by
  refine ⟨?_, luminance_black, luminance_white, ?_⟩
  · intro a b hr hg hb
    rw [luminance_le_iff]
    exact luminance_mono hr hg hb
  · intro color
    rw [← luminance_black, ← luminance_white, luminance_le_iff, luminance_le_iff]
    exact ⟨luminance_black_le color, luminance_le_white color⟩

/-- Where one channel goes from the straight part to the curved one and another rises too. -/
theorem luminance_is_monotone_measure_join :
    (10 : UInt8) ≤ 11 ∧ (40 : UInt8) ≤ 40 ∧ (200 : UInt8) ≤ 201 ∧
      luminance ⟨10, 40, 200⟩ ≤ luminance ⟨11, 40, 201⟩ ∧ luminance ⟨11, 40, 201⟩ ≤ 1.0 := by
  obtain ⟨hmono, -, -, hbounds⟩ := luminance_is_monotone_measure
  exact ⟨by decide, by decide, by decide, hmono _ _ (by decide) (by decide) (by decide),
    (hbounds _).2⟩

/-! ### Contrast -/

/-- The quotient of two raised luminances, as it is rounded. -/
def quotient (lighter darker : ℚ) : ℚ :=
  rounded (rounded (lighter + value 0.05) / rounded (darker + value 0.05))

theorem flare_bounds : Bounded 1 0.05 ∧ 1 ≤ value 0.05 * 32 := by
  have hgrid : OnGrid (1 / 32) := ⟨1, -5, by norm_num, by norm_num, by norm_num⟩
  have hle : 1 / 32 ≤ value 0.05 := le_value_literal hgrid 1 (by decide) (by norm_num)
  exact ⟨(literal_spec 1 (by decide)).1, by linarith⟩

theorem raised_pos {q : ℚ} (hq : 0 ≤ q) : 0 < rounded (q + value 0.05) := by
  have hgrid : OnGrid (value 0.05) := onGrid_value flare_bounds.1.finite
  have hpos : 0 < value 0.05 := by linarith [flare_bounds.2]
  exact lt_of_lt_of_le hpos (le_rounded hgrid (le_add_of_nonneg_left hq))

theorem quotient_mono {a b c d : ℚ} (ha : 0 ≤ a) (hd : 0 ≤ d) (hab : a ≤ b) (hdc : d ≤ c) :
    quotient a c ≤ quotient b d := by
  refine rounded_mono (div_le_div₀ ?_ ?_ (raised_pos hd) ?_)
  · exact (raised_pos (ha.trans hab)).le
  · exact rounded_mono (by linarith)
  · exact rounded_mono (by linarith)

theorem quotient_spec {x y : Float} (hx : Bounded 3 x) (hy : Bounded 3 y) :
    Bounded 128 ((x + 0.05) / (y + 0.05)) ∧
    value ((x + 0.05) / (y + 0.05)) = quotient (value x) (value y) := by
  obtain ⟨hxs, hxv⟩ := hx.add flare_bounds.1 (by norm_num)
  obtain ⟨hys, hyv⟩ := hy.add flare_bounds.1 (by norm_num)
  have hleast : 1 ≤ value (y + 0.05) * (32 : ℕ) := by
    have hgrid : OnGrid (value 0.05) := onGrid_value flare_bounds.1.finite
    have hge : value 0.05 ≤ value (y + 0.05) :=
      hyv ▸ le_rounded hgrid (le_add_of_nonneg_left hy.nonneg)
    push_cast
    linarith [flare_bounds.2]
  obtain ⟨hq, hqv⟩ := hxs.div hys.finite hleast (by norm_num)
  exact ⟨hq, hqv.trans (by rw [hxv, hyv]; rfl)⟩

/-- The contrast of two luminances is the quotient of the greater and the smaller. -/
theorem ofLuminances_spec {a b : Float} (ha : Bounded 3 a) (hb : Bounded 3 b) :
    Bounded 128 (ofLuminances a b) ∧
      value (ofLuminances a b) = quotient (max (value a) (value b)) (min (value a) (value b)) := by
  unfold ofLuminances
  split
  case isTrue h =>
    rw [le_iff_value_le hb.finite ha.finite] at h
    rw [max_eq_left h, min_eq_right h]
    exact quotient_spec ha hb
  case isFalse h =>
    rw [le_iff_value_le hb.finite ha.finite, not_le] at h
    rw [max_eq_right h.le, min_eq_left h.le]
    exact quotient_spec hb ha

section Order

variable {a b c : Float}

/-- Among luminances above a fixed one, the contrast grows with the luminance. -/
theorem ofLuminances_of_le (ha : Bounded 3 a) (hb : Bounded 3 b) (hc : Bounded 3 c)
    (hca : value c ≤ value a) (hab : value a ≤ value b) : ofLuminances a c ≤ ofLuminances b c := by
  obtain ⟨h₁, hv₁⟩ := ofLuminances_spec ha hc
  obtain ⟨h₂, hv₂⟩ := ofLuminances_spec hb hc
  have hcb := hca.trans hab
  rw [le_iff_value_le h₁.finite h₂.finite, hv₁, hv₂, max_eq_left hca, max_eq_left hcb,
    min_eq_right hca, min_eq_right hcb]
  exact quotient_mono ha.nonneg hc.nonneg hab le_rfl

/-- Among luminances below a fixed one, the contrast falls as the luminance grows. -/
theorem ofLuminances_of_ge (ha : Bounded 3 a) (hb : Bounded 3 b) (hc : Bounded 3 c)
    (hab : value a ≤ value b) (hbc : value b ≤ value c) : ofLuminances b c ≤ ofLuminances a c := by
  obtain ⟨h₁, hv₁⟩ := ofLuminances_spec ha hc
  obtain ⟨h₂, hv₂⟩ := ofLuminances_spec hb hc
  have hac := hab.trans hbc
  rw [le_iff_value_le h₂.finite h₁.finite, hv₁, hv₂, max_eq_right hac, max_eq_right hbc,
    min_eq_left hac, min_eq_left hbc]
  exact quotient_mono hc.nonneg ha.nonneg le_rfl hab

end Order

end DesignTokens.Contrast
