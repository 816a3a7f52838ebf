import DesignTokens.Proofs.Number.Literal
import DesignTokens.Proofs.Number.Threshold
import DesignTokens.TypeScale.Basic

/-!
# The numbers of a step

Where `maxSize` is finite and positive, so is `minSize` (`minSize_spec`), down to the least positive
double, and both are finite in `rem` too.  The line between the sizes is another matter:
`preferredRem` and `preferredVw` overflow where the viewport range is narrow or far from zero.  They
are finite, for every size, if the range is spacious (`isFinite_clamp_of_isSpacious`).
-/

namespace DesignTokens

open Number

/-! ### Positive numbers -/

/-- `0 < x < ∞`. -/
structure Positive (x : Float) : Prop where
  finite : x.isFinite = true
  pos : 0.0 < x

namespace Positive

variable {x : Float}

theorem value_pos (h : Positive x) : 0 < value x := by
  have hlt := (lt_iff_value_lt value_zero.1.finite h.finite).mp h.pos
  rwa [value_zero.2] at hlt

theorem of_value_pos (hfinite : x.isFinite = true) (hpos : 0 < value x) : Positive x := by
  refine ⟨hfinite, ?_⟩
  rw [lt_iff_value_lt value_zero.1.finite hfinite, value_zero.2]
  exact hpos

end Positive

theorem ScaleOptions.isPositive_iff {x : Float} : isPositive x = true ↔ Positive x := by
  rw [isPositive, Bool.and_eq_true, decide_eq_true_iff]
  exact ⟨fun ⟨hfinite, hpos⟩ => ⟨hfinite, hpos⟩, fun ⟨hfinite, hpos⟩ => ⟨hfinite, hpos⟩⟩

namespace Step

/-! ### Sizes -/

section Sizes

variable {size : Float}

theorem minFactor_spec : Bounded 1 minFactor ∧ 51 / 64 ≤ value minFactor := by
  have hgrid : OnGrid (51 / 64) := ⟨51, -6, by norm_num, by norm_num, by norm_num⟩
  exact ⟨(literal_spec 1 (by decide)).1, le_value_literal hgrid 1 (by decide) (by norm_num)⟩

theorem rootSize_spec : rootSize.isFinite = true ∧ value rootSize = 16 := by
  obtain ⟨hbounded, hvalue⟩ := value_literal (m := 160) (e := 1) 16 (by decide)
  exact ⟨hbounded.finite, hvalue⟩

/-- `0 < minSize ≤ maxSize`. -/
theorem minSize_spec (h : Positive size) :
    Positive (size * minFactor) ∧ value (size * minFactor) ≤ value size ∧
      value (size * minFactor) = rounded (value size * value minFactor) := by
  obtain ⟨hfactor, hlow⟩ := minFactor_spec
  have hsize := h.value_pos
  have hhigh : value minFactor ≤ 1 := by simpa using hfactor.le
  obtain ⟨hfinite, hvalue, -, hle⟩ := (mul_roundsTo h.finite hfactor.finite).of_le_value h.finite
    (mul_nonneg hsize.le hfactor.nonneg) (mul_le_of_le_one_right hsize.le hhigh)
  refine ⟨.of_value_pos hfinite ?_, hle, hvalue⟩
  rw [hvalue]
  apply rounded_pos
  -- even the least positive double is not rounded to zero
  calc (2 : ℚ) ^ (-1075 : ℤ) = 2 ^ (-1074 : ℤ) / 2 := by rw [half_two_zpow]; norm_num
    _ ≤ value size / 2 := by
        gcongr
        exact (onGrid_value h.finite).two_zpow_le hsize
    _ < value size * value minFactor := by nlinarith

theorem positive_minSize (h : Positive size) : Positive (size * minFactor) :=
  (minSize_spec h).1

/-- A size in `rem` is finite. -/
theorem isFinite_div_rootSize (h : size.isFinite = true) : (size / rootSize).isFinite = true := by
  obtain ⟨hroot, hvalue⟩ := rootSize_spec
  have hround := div_roundsTo h hroot (by rw [hvalue]; norm_num)
  refine (hround.of_abs_le_value h ?_).1
  rw [hvalue, abs_div, abs_of_pos (by norm_num : (0 : ℚ) < 16)]
  exact div_le_self (abs_nonneg _) (by norm_num)

end Sizes

/-! ### The line between the sizes -/

section Line

variable {size rise span factor : Float}

/-- `maxSize - minSize < 2 ^ 1022`. -/
theorem rise_spec (h : Positive size) :
    (size - size * minFactor).isFinite = true ∧ 0 ≤ value (size - size * minFactor) ∧
      value (size - size * minFactor) ≤ 7 * 2 ^ (1019 : ℤ) := by
  obtain ⟨hmin, hle, hvalue⟩ := minSize_spec h
  obtain ⟨hfactor, hlow⟩ := minFactor_spec
  have hsize := h.value_pos
  obtain ⟨hfinite, hrise, hnonneg, -⟩ := (sub_roundsTo h.finite hmin.finite).of_le_value h.finite
    (sub_nonneg.mpr hle) (sub_le_self _ hmin.value_pos.le)
  refine ⟨hfinite, hnonneg, ?_⟩
  rw [hrise]
  refine rounded_le ⟨7, 1019, by norm_num, by norm_num, by norm_num⟩ ?_
  -- `minSize` is off `0.8 · maxSize` by one ulp at most
  have hlimit : value size ≤ 2 ^ (1024 : ℤ) :=
    (le_abs_self _).trans (canonical_of_isFinite h.finite).2.le
  have hhigh : value minFactor ≤ 1 := by simpa using hfactor.le
  have hproduct : |value size * value minFactor| ≤ 2 ^ (1024 : ℤ) := by
    rw [abs_of_nonneg (mul_nonneg hsize.le hfactor.nonneg)]
    exact (mul_le_of_le_one_right hsize.le hhigh).trans hlimit
  have herr := (abs_le.mp (abs_rounded_sub_le_of_abs_le hproduct (by norm_num))).1
  rw [← hvalue] at herr
  have hunit : (2 : ℚ) ^ (1024 : ℤ) = 64 * 2 ^ (1018 : ℤ) := by
    rw [show (1024 : ℤ) = 6 + 1018 by norm_num, zpow_add₀ (by norm_num)]
    norm_num
  have hhalf : (2 : ℚ) ^ (1019 : ℤ) = 2 * 2 ^ (1018 : ℤ) := by
    rw [show (1019 : ℤ) = 1 + 1018 by norm_num, zpow_add₀ (by norm_num)]
    norm_num
  have hlast : (2 : ℚ) ^ (1024 - 53 : ℤ) ≤ 2 ^ (1018 : ℤ) :=
    zpow_le_zpow_right₀ (by norm_num) (by norm_num)
  rw [hunit] at hlimit
  rw [hhalf]
  nlinarith

theorem slope_spec (hrise : rise.isFinite = true) (h0 : 0 ≤ value rise)
    (hspan : span.isFinite = true) (hwide : 25 ≤ value span) :
    (rise / span).isFinite = true ∧ 0 ≤ value (rise / span) ∧
      value (rise / span) = rounded (value rise / value span) := by
  have hpos : 0 < value span := by linarith
  obtain ⟨hfinite, hvalue, hnonneg, -⟩ := (div_roundsTo hrise hspan hpos.ne').of_le_value hrise
    (div_nonneg h0 hpos.le) (div_le_self h0 (by linarith))
  exact ⟨hfinite, hnonneg, hvalue⟩

/-- The slope times at most four spans is finite. -/
theorem slope_mul_spec (hrise : rise.isFinite = true) (h0 : 0 ≤ value rise)
    (hhigh : value rise ≤ 7 * 2 ^ (1019 : ℤ)) (hspan : span.isFinite = true)
    (hwide : 25 ≤ value span) (hfactor : factor.isFinite = true) (hfactor0 : 0 ≤ value factor)
    (hnear : value factor ≤ 4 * value span) :
    (rise / span * factor).isFinite = true ∧ 0 ≤ value (rise / span * factor) := by
  obtain ⟨hslope, hslope0, hvalue⟩ := slope_spec hrise h0 hspan hwide
  have hround := mul_roundsTo hslope hfactor
  have hproduct0 := mul_nonneg hslope0 hfactor0
  have hspan0 : 0 < value span := by linarith
  set q := value rise / value span with hq
  have hq0 : 0 ≤ q := div_nonneg h0 hspan0.le
  have hrise' : q * value span = value rise := div_mul_cancel₀ _ hspan0.ne'
  -- the slope is hardly above the exact one, and four spans of that are four rises
  have herr : value (rise / span) ≤ q + (q * 2 ^ (-53 : ℤ) + 2 ^ (-1075 : ℤ)) := by
    have h := (abs_le.mp (abs_rounded_sub_le_mul q)).2
    rw [← hvalue, abs_of_nonneg hq0] at h
    linarith
  have htiny : 2 ^ (-1075 : ℤ) * value span ≤ 1 := by
    have hlimit : value span ≤ 2 ^ (1024 : ℤ) :=
      (le_abs_self _).trans (canonical_of_isFinite hspan).2.le
    calc 2 ^ (-1075 : ℤ) * value span ≤ 2 ^ (-1075 : ℤ) * 2 ^ (1024 : ℤ) := by gcongr
      _ = 2 ^ (-51 : ℤ) := by rw [← zpow_add₀ (by norm_num)]; norm_num
      _ ≤ 1 := by norm_num
  have hunit : (28 : ℚ) ≤ 2 ^ (1019 : ℤ) := by
    calc (28 : ℚ) ≤ 2 ^ (5 : ℤ) := by norm_num
      _ ≤ 2 ^ (1019 : ℤ) := zpow_le_zpow_right₀ (by norm_num) (by norm_num)
  have hle : value (rise / span) * value factor ≤ 29 * 2 ^ (1019 : ℤ) := by
    have hrelative : (2 : ℚ) ^ (-53 : ℤ) ≤ 1 / 64 := by norm_num
    calc value (rise / span) * value factor ≤ value (rise / span) * (4 * value span) := by gcongr
      _ ≤ (q + (q * 2 ^ (-53 : ℤ) + 2 ^ (-1075 : ℤ))) * (4 * value span) := by gcongr
      _ = 4 * value rise * (1 + 2 ^ (-53 : ℤ)) + 4 * (2 ^ (-1075 : ℤ) * value span) := by
          rw [← hrise']
          ring
      _ ≤ 4 * value rise * (1 + 1 / 64) + 4 * 1 := by gcongr
      _ ≤ 29 * 2 ^ (1019 : ℤ) := by
          generalize (2 : ℚ) ^ (1019 : ℤ) = unit at *
          linarith
  have hfinite : (rise / span * factor).isFinite = true := by
    rw [hround.isFinite_iff, abs_of_nonneg hproduct0]
    exact hle.trans_lt lt_overflow
  refine ⟨hfinite, ?_⟩
  rw [hround.value_eq hfinite]
  exact rounded_nonneg hproduct0

end Line

end Step

/-! ### The terms -/

theorem Clamp.isFinite_iff {clamp : Clamp Float} :
    clamp.isFinite = true ↔ ∀ term ∈ clamp.terms, term.isFinite = true :=
  List.all_eq_true

theorem ScaleOptions.hasViewport_iff {options : ScaleOptions} :
    options.hasViewport = true ↔
      options.minViewport.isFinite = true ∧ options.maxViewport.isFinite = true ∧
        options.minViewport < options.maxViewport := by
  rw [hasViewport, Bool.and_eq_true, Bool.and_eq_true, decide_eq_true_iff, and_assoc]

/-- A range of viewport widths that is at least 25 pixels wide and starts no further from zero than
four times its width. -/
structure ScaleOptions.IsSpacious (options : ScaleOptions) : Prop where
  wide : 25 ≤ value (options.maxViewport - options.minViewport)
  nonneg : 0 ≤ value options.minViewport
  near : value options.minViewport ≤ 4 * value (options.maxViewport - options.minViewport)

namespace Step

variable {options : ScaleOptions} {index : ℤ}

/-- Where the size is finite and positive, only the terms of the line can overflow. -/
theorem isFinite_clamp_iff (h : Positive (options.size index)) :
    (compute options index).clamp.isFinite = true ↔
      (compute options index).clamp.preferredRem.isFinite = true ∧
        (compute options index).clamp.preferredVw.isFinite = true := by
  have hmin : (compute options index).clamp.minRem.isFinite = true :=
    isFinite_div_rootSize (positive_minSize h).finite
  have hmax : (compute options index).clamp.maxRem.isFinite = true := isFinite_div_rootSize h.finite
  rw [Clamp.isFinite_iff]
  simp [Clamp.terms, hmin, hmax]

/-- On a spacious range every positive size has four finite terms. -/
theorem isFinite_clamp_of_isSpacious (h : Positive (options.size index))
    (hviewport : options.hasViewport = true) (hspacious : options.IsSpacious) :
    (compute options index).clamp.isFinite = true := by
  obtain ⟨hleast, hgreatest, hlt⟩ := ScaleOptions.hasViewport_iff.mp hviewport
  rw [lt_iff_value_lt hleast hgreatest] at hlt
  have hspan : (options.maxViewport - options.minViewport).isFinite = true :=
    isFinite_sub hgreatest hleast (hspacious.nonneg.trans hlt.le) hspacious.nonneg
  obtain ⟨hrise, hrise0, hhigh⟩ := rise_spec h
  obtain ⟨hhundred, hvalue⟩ : Bounded 100 100.0 ∧ value 100.0 = 100 := value_literal 100 (by decide)
  -- 100 and `minViewport` are both within four spans
  have hvw := slope_mul_spec hrise hrise0 hhigh hspan hspacious.wide hhundred.finite hhundred.nonneg
    (by rw [hvalue]; linarith [hspacious.wide])
  have hstart := slope_mul_spec hrise hrise0 hhigh hspan hspacious.wide hleast hspacious.nonneg
    hspacious.near
  have hmin := positive_minSize h
  have hintercept := isFinite_sub hmin.finite hstart.1 hmin.value_pos.le hstart.2
  rw [isFinite_clamp_iff h]
  exact ⟨isFinite_div_rootSize hintercept, hvw.1⟩

end Step

end DesignTokens
