import DesignTokens.Proofs.Number.Squaring
import DesignTokens.TypeScale.Basic

/-!
# Sizes between the ends of the viewport range

`Step.ofBase` is read over `ℚ` here, and `Clamp.sizeAt` is the size in pixels that its `clamp()`
gives on a viewport.  Slope, intercept and the conversions to `rem` and `vw` cancel: the preferred
value is the line through `(minViewport, minSize)` and `(maxViewport, maxSize)` (`lineAt_ofBase`),
and the bounds cut it exactly at the ends of the range (`sizeAt_ofBase`).
-/

namespace DesignTokens

open Number

namespace Clamp

/-- The preferred value in pixels: one `rem` has 16 of them, and `100vw` is the width of the
viewport. -/
def lineAt (clamp : Clamp ℚ) (viewport : ℚ) : ℚ :=
  clamp.preferredRem * 16 + clamp.preferredVw / 100 * viewport

/-- The value of `clamp()` in pixels on a viewport. -/
def sizeAt (clamp : Clamp ℚ) (viewport : ℚ) : ℚ :=
  max (clamp.minRem * 16) (min (clamp.lineAt viewport) (clamp.maxRem * 16))

end Clamp

namespace Step

theorem minFactor_rat : (minFactor : ℚ) = 4 / 5 := by
  norm_num [minFactor]

theorem rootSize_rat : (rootSize : ℚ) = 16 := by
  norm_num [rootSize]

section Line

variable {base ratio minViewport maxViewport : ℚ}

theorem maxSize_ofBase (base ratio minViewport maxViewport : ℚ) (index : ℤ) :
    (ofBase base ratio minViewport maxViewport index).maxSize = base * ratio ^ index :=
  congrArg (base * ·) (powInt_eq_zpow ratio index)

theorem minSize_ofBase (base ratio minViewport maxViewport : ℚ) (index : ℤ) :
    (ofBase base ratio minViewport maxViewport index).minSize = 4 / 5 * (base * ratio ^ index) := by
  rw [mul_comm, ← maxSize_ofBase base ratio minViewport maxViewport index, ← minFactor_rat]
  rfl

theorem minSize_lt_maxSize (hbase : 0 < base) (hratio : 0 < ratio)
    (minViewport maxViewport : ℚ) (index : ℤ) :
    (ofBase base ratio minViewport maxViewport index).minSize <
      (ofBase base ratio minViewport maxViewport index).maxSize := by
  have hsize : 0 < base * ratio ^ index := mul_pos hbase (zpow_pos hratio index)
  rw [minSize_ofBase, maxSize_ofBase]
  linarith

/-- The preferred value is the line through both sizes: the units of its terms cancel. -/
theorem lineAt_ofBase (hlt : minViewport < maxViewport) (base ratio : ℚ) (index : ℤ)
    (viewport : ℚ) :
    let step := ofBase base ratio minViewport maxViewport index
    step.clamp.lineAt viewport =
      step.minSize + (step.maxSize - step.minSize) *
        ((viewport - minViewport) / (maxViewport - minViewport)) := by
  have hwidth : maxViewport - minViewport ≠ 0 := (sub_pos.mpr hlt).ne'
  have hpercent : (100.0 : ℚ) = 100 := by norm_num
  simp only [ofBase, ofSize, Clamp.lineAt, rootSize_rat, hpercent]
  field_simp
  ring

/-- At `minViewport` the line is at `minSize`. -/
theorem lineAt_minViewport (hlt : minViewport < maxViewport) (base ratio : ℚ) (index : ℤ) :
    let step := ofBase base ratio minViewport maxViewport index
    step.clamp.lineAt minViewport = step.minSize := by
  intro step
  rw [lineAt_ofBase hlt, sub_self, zero_div, mul_zero, add_zero]

/-- At `maxViewport` the line is at `maxSize`. -/
theorem lineAt_maxViewport (hlt : minViewport < maxViewport) (base ratio : ℚ) (index : ℤ) :
    let step := ofBase base ratio minViewport maxViewport index
    step.clamp.lineAt maxViewport = step.maxSize := by
  intro step
  rw [lineAt_ofBase hlt, div_self (sub_pos.mpr hlt).ne', mul_one, add_sub_cancel]

theorem strictMono_lineAt (hbase : 0 < base) (hratio : 0 < ratio)
    (hlt : minViewport < maxViewport) (index : ℤ) :
    StrictMono (ofBase base ratio minViewport maxViewport index).clamp.lineAt := by
  intro v w hvw
  have hrise := minSize_lt_maxSize hbase hratio minViewport maxViewport index
  rw [lineAt_ofBase hlt, lineAt_ofBase hlt]
  gcongr

/-- The bounds cut the line at the ends of the range: the size is that of the nearest viewport in
it. -/
theorem sizeAt_ofBase (hbase : 0 < base) (hratio : 0 < ratio)
    (hlt : minViewport < maxViewport) (index : ℤ) (viewport : ℚ) :
    let step := ofBase base ratio minViewport maxViewport index
    step.clamp.sizeAt viewport =
      step.clamp.lineAt (max minViewport (min viewport maxViewport)) := by
  intro step
  -- in pixels the bounds are the two sizes
  have hleast : step.clamp.minRem * 16 = step.minSize := by
    rw [← rootSize_rat]
    exact div_mul_cancel₀ _ (by norm_num [rootSize_rat])
  have hgreatest : step.clamp.maxRem * 16 = step.maxSize := by
    rw [← rootSize_rat]
    exact div_mul_cancel₀ _ (by norm_num [rootSize_rat])
  have hmono := (strictMono_lineAt hbase hratio hlt index).monotone
  rw [hmono.map_max, hmono.map_min, lineAt_minViewport hlt, lineAt_maxViewport hlt, Clamp.sizeAt,
    hleast, hgreatest]

/-- The formulas of a step, which `compute` evaluates in doubles, interpolate over the rationals.
On a viewport below the range the size is `minSize`, which is `4 / 5 · base · ratio ^ index`; above
the range it is `maxSize`, which is `base · ratio ^ index`; and in between it lies on the line
through both.  There and nowhere else it is the preferred value.  The size never falls as the
viewport grows. -/
theorem size_interpolates (hbase : 0 < base) (hratio : 0 < ratio)
    (hlt : minViewport < maxViewport) (index : ℤ) :
    let step := ofBase base ratio minViewport maxViewport index
    (∀ options : ScaleOptions, compute options index =
      ofBase options.baseSize options.ratio.value options.minViewport options.maxViewport index) ∧
    step.maxSize = base * ratio ^ index ∧ step.minSize = 4 / 5 * (base * ratio ^ index) ∧
    (∀ viewport ≤ minViewport, step.clamp.sizeAt viewport = step.minSize) ∧
    (∀ viewport ≥ maxViewport, step.clamp.sizeAt viewport = step.maxSize) ∧
    (∀ viewport, minViewport ≤ viewport → viewport ≤ maxViewport → step.clamp.sizeAt viewport =
      step.minSize + (step.maxSize - step.minSize) *
        ((viewport - minViewport) / (maxViewport - minViewport))) ∧
    (∀ viewport, step.clamp.sizeAt viewport = step.clamp.lineAt viewport ↔
      minViewport ≤ viewport ∧ viewport ≤ maxViewport) ∧
    Monotone step.clamp.sizeAt := by
  intro step
  have hsize := sizeAt_ofBase hbase hratio hlt index
  have hstrict := strictMono_lineAt hbase hratio hlt index
  refine ⟨fun _ => rfl, maxSize_ofBase .., minSize_ofBase .., ?_, ?_, ?_, ?_, ?_⟩
  · intro viewport hbelow
    rw [hsize, min_eq_left (hbelow.trans hlt.le), max_eq_left hbelow, lineAt_minViewport hlt]
  · intro viewport habove
    rw [hsize, min_eq_right habove, max_eq_right hlt.le, lineAt_maxViewport hlt]
  · intro viewport hbelow habove
    rw [hsize, min_eq_left habove, max_eq_right hbelow, lineAt_ofBase hlt]
  · intro viewport
    rw [hsize, hstrict.injective.eq_iff]
    constructor
    · intro h
      rw [← h]
      exact ⟨le_max_left _ _, max_le hlt.le (min_le_right _ _)⟩
    · rintro ⟨hbelow, habove⟩
      rw [min_eq_left habove, max_eq_right hbelow]
  · intro v w hvw
    rw [hsize, hsize]
    exact hstrict.monotone (max_le_max_left _ (min_le_min_right _ hvw))

/-- A small step on a range that starts at a negative width: `minSize` below it, `maxSize` above it
and their mean in the middle. -/
theorem size_interpolates_negative :
    let step : Step ℚ := ofBase 16 (5 / 4) (-320) 1280 (-2)
    step.clamp.sizeAt (-500) = 1024 / 125 ∧ step.clamp.sizeAt 2000 = 256 / 25 ∧
      step.clamp.sizeAt 480 = 1152 / 125 := by
  obtain ⟨-, hmax, hmin, hbelow, habove, hbetween, -⟩ :=
    size_interpolates (by norm_num : (0 : ℚ) < 16) (by norm_num : (0 : ℚ) < 5 / 4)
      (by norm_num : (-320 : ℚ) < 1280) (-2)
  intro step
  rw [hbelow (-500) (by norm_num), habove 2000 (by norm_num),
    hbetween 480 (by norm_num) (by norm_num), hmax, hmin]
  norm_num

end Line

end Step

end DesignTokens
