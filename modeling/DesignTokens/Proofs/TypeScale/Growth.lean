import DesignTokens.Proofs.Number.Squaring
import DesignTokens.Proofs.TypeScale.Clamp

/-!
# Sizes grow with the step

The presets are all well above one, so that their powers grow faster than errors can add up,
wherever the base size puts them in the range of doubles: `sizes_grow_with_the_step`.  Only below
`2 ^ -1022`, where doubles are subnormal, can two steps have the same size.  With ratio `1` every
step has the base size.
-/

namespace DesignTokens

open Number

/-- Every preset is at least `17 / 16`. -/
theorem Preset.le_value (preset : Preset) : 17 / 16 ≤ Number.value preset.value := by
  have hgrid : OnGrid (17 / 16) := ⟨17, -4, by norm_num, by norm_num, by norm_num⟩
  cases preset with
  | _ => exact le_value_literal hgrid 2 (by decide) (by norm_num)

namespace ScaleOptions

variable {options : ScaleOptions} {s t index : ℤ}

/-- What a positive size tells of the power in it. -/
theorem power_spec (hbase : Positive options.baseSize) (h : Positive (options.size index)) :
    (powInt options.ratio.value index).isFinite = true ∧
    0 < value (powInt options.ratio.value index) ∧
      value (options.size index) =
        rounded (value options.baseSize * value (powInt options.ratio.value index)) := by
  obtain ⟨-, hpower⟩ := isFinite_of_mul h.finite
  have hvalue := (mul_roundsTo hbase.finite hpower).value_eq h.finite
  refine ⟨hpower, ?_, hvalue⟩
  by_contra hle
  have hproduct := mul_nonpos_of_nonneg_of_nonpos hbase.value_pos.le (not_lt.mp hle)
  have hround := rounded_mono hproduct
  have hpos : 0 < value (options.size index) := h.value_pos
  rw [rounded_zero, ← hvalue] at hround
  exact absurd hpos (not_lt.mpr hround)

/-- Before they are rounded, the sizes of two steps are apart by a factor. -/
theorem size_growth (hratio : 17 / 16 ≤ value options.ratio.value)
    (hbase : Positive options.baseSize) (hs : Positive (options.size s))
    (ht : Positive (options.size t)) (hst : s < t) :
    ∃ p q, value (options.size s) = rounded p ∧ value (options.size t) = rounded q ∧ 0 < p ∧
      33 / 32 * p ≤ q := by
  obtain ⟨hpower, hpos, hvalue⟩ := power_spec hbase hs
  obtain ⟨hpower', hpos', hvalue'⟩ := power_spec hbase ht
  refine ⟨_, _, hvalue, hvalue', mul_pos hbase.value_pos hpos, ?_⟩
  calc 33 / 32 * (value options.baseSize * value (powInt options.ratio.value s))
      = value options.baseSize * (33 / 32 * value (powInt options.ratio.value s)) := by ring
    _ ≤ value options.baseSize * value (powInt options.ratio.value t) :=
        mul_le_mul_of_nonneg_left (powInt_growth hratio hst hpower hpos.ne' hpower' hpos'.ne')
          hbase.value_pos.le

/-- `1 ^ n = 1`, so that every step has the base size. -/
theorem size_of_unit_ratio (h : options.ratio = .custom 1.0) (index : ℤ) :
    options.size index = options.baseSize := by
  obtain ⟨power, hrun, hpower⟩ := exists_squaring_powInt 1.0 index
  obtain rfl : power = 1.0 := hrun.eq_of_mul_self (by decide) (by decide)
  have hone : powInt 1.0 index = 1.0 := by
    rw [hpower]
    split_ifs
    · decide +kernel
    · rfl
  show options.baseSize * powInt options.ratio.value index = options.baseSize
  rw [h]
  show options.baseSize * powInt 1.0 index = options.baseSize
  rw [hone, mul_one_eq]

end ScaleOptions

namespace Step

variable {options : ScaleOptions} {s t : ℤ}

/-- The sizes of a step are not above those of another, and `maxSize` is below if it is not
subnormal. -/
structure GrowsTo (a b : Step Float) : Prop where
  maxSize : a.maxSize ≤ b.maxSize
  strict : 2 ^ (-1022 : ℤ) ≤ value a.maxSize → a.maxSize < b.maxSize
  minSize : a.minSize ≤ b.minSize
  maxRem : a.clamp.maxRem ≤ b.clamp.maxRem
  minRem : a.clamp.minRem ≤ b.clamp.minRem

theorem div_rootSize_mono {a b : Float} (ha : a.isFinite = true) (hb : b.isFinite = true)
    (hab : value a ≤ value b) : a / rootSize ≤ b / rootSize := by
  rw [le_iff_value_le (isFinite_div_rootSize ha) (isFinite_div_rootSize hb), value_div_rootSize ha,
    value_div_rootSize hb]
  exact rounded_mono (by gcongr)

/-- What is computed from a size grows with it. -/
theorem growsTo_of_size (hs : Positive (options.size s)) (ht : Positive (options.size t))
    (hle : value (options.size s) ≤ value (options.size t))
    (hlt : 2 ^ (-1022 : ℤ) ≤ value (options.size s) →
      value (options.size s) < value (options.size t)) :
    (compute options s).GrowsTo (compute options t) := by
  obtain ⟨hmin, -, hvalue⟩ := minSize_spec hs
  obtain ⟨hmin', -, hvalue'⟩ := minSize_spec ht
  have hminle : value (options.size s * minFactor) ≤ value (options.size t * minFactor) := by
    rw [hvalue, hvalue']
    exact rounded_mono (mul_le_mul_of_nonneg_right hle minFactor_spec.1.nonneg)
  exact
    { maxSize := (le_iff_value_le hs.finite ht.finite).mpr hle
      strict := fun h => (lt_iff_value_lt hs.finite ht.finite).mpr (hlt h)
      minSize := (le_iff_value_le hmin.finite hmin'.finite).mpr hminle
      maxRem := div_rootSize_mono hs.finite ht.finite hle
      minRem := div_rootSize_mono hmin.finite hmin'.finite hminle }

end Step

namespace TypeScale

/-- With a preset, options that pass the check have sizes that grow with the step.  With ratio `1`
every step has the base size.  The powers in the sizes are those of repeated squaring, with a
reciprocal for negative steps. -/
theorem sizes_grow_with_the_step (options : ScaleOptions) :
    (∀ preset, options.ratio = .preset preset → options.check = .ok () →
      ∀ s ∈ options.steps, ∀ t ∈ options.steps, s < t →
        (Step.compute options s).GrowsTo (Step.compute options t)) ∧
    (options.ratio = .custom 1.0 → ∀ s, (Step.compute options s).maxSize = options.baseSize) ∧
    ∀ s, ∃ power, Squaring 1.0 options.ratio.value s.natAbs power ∧
      (Step.compute options s).maxSize =
        options.baseSize * (if s < 0 then 1.0 / power else power) := by
  refine ⟨?_, ?_, ?_⟩
  · intro preset hratio hcheck s hs t ht hst
    have hvalid := ScaleOptions.check_eq_ok_iff.mp hcheck
    have hlarge : 17 / 16 ≤ value options.ratio.value := by
      rw [hratio]
      exact preset.le_value
    have hsize := hvalid.sizes s hs
    have hsize' := hvalid.sizes t ht
    obtain ⟨p, q, hp, hq, hpos, hgrowth⟩ :=
      ScaleOptions.size_growth hlarge hvalid.baseSize hsize hsize' hst
    apply Step.growsTo_of_size hsize hsize'
    · rw [hp, hq]
      exact rounded_mono (by linarith)
    · rw [hp, hq]
      exact rounded_lt_rounded hgrowth
  · intro hratio s
    exact ScaleOptions.size_of_unit_ratio hratio s
  · intro s
    obtain ⟨power, hrun, hpower⟩ := exists_squaring_powInt options.ratio.value s
    exact ⟨power, hrun, congrArg (options.baseSize * ·) hpower⟩

/-- The least preset near overflow and near underflow. -/
def extremes : ScaleOptions := { ratio := .preset .minorSecond, steps := [10900, -10900] }

/-- A scale that does not grow. -/
def flat : ScaleOptions := { ratio := .custom 1.0 }

/-- Sizes grow from one end of the range to the other, and the least step of a flat scale has the
base size. -/
theorem sizes_grow_with_the_step_extremes :
    extremes.check = .ok () ∧
    (Step.compute extremes (-10900)).maxSize < (Step.compute extremes 10900).maxSize ∧
      (Step.compute flat (-2147483648)).maxSize = 16.0 := by
  have hcheck : extremes.check = .ok () := by decide +kernel
  have hgrows := (sizes_grow_with_the_step extremes).1 .minorSecond rfl hcheck (-10900) (by decide)
    10900 (by decide) (by decide)
  exact ⟨hcheck, hgrows.strict (by decide +kernel), (sizes_grow_with_the_step flat).2.1 rfl _⟩

end TypeScale

end DesignTokens
