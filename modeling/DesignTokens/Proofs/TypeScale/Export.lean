import DesignTokens.Proofs.Json.Floats
import DesignTokens.Proofs.Number.Places
import DesignTokens.Proofs.TypeScale.Generate
import DesignTokens.TypeScale.Export

/-!
# The numbers of an exported scale

The numbers of a generated scale are all finite, and so are those of its options in the JSON.  The
sizes are rounded to two decimal places there by `round (100 · x) / 100`, and a size for which
`100 · x` overflows is written `null`.  So no number of the JSON is `null` exactly if
`100 · maxSize` is finite for each step (`floats_view_iff`).
-/

namespace DesignTokens

open Number

/-- `roundTo size 2` is finite exactly if `100 · size` does not overflow. -/
theorem Positive.isFinite_roundTo_iff {size : Float} (h : Positive size) :
    (roundTo size 2).isFinite = true ↔ value size * 100 < overflow := by
  rw [isFinite_roundTo_two_iff h.finite, abs_of_pos (mul_pos h.value_pos (by norm_num))]

theorem Step.floats_view (step : Step Float) :
    step.view.floats = [roundTo step.minSize 2, roundTo step.maxSize 2] := by
  simp only [view, Datum.floats, Datum.fieldFloats, List.nil_append, List.cons_append]

/-- The rounded sizes of a step are finite exactly if `100 · maxSize` does not overflow. -/
theorem Step.isFinite_floats_view_iff {options : ScaleOptions} {index : ℤ}
    (h : Positive (options.size index)) :
    (∀ x ∈ (compute options index).view.floats, x.isFinite = true) ↔
      value (options.size index) * 100 < overflow := by
  have hmax : (roundTo (compute options index).maxSize 2).isFinite = true ↔
      value (options.size index) * 100 < overflow := h.isFinite_roundTo_iff
  rw [floats_view]
  constructor
  · intro hall
    exact hmax.mp (hall _ (by simp))
  · intro hrange x hx
    rw [List.mem_pair] at hx
    -- `100 · minSize ≤ 100 · maxSize`
    rcases hx with rfl | rfl
    · obtain ⟨hpositive, hle, -⟩ := minSize_spec h
      refine hpositive.isFinite_roundTo_iff.mpr (lt_of_le_of_lt ?_ hrange)
      gcongr
    · exact hmax.mpr hrange

namespace TypeScale

variable {options : ScaleOptions} {scale : TypeScale}

theorem floats_view (scale : TypeScale) :
    scale.view.floats =
      [scale.options.baseSize, scale.options.ratio.value, scale.options.minViewport,
        scale.options.maxViewport] ++
        scale.steps.flatMap fun step => step.view.floats := by
  simp only [view, Datum.floats, Datum.fieldFloats, Datum.itemFloats_map, List.nil_append,
    List.cons_append, List.append_nil]

theorem isFinite_of_mem_options (h : options.IsValid) :
    ∀ x ∈ [options.baseSize, options.ratio.value, options.minViewport, options.maxViewport],
      x.isFinite = true := by
  obtain ⟨hleast, hgreatest, -⟩ := ScaleOptions.hasViewport_iff.mp h.viewport
  simp [h.baseSize.finite, h.ratio.finite, hleast, hgreatest]

/-- Every number in the JSON of a generated scale is finite exactly if `100 · size` does not
overflow at each step.  Those of the options always are. -/
theorem floats_view_iff (h : generate options = .ok scale) :
    ((∀ x ∈ scale.view.floats, x.isFinite = true ∧ Json.float x ≠ "null".toList) ↔
      ∀ index ∈ options.steps, value (options.size index) * 100 < 2 ^ (1024 : ℤ) - 2 ^ (970 : ℤ)) ∧
    ∀ x ∈ [options.baseSize, options.ratio.value, options.minViewport, options.maxViewport],
      x ∈ scale.view.floats ∧ x.isFinite = true ∧ Json.float x ≠ "null".toList := by
  have hwritten (x : Float) :
      x.isFinite = true ∧ Json.float x ≠ "null".toList ↔ x.isFinite = true := by
    rw [ne_eq, Json.float_eq_null_iff]
    simp
  obtain ⟨hvalid, -, rfl⟩ := generate_eq_ok_iff.mp h
  have hoptions := isFinite_of_mem_options hvalid
  simp only [hwritten, floats_view]
  refine ⟨?_, ?_⟩
  · constructor
    · intro hall index hindex
      refine (Step.isFinite_floats_view_iff (hvalid.sizes index hindex)).mp ?_
      intro x hx
      apply hall
      simp only [List.mem_append, List.mem_flatMap, List.mem_map]
      exact .inr ⟨_, ⟨index, hindex, rfl⟩, hx⟩
    · intro hrange x hx
      simp only [List.mem_append, List.mem_flatMap, List.mem_map] at hx
      rcases hx with hx | ⟨_, ⟨index, hindex, rfl⟩, hx⟩
      · exact hoptions x hx
      · exact (Step.isFinite_floats_view_iff (hvalid.sizes index hindex)).mpr
          (hrange index hindex) x hx
  · intro x hx
    exact ⟨List.mem_append_left _ hx, hoptions x hx⟩

/-- A size above `2 ^ 1024 / 100`. -/
def enormous : ScaleOptions := { baseSize := 1e307, ratio := .custom 1.0, steps := [0] }

/-- An enormous size is written `null`; the sizes of the default scale are written as numbers. -/
theorem floats_view_iff_enormous :
    (∃ scale, generate enormous = .ok scale ∧ ∃ x ∈ scale.view.floats,
      Json.float x = "null".toList) ∧
    ∃ scale, generate {} = .ok scale ∧ ∀ x ∈ scale.view.floats,
      x.isFinite = true ∧ Json.float x ≠ "null".toList := by
  have henormous : generate enormous = .ok ⟨enormous, enormous.steps.map (Step.compute enormous)⟩ :=
    generate_eq_ok_iff.mpr
      ⟨ScaleOptions.check_eq_ok_iff.mp (by decide +kernel), by decide +kernel, rfl⟩
  obtain ⟨usual, husual⟩ := exists_generate_default
  refine ⟨⟨_, henormous, ?_⟩, usual, husual, (floats_view_iff husual).1.mpr (by decide +kernel)⟩
  by_contra hnone
  have hall := (floats_view_iff henormous).1.mp ?_
  · exact absurd hall (by decide +kernel)
  · intro x hx
    have hnull : Json.float x ≠ "null".toList := fun hnull => hnone ⟨x, hx, hnull⟩
    rw [ne_eq, Json.float_eq_null_iff, Bool.not_eq_false] at hnull
    exact ⟨hnull, fun h => hnone ⟨x, hx, h⟩⟩

end TypeScale

end DesignTokens
