import DesignTokens.Proofs.Number.Printed
import DesignTokens.Proofs.TypeScale.Generate

/-!
# Every `clamp()` is well formed

A `clamp()` with its bounds the wrong way round, or with a negative slope, would not be an error in
a style sheet: it would silently give the wrong size.  No generated step has one
(`clamp_is_well_formed`), neither in its numbers nor in its text.

The numbers follow the formulas of a step.  The viewport range can start below zero and be so wide
that `maxViewport - minViewport` overflows; the slope is nonnegative even then (`slope_cases`).  In
the text every number is rounded to hundredths, which is monotone, and zero has no sign:
`lt_threshold_iff` says that the numbers that lose their sign are exactly those rounded to zero.
-/

namespace DesignTokens

open Number

namespace Step

/-! ### The slope -/

section Slope

variable {rise least greatest percent : Float}

/-- The slope over a range in order is finite and nonnegative, or infinite. -/
theorem slope_cases (hrise : rise.isFinite = true) (h0 : 0 ≤ value rise)
    (hleast : least.isFinite = true) (hgreatest : greatest.isFinite = true)
    (hlt : least < greatest) :
    ((rise / (greatest - least)).isFinite = true ∧ 0 ≤ value (rise / (greatest - least))) ∨
      ∃ sign, (rise / (greatest - least)).toModel.unpack = .infinity sign := by
  rw [lt_iff_value_lt hleast hgreatest] at hlt
  have hround := sub_roundsTo hgreatest hleast
  cases hspan : (greatest - least).isFinite with
  | false =>
    -- the width of the range overflows, and the slope is `0`
    obtain ⟨sign, hinfinity⟩ := hround.exists_infinity hspan
    obtain ⟨hfinite, hvalue⟩ := div_infinite hrise hinfinity
    exact .inl ⟨hfinite, hvalue.ge⟩
  | true =>
    have hpos : 0 < value (greatest - least) := by
      rw [hround.value_eq hspan]
      exact rounded_sub_pos hleast hgreatest hlt
    have hquotient := div_roundsTo hrise hspan hpos.ne'
    cases hslope : (rise / (greatest - least)).isFinite with
    | false => exact .inr (hquotient.exists_infinity hslope)
    | true =>
      refine .inl ⟨rfl, ?_⟩
      rw [hquotient.value_eq hslope]
      exact rounded_nonneg (div_nonneg h0 hpos.le)

/-- A finite multiple of the slope is nonnegative too. -/
theorem slope_mul_nonneg (hrise : rise.isFinite = true) (h0 : 0 ≤ value rise)
    (hleast : least.isFinite = true) (hgreatest : greatest.isFinite = true) (hlt : least < greatest)
    (hpercent : percent.isFinite = true) (hpercent0 : 0 ≤ value percent)
    (hfinite : (rise / (greatest - least) * percent).isFinite = true) :
    0 ≤ value (rise / (greatest - least) * percent) := by
  rcases slope_cases hrise h0 hleast hgreatest hlt with ⟨hslope, hslope0⟩ | ⟨sign, hinfinity⟩
  · rw [(mul_roundsTo hslope hpercent).value_eq hfinite]
    exact rounded_nonneg (mul_nonneg hslope0 hpercent0)
  · rw [isFinite_infinite_mul hinfinity] at hfinite
    cases hfinite

end Slope

/-! ### The numbers of a step -/

section Numbers

variable {options : ScaleOptions} {index : ℤ} {size : Float}

theorem value_div_rootSize (h : size.isFinite = true) :
    value (size / rootSize) = rounded (value size / 16) := by
  obtain ⟨hroot, hvalue⟩ := rootSize_spec
  have hround := div_roundsTo h hroot (by rw [hvalue]; norm_num)
  rw [hround.value_eq (isFinite_div_rootSize h), hvalue]

/-- `0 ≤ minRem ≤ maxRem` for a positive size. -/
theorem bounds_in_order (h : Positive (options.size index)) :
    0 ≤ value (compute options index).clamp.minRem ∧
      value (compute options index).clamp.minRem ≤ value (compute options index).clamp.maxRem := by
  obtain ⟨hmin, hle, -⟩ := minSize_spec h
  show 0 ≤ value (options.size index * minFactor / rootSize) ∧
    value (options.size index * minFactor / rootSize) ≤ value (options.size index / rootSize)
  rw [value_div_rootSize hmin.finite, value_div_rootSize h.finite]
  have hmin0 := hmin.value_pos
  exact ⟨rounded_nonneg (by positivity), rounded_mono (by gcongr)⟩

/-- `0 ≤ preferredVw` for a positive size over a range in order. -/
theorem preferredVw_nonneg (h : Positive (options.size index))
    (hviewport : options.hasViewport = true)
    (hfinite : (compute options index).clamp.preferredVw.isFinite = true) :
    0 ≤ value (compute options index).clamp.preferredVw := by
  obtain ⟨hleast, hgreatest, hlt⟩ := ScaleOptions.hasViewport_iff.mp hviewport
  obtain ⟨hrise, hrise0, -⟩ := rise_spec h
  obtain ⟨hhundred, -⟩ : Bounded 100 100.0 ∧ value 100.0 = 100 := value_literal 100 (by decide)
  exact slope_mul_nonneg hrise hrise0 hleast hgreatest hlt hhundred.finite hhundred.nonneg hfinite

end Numbers

end Step

namespace Clamp

/-! ### The text of a number -/

/-- The integer nearest to `100 · x`, ties to even. -/
def hundredths (x : Float) : ℤ :=
  nearestEven (value x * 100)

/-- `|x| < 0.005` exactly if `x` is rounded to zero hundredths. -/
theorem lt_threshold_iff {x : Float} (hx : x.isFinite = true) :
    x.abs < 0.005 ↔ hundredths x = 0 := by
  obtain ⟨habs, hvalue⟩ := value_abs hx
  obtain ⟨hthreshold, hrounded⟩ : Bounded 1 0.005 ∧ value 0.005 = rounded ((5 : ℕ) / 10 ^ 3) :=
    literal_spec 1 (by decide)
  have hexact : ((5 : ℕ) / 10 ^ 3 : ℚ) = 1 / 200 := by norm_num
  rw [hexact] at hrounded
  -- the double `0.005` is a little more than `1/200`, and there is no double in between
  have hmore : 1 / 200 < value 0.005 := by decide +kernel
  have hhundred : |value x * 100| ≤ 1 / 2 ↔ |value x| ≤ 1 / 200 := by
    rw [abs_mul, abs_of_pos (by norm_num : (0 : ℚ) < 100)]
    constructor <;> intro h <;> linarith
  rw [lt_iff_value_lt habs hthreshold.finite, hvalue, hundredths, nearestEven_eq_zero_iff, hhundred]
  constructor
  · intro hlt
    by_contra hge
    have hle : rounded (1 / 200) ≤ value x.abs := by
      apply rounded_le (onGrid_value habs)
      rw [hvalue]
      exact (not_le.mp hge).le
    rw [hrounded, ← hvalue] at hlt
    exact absurd hle (not_le.mpr hlt)
  · intro hle
    exact hle.trans_lt hmore

theorem hundredths_eq (x : Float) : hundredths x = nearestEven (value x * 10 ^ 2) := by
  rw [hundredths]
  norm_num

theorem hundredths_mono {x y : Float} (h : value x ≤ value y) : hundredths x ≤ hundredths y :=
  nearestEven_mono (by linarith)

theorem hundredths_nonneg {x : Float} (h : 0 ≤ value x) : 0 ≤ hundredths x := by
  have hmono := nearestEven_mono (show ((0 : ℤ) : ℚ) ≤ value x * 100 by push_cast; linarith)
  rwa [nearestEven_intCast] at hmono

/-- A term is printed as its hundredths. -/
theorem showsUnits_term {x : Float} (hx : x.isFinite = true) :
    ShowsUnits 2 (term x) (hundredths x) := by
  unfold term unsignedZero
  split_ifs with hsmall
  · rw [(lt_threshold_iff hx).mp hsmall]
    exact showsUnits_zero
  · have hne : nearestEven (value x * 10 ^ 2) ≠ 0 :=
      hundredths_eq x ▸ mt (lt_threshold_iff hx).mpr hsmall
    rw [hundredths_eq]
    exact showsUnits_fixed two_ne_zero hx hne

/-! ### The text of a `clamp()` -/

/-- A `clamp()` with other terms. -/
def map {α β : Type} (f : α → β) (clamp : Clamp α) : Clamp β where
  minRem := f clamp.minRem
  preferredRem := f clamp.preferredRem
  preferredVw := f clamp.preferredVw
  maxRem := f clamp.maxRem

theorem terms_map {α β : Type} (f : α → β) (clamp : Clamp α) :
    (clamp.map f).terms = clamp.terms.map f :=
  rfl

/-- `clamp(…rem, …rem + …vw, …rem)` around the texts of the terms. -/
def layout (texts : Clamp String) : String :=
  "clamp(" ++ texts.minRem ++ "rem, " ++ texts.preferredRem ++ "rem + " ++
    texts.preferredVw ++ "vw, " ++
    texts.maxRem ++ "rem)"

theorem toText_eq (clamp : Clamp Float) : clamp.toText = (clamp.map term).layout :=
  rfl

/-- A text that is a `clamp()` with these numbers of hundredths, none of them `-0.00`. -/
def Shows (text : String) (shown : Clamp ℤ) : Prop :=
  ∃ texts : Clamp String,
    text = texts.layout ∧ List.Forall₂ (ShowsUnits 2) texts.terms shown.terms ∧
    "-0.00" ∉ texts.terms

theorem shows_toText {clamp : Clamp Float} (h : clamp.isFinite = true) :
    Shows clamp.toText (clamp.map hundredths) := by
  rw [isFinite_iff] at h
  refine ⟨clamp.map term, toText_eq clamp, ?_, ?_⟩
  · rw [terms_map, terms_map, List.forall₂_map_left_iff, List.forall₂_map_right_iff,
      List.forall₂_same]
    exact fun x hx => showsUnits_term (h x hx)
  · rw [terms_map]
    intro hmem
    obtain ⟨x, hx, hzero⟩ := List.mem_map.mp hmem
    exact (showsUnits_term (h x hx)).ne_negative_zero hzero

end Clamp

namespace TypeScale

variable {options : ScaleOptions} {scale : TypeScale}

/-- Every step of a generated scale has `0 < minSize ≤ maxSize`, `0 ≤ minRem ≤ maxRem` and
`0 ≤ preferredVw`.  Its `clamp()` is written with the hundredths nearest to its terms: the bounds
are in order, the bounds and the slope are nonnegative, and no term is `-0.00`. -/
theorem clamp_is_well_formed (h : generate options = .ok scale) :
    ∀ step ∈ scale.steps,
      (0.0 < step.minSize ∧ step.minSize ≤ step.maxSize) ∧
      (0.0 ≤ step.clamp.minRem ∧ step.clamp.minRem ≤ step.clamp.maxRem ∧
        0.0 ≤ step.clamp.preferredVw) ∧
      ∃ shown : Clamp ℤ,
        Clamp.Shows step.clamp.toText shown ∧ shown = step.clamp.map Clamp.hundredths ∧
        0 ≤ shown.minRem ∧ shown.minRem ≤ shown.maxRem ∧ 0 ≤ shown.preferredVw := by
  obtain ⟨hvalid, hfinite, rfl⟩ := generate_eq_ok_iff.mp h
  intro step hstep
  obtain ⟨index, hindex, rfl⟩ := List.mem_map.mp hstep
  have hsize := hvalid.sizes index hindex
  have hclamp := hfinite index hindex
  have hterms := Clamp.isFinite_iff.mp hclamp
  simp only [Clamp.terms, List.forall_mem_cons] at hterms
  obtain ⟨hmin, -, hvw, hmax, -⟩ := hterms
  obtain ⟨hleast, hle, -⟩ := Step.minSize_spec hsize
  obtain ⟨hmin0, horder⟩ := Step.bounds_in_order hsize
  have hvw0 := Step.preferredVw_nonneg hsize hvalid.viewport hvw
  refine ⟨⟨hleast.pos, (le_iff_value_le hleast.finite hsize.finite).mpr hle⟩, ⟨?_, ?_, ?_⟩, _,
    Clamp.shows_toText hclamp, rfl, Clamp.hundredths_nonneg hmin0, Clamp.hundredths_mono horder,
    Clamp.hundredths_nonneg hvw0⟩
  · rwa [le_iff_value_le value_zero.1.finite hmin, value_zero.2]
  · rwa [le_iff_value_le hmin hmax]
  · rwa [le_iff_value_le value_zero.1.finite hvw, value_zero.2]

/-- A viewport range whose width overflows, and the least positive size. -/
def boundless : ScaleOptions where
  baseSize := 5e-324
  ratio := .custom 1.0
  minViewport := -1.7e308
  maxViewport := 1.7e308
  steps := [0]

/-- Even the least positive size over such a range has its `clamp()`. -/
theorem clamp_is_well_formed_boundless :
    ∃ scale, generate boundless = .ok scale ∧ ∃ step ∈ scale.steps,
      (0.0 < step.minSize ∧ step.minSize ≤ step.maxSize) ∧
      (0.0 ≤ step.clamp.minRem ∧ step.clamp.minRem ≤ step.clamp.maxRem ∧
        0.0 ≤ step.clamp.preferredVw) ∧
      Clamp.Shows step.clamp.toText ⟨0, 0, 0, 0⟩ := by
  have hscale :
      generate boundless = .ok ⟨boundless, boundless.steps.map (Step.compute boundless)⟩ :=
    generate_eq_ok_iff.mpr
      ⟨ScaleOptions.check_eq_ok_iff.mp (by decide +kernel), by decide +kernel, rfl⟩
  have hmem : Step.compute boundless 0 ∈ boundless.steps.map (Step.compute boundless) :=
    List.mem_map_of_mem (List.mem_singleton_self 0)
  obtain ⟨hsizes, hnumbers, shown, hshows, hshown, -⟩ := clamp_is_well_formed hscale _ hmem
  have hzero : (Step.compute boundless 0).clamp.map Clamp.hundredths = ⟨0, 0, 0, 0⟩ := by
    decide +kernel
  refine ⟨_, hscale, _, hmem, hsizes, hnumbers, ?_⟩
  rwa [hshown, hzero] at hshows

end TypeScale

end DesignTokens
