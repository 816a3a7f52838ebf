import DesignTokens.Proofs.Number.Close
import DesignTokens.Proofs.Palette.Hue

/-!
# Colours have period 360 in the hue

A colour depends on its hue through the places of the three channels on the wheel, and these are
equal for `0` and `-0`, and for `0` and 360 (`samePlace_of_value_eq`, `samePlace_turn`).  So a hue
may be reduced before the conversion, which reduces it again (`samePlace_normalizeHue`), and hues
that differ by a multiple of 360 have the same palettes (`colors_repeat_with_turns`).
-/

namespace DesignTokens

open Number

/-! ### Places on the wheel -/

namespace Hsl

/-- Two hues put every channel at the same position of the wheel. -/
def SamePlace (hue hue' : Float) : Prop :=
  ∀ start ∈ ([0.0, 8.0, 4.0] : List Float),
    position remainder start hue = position remainder start hue'

theorem samePlace_turn : SamePlace 0.0 360.0 := by
  unfold SamePlace
  decide +kernel

/-- `-0` and `0` have the same place. -/
theorem samePlace_neg_zero : SamePlace (-0.0) 0.0 := by
  unfold SamePlace
  decide +kernel

/-- `toRgb` reduces a hue as `normalizeHue` does. -/
theorem wrap_finiteOrZero (hue : Float) : wrap (finiteOrZero hue) 360.0 = normalizeHue hue := by
  cases h : hue.isFinite with
  | true => rw [finiteOrZero, if_pos h, normalizeHue_of_isFinite h]
  | false =>
    obtain ⟨hturn, hvalue⟩ := turn_spec
    rw [finiteOrZero, if_neg (by rw [h]; exact Bool.false_ne_true), normalizeHue_of_not_isFinite h]
    exact wrap_eq_self value_zero.1.finite value_zero.1.nonneg hturn
      (by rw [value_zero.2, hvalue]; norm_num)

/-- A colour depends on its hue through the places of the channels. -/
theorem toRgb_eq_of_samePlace {hue hue' : Float}
    (h : SamePlace (normalizeHue hue) (normalizeHue hue')) (s l : Float) :
    toRgb ⟨hue, s, l⟩ = toRgb ⟨hue', s, l⟩ := by
  unfold toRgb channels channel
  dsimp only
  rw [wrap_finiteOrZero, wrap_finiteOrZero, h 0.0 (by simp), h 8.0 (by simp), h 4.0 (by simp)]

/-- Doubles of the same value have the same place. -/
theorem samePlace_of_value_eq {hue hue' : Float} (hfinite : hue.isFinite = true)
    (hfinite' : hue'.isFinite = true) (h : value hue = value hue') : SamePlace hue hue' := by
  by_cases h0 : value hue = 0
  · intro start hstart
    rcases eq_zero_or_eq_neg_zero hfinite h0 with rfl | rfl <;>
      rcases eq_zero_or_eq_neg_zero hfinite' (h.symm.trans h0) with rfl | rfl
    · rfl
    · exact (samePlace_neg_zero start hstart).symm
    · exact samePlace_neg_zero start hstart
    · rfl
  · rw [eq_of_value_eq hfinite hfinite' h h0]
    exact fun _ _ => rfl

/-- Reducing a hue once more changes 360 to `0`, which has the same place. -/
theorem samePlace_normalizeHue (hue : Float) :
    SamePlace (normalizeHue (normalizeHue hue)) (normalizeHue hue) := by
  have hbounded := bounded_normalizeHue hue
  have hle : value (normalizeHue hue) ≤ 360 := by simpa using hbounded.le
  rcases hle.lt_or_eq with hlt | hturn
  · rw [normalizeHue_eq_self hbounded.finite hbounded.nonneg hlt]
    exact fun _ _ => rfl
  · have heq : normalizeHue hue = 360.0 := by
      refine eq_of_value_eq hbounded.finite turn_spec.1 (hturn.trans turn_spec.2.symm) ?_
      rw [hturn]
      norm_num
    have hzero : normalizeHue 360.0 = 0.0 := by decide +kernel
    rw [heq, hzero]
    exact samePlace_turn

end Hsl

/-! ### Hues that differ by a multiple of 360 -/

theorem InTurn.isFinite {hue : Float} (h : InTurn hue) : hue.isFinite = true :=
  isFinite_of_le_of_le value_zero.1.finite turn_spec.1 h.1 (Number.le_of_lt h.2)

/-- `hue + 360 · k` is reduced to `hue`. -/
theorem value_normalizeHue_of_turns {hue x : Float} {k : ℤ} (hhue : InTurn hue)
    (hx : x.isFinite = true) (h : value x = value hue + 360 * k) :
    value (normalizeHue x) = value hue := by
  have hfinite := hhue.isFinite
  obtain ⟨h0, hlt⟩ := (inTurn_iff hfinite).mp hhue
  have hfract : Int.fract (value x / 360) * 360 = value hue := by
    rw [h, add_div, mul_div_cancel_left₀ _ (by norm_num), Int.fract_add_intCast,
      Int.fract_eq_self.mpr ⟨by positivity, by linarith⟩, div_mul_cancel₀ _ (by norm_num)]
  have hround := normalizeHue_roundsTo hx
  rw [hfract] at hround
  rw [hround.value_eq (bounded_normalizeHue x).finite, rounded_eq_self (onGrid_value hfinite)]

/-- Shades that agree in all that they show, and in their hues as numbers. -/
structure Shade.SameAs (first second : Shade) : Prop where
  key : first.key = second.key
  color : first.color = second.color
  hue : (first.hsl.h == second.hsl.h) = true
  saturation : first.hsl.s = second.hsl.s
  lightness : first.hsl.l = second.hsl.l
  luminance : first.luminance = second.luminance
  onWhite : first.onWhite = second.onWhite
  onBlack : first.onBlack = second.onBlack

/-- Palettes that agree in their names and shades, and in their hues as numbers. -/
structure Palette.SameAs (first second : Palette) : Prop where
  name : first.name = second.name
  kind : first.kind = second.kind
  hue : (first.hue == second.hue) = true
  shades : List.Forall₂ Shade.SameAs first.shades second.shades

theorem Shade.sameAs_ofHsl {hue hue' : Float} (hbeq : (hue == hue') = true)
    (hplace : Hsl.SamePlace (normalizeHue hue) (normalizeHue hue')) (key : ℕ) (s l : Float) :
    (ofHsl key ⟨hue, s, l⟩).SameAs (ofHsl key ⟨hue', s, l⟩) := by
  have hcolor := Hsl.toRgb_eq_of_samePlace hplace s l
  unfold ofHsl
  dsimp only
  rw [hcolor]
  exact ⟨rfl, rfl, hbeq, rfl, rfl, rfl, rfl, rfl⟩

namespace Palette

theorem sameAs_generate {hue hue' : Float}
    (h : value (normalizeHue hue) = value (normalizeHue hue')) (name : String) :
    (generate hue name).SameAs (generate hue' name) := by
  have hfinite := (bounded_normalizeHue hue).finite
  have hfinite' := (bounded_normalizeHue hue').finite
  have hbeq := (beq_iff_value_eq hfinite hfinite').mpr h
  refine ⟨rfl, rfl, hbeq, ?_⟩
  have hplace :
      Hsl.SamePlace (normalizeHue (normalizeHue hue)) (normalizeHue (normalizeHue hue')) := by
    intro start hstart
    rw [Hsl.samePlace_normalizeHue hue start hstart, Hsl.samePlace_normalizeHue hue' start hstart]
    exact Hsl.samePlace_of_value_eq hfinite hfinite' h start hstart
  show List.Forall₂ Shade.SameAs (ramp _ (normalizeHue hue)) (ramp _ (normalizeHue hue'))
  unfold ramp
  rw [List.forall₂_map_left_iff, List.forall₂_map_right_iff, List.forall₂_same]
  intro entry _
  exact Shade.sameAs_ofHsl hbeq hplace entry.1 entry.2.1 entry.2.2

/-- A colour is the same whether its hue is reduced before or not, NaN and `±∞` included.  A double
`hue + 360 · k` is reduced to `hue`, and has the same palettes. -/
theorem colors_repeat_with_turns :
    (∀ hue s l : Float, Hsl.toRgb ⟨normalizeHue hue, s, l⟩ = Hsl.toRgb ⟨hue, s, l⟩) ∧
    ∀ (hue x : Float) (k : ℤ), InTurn hue → x.isFinite = true → value x = value hue + 360 * k →
      (normalizeHue x == hue) = true ∧ ∀ name, (generate x name).SameAs (generate hue name) := by
  refine ⟨fun hue s l => Hsl.toRgb_eq_of_samePlace (Hsl.samePlace_normalizeHue hue) s l, ?_⟩
  intro hue x k hhue hx h
  have hvalue := value_normalizeHue_of_turns hhue hx h
  have hfinite := hhue.isFinite
  obtain ⟨h0, hlt⟩ := (inTurn_iff hfinite).mp hhue
  refine ⟨(beq_iff_value_eq (bounded_normalizeHue x).finite hfinite).mpr hvalue,
    fun name => sameAs_generate ?_ name⟩
  rw [normalizeHue_eq_self hfinite h0 hlt, hvalue]

/-- `-360` is reduced to `-0`, and a hue just below zero to the last one below 360. -/
theorem colors_repeat_with_turns_below :
    ((generate (-360.0) "neutral").SameAs (generate 0.0 "neutral") ∧ normalizeHue (-360.0) ≠ 0.0) ∧
    (generate (-5.684341886080802e-14) "sky").SameAs (generate 359.99999999999994 "sky") := by
  obtain ⟨-, hrepeat⟩ := colors_repeat_with_turns
  refine ⟨⟨(hrepeat 0.0 (-360.0) (-1) ?_ ?_ ?_).2 _, ?_⟩,
    (hrepeat 359.99999999999994 _ (-1) ?_ ?_ ?_).2 _⟩
  · exact ⟨by decide, by decide⟩
  · decide
  · decide +kernel
  · decide +kernel
  · exact ⟨by decide, by decide⟩
  · decide
  · decide +kernel

end Palette

end DesignTokens
