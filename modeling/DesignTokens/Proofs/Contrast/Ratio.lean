import DesignTokens.Contrast.Basic
import DesignTokens.Proofs.Contrast.Luminance
import DesignTokens.Proofs.Number.Order

/-!
# The contrast ratio as a measure

The contrast of two colours does not depend on their order (`ratio_comm`), is `1` for colours of one
luminance and never less, and is greatest for black and white, where it is `21` exactly.  It never
falls as a colour moves away from the other in luminance, on either side (`ratio_le_of_darker`,
`ratio_le_of_lighter`), and every colour has a contrast of at least `4.5` with white or with black
(`le_ratio_white_or_black`).  Since a verdict compares nothing but the ratio with a bound, these are
facts about verdicts too.
-/

namespace DesignTokens.Contrast

open Number

/-! ### Range -/

theorem ratio_spec (a b : Rgb) :
    Bounded 128 (ratio a b) ∧
      value (ratio a b) =
        quotient (max (value (luminance a)) (value (luminance b)))
          (min (value (luminance a)) (value (luminance b))) :=
  ofLuminances_spec (luminance_spec a).1 (luminance_spec b).1

theorem ratio_isFinite (a b : Rgb) : (ratio a b).isFinite = true :=
  (ratio_spec a b).1.finite

theorem one_le_quotient {lighter darker : ℚ} (hdarker : 0 ≤ darker) (hle : darker ≤ lighter) :
    1 ≤ quotient lighter darker := by
  refine le_rounded onGrid_one ((one_le_div (raised_pos hdarker)).mpr ?_)
  exact rounded_mono (add_le_add_left hle _)

theorem quotient_self {q : ℚ} (hq : 0 ≤ q) : quotient q q = 1 := by
  unfold quotient
  rw [div_self (raised_pos hq).ne', rounded_eq_self onGrid_one]

theorem one_le_value_ratio (a b : Rgb) : 1 ≤ value (ratio a b) := by
  rw [(ratio_spec a b).2]
  exact one_le_quotient (le_min (luminance_spec a).1.nonneg (luminance_spec b).1.nonneg) min_le_max

/-- The contrast of two colours does not depend on their order. -/
theorem ratio_comm (a b : Rgb) : ratio a b = ratio b a := by
  -- only zero is represented by two doubles, and a ratio is at least `1`
  refine eq_of_value_eq (ratio_isFinite a b) (ratio_isFinite b a) ?_ ?_
  · rw [(ratio_spec a b).2, (ratio_spec b a).2, max_comm, min_comm]
  · exact (one_pos.trans_le (one_le_value_ratio a b)).ne'

theorem one_le_ratio (a b : Rgb) : 1.0 ≤ ratio a b := by
  rw [le_iff_value_le value_unit.1.finite (ratio_isFinite a b), value_unit.2]
  exact one_le_value_ratio a b

/-- No two colours have more contrast than black and white. -/
theorem ratio_le_black_white (a b : Rgb) : ratio a b ≤ ratio .black .white := by
  have hle : value (luminance .black) ≤ value (luminance .white) := luminance_black_le .white
  rw [le_iff_value_le (ratio_isFinite a b) (ratio_isFinite .black .white), (ratio_spec a b).2,
    (ratio_spec .black .white).2, max_eq_right hle, min_eq_left hle]
  -- both luminances lie between those of black and of white
  refine quotient_mono ?_ (luminance_spec .black).1.nonneg ?_ ?_
  · exact le_max_of_le_left (luminance_spec a).1.nonneg
  · exact max_le (luminance_le_white a) (luminance_le_white b)
  · exact le_min (luminance_black_le a) (luminance_black_le b)

theorem ratio_black_white : ratio .black .white = 21.0 := by decide +kernel

/-- Colours of the same luminance have ratio `1`. -/
theorem ratio_of_luminance_eq {a b : Rgb} (h : luminance a = luminance b) : ratio a b = 1.0 := by
  have hratio : value (ratio a b) = 1 := by
    rw [(ratio_spec a b).2, h, max_self, min_self]
    exact quotient_self (luminance_spec b).1.nonneg
  refine eq_of_value_eq (ratio_isFinite a b) value_unit.1.finite ?_ ?_
  · rw [hratio, value_unit.2]
  · rw [hratio]
    exact one_ne_zero

/-! ### Moving away -/

section Away

variable {dark light fixed : Rgb}

/-- Below a fixed colour, what is darker has more contrast with it. -/
theorem ratio_le_of_darker (h : luminance dark ≤ luminance light)
    (hfixed : luminance light ≤ luminance fixed) : ratio light fixed ≤ ratio dark fixed :=
  ofLuminances_of_ge (luminance_spec dark).1 (luminance_spec light).1 (luminance_spec fixed).1
    (luminance_le_iff.mp h) (luminance_le_iff.mp hfixed)

/-- Above a fixed colour, what is lighter has more contrast with it. -/
theorem ratio_le_of_lighter (h : luminance dark ≤ luminance light)
    (hfixed : luminance fixed ≤ luminance dark) : ratio dark fixed ≤ ratio light fixed :=
  ofLuminances_of_le (luminance_spec dark).1 (luminance_spec light).1 (luminance_spec fixed).1
    (luminance_le_iff.mp hfixed) (luminance_le_iff.mp h)

end Away

/-- A luminance with contrast ratio at least `4.5` to both white and black. -/
def middleLuminance : Float := 0.1796875

/-- Every colour has a contrast of at least `4.5` with white or with black. -/
theorem le_ratio_white_or_black (color : Rgb) :
    4.5 ≤ ratio color .white ∨ 4.5 ≤ ratio color .black := by
  have hmiddle : Bounded 3 middleLuminance := (literal_spec 3 (by decide)).1
  have hcolor := (luminance_spec color).1
  -- white is for the darker half of the colours and black for the lighter half
  rcases le_total (value (luminance color)) (value middleLuminance) with hle | hge
  · left
    have hwhite : value middleLuminance ≤ value (luminance .white) := by decide +kernel
    calc 4.5 ≤ ofLuminances middleLuminance (luminance .white) := by decide +kernel
      _ ≤ ratio color .white :=
        ofLuminances_of_ge hcolor hmiddle (luminance_spec .white).1 hle hwhite
  · right
    have hblack : value (luminance .black) ≤ value middleLuminance := by decide +kernel
    calc 4.5 ≤ ofLuminances middleLuminance (luminance .black) := by decide +kernel
      _ ≤ ratio color .black :=
        ofLuminances_of_le hmiddle hcolor (luminance_spec .black).1 hblack hge

end DesignTokens.Contrast

namespace DesignTokens

open Number

/-! ### Verdicts -/

/-- AAA requires at least as much as AA. -/
theorem Level.requiredRatio_aa_le (large : Bool) :
    aa.requiredRatio large ≤ aaa.requiredRatio large := by
  cases large <;> decide

namespace Verdict

variable {foreground background : Rgb} {level : Level} {large : Bool}

theorem passes_evaluate_iff :
    (evaluate foreground background level large).passes = true ↔
      level.requiredRatio large ≤ Contrast.ratio foreground background :=
  decide_eq_true_iff

theorem evaluate_comm (foreground background : Rgb) (level : Level) (large : Bool) :
    evaluate foreground background level large = evaluate background foreground level large := by
  unfold evaluate
  rw [Contrast.ratio_comm]

theorem passes_aa_of_passes_aaa (h : (evaluate foreground background .aaa large).passes = true) :
    (evaluate foreground background .aa large).passes = true := by
  rw [passes_evaluate_iff] at h ⊢
  exact le_of_le_of_le (Level.requiredRatio_aa_le large) h

end Verdict

namespace Contrast

open Verdict (evaluate)

/-- The contrast ratio is symmetric, ranges from `1` for colours of one luminance to the `21` of
black and white, and gives verdicts that do not change when the colours are swapped and that pass AA
if they pass AAA. -/
theorem ratio_is_symmetric_measure (a b : Rgb) :
    ratio a b = ratio b a ∧
    1.0 ≤ ratio a b ∧ ratio a b ≤ ratio .black .white ∧ ratio .black .white = 21.0 ∧
    (luminance a = luminance b → ratio a b = 1.0) ∧
    (∀ level large, evaluate a b level large = evaluate b a level large) ∧
    ∀ large, (evaluate a b .aaa large).passes = true → (evaluate a b .aa large).passes = true := by
  refine ⟨ratio_comm a b, one_le_ratio a b, ratio_le_black_white a b, ratio_black_white,
    ratio_of_luminance_eq, Verdict.evaluate_comm a b, ?_⟩
  intro large hpasses
  exact Verdict.passes_aa_of_passes_aaa hpasses

/-- A grey on itself, and the lightest grey that passes AAA on white. -/
theorem ratio_is_symmetric_measure_grey :
    (luminance ⟨118, 118, 118⟩ = luminance ⟨118, 118, 118⟩ ∧
      ratio ⟨118, 118, 118⟩ ⟨118, 118, 118⟩ = 1.0) ∧
      (evaluate ⟨89, 89, 89⟩ .white .aaa false).passes = true ∧
      (evaluate ⟨89, 89, 89⟩ .white .aa false).passes = true := by
  obtain ⟨-, -, -, -, hsame, -⟩ := ratio_is_symmetric_measure ⟨118, 118, 118⟩ ⟨118, 118, 118⟩
  obtain ⟨-, -, -, -, -, -, hstronger⟩ := ratio_is_symmetric_measure ⟨89, 89, 89⟩ .white
  have hpasses : (evaluate ⟨89, 89, 89⟩ .white .aaa false).passes = true := by decide +kernel
  exact ⟨⟨rfl, hsame rfl⟩, hpasses, hstronger false hpasses⟩

end Contrast

end DesignTokens
