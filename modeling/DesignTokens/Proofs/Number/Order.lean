import DesignTokens.Proofs.Number.Value
import Mathlib.Order.WithBot

/-!
# The order of all doubles

Targets and other numbers that a user gives may be `±∞` or NaN.  `place` puts a double into `ℚ` with
`-∞` and `∞` added; NaN has no place.  Doubles are ordered as their places (`le_iff_place_le`), so
that `≤` is transitive (`le_of_le_of_le`); an infinity is compared without a look at the other
double (`le_iff_cases`).
-/

namespace DesignTokens.Number

open Float.Model

variable {x y z : Float}

/-- The place of a double in `ℚ` with `-∞` and `∞`; `none` for NaN. -/
def place (x : Float) : Option (WithBot (WithTop ℚ)) :=
  match x.toModel.unpack with
  | .notANumber => none
  | .infinity .negative => some ⊥
  | .infinity .positive => some ⊤
  | .zero _ | .finite .. => some (value x : WithTop ℚ)

theorem place_of_isFinite (hx : x.isFinite = true) : place x = some (value x : WithTop ℚ) := by
  change x.toModel.unpack.isFinite = true at hx
  unfold place
  cases hu : x.toModel.unpack with
  | notANumber => simp [hu, UnpackedFloat.isFinite] at hx
  | infinity s => simp [hu, UnpackedFloat.isFinite] at hx
  | zero s => rfl
  | finite s m e h => rfl

/-- Doubles are ordered as their places. -/
theorem le_iff_place_le : x ≤ y ↔ ∃ p ∈ place x, ∃ q ∈ place y, p ≤ q := by
  by_cases hfinite : x.isFinite = true ∧ y.isFinite = true
  · obtain ⟨hx, hy⟩ := hfinite
    rw [le_iff_value_le hx hy, place_of_isFinite hx, place_of_isFinite hy]
    simp
  · -- one of the two is NaN or `±∞`, which decides the comparison
    change ¬(x.toModel.unpack.isFinite = true ∧ y.toModel.unpack.isFinite = true) at hfinite
    rw [le_iff_compare, place, place]
    cases hx : x.toModel.unpack with
    | notANumber => simp [UnpackedFloat.compare]
    | infinity s =>
      cases hy : y.toModel.unpack with
      | notANumber => simp [UnpackedFloat.compare]
      | infinity s' => cases s <;> cases s' <;> simp [UnpackedFloat.compare] <;> decide
      | _ => cases s <;> simp [UnpackedFloat.compare]
    | _ =>
      cases hy : y.toModel.unpack with
      | notANumber => simp [UnpackedFloat.compare]
      | infinity s' => cases s' <;> simp [UnpackedFloat.compare]
      | _ => simp [hx, hy, UnpackedFloat.isFinite] at hfinite

/-- `≤` is transitive on all doubles. -/
theorem le_of_le_of_le (hxy : x ≤ y) (hyz : y ≤ z) : x ≤ z := by
  rw [le_iff_place_le] at hxy hyz ⊢
  obtain ⟨p, hp, q, hq, hpq⟩ := hxy
  obtain ⟨q', hq', r, hr, hqr⟩ := hyz
  obtain rfl := Option.mem_unique hq hq'
  exact ⟨p, hp, r, hr, hpq.trans hqr⟩

/-- `x ≤ y` exactly if `x = -∞`, `y = ∞`, or both are finite and their values are in order; and
neither is NaN. -/
theorem le_iff_cases : x ≤ y ↔
    x.toModel.unpack = .infinity .negative ∧ y.toModel.unpack ≠ .notANumber ∨
    y.toModel.unpack = .infinity .positive ∧ x.toModel.unpack ≠ .notANumber ∨
    x.isFinite = true ∧ y.isFinite = true ∧ value x ≤ value y := by
  change _ ↔ _ ∨ _ ∨ x.toModel.unpack.isFinite = true ∧ y.toModel.unpack.isFinite = true ∧ _
  rw [le_iff_place_le]
  unfold place
  rcases x.toModel.unpack with (_ | _) | _ | _ | _ <;> rcases y.toModel.unpack with (_ | _)
    | _ | _ | _ <;>
    simp [UnpackedFloat.isFinite]

instance transLe : Trans (α := Float) (· ≤ ·) (· ≤ ·) (· ≤ ·) := ⟨le_of_le_of_le⟩

instance transGe : Trans (α := Float) (· ≥ ·) (· ≥ ·) (· ≥ ·) :=
  ⟨fun hxy hyz => le_of_le_of_le hyz hxy⟩

end DesignTokens.Number
