import DesignTokens.Proofs.Number.Value

/-!
# Doubles in `[0, m]`

Colours and contrast are computed with doubles of moderate size.  `Bounded m x` says that `x` is
finite and in `[0, m]`; carried along a computation, it excludes overflow, so that every operation
is the exact one rounded.
-/

namespace DesignTokens.Number

open Float.Model

/-- A finite double between `0` and `m`. -/
structure Bounded (m : ℕ) (x : Float) : Prop where
  finite : x.isFinite = true
  nonneg : 0 ≤ value x
  le : value x ≤ m

instance (m : ℕ) (x : Float) : Decidable (Bounded m x) :=
  decidable_of_iff (x.isFinite = true ∧ 0 ≤ value x ∧ value x ≤ m)
    ⟨fun ⟨hf, h0, hm⟩ => ⟨hf, h0, hm⟩, fun ⟨hf, h0, hm⟩ => ⟨hf, h0, hm⟩⟩

/-- A result rounded from a number between `0` and `m`. -/
theorem RoundsTo.bounded {q : ℚ} {z : Float} {m : ℕ} (h : RoundsTo q z) (h0 : 0 ≤ q) (hq : q ≤ m)
    (hm : m < 2 ^ 53) : Bounded m z ∧ value z = rounded q := by
  obtain ⟨hfinite, hvalue⟩ :=
    h.of_abs_le (by rw [abs_of_nonneg h0]; exact hq.trans (natCast_le_top hm))
  refine ⟨⟨hfinite, ?_, ?_⟩, hvalue⟩
  · rw [hvalue]
    exact rounded_nonneg h0
  · rw [hvalue]
    exact rounded_le (onGrid_natCast hm) hq

namespace Bounded

variable {m n : ℕ} {x y : Float}

theorem add (hx : Bounded m x) (hy : Bounded n y) (hmn : m + n < 2 ^ 53) :
    Bounded (m + n) (x + y) ∧ value (x + y) = rounded (value x + value y) := by
  refine (add_roundsTo hx.finite hy.finite).bounded (add_nonneg hx.nonneg hy.nonneg) ?_ hmn
  rw [Nat.cast_add]
  exact add_le_add hx.le hy.le

theorem mul (hx : Bounded m x) (hy : Bounded n y) (hmn : m * n < 2 ^ 53) :
    Bounded (m * n) (x * y) ∧ value (x * y) = rounded (value x * value y) := by
  refine (mul_roundsTo hx.finite hy.finite).bounded (mul_nonneg hx.nonneg hy.nonneg) ?_ hmn
  rw [Nat.cast_mul]
  exact mul_le_mul hx.le hy.le hy.nonneg (Nat.cast_nonneg m)

/-- A quotient by a double that is at least `1 / k`. -/
theorem div {k : ℕ} (hx : Bounded m x) (hy : y.isFinite = true) (hk : 1 ≤ value y * k)
    (hmk : m * k < 2 ^ 53) :
    Bounded (m * k) (x / y) ∧ value (x / y) = rounded (value x / value y) := by
  have hk0 : (0 : ℚ) ≤ k := Nat.cast_nonneg k
  have hpos : 0 < value y := by
    by_contra hle
    exact absurd (mul_nonpos_of_nonpos_of_nonneg (not_lt.mp hle) hk0) (by linarith)
  refine (div_roundsTo hx.finite hy hpos.ne').bounded (div_nonneg hx.nonneg hpos.le) ?_ hmk
  rw [div_le_iff₀ hpos, Nat.cast_mul]
  calc value x ≤ m := hx.le
    _ ≤ m * (value y * k) := le_mul_of_one_le_right (Nat.cast_nonneg m) hk
    _ = m * k * value y := by ring

end Bounded

/-- A byte is converted exactly. -/
theorem value_toFloat (c : UInt8) : Bounded 255 c.toFloat ∧ value c.toFloat = c.toNat := by
  obtain ⟨hc, hv⟩ := normalize_spec c.toNat 0 .positive
  have hcast : ((c.toNat : ℤ) : ℚ) * 2 ^ (0 : ℤ) = c.toNat := by simp
  rw [hcast] at hv
  have hlt : c.toNat < 256 := c.toNat_lt
  have hround : RoundsTo c.toNat c.toFloat := roundsTo_pack hc hv
  obtain ⟨hfinite, hvalue⟩ := hround.of_natCast (by omega)
  have hle : (c.toNat : ℚ) ≤ (255 : ℕ) := by exact_mod_cast Nat.le_of_lt_succ hlt
  exact ⟨⟨hfinite, hvalue ▸ Nat.cast_nonneg _, hvalue ▸ hle⟩, hvalue⟩

end DesignTokens.Number
