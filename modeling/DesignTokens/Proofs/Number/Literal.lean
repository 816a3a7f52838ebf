import DesignTokens.Proofs.Number.Bounded
import DesignTokens.Proofs.Number.Decimal

/-!
# Literals

What formulas need to know of the numbers they name follows from their digits: a literal lies
between the numbers of the grid between which its digits lie (`literal_spec`, `le_value_literal`),
and an integer literal is exact (`value_literal`).  No double is evaluated for it.
-/

namespace DesignTokens.Number

variable {m e n : ℕ}

/-- A literal has the rounded value of its digits, and what bounds them bounds it. -/
theorem literal_spec (n : ℕ) (h : m ≠ 0 ∧ n < 2 ^ 53 ∧ m ≤ n * 10 ^ e) :
    Bounded n (OfScientific.ofScientific m true e) ∧
      value (OfScientific.ofScientific m true e) = rounded (m / 10 ^ e) := by
  obtain ⟨hm, hn, hle⟩ := h
  have hround := Decimal.ofScientific_roundsTo hm true e
  rw [if_pos rfl, zpow_neg, zpow_natCast, ← div_eq_mul_inv] at hround
  refine hround.bounded (by positivity) ?_ hn
  rw [div_le_iff₀ (by positivity)]
  exact_mod_cast hle

theorem le_value_literal {q : ℚ} (hq : OnGrid q) (n : ℕ) (h : m ≠ 0 ∧ n < 2 ^ 53 ∧ m ≤ n * 10 ^ e)
    (hle : q ≤ m / 10 ^ e) : q ≤ value (OfScientific.ofScientific m true e) := by
  rw [(literal_spec n h).2]
  exact le_rounded hq hle

/-- An integer literal is exact. -/
theorem value_literal (n : ℕ) (h : m ≠ 0 ∧ n < 2 ^ 53 ∧ m = n * 10 ^ e) :
    Bounded n (OfScientific.ofScientific m true e) ∧
    value (OfScientific.ofScientific m true e) = n := by
  obtain ⟨hm, hn, hmn⟩ := h
  obtain ⟨hbounded, hvalue⟩ := literal_spec n ⟨hm, hn, hmn.le⟩
  refine ⟨hbounded, hvalue.trans ?_⟩
  have hexact : (m : ℚ) / 10 ^ e = n := by
    rw [hmn, Nat.cast_mul, Nat.cast_pow, Nat.cast_ofNat, mul_div_cancel_right₀ _ (by positivity)]
  rw [hexact]
  exact rounded_eq_self (onGrid_natCast hn)

theorem value_zero : Bounded 0 0.0 ∧ value 0.0 = 0 := by
  obtain ⟨hfinite, hvalue⟩ := roundsTo_zero.of_abs_le (by norm_num)
  rw [rounded_zero] at hvalue
  exact ⟨⟨hfinite, hvalue.ge, by rw [hvalue]; norm_num⟩, hvalue⟩

theorem value_unit : Bounded 1 1.0 ∧ value 1.0 = 1 := by
  simpa only [Nat.cast_one] using value_literal (m := 10) (e := 1) 1 (by decide)

theorem value_one : (1 : Float).isFinite = true ∧ value 1 = 1 := by
  have hone : (1 : Float) = 1.0 := by decide
  rw [hone]
  exact ⟨value_unit.1.finite, value_unit.2⟩

theorem value_abs {x : Float} (hx : x.isFinite = true) :
    x.abs.isFinite = true ∧ value x.abs = |value x| := by
  obtain ⟨hc, hlt⟩ := canonical_of_isFinite hx
  -- without its sign a canonical form is one still
  have habs : Canonical x.toModel.unpack.abs ∧ unpackedValue x.toModel.unpack.abs = |value x| := by
    unfold value
    generalize x.toModel.unpack = u at hc ⊢
    cases u with
    | infinity s => exact hc.elim
    | notANumber => exact hc.elim
    | zero s => exact ⟨trivial, abs_zero.symm⟩
    | finite s m e h => exact ⟨hc, (abs_unpackedValue_finite h).symm⟩
  have hunpack : x.abs.toModel.unpack = x.toModel.unpack.abs :=
    unpack_pack habs.1 (by rw [habs.2, abs_abs]; exact hlt)
  refine ⟨?_, ?_⟩
  · show x.abs.toModel.unpack.isFinite = true
    rw [hunpack]
    exact isFinite_of_canonical habs.1
  · rw [value, hunpack, habs.2]

end DesignTokens.Number
