import DesignTokens.Number.Arithmetic
import DesignTokens.Proofs.Number.Literal

/-!
# Doubles close to rational numbers

An operation that chooses among its operands makes no error: the values of `min`, `max` and `clamp`
are those of the exact operations (`value_min`, `value_max`, `value_clamp`).

Of the others `Close error x q` keeps account: `x` is finite and `|x - q| ≤ error`.  A result is off
by what it takes over from its operands and by one rounding, for which a power of two above the
exact result is asked (`Close.of_roundsTo`).  So a formula in doubles is followed step by step along
the same formula over `ℚ`: `Close.add`, `Close.sub`, `Close.mul`, `Close.div`.
-/

namespace DesignTokens.Number

open Float.Model

/-! ### Choices -/

section Choices

variable {x y low high : Float}

theorem beq_iff_value_eq (hx : x.isFinite = true) (hy : y.isFinite = true) :
    (x == y) = true ↔ value x = value y := by
  have hbeq : (x == y) = (x.toModel.unpack.compare y.toModel.unpack == some .eq) := rfl
  rw [hbeq, compare_eq (canonical_of_isFinite hx).1 (canonical_of_isFinite hy).1, beq_iff_eq,
    Option.some_inj]
  exact compare_eq_iff_eq

protected theorem le_of_lt (h : x < y) : x ≤ y := by
  have hlt : (x.toModel.unpack.compare y.toModel.unpack == some .lt) = true :=
    decide_eq_true_iff.mp h
  rw [le_iff_compare, beq_iff_eq.mp hlt]
  rfl

/-- The doubles of value zero are `0` and `-0`. -/
theorem eq_zero_or_eq_neg_zero (hx : x.isFinite = true) (h : value x = 0) : x = 0.0 ∨ x = -0.0 := by
  obtain ⟨negative, -, hunpack⟩ := shape_of_value_eq_zero hx h
  cases negative with
  | false => exact Or.inl (eq_of_unpack_eq hunpack)
  | true => exact Or.inr (eq_of_unpack_eq hunpack)

theorem value_min (hx : x.isFinite = true) (hy : y.isFinite = true) :
    (min x y).isFinite = true ∧ value (min x y) = min (value x) (value y) := by
  have hmin : min x y = if x ≤ y then x else y := rfl
  rw [hmin]
  split
  case isTrue h =>
    rw [le_iff_value_le hx hy] at h
    exact ⟨hx, (min_eq_left h).symm⟩
  case isFalse h =>
    rw [le_iff_value_le hx hy, not_le] at h
    exact ⟨hy, (min_eq_right h.le).symm⟩

theorem value_max (hx : x.isFinite = true) (hy : y.isFinite = true) :
    (max x y).isFinite = true ∧ value (max x y) = max (value x) (value y) := by
  have hmax : max x y = if x ≤ y then y else x := rfl
  rw [hmax]
  split
  case isTrue h =>
    rw [le_iff_value_le hx hy] at h
    exact ⟨hy, (max_eq_right h).symm⟩
  case isFalse h =>
    rw [le_iff_value_le hx hy, not_le] at h
    exact ⟨hx, (max_eq_left h.le).symm⟩

theorem value_clamp (hlow : low.isFinite = true) (hhigh : high.isFinite = true)
    (hle : value low ≤ value high) (hx : x.isFinite = true) :
    (clamp low high x).isFinite = true ∧
      value (clamp low high x) = max (value low) (min (value x) (value high)) := by
  unfold clamp
  split
  case isTrue h =>
    rw [lt_iff_value_lt hx hlow] at h
    exact ⟨hlow, by rw [min_eq_left (h.le.trans hle), max_eq_left h.le]⟩
  case isFalse hbelow =>
    rw [lt_iff_value_lt hx hlow, not_lt] at hbelow
    split
    case isTrue h =>
      rw [lt_iff_value_lt hhigh hx] at h
      exact ⟨hhigh, by rw [min_eq_right h.le, max_eq_right hle]⟩
    case isFalse h =>
      rw [lt_iff_value_lt hhigh hx, not_lt] at h
      exact ⟨hx, by rw [min_eq_left h, max_eq_right hbelow]⟩

/-- What lies between the ends is left as it is. -/
theorem clamp_eq_self (hlow : low.isFinite = true) (hhigh : high.isFinite = true)
    (hx : x.isFinite = true) (hbelow : value low ≤ value x) (habove : value x ≤ value high) :
    clamp low high x = x := by
  rw [clamp, if_neg, if_neg]
  · rwa [lt_iff_value_lt hhigh hx, not_lt]
  · rwa [lt_iff_value_lt hx hlow, not_lt]

end Choices

/-! ### Errors -/

/-- `x` is finite and `|x - q| ≤ error`. -/
structure Close (error : ℚ) (x : Float) (q : ℚ) : Prop where
  finite : x.isFinite = true
  near : |value x - q| ≤ error

namespace Close

variable {error error' p q : ℚ} {x y : Float}

theorem weaken (h : Close error x q) (hle : error ≤ error') : Close error' x q :=
  ⟨h.finite, h.near.trans hle⟩

theorem of_value_eq (hx : x.isFinite = true) (h : value x = q) : Close 0 x q :=
  ⟨hx, by rw [h, sub_self, abs_zero]⟩

theorem value_eq (h : Close 0 x q) : value x = q :=
  sub_eq_zero.mp (abs_nonpos_iff.mp h.near)

/-- An integer literal is exact. -/
theorem literal {m e : ℕ} (n : ℕ) [n.AtLeastTwo] (h : m ≠ 0 ∧ n < 2 ^ 53 ∧ m = n * 10 ^ e) :
    Close 0 (OfScientific.ofScientific m true e) (OfNat.ofNat n) :=
  of_value_eq (value_literal n h).1.finite (value_literal n h).2

/-- So is a numeral. -/
theorem numeral (n : ℕ) [n.AtLeastTwo] (h : n ≠ 0 ∧ n < 2 ^ 53) :
    Close 0 (OfNat.ofNat n) (OfNat.ofNat n) := by
  have hround := Decimal.ofScientific_roundsTo h.1 false 0
  rw [if_neg Bool.false_ne_true, Nat.cast_zero, zpow_zero, mul_one] at hround
  obtain ⟨hfinite, hvalue⟩ := hround.of_natCast h.2
  exact of_value_eq hfinite hvalue

theorem one : Close 0 1 1 :=
  of_value_eq value_one.1 value_one.2

theorem nonneg (h : Close error x q) : 0 ≤ error :=
  (abs_nonneg _).trans h.near

/-- The triangle inequality. -/
theorem trans (h : Close error x p) (hpq : |p - q| ≤ error') : Close (error + error') x q :=
  ⟨h.finite, (abs_sub_le _ p _).trans (add_le_add h.near hpq)⟩

theorem abs_value_le (h : Close error x q) : |value x| ≤ |q| + error := by
  have htriangle := abs_add_le (value x - q) q
  rw [sub_add_cancel] at htriangle
  linarith [h.near]

theorem value_ne_zero (h : Close error x q) (hq : error < |q|) : value x ≠ 0 := by
  intro h0
  have hnear := h.near
  rw [h0, zero_sub, abs_neg] at hnear
  exact absurd hq (not_lt.mpr hnear)

/-- One rounding, below a power of two. -/
theorem of_roundsTo {z : Float} {bound : ℚ} (h : RoundsTo p z) (hnear : |p - q| ≤ error)
    (hbound : |q| ≤ bound) (k : ℤ) (hk : bound + error ≤ 2 ^ k ∧ -1022 ≤ k ∧ k ≤ 1023) :
    Close (error + 2 ^ (k - 53)) z q := by
  obtain ⟨hpower, hleast, hgreatest⟩ := hk
  have hp : |p| ≤ 2 ^ k := by
    have htriangle := abs_add_le (p - q) q
    rw [sub_add_cancel] at htriangle
    linarith
  obtain ⟨hfinite, hvalue⟩ := h.of_abs_le (hp.trans (zpow_le_zpow_right₀ (by norm_num) hgreatest))
  refine ⟨hfinite, ?_⟩
  have hround := abs_rounded_sub_le_of_abs_le hp hleast
  rw [hvalue]
  linarith [abs_sub_le (rounded p) p q]

/-! ### The error of an operation -/

theorem add (hx : Close error x p) (hy : Close error' y q) (bound : ℚ)
    (hbound : |p + q| ≤ bound) (k : ℤ)
    (hk : bound + (error + error') ≤ 2 ^ k ∧ -1022 ≤ k ∧ k ≤ 1023) :
    Close (error + error' + 2 ^ (k - 53)) (x + y) (p + q) := by
  refine of_roundsTo (add_roundsTo hx.finite hy.finite) ?_ hbound k hk
  rw [add_sub_add_comm]
  exact (abs_add_le _ _).trans (add_le_add hx.near hy.near)

theorem sub (hx : Close error x p) (hy : Close error' y q) (bound : ℚ)
    (hbound : |p - q| ≤ bound) (k : ℤ)
    (hk : bound + (error + error') ≤ 2 ^ k ∧ -1022 ≤ k ∧ k ≤ 1023) :
    Close (error + error' + 2 ^ (k - 53)) (x - y) (p - q) := by
  refine of_roundsTo (sub_roundsTo hx.finite hy.finite) ?_ hbound k hk
  rw [sub_sub_sub_comm]
  exact (abs_sub _ _).trans (add_le_add hx.near hy.near)

/-- The error of a product is at most `boundQ · error + boundP · error'`, and one rounding. -/
theorem mul (hx : Close error x p) (hy : Close error' y q) (boundP boundQ : ℚ) (hp : |p| ≤ boundP)
    (hq : |q| ≤ boundQ) (k : ℤ)
    (hk : boundP * boundQ + (error * (boundQ + error') + boundP * error') ≤ 2 ^ k ∧
      -1022 ≤ k ∧ k ≤ 1023) :
    Close (error * (boundQ + error') + boundP * error' + 2 ^ (k - 53)) (x * y) (p * q) := by
  have hp0 : 0 ≤ boundP := (abs_nonneg p).trans hp
  refine of_roundsTo (mul_roundsTo hx.finite hy.finite) ?_ ?_ k hk
  · calc |value x * value y - p * q| = |(value x - p) * value y + p * (value y - q)| := by ring_nf
      _ ≤ |value x - p| * |value y| + |p| * |value y - q| := by
          rw [← abs_mul, ← abs_mul]
          exact abs_add_le _ _
      _ ≤ error * (boundQ + error') + boundP * error' := by
          gcongr
          · exact hx.nonneg
          · exact hx.near
          · exact hy.abs_value_le.trans (by gcongr)
          · exact hy.near
  · rw [abs_mul]
    gcongr

/-- The error of a divisor counts as often as the quotient says, and both are divided. -/
theorem div (hx : Close error x p) (hy : Close error' y q) (bound least : ℚ)
    (hbound : |p / q| ≤ bound) (hleast : 0 < least) (hq : least + error' ≤ |q|) (k : ℤ)
    (hk : bound + (error + bound * error') / least ≤ 2 ^ k ∧ -1022 ≤ k ∧ k ≤ 1023) :
    Close ((error + bound * error') / least + 2 ^ (k - 53)) (x / y) (p / q) := by
  have hq0 : q ≠ 0 := by
    rw [← abs_pos]
    linarith [hy.nonneg]
  have hvalue : least ≤ |value y| := by
    have htriangle := abs_sub_abs_le_abs_sub q (value y)
    rw [abs_sub_comm] at htriangle
    linarith [hy.near]
  have hy0 : value y ≠ 0 := abs_pos.mp (hleast.trans_le hvalue)
  refine of_roundsTo (div_roundsTo hx.finite hy.finite hy0) ?_ hbound k hk
  -- over the computed divisor, and not the exact one, the errors of both operands come apart
  have hsplit : value x / value y - p / q = (value x - p - p / q * (value y - q)) / value y := by
    field_simp
    ring
  have hnumerator : |value x - p - p / q * (value y - q)| ≤ error + bound * error' := by
    refine (abs_sub _ _).trans (add_le_add hx.near ?_)
    rw [abs_mul]
    exact mul_le_mul hbound hy.near (abs_nonneg _) ((abs_nonneg _).trans hbound)
  rw [hsplit, abs_div]
  exact div_le_div₀ ((abs_nonneg _).trans hnumerator) hnumerator hleast hvalue

protected theorem min (hx : Close error x p) (hy : Close error' y q) :
    Close (max error error') (min x y) (min p q) := by
  obtain ⟨hfinite, hvalue⟩ := value_min hx.finite hy.finite
  refine ⟨hfinite, ?_⟩
  rw [hvalue]
  exact (abs_min_sub_min_le_max _ _ _ _).trans (max_le_max hx.near hy.near)

protected theorem max (hx : Close error x p) (hy : Close error' y q) :
    Close (max error error') (max x y) (max p q) := by
  obtain ⟨hfinite, hvalue⟩ := value_max hx.finite hy.finite
  refine ⟨hfinite, ?_⟩
  rw [hvalue]
  exact (abs_max_sub_max_le_max _ _ _ _).trans (max_le_max hx.near hy.near)

protected theorem abs (hx : Close error x p) : Close error x.abs |p| := by
  obtain ⟨hfinite, hvalue⟩ := value_abs hx.finite
  refine ⟨hfinite, ?_⟩
  rw [hvalue]
  exact (abs_abs_sub_abs_le_abs_sub _ _).trans hx.near

/-- A rational number in `[low, high]` stays close when the double is clamped. -/
protected theorem clamp {low high : Float} (hx : Close error x q) (hlow : low.isFinite = true)
    (hhigh : high.isFinite = true) (hbelow : value low ≤ q) (habove : q ≤ value high) :
    Close error (clamp low high x) q := by
  obtain ⟨hfinite, hvalue⟩ := value_clamp hlow hhigh (hbelow.trans habove) hx.finite
  refine ⟨hfinite, ?_⟩
  have hself : max (value low) (min q (value high)) = q := by
    rw [min_eq_left habove, max_eq_right hbelow]
  calc |value (clamp low high x) - q|
      = |max (value low) (min (value x) (value high)) - max (value low) (min q (value high))| := by
        rw [hvalue, hself]
    _ ≤ |min (value x) (value high) - min q (value high)| := by
        rw [max_comm, max_comm (value low)]
        exact abs_max_sub_max_le_abs _ _ _
    _ ≤ |value x - q| := by simpa using abs_min_sub_min_le_max (value x) (value high) q (value high)
    _ ≤ error := hx.near

end Close

end DesignTokens.Number
