import DesignTokens.Number.Arithmetic
import DesignTokens.Proofs.Number.Value

/-!
# Integers from doubles

The integer nearest to a double is computed exactly (`value_nearestWhole`), and conversion to a byte
is truncation clamped to `[0, 255]` (`toNat_toUInt8`).
-/

namespace DesignTokens.Number

open Float.Model

/-! ### The nearest integer -/

theorem roundsUp_up_iff (q r d : ℕ) : Tie.up.roundsUp q r d = true ↔ d ≤ 2 * r := by
  unfold Tie.roundsUp
  rcases lt_trichotomy (2 * r) d with h | h | h
  · rw [compare_lt_iff_lt.mpr h]
    simp [h]
  · rw [compare_eq_iff_eq.mpr h]
    simp [h]
  · rw [compare_gt_iff_gt.mpr h]
    simp [h.le]

theorem roundDiv_up_eq_round (n : ℕ) {d : ℕ} (hd : 0 < d) :
    (roundDiv .up n d : ℤ) = round ((n : ℚ) / d) := by
  have hd' : (0 : ℚ) < d := by exact_mod_cast hd
  have hround : round ((n : ℚ) / d) = ((2 * n + d : ℕ) : ℤ) / ((2 * d : ℕ) : ℤ) := by
    rw [round_eq, ← Rat.floor_intCast_div_natCast]
    congr 1
    push_cast
    field_simp
  rw [hround]
  norm_cast
  have hn := Nat.div_add_mod n d
  have hlt := Nat.mod_lt n hd
  unfold roundDiv
  -- from here on only the quotient and the remainder count
  generalize n / d = q at *
  generalize n % d = r at *
  subst hn
  simp only [roundsUp_up_iff]
  rw [eq_comm]
  split
  case isTrue h =>
    refine Nat.div_eq_of_lt_le ?_ ?_ <;> nlinarith
  case isFalse h =>
    refine Nat.div_eq_of_lt_le ?_ ?_ <;> nlinarith

/-- The integer nearest to `q`, ties away from zero. -/
def awayFromZero (q : ℚ) : ℤ :=
  if q < 0 then -round (-q) else round q

theorem awayFromZero_applySign (negative : Bool) {q : ℚ} (hq : 0 ≤ q) :
    (awayFromZero (applySign (signOf negative) q) : ℚ) =
      applySign (signOf negative) (round q : ℤ) := by
  cases negative with
  | false =>
    change ((if q < 0 then -round (-q) else round q : ℤ) : ℚ) = (round q : ℤ)
    rw [if_neg (not_lt.mpr hq)]
  | true =>
    change ((if -q < 0 then -round (- -q) else round (-q) : ℤ) : ℚ) = -(round q : ℤ)
    rcases hq.eq_or_lt with rfl | hpos
    · simp
    · rw [if_pos (neg_neg_of_pos hpos), neg_neg, Int.cast_neg]

theorem natCast_mul_zpow_eq_div (s : ℕ) {e : ℤ} (he : e < 0) :
    (s : ℚ) * 2 ^ e = s / denominator e := by
  unfold denominator
  rw [div_eq_mul_inv]
  congr 1
  change (2 : ℚ) ^ e = ((2 ^ (-e).toNat : ℕ) : ℚ)⁻¹
  rw [Nat.cast_pow, Nat.cast_two, ← zpow_natCast, ← zpow_neg]
  congr 1
  omega

theorem awayFromZero_intCast (n : ℤ) : awayFromZero n = n := by
  unfold awayFromZero
  rw [← Int.cast_neg, round_intCast, round_intCast, neg_neg, ite_self]

theorem awayFromZero_mono {q r : ℚ} (hqr : q ≤ r) : awayFromZero q ≤ awayFromZero r := by
  have hround : ∀ {q r : ℚ}, q ≤ r → round q ≤ round r := by
    intro q r h
    rw [round_eq, round_eq]
    exact Int.floor_mono (by linarith)
  have hnonneg : ∀ {q : ℚ}, 0 ≤ q → 0 ≤ round q := by
    intro q h
    simpa using hround h
  unfold awayFromZero
  split
  case isTrue hq =>
    split
    case isTrue => exact neg_le_neg (hround (neg_le_neg hqr))
    case isFalse hr =>
      have h₁ := hnonneg (neg_nonneg.mpr hq.le)
      have h₂ := hnonneg (not_lt.mp hr)
      omega
  case isFalse hq =>
    rw [if_neg (by linarith)]
    exact hround hqr

theorem awayFromZero_eq_of_near {q : ℚ} {n : ℤ} (h : |q - n| < 1 / 2) : awayFromZero q = n := by
  have hround : ∀ {q : ℚ} {n : ℤ}, |q - n| < 1 / 2 → round q = n := by
    intro q n h
    rw [abs_lt] at h
    rw [round_eq, Int.floor_eq_iff]
    constructor <;> linarith
  unfold awayFromZero
  split
  case isTrue =>
    rw [hround (n := -n), neg_neg]
    rwa [Int.cast_neg, neg_sub_neg, abs_sub_comm]
  case isFalse => exact hround h

theorem roundDiv_le (tie : Tie) (n d : ℕ) : roundDiv tie n d ≤ n / d + 1 := by
  unfold roundDiv
  dsimp only
  split <;> omega

theorem value_ofNatural (negative : Bool) {n : ℕ} (hn : n < 2 ^ 53) :
    (ofNatural negative n).isFinite = true ∧
      value (ofNatural negative n) = applySign (signOf negative) n := by
  have hcast : applySign (signOf negative) (n * 2 ^ (0 : ℤ)) = applySign (signOf negative) n := by
    rw [zpow_zero, mul_one]
  have hgrid : OnGrid (applySign (signOf negative) n) := by
    refine ⟨(signOf negative).apply n, 0, ?_, by norm_num, ?_⟩
    · cases negative <;> simpa [signOf, UnpackedFloat.Sign.apply] using (by exact_mod_cast hn)
    · rw [← applySign_natCast, hcast]
  have hle : |applySign (signOf negative) (n : ℚ)| ≤ 2 ^ (1023 : ℤ) := by
    rw [abs_applySign (Nat.cast_nonneg n)]
    exact natCast_le_top hn
  have h := ofDyadic_roundsTo negative n 0
  rw [hcast] at h
  obtain ⟨hfinite, hvalue⟩ := h.of_abs_le hle
  exact ⟨hfinite, hvalue.trans (rounded_eq_self hgrid)⟩

/-- The integer nearest to a double is a double. -/
theorem value_nearestWhole {x : Float} (hx : x.isFinite = true) :
    (nearestWhole x).isFinite = true ∧ value (nearestWhole x) = awayFromZero (value x) := by
  obtain ⟨negative, s, e, hshape⟩ := exists_shape hx
  have hv := (value_of_shape hshape).2
  unfold nearestWhole
  rw [hshape]
  by_cases he : e < 0
  · simp only [he, if_true]
    have hd : 2 ≤ denominator e := by
      change 2 ^ 1 ≤ 2 ^ (-e).toNat
      exact Nat.pow_le_pow_right (by norm_num) (by omega)
    have hsmall : roundDiv .up s (denominator e) < 2 ^ 53 := by
      have h1 := roundDiv_le .up s (denominator e)
      have h2 : s / denominator e ≤ s / 2 := Nat.div_le_div_left hd (by norm_num)
      have h3 := (significand_lt hshape).1
      omega
    obtain ⟨hfinite, hvalue⟩ := value_ofNatural negative hsmall
    refine ⟨hfinite, ?_⟩
    have hround := roundDiv_up_eq_round s (by omega : 0 < denominator e)
    rw [hvalue, hv, natCast_mul_zpow_eq_div s he,
      awayFromZero_applySign negative (by positivity), ← hround, Int.cast_natCast]
  · simp only [he, if_false]
    refine ⟨hx, ?_⟩
    -- without a fraction the value is an integer already
    have hwhole : value x = ((signOf negative).apply (numerator s e : ℤ) : ℤ) := by
      have hnum : (s : ℚ) * 2 ^ e = numerator s e * 2 ^ (0 : ℤ) := by
        unfold numerator
        rw [zpow_zero, mul_one, Nat.cast_mul]
        congr 1
        change (2 : ℚ) ^ e = ((2 ^ e.toNat : ℕ) : ℚ)
        rw [Nat.cast_pow, Nat.cast_two, ← zpow_natCast]
        congr 1
        omega
      rw [hv, hnum, applySign_natCast, zpow_zero, mul_one]
    rw [hwhole, awayFromZero_intCast]

/-! ### Bytes -/

/-- The truncation of a magnitude, with the sign. -/
theorem roundToInt_eq (s : UnpackedFloat.Sign) (m : ℕ) (e : ℤ) :
    UnpackedFloat.roundToInt s m e = s.apply ⌊(m : ℚ) * 2 ^ e⌋ := by
  have hpos : (0 : ℚ) < 2 ^ (UnpackedFloat.decreaseExponent m e 0).2 := zpow_pos (by norm_num) _
  have hle : (UnpackedFloat.decreaseExponent m e 0).2 ≤ 0 := by
    simp only [UnpackedFloat.decreaseExponent]
    omega
  have hstands := stands_exact (UnpackedFloat.decreaseExponent m e 0).1
  rw [← mul_div_cancel_right₀ ((UnpackedFloat.decreaseExponent m e 0).1 : ℚ) hpos.ne',
    decreaseExponent_value] at hstands
  have hfloor := (stands_shiftToExponent hstands hle).1.mantissa_eq
  rw [zpow_zero, div_one] at hfloor
  exact congrArg s.apply hfloor

theorem toNat_ofNatClamp (n : ℕ) : (UInt8.ofNatClamp n).toNat = min 255 n := by
  unfold UInt8.ofNatClamp
  split
  case isTrue h =>
    have : n < 256 := h
    rw [UInt8.toNat_ofNatLT]
    omega
  case isFalse h =>
    have : ¬n < 256 := h
    rw [UInt8.toNat_ofNatLT]
    change 255 = _
    omega

/-- A double is converted to a byte by truncation, clamped to `[0, 255]`. -/
theorem toNat_toUInt8 {x : Float} (hx : x.isFinite = true) :
    x.toUInt8.toNat = min 255 ⌊value x⌋.toNat := by
  change (UInt8.ofNatClamp (UnpackedFloat.toInt 0 255 x.toModel.unpack).toNat).toNat =
    min 255 ⌊unpackedValue x.toModel.unpack⌋.toNat
  rw [toNat_ofNatClamp]
  change x.toModel.unpack.isFinite = true at hx
  cases hu : x.toModel.unpack with
  | infinity s => simp [hu, UnpackedFloat.isFinite] at hx
  | notANumber => simp [hu, UnpackedFloat.isFinite] at hx
  | zero s => simp [UnpackedFloat.toInt, unpackedValue]
  | finite s m e h =>
    change min 255 (UnpackedFloat.roundToInt s m e).toNat = min 255 ⌊applySign s (m * 2 ^ e)⌋.toNat
    rw [roundToInt_eq]
    have hnonneg : (0 : ℚ) ≤ m * 2 ^ e :=
      mul_nonneg (Nat.cast_nonneg m) (zpow_pos (by norm_num) e).le
    cases s with
    | positive => rfl
    | negative =>
      change min 255 (-⌊(m : ℚ) * 2 ^ e⌋).toNat = min 255 ⌊-((m : ℚ) * 2 ^ e)⌋.toNat
      -- below zero truncation and floor differ, but a byte begins at zero
      have h1 : 0 ≤ ⌊(m : ℚ) * 2 ^ e⌋ := Int.floor_nonneg.mpr hnonneg
      have h2 : ⌊-((m : ℚ) * 2 ^ e)⌋ ≤ 0 := by
        rw [Int.floor_neg, neg_nonpos]
        exact h1.trans (Int.floor_le_ceil _)
      omega

end DesignTokens.Number
