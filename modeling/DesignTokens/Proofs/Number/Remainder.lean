import DesignTokens.Number.Arithmetic
import DesignTokens.Proofs.Number.Value

/-!
# Remainders

The remainder of two doubles is exact (`value_remainder`), and `wrap` reduces a double modulo `m`:
it is `x - m · ⌊x / m⌋`, rounded (`wrap_roundsTo`).  For a double that is not negative there is
nothing to round (`value_wrap_of_nonneg`), and below the modulus nothing to reduce (`wrap_eq_self`).
-/

namespace DesignTokens.Number

open Float.Model Float.Model.UnpackedFloat

theorem scaleTo_mul_zpow (s : ℕ) {e target : ℤ} (h : target ≤ e) :
    (scaleTo s e target : ℚ) * 2 ^ target = s * 2 ^ e := by
  have hsum : ((e - target).toNat : ℤ) + target = e := by omega
  rw [scaleTo, Nat.pow_eq, Nat.cast_mul, Nat.cast_pow, Nat.cast_ofNat, mul_assoc, ← zpow_natCast,
    ← zpow_add₀ (by norm_num), hsum]

/-- The remainder of two significands at one exponent. -/
theorem natCast_mod_mul_zpow (a : ℕ) {b : ℕ} (hb : b ≠ 0) (e : ℤ) :
    ((a % b : ℕ) : ℚ) * 2 ^ e = Int.fract (a * 2 ^ e / (b * 2 ^ e) : ℚ) * (b * 2 ^ e) := by
  have hpow : (2 : ℚ) ^ e ≠ 0 := (zpow_pos (by norm_num) e).ne'
  have hb : (b : ℚ) ≠ 0 := by exact_mod_cast hb
  rw [mul_div_mul_right _ _ hpow, Int.fract_div_natCast_eq_div_natCast_mod, ← mul_assoc,
    div_mul_cancel₀ _ hb]

/-- A remainder has no more digits than the operand with the lesser exponent. -/
theorem scaleTo_mod_scaleTo_lt {s s' : ℕ} {e e' : ℤ} (hs : s < 2 ^ 53) (hs' : s' < 2 ^ 53)
    (h0 : s' ≠ 0) : scaleTo s e (min e e') % scaleTo s' e' (min e e') < 2 ^ 53 := by
  rcases le_total e e' with h | h
  · have hscale : scaleTo s e (min e e') = s := by simp [scaleTo, min_eq_left h]
    rw [hscale]
    exact lt_of_le_of_lt (Nat.mod_le _ _) hs
  · have hscale : scaleTo s' e' (min e e') = s' := by simp [scaleTo, min_eq_right h]
    rw [hscale]
    exact (Nat.mod_lt _ (Nat.pos_of_ne_zero h0)).trans hs'

theorem fract_mul_le {a b : ℚ} (ha : 0 ≤ a) (hb : 0 < b) : Int.fract (a / b) * b ≤ a := by
  have hfloor : (0 : ℚ) ≤ ⌊a / b⌋ := by exact_mod_cast Int.floor_nonneg.mpr (div_nonneg ha hb.le)
  calc Int.fract (a / b) * b ≤ a / b * b := by
        gcongr
        exact sub_le_self _ hfloor
    _ = a := div_mul_cancel₀ _ hb.ne'

variable {x m : Float}

/-- The remainder is exact and has the sign of the dividend. -/
theorem value_remainder {negative : Bool} {s : ℕ} {e : ℤ} (hshape : shape x = .finite negative s e)
    (hm : m.isFinite = true) (hpos : 0 < value m) :
    (remainder x m).isFinite = true ∧
      value (remainder x m) =
        applySign (signOf negative) (Int.fract (s * 2 ^ e / value m) * value m) := by
  obtain ⟨s', e', hs', hshape', hvm⟩ := shape_of_pos hm hpos
  obtain ⟨hs, he⟩ := significand_lt hshape
  obtain ⟨hlt', he'⟩ := significand_lt hshape'
  obtain ⟨hfinite, hvx⟩ := value_of_shape hshape
  have hnonneg : ∀ (n : ℕ) (e : ℤ), (0 : ℚ) ≤ n * 2 ^ e :=
    fun n e => mul_nonneg (Nat.cast_nonneg n) (zpow_pos (by norm_num) e).le
  set least := min e e' with hleast
  set r := scaleTo s e least % scaleTo s' e' least with hr
  have hfract : (r : ℚ) * 2 ^ least = Int.fract (s * 2 ^ e / value m) * value m := by
    have hne : scaleTo s' e' least ≠ 0 := Nat.mul_ne_zero hs'.ne' (Nat.pow_pos (by norm_num)).ne'
    rw [natCast_mod_mul_zpow _ hne, scaleTo_mul_zpow _ (min_le_left ..),
      scaleTo_mul_zpow _ (min_le_right ..), hvm]
  -- the remainder is below one of the significands, hence a double, and nothing is rounded
  have hgrid : OnGrid ((r : ℚ) * 2 ^ least) := by
    refine ⟨r, least, ?_, le_min he he', by simp⟩
    rw [Nat.abs_cast]
    exact_mod_cast scaleTo_mod_scaleTo_lt hs hlt' hs'.ne'
  have hlimit : (r : ℚ) * 2 ^ least < limit := by
    have hx := (canonical_of_isFinite hfinite).2
    rw [hvx, abs_applySign (hnonneg s e)] at hx
    rw [hfract]
    exact (fract_mul_le (hnonneg s e) hpos).trans_lt hx
  have hexact : rounded (applySign (signOf negative) ((r : ℚ) * 2 ^ least)) =
      applySign (signOf negative) ((r : ℚ) * 2 ^ least) := by
    rw [rounded_applySign, rounded_eq_self hgrid]
  obtain ⟨hrf, hrv⟩ := (ofDyadic_roundsTo negative r least).finite
    (by rwa [hexact, abs_applySign (hnonneg r least)])
  have hremainder : remainder x m = ofDyadic negative r least := by
    unfold remainder
    rw [hshape, hshape']
    exact if_neg hs'.ne'
  rw [hremainder, hrv, hexact, hfract]
  exact ⟨hrf, rfl⟩

theorem roundsTo_value (hx : x.isFinite = true) : RoundsTo (value x) x where
  finite _ := ⟨hx, (rounded_eq_self (onGrid_value hx)).symm⟩
  infinite hge := by
    rw [rounded_eq_self (onGrid_value hx)] at hge
    exact absurd (canonical_of_isFinite hx).2 (not_lt.mpr hge)

/-- `wrap x m` is `x - m · ⌊x / m⌋`, rounded once. -/
theorem wrap_roundsTo (hx : x.isFinite = true) (hm : m.isFinite = true) (hpos : 0 < value m) :
    RoundsTo (Int.fract (value x / value m) * value m) (wrap x m) := by
  obtain ⟨negative, s, e, hshape⟩ := exists_shape hx
  have hvx := (value_of_shape hshape).2
  obtain ⟨hrf, hrv⟩ := value_remainder hshape hm hpos
  have hzero : (0.0 : Float).isFinite = true ∧ value 0.0 = 0 := by decide
  have hlt := lt_iff_value_lt hrf hzero.1
  rw [hzero.2] at hlt
  cases negative with
  | false =>
    change value x = s * 2 ^ e at hvx
    change value _ = Int.fract _ * value m at hrv
    rw [← hvx] at hrv
    have hnonneg : 0 ≤ value (remainder x m) := by
      rw [hrv]
      exact mul_nonneg (Int.fract_nonneg _) hpos.le
    rw [wrap, if_neg (fun h => absurd (hlt.mp h) (not_lt.mpr hnonneg)), ← hrv]
    exact roundsTo_value hrf
  | true =>
    change value x = -(s * 2 ^ e) at hvx
    change value _ = -(Int.fract _ * value m) at hrv
    rw [← neg_eq_iff_eq_neg.mpr hvx, neg_div] at hrv
    -- a negative remainder is brought up by the modulus, but a negative zero is left as it is
    by_cases hfract : Int.fract (value x / value m) = 0
    · have hr0 : value (remainder x m) = 0 := by
        rw [hrv, (Int.fract_neg_eq_zero).mpr hfract, zero_mul, neg_zero]
      rw [wrap, if_neg (fun h => absurd (hlt.mp h) (by rw [hr0]; exact lt_irrefl 0)), hfract,
        zero_mul, ← hr0]
      exact roundsTo_value hrf
    · rw [Int.fract_neg hfract] at hrv
      have hneg : value (remainder x m) < 0 := by
        rw [hrv, neg_lt_zero]
        exact mul_pos (sub_pos.mpr (Int.fract_lt_one _)) hpos
      rw [wrap, if_pos (hlt.mpr hneg)]
      have hsum := add_roundsTo hrf hm
      rwa [hrv, show -((1 - Int.fract (value x / value m)) * value m) + value m =
        Int.fract (value x / value m) * value m by ring] at hsum

/-! ### Doubles that are not negative -/

/-- `±0` is its own remainder. -/
theorem remainder_of_value_eq_zero (hx : x.isFinite = true) (h0 : value x = 0)
    (hm : m.isFinite = true) (hpos : 0 < value m) : remainder x m = x := by
  obtain ⟨negative, hshape, hunpack⟩ := shape_of_value_eq_zero hx h0
  obtain ⟨s', e', hs', hshape', -⟩ := shape_of_pos hm hpos
  have hremainder : remainder x m = ofDyadic negative 0 (min 0 e') := by
    unfold remainder
    rw [hshape, hshape']
    dsimp only
    rw [if_neg hs'.ne', scaleTo, Nat.zero_mul, Nat.zero_mod]
  rw [hremainder]
  apply eq_of_unpack_eq
  rw [hunpack, ofDyadic, if_pos rfl]
  exact unpack_pack trivial
    (by rw [show unpackedValue _ = 0 from rfl, abs_zero]; exact zpow_pos (by norm_num) _)

/-- The remainder of a double that is not negative is not negative, and the double itself below the
modulus. -/
theorem remainder_of_nonneg (hx : x.isFinite = true) (h0 : 0 ≤ value x) (hm : m.isFinite = true)
    (hpos : 0 < value m) :
    (remainder x m).isFinite = true ∧
    value (remainder x m) = Int.fract (value x / value m) * value m ∧
      (value x < value m → remainder x m = x) := by
  rcases h0.eq_or_lt with hzero | hxpos
  · rw [remainder_of_value_eq_zero hx hzero.symm hm hpos, ← hzero]
    simp [hx]
  · obtain ⟨s, e, -, hshape, hvx⟩ := shape_of_pos hx hxpos
    obtain ⟨hfinite, hvalue⟩ := value_remainder hshape hm hpos
    rw [← hvx] at hvalue
    change value _ = Int.fract (value x / value m) * value m at hvalue
    refine ⟨hfinite, hvalue, ?_⟩
    intro hlt
    have hself : Int.fract (value x / value m) = value x / value m :=
      Int.fract_eq_self.mpr ⟨div_nonneg h0 hpos.le, (div_lt_one hpos).mpr hlt⟩
    rw [hself, div_mul_cancel₀ _ hpos.ne'] at hvalue
    exact eq_of_value_eq hfinite hx hvalue (by rw [hvalue]; exact hxpos.ne')

/-- `remainder x m = x - m · ⌊x / m⌋` for `0 ≤ x`. -/
theorem remainder_eq_sub (hx : x.isFinite = true) (h0 : 0 ≤ value x) (hm : m.isFinite = true)
    (hpos : 0 < value m) : ∃ n : ℤ, value (remainder x m) = value x - value m * n := by
  refine ⟨⌊value x / value m⌋, ?_⟩
  rw [(remainder_of_nonneg hx h0 hm hpos).2.1, Int.fract, sub_mul,
    div_mul_cancel₀ _ hpos.ne', mul_comm]

theorem wrap_of_nonneg (hx : x.isFinite = true) (h0 : 0 ≤ value x) (hm : m.isFinite = true)
    (hpos : 0 < value m) : wrap x m = remainder x m := by
  obtain ⟨hfinite, hvalue, -⟩ := remainder_of_nonneg hx h0 hm hpos
  have hzero : (0.0 : Float).isFinite = true ∧ value 0.0 = 0 := by decide
  rw [wrap, if_neg]
  rw [lt_iff_value_lt hfinite hzero.1, hzero.2, hvalue, not_lt]
  exact mul_nonneg (Int.fract_nonneg _) hpos.le

/-- `wrap` is exact for `0 ≤ x`. -/
theorem value_wrap_of_nonneg (hx : x.isFinite = true) (h0 : 0 ≤ value x) (hm : m.isFinite = true)
    (hpos : 0 < value m) : value (wrap x m) = Int.fract (value x / value m) * value m := by
  rw [wrap_of_nonneg hx h0 hm hpos]
  exact (remainder_of_nonneg hx h0 hm hpos).2.1

/-- `wrap x m = x` for `0 ≤ x < m`. -/
theorem wrap_eq_self (hx : x.isFinite = true) (h0 : 0 ≤ value x) (hm : m.isFinite = true)
    (hlt : value x < value m) : wrap x m = x := by
  have hpos : 0 < value m := h0.trans_lt hlt
  rw [wrap_of_nonneg hx h0 hm hpos]
  exact (remainder_of_nonneg hx h0 hm hpos).2.2 hlt

end DesignTokens.Number
