import DesignTokens.Proofs.Number.Threshold

/-!
# The nearest double

`IsNearest negative q x` says that `x` is what a number is rounded to, with a sign bit also for
zero, so that there is just one such double (`IsNearest.unique`).  A positive decimal number of any
exponent is read as the double nearest to it (`ofScientific_isNearest`): beyond the exponents for
which a power of ten is computed at all, `∞` or `0` is the nearest double.
-/

namespace DesignTokens.Number

open Float.Model Float.Model.UnpackedFloat

/-- The double nearest to `± q` for `0 ≤ q`; a zero has the sign too. -/
structure IsNearest (negative : Bool) (q : ℚ) (x : Float) : Prop where
  roundsTo : RoundsTo (applySign (signOf negative) q) x
  zero : rounded q = 0 → x.toModel.unpack = .zero (signOf negative)

section IsNearest

variable {negative : Bool} {q : ℚ} {x y : Float}

theorem IsNearest.unique (hx : IsNearest negative q x) (hy : IsNearest negative q y) : x = y := by
  by_cases h0 : rounded q = 0
  · exact eq_of_unpack_eq ((hx.zero h0).trans (hy.zero h0).symm)
  · refine hx.roundsTo.unique hy.roundsTo ?_
    rw [rounded_applySign]
    cases negative with
    | false => exact h0
    | true => exact neg_ne_zero.mpr h0

theorem isNearest_of_ne_zero (h : RoundsTo q x) (h0 : rounded q ≠ 0) : IsNearest false q x :=
  ⟨h, fun hzero => absurd hzero h0⟩

theorem RoundsTo.neg (h : RoundsTo q x) : RoundsTo (-q) (-x) where
  finite hlt := by
    rw [rounded_neg, abs_neg] at hlt
    obtain ⟨hfinite, hvalue⟩ := h.finite hlt
    rw [rounded_neg, ← hvalue]
    exact value_neg hfinite
  infinite hle := by
    rw [rounded_neg, abs_neg] at hle
    rw [unpack_neg, h.infinite hle]
    rcases lt_trichotomy q 0 with hlt | rfl | hgt
    · rw [if_pos hlt, if_neg (by linarith)]
      rfl
    · rw [rounded_zero, abs_zero] at hle
      exact absurd hle (not_le.mpr (zpow_pos (by norm_num) _))
    · rw [if_neg (by linarith), if_pos (by linarith)]
      rfl

theorem IsNearest.neg (h : IsNearest false q x) : IsNearest true q (-x) where
  roundsTo := h.roundsTo.neg
  zero h0 := by
    rw [unpack_neg, h.zero h0]
    rfl

end IsNearest

/-! ### Decimal numbers -/

theorem isNearest_infinity {q : ℚ} (hq : limit ≤ q) :
    IsNearest false q (.ofModel (.pack (.infinity .positive))) := by
  have hlimit : 0 < limit := zpow_pos (by norm_num) _
  have hround : limit ≤ rounded q := le_rounded (onGrid_two_zpow (by norm_num)) hq
  refine isNearest_of_ne_zero ⟨?_, ?_⟩ (hlimit.trans_le hround).ne'
  · intro hlt
    exact absurd (hround.trans (le_abs_self _)) (not_le.mpr hlt)
  · intro _
    rw [if_neg (by linarith)]
    exact unpack_packedInfinity .positive

theorem isNearest_zero {q : ℚ} (h0 : rounded q = 0) :
    IsNearest false q (.ofModel (.pack (.zero .positive))) where
  roundsTo := roundsTo_pack trivial h0.symm
  zero _ := unpack_packedZero

/-- Rounding keeps the sign, of a zero too. -/
theorem roundWithAccuracy_eq_zero {s : Sign} {m : ℕ} {e : ℤ} {accuracy : Accuracy}
    (h : unpackedValue (roundWithAccuracy .binary64 s m e accuracy) = 0) :
    roundWithAccuracy .binary64 s m e accuracy = .zero s := by
  unfold roundWithAccuracy at h ⊢
  dsimp only at h ⊢
  split_ifs at h ⊢
  · rfl
  · cases s with
    | positive => exact absurd h unpackedValue_pos.ne'
    | negative => exact absurd h unpackedValue_neg_of_negative.ne

/-- A positive decimal number that becomes a zero becomes the positive one. -/
theorem ofScientific_eq_zero {m : ℕ} {e : ℤ} (hm : m ≠ 0) (hbig : e ≤ 2048)
    (hsmall : -(2048 + m.log2 : ℤ) ≤ e)
    (h : unpackedValue (UnpackedFloat.ofScientific .binary64 m e) = 0) :
    UnpackedFloat.ofScientific .binary64 m e = .zero .positive := by
  unfold UnpackedFloat.ofScientific at h ⊢
  rw [dif_neg hm, if_neg (by norm_num; omega), if_neg (by norm_num; omega)] at h ⊢
  split_ifs at h ⊢ with he
  · exact roundWithAccuracy_eq_zero h
  · exact roundWithAccuracy_eq_zero h

/-- A positive decimal number is read as the double nearest to it. -/
theorem ofScientific_isNearest {m : ℕ} (hm : m ≠ 0) (e : ℤ) :
    IsNearest false (m * 10 ^ e) (.ofModel (Float.Model.ofScientific m e)) := by
  have hm1 : (1 : ℚ) ≤ m := by exact_mod_cast Nat.one_le_iff_ne_zero.mpr hm
  change IsNearest false _ (.ofModel (.pack (UnpackedFloat.ofScientific .binary64 m e)))
  rcases lt_or_ge 2048 e with hbig | hbig
  · have hread : UnpackedFloat.ofScientific .binary64 m e = .infinity .positive := by
      unfold UnpackedFloat.ofScientific
      rw [dif_neg hm, if_pos (by norm_num; omega)]
    rw [hread]
    refine isNearest_infinity ?_
    calc limit = (2 : ℚ) ^ (1024 : ℤ) := rfl
      _ ≤ 2 ^ e := zpow_le_zpow_right₀ (by norm_num) (by omega)
      _ ≤ 10 ^ e := zpow_le_zpow_left₀ (by omega) (by norm_num) (by norm_num)
      _ ≤ m * 10 ^ e := le_mul_of_one_le_left (zpow_pos (by norm_num) e).le hm1
  · rcases lt_or_ge e (-(2048 + m.log2 : ℤ)) with hsmall | hsmall
    · have hread : UnpackedFloat.ofScientific .binary64 m e = .zero .positive := by
        unfold UnpackedFloat.ofScientific
        rw [dif_neg hm, if_neg (by norm_num; omega), if_pos (by norm_num; omega)]
      rw [hread]
      refine isNearest_zero (rounded_eq_zero (by positivity) ?_)
      -- the power of ten takes away all binary digits of the coefficient and more
      have hlt : (m : ℚ) ≤ 2 ^ (m.log2 + 1 : ℤ) := by exact_mod_cast (Nat.lt_log2_self (n := m)).le
      have hpower : (10 : ℚ) ^ e ≤ 2 ^ e := by
        have hneg := zpow_le_zpow_left₀ (n := -e) (by omega) (by norm_num : (0 : ℚ) ≤ 2)
          (by norm_num : (2 : ℚ) ≤ 10)
        rw [zpow_neg, zpow_neg] at hneg
        exact (inv_le_inv₀ (zpow_pos (by norm_num) e) (zpow_pos (by norm_num) e)).mp hneg
      calc (m : ℚ) * 10 ^ e ≤ 2 ^ (m.log2 + 1 : ℤ) * 2 ^ e :=
            mul_le_mul hlt hpower (zpow_pos (by norm_num) e).le (zpow_pos (by norm_num) _).le
        _ = 2 ^ (m.log2 + 1 + e : ℤ) := (zpow_add₀ (by norm_num) _ _).symm
        _ ≤ 2 ^ (-1075 : ℤ) := zpow_le_zpow_right₀ (by norm_num) (by omega)
    · obtain ⟨hc, hv⟩ := ofScientific_spec hm hbig hsmall
      refine ⟨roundsTo_pack hc hv, ?_⟩
      intro h0
      have hzero := ofScientific_eq_zero hm hbig hsmall (hv.trans h0)
      show (Float.Model.pack _).unpack = _
      rw [hzero]
      exact unpack_packedZero

end DesignTokens.Number
