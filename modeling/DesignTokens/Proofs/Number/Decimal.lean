import DesignTokens.Number.Decimal
import DesignTokens.Proofs.Number.Nearest

/-!
# Decimals read back

A decimal is read by its normal form, and the normal form depends on the number alone
(`normalize_eq_of_number_eq`), so that equal numbers are read as the same double, the nearest to
that number (`isNearest_toFloat`).  The exact decimal of a double is therefore read as that double,
and so is the shortest one (`toFloat_shortest`).
-/

namespace DesignTokens.Decimal

open Number

/-- The number that a decimal stands for. -/
def number (d : Decimal) : ℚ :=
  d.coefficient * 10 ^ d.exponent

/-! ### The normal form -/

/-- A decimal whose coefficient has no trailing zero, or the one form of zero. -/
def IsNormal (d : Decimal) : Prop :=
  d = ⟨0, 0⟩ ∨ d.coefficient % 10 ≠ 0

theorem number_stripZeros (fuel c : ℕ) (e : ℤ) : (stripZeros fuel c e).number = c * 10 ^ e := by
  induction fuel generalizing c e with
  | zero => rfl
  | succ fuel ih =>
    unfold stripZeros
    split
    case isTrue h =>
      have hc : (c : ℚ) = (c / 10 : ℕ) * 10 := by
        exact_mod_cast (Nat.div_mul_cancel (Nat.dvd_of_mod_eq_zero h)).symm
      rw [ih, zpow_add_one₀ (by norm_num), hc]
      ring
    case isFalse => rfl

/-- There are never more trailing zeros than binary digits behind the first. -/
theorem stripZeros_coefficient {fuel c : ℕ} (hc : c ≠ 0) (hfuel : c.log2 ≤ fuel) (e : ℤ) :
    (stripZeros fuel c e).coefficient % 10 ≠ 0 := by
  induction fuel generalizing c e with
  | zero =>
    have hlt : c < 2 ^ 1 := (Nat.log2_lt hc).mp (by omega)
    change c % 10 ≠ 0
    omega
  | succ fuel ih =>
    unfold stripZeros
    split
    case isTrue h =>
      have hc' : c / 10 ≠ 0 := by omega
      refine ih hc' ?_ (e + 1)
      have hlt : c < 2 ^ (fuel + 2) := (Nat.log2_lt hc).mp (by omega)
      have hlt' : c / 10 < 2 ^ (fuel + 1) := by
        rw [pow_succ] at hlt
        omega
      have := (Nat.log2_lt hc').mpr hlt'
      omega
    case isFalse h => exact h

theorem isNormal_normalize (d : Decimal) : d.normalize.IsNormal := by
  unfold normalize
  split
  case isTrue => exact Or.inl rfl
  case isFalse h => exact Or.inr (stripZeros_coefficient h le_rfl d.exponent)

theorem number_normalize (d : Decimal) : d.normalize.number = d.number := by
  unfold normalize
  split
  case isTrue h => simp [number, h]
  case isFalse => exact number_stripZeros ..

/-- Two normal forms with different exponents stand for different numbers. -/
theorem exponent_le_of_number_eq {d d' : Decimal} (hd : d.coefficient % 10 ≠ 0)
    (h : d.number = d'.number) : d'.exponent ≤ d.exponent := by
  by_contra hlt
  rw [not_le] at hlt
  obtain ⟨k, hk⟩ : ∃ k : ℕ, d'.exponent = d.exponent + ((k + 1 : ℕ) : ℤ) :=
    ⟨(d'.exponent - d.exponent - 1).toNat, by omega⟩
  have hpos : (0 : ℚ) < 10 ^ d.exponent := zpow_pos (by norm_num) _
  have hcoefficient : d.coefficient = d'.coefficient * 10 ^ (k + 1) := by
    have hq : (d.coefficient : ℚ) = d'.coefficient * 10 ^ (k + 1) := by
      refine mul_right_cancel₀ hpos.ne' ?_
      calc (d.coefficient : ℚ) * 10 ^ d.exponent = d'.coefficient * 10 ^ d'.exponent := h
        _ = d'.coefficient * 10 ^ (k + 1) * 10 ^ d.exponent := by
          rw [hk, zpow_add₀ (by norm_num), zpow_natCast]
          ring
    exact_mod_cast hq
  rw [hcoefficient, pow_succ, ← mul_assoc, Nat.mul_mod_left] at hd
  exact hd rfl

/-- A number has one normal form. -/
theorem eq_of_number_eq {d d' : Decimal} (hd : d.IsNormal) (hd' : d'.IsNormal)
    (h : d.number = d'.number) : d = d' := by
  have hzero : ∀ {d : Decimal}, d.number = 0 → d.coefficient = 0 := by
    intro d h0
    have hpos : (0 : ℚ) < 10 ^ d.exponent := zpow_pos (by norm_num) _
    exact_mod_cast (mul_eq_zero.mp h0).resolve_right hpos.ne'
  have hnull : (⟨0, 0⟩ : Decimal).number = 0 := by simp [number]
  rcases hd with rfl | hd
  · rcases hd' with rfl | hd'
    · rfl
    · rw [hnull] at h
      rw [hzero h.symm] at hd'
      exact absurd rfl hd'
  · rcases hd' with rfl | hd'
    · rw [hnull] at h
      rw [hzero h] at hd
      exact absurd rfl hd
    · -- neither has a trailing zero that the other could have moved into its exponent
      have hexponent :=
        le_antisymm (exponent_le_of_number_eq hd' h.symm) (exponent_le_of_number_eq hd h)
      have hpos : (0 : ℚ) < 10 ^ d'.exponent := zpow_pos (by norm_num) _
      unfold number at h
      rw [hexponent] at h
      have hcoefficient : d.coefficient = d'.coefficient := by
        exact_mod_cast mul_right_cancel₀ hpos.ne' h
      cases d
      cases d'
      simp_all

theorem normalize_eq_of_number_eq {d d' : Decimal} (h : d.number = d'.number) :
    d.normalize = d'.normalize :=
  eq_of_number_eq (isNormal_normalize d) (isNormal_normalize d')
    (by rw [number_normalize, number_normalize, h])

/-- A decimal is read by its number alone. -/
theorem toFloat_eq_of_number_eq {d d' : Decimal} (h : d.number = d'.number) :
    d.toFloat = d'.toFloat := by
  unfold toFloat
  rw [normalize_eq_of_number_eq h]

theorem toFloat_normalize (d : Decimal) : d.normalize.toFloat = d.toFloat :=
  toFloat_eq_of_number_eq (number_normalize d)

/-! ### Correct rounding -/

theorem value_toUInt64_toFloat {m : ℕ} (hm : m < 2 ^ 53) :
    m.toUInt64.toFloat.isFinite = true ∧ value m.toUInt64.toFloat = m := by
  have hword : m.toUInt64.toNat = m := UInt64.toNat_ofNat_of_lt' (show m < 2 ^ 64 by omega)
  obtain ⟨hc, hv⟩ := normalize_spec m.toUInt64.toNat 0 .positive
  have hcast : (((m.toUInt64.toNat : ℕ) : ℤ) : ℚ) * 2 ^ (0 : ℤ) = m := by simp [hword]
  rw [hcast] at hv
  have hround : RoundsTo m m.toUInt64.toFloat := roundsTo_pack hc hv
  exact hround.of_natCast hm

/-- The tabulated powers of ten are exact. -/
theorem value_powerOfTen {e : ℕ} (he : e < Float.exactlyRepresentablePowersOfTen.size) :
    (Float.exactlyRepresentablePowersOfTen[e]).isFinite = true ∧
      value Float.exactlyRepresentablePowersOfTen[e] = 10 ^ e := by
  have hall : ∀ e : Fin 23, (Float.exactlyRepresentablePowersOfTen[e]).isFinite = true ∧
      value Float.exactlyRepresentablePowersOfTen[e] = 10 ^ (e : ℕ) := by decide +kernel
  exact hall ⟨e, he⟩

/-- A literal is read as the double nearest to it, on the fast path (one exact operation) and on the
slow path. -/
theorem isNearest_ofScientific {m : ℕ} (hm : m ≠ 0) (negative : Bool) (e : ℕ) :
    IsNearest false (m * 10 ^ (if negative then -(e : ℤ) else e))
      (Float.ofScientific m negative e) := by
  unfold Float.ofScientific
  by_cases h : m < 2 ^ 53 ∧ e ≤ 22
  · rw [dif_pos h]
    -- with so few decimal places there is no underflow
    have hleast : 2 ^ (-1075 : ℤ) < (m : ℚ) * 10 ^ (if negative then -(e : ℤ) else e) :=
      calc (2 : ℚ) ^ (-1075 : ℤ) < 2 ^ (-100 : ℤ) := zpow_lt_zpow_right₀ (by norm_num) (by norm_num)
        _ ≤ 10 ^ (-22 : ℤ) := by norm_num
        _ ≤ 10 ^ (if negative then -(e : ℤ) else e) :=
          zpow_le_zpow_right₀ (by norm_num) (by split <;> omega)
        _ ≤ m * 10 ^ (if negative then -(e : ℤ) else e) :=
          le_mul_of_one_le_left (zpow_pos (by norm_num) _).le
            (by exact_mod_cast Nat.one_le_iff_ne_zero.mpr hm)
    refine isNearest_of_ne_zero ?_ (rounded_pos hleast).ne'
    obtain ⟨hmf, hmv⟩ := value_toUInt64_toFloat h.1
    obtain ⟨hpf, hpv⟩ := value_powerOfTen (show e < 23 by omega)
    have hpos : (0 : ℚ) < 10 ^ e := by positivity
    cases negative with
    | true =>
      have hdiv := div_roundsTo hmf hpf (by rw [hpv]; exact hpos.ne')
      rw [hmv, hpv] at hdiv
      rw [if_pos rfl, zpow_neg, zpow_natCast, ← div_eq_mul_inv]
      exact hdiv
    | false =>
      have hmul := mul_roundsTo hmf hpf
      rw [hmv, hpv] at hmul
      rw [if_neg Bool.false_ne_true, zpow_natCast]
      exact hmul
  · rw [dif_neg h]
    have hexponent :
        (if negative then Int.negOfNat e else Int.ofNat e) = if negative then -(e : ℤ) else e := by
      cases negative <;> simp [Int.negOfNat_eq]
    dsimp only
    rw [hexponent]
    exact ofScientific_isNearest hm _

theorem ofScientific_roundsTo {m : ℕ} (hm : m ≠ 0) (negative : Bool) (e : ℕ) :
    RoundsTo (m * 10 ^ (if negative then -(e : ℤ) else e)) (Float.ofScientific m negative e) :=
  (isNearest_ofScientific hm negative e).roundsTo

/-- A decimal is read as the double nearest to its number. -/
theorem isNearest_toFloat (d : Decimal) : IsNearest false d.number d.toFloat := by
  by_cases hd : d.coefficient = 0
  · have hnumber : d.number = 0 := by simp [number, hd]
    have hread : d.toFloat = 0.0 := by
      have hnormal : d.normalize = ⟨0, 0⟩ := if_pos hd
      rw [toFloat, hnormal]
      rfl
    rw [hnumber, hread]
    exact ⟨roundsTo_zero, fun _ => rfl⟩
  · -- the normal form is what is read, and it stands for the same number
    rw [← number_normalize]
    have hm : d.normalize.coefficient ≠ 0 := by
      intro h0
      have hnumber := number_normalize d
      rw [number, h0, Nat.cast_zero, zero_mul, number] at hnumber
      exact mul_ne_zero (by exact_mod_cast hd) (zpow_ne_zero _ (by norm_num)) hnumber.symm
    have h := isNearest_ofScientific hm (decide (d.normalize.exponent < 0))
      d.normalize.exponent.natAbs
    have hexponent :
        (if decide (d.normalize.exponent < 0) = true then -(d.normalize.exponent.natAbs : ℤ)
        else d.normalize.exponent.natAbs) = d.normalize.exponent := by
      by_cases hneg : d.normalize.exponent < 0
      · rw [if_pos (decide_eq_true hneg)]
        omega
      · rw [if_neg (by simpa using hneg)]
        omega
    rwa [hexponent] at h

/-! ### Reading back -/

theorem number_exact (s : ℕ) (e : ℤ) : (exact s e).number = s * 2 ^ e := by
  change ((s * 2 ^ e.toNat * 5 ^ (-e).toNat : ℕ) : ℚ) * 10 ^ min e 0 = s * 2 ^ e
  rw [Nat.cast_mul, Nat.cast_mul, Nat.cast_pow, Nat.cast_pow, Nat.cast_two, Nat.cast_ofNat]
  rcases le_total 0 e with he | he
  · rw [min_eq_right he, Int.toNat_of_nonpos (neg_nonpos.mpr he), zpow_zero, pow_zero,
      mul_one, mul_one, ← zpow_natCast, Int.toNat_of_nonneg he]
  · rw [min_eq_left he, Int.toNat_of_nonpos he, pow_zero, mul_one, ← zpow_natCast,
      Int.toNat_of_nonneg (neg_nonneg.mpr he), mul_assoc,
      show (10 : ℚ) = 5 * 2 by norm_num, mul_zpow, ← mul_assoc ((5 : ℚ) ^ (-e)),
      ← zpow_add₀ (by norm_num), neg_add_cancel, zpow_zero, one_mul]

/-- The exact decimal of a positive double is read as that double. -/
theorem toFloat_exact {x : Float} {s : ℕ} {e : ℤ} (h : shape x = .finite false s e) (hs : 0 < s) :
    (exact s e).toFloat = x := by
  obtain ⟨hfinite, hvalue⟩ := value_of_shape h
  change value x = s * 2 ^ e at hvalue
  have hpos : (0 : ℚ) < s * 2 ^ e := mul_pos (by exact_mod_cast hs) (zpow_pos (by norm_num) e)
  have hlt := (canonical_of_isFinite hfinite).2
  rw [hvalue, abs_of_pos hpos] at hlt
  have hround : RoundsTo (exact s e).number (exact s e).toFloat :=
    (isNearest_toFloat (exact s e)).roundsTo
  have hself : rounded (exact s e).number = value x := by
    rw [number_exact, ← hvalue]
    exact rounded_eq_self (onGrid_value hfinite)
  obtain ⟨hfinite', hvalue'⟩ := hround.finite (by rwa [hself, hvalue, abs_of_pos hpos])
  rw [hself] at hvalue'
  exact eq_of_value_eq hfinite' hfinite hvalue' (by rw [hvalue', hvalue]; exact hpos.ne')

/-- A candidate is accepted only if it is read as the double. -/
theorem toFloat_of_ofLength {tie : Tie} {x : Float} {n d length : ℕ} {r : Decimal}
    (h : ofLength tie x n d length = some r) : r.toFloat = x := by
  have hchoice : ∀ first second : Decimal,
      (if first.toFloat = x then some first else if second.toFloat = x then some second else none) =
        some r →
        r.toFloat = x := by
    intro first second h
    split at h
    case isTrue hfirst =>
      obtain rfl := Option.some.inj h
      exact hfirst
    case isFalse =>
      split at h
      case isTrue hsecond =>
        obtain rfl := Option.some.inj h
        exact hsecond
      case isFalse => exact absurd h (by simp)
  unfold ofLength at h
  dsimp only at h
  exact hchoice _ _ h

theorem isNormal_shortest (tie : Tie) (x : Float) (s : ℕ) (e : ℤ) :
    (shortest tie x s e).IsNormal := by
  unfold shortest
  exact isNormal_normalize _

/-- The shortest decimal of a positive double is read as that double. -/
theorem toFloat_shortest (tie : Tie) {x : Float} {s : ℕ} {e : ℤ} (h : shape x = .finite false s e)
    (hs : 0 < s) : (shortest tie x s e).toFloat = x := by
  unfold shortest
  dsimp only
  rw [toFloat_normalize]
  cases hfound : (List.range maxLength).findSome? fun k =>
    ofLength tie x (numerator s e) (denominator e) (k + 1) with
  | none => exact toFloat_exact h hs
  | some r =>
    obtain ⟨k, -, hk⟩ := List.exists_of_findSome?_eq_some hfound
    exact toFloat_of_ofLength hk

end DesignTokens.Decimal
