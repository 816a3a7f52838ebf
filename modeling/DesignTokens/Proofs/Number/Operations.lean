import DesignTokens.Proofs.Number.Unpacked

/-!
# The four operations on unpacked doubles

Each operation on canonical forms yields the canonical form of the exact result, rounded once:
`add_spec`, `sub_spec`, `mul_spec` and `div_spec`.  A decimal number with an exponent is read in the
same way (`ofScientific_spec`).

The operands of `mul_finite_spec` and `div_finite_spec` need not be canonical: what they ask for is
that the exact product has digits enough, or that the divisor is not zero.
-/

namespace DesignTokens.Number

open Float.Model Float.Model.UnpackedFloat

/-! ### Sums -/

theorem log2_shiftLeft {m : ℕ} (hm : m ≠ 0) (k : ℕ) : (m <<< k).log2 = m.log2 + k := by
  induction k with
  | zero => simp
  | succ k ih =>
    have h0 : m <<< k ≠ 0 := by
      rw [Nat.shiftLeft_eq]
      positivity
    rw [Nat.shiftLeft_succ, Nat.log2_two_mul h0, ih]
    rfl

/-- Taking digits from the exponent does not change the number. -/
theorem decreaseExponent_value (m : ℕ) (e t : ℤ) :
    ((decreaseExponent m e t).1 : ℚ) * 2 ^ (decreaseExponent m e t).2 = m * 2 ^ e := by
  simp only [decreaseExponent, Nat.shiftLeft_eq]
  push_cast
  rw [mul_assoc, ← zpow_natCast, ← zpow_add₀ (by norm_num)]
  congr 2
  ring

theorem decreaseExponent_snd {m : ℕ} {e t : ℤ} (h : t ≤ e) : (decreaseExponent m e t).2 = t := by
  simp only [decreaseExponent]
  omega

theorem round_spec {s : Sign} {m : ℕ} {e : ℤ} (hm : 0 < m) :
    Canonical (round .binary64 s m e) ∧
      unpackedValue (round .binary64 s m e) = applySign s (rounded (m * 2 ^ e)) := by
  have hpos : (0 : ℚ) < m * 2 ^ e := mul_pos (by exact_mod_cast hm) (zpow_pos (by norm_num) e)
  set t := Format.binary64.targetExponent (totalExponent m e) with ht
  have hvalue := decreaseExponent_value m e t
  set d := decreaseExponent m e t with hd
  have hround : round .binary64 s m e = roundWithAccuracy .binary64 s d.1 d.2 .exact := rfl
  have htotal : totalExponent d.1 d.2 = totalExponent m e := by
    rw [hd, totalExponent_eq, totalExponent_eq, decreaseExponent, log2_shiftLeft hm.ne']
    push_cast
    omega
  have hexact : m * 2 ^ e / (2 : ℚ) ^ d.2 = d.1 := by
    rw [← hvalue, mul_div_cancel_right₀ _ (zpow_pos (by norm_num) _).ne']
  rw [hround]
  refine roundWithAccuracy_spec hpos ?_ ?_
  · rw [hexact]
    exact stands_exact d.1
  · rw [htotal, ← ht, hd, decreaseExponent]
    simp only
    omega

theorem normalize_spec (m e : ℤ) (s : Sign) :
    Canonical (normalize .binary64 m e s) ∧
      unpackedValue (normalize .binary64 m e s) = rounded (m * 2 ^ e) := by
  rcases lt_trichotomy m 0 with hlt | rfl | hgt
  · have hcast : (m : ℚ) = -(((-m).toNat : ℕ) : ℚ) := by
      have : m = -(((-m).toNat : ℕ) : ℤ) := by omega
      exact_mod_cast this
    rw [UnpackedFloat.normalize, Int.compare_eq_lt.mpr hlt, hcast, neg_mul, rounded_neg]
    exact round_spec (by omega)
  · rw [UnpackedFloat.normalize, Int.compare_eq_eq.mpr rfl]
    exact ⟨trivial, by simp [unpackedValue]⟩
  · have hcast : (m : ℚ) = ((m.toNat : ℕ) : ℚ) := by
      have : m = ((m.toNat : ℕ) : ℤ) := by omega
      exact_mod_cast this
    rw [UnpackedFloat.normalize, Int.compare_eq_gt.mpr hgt, hcast]
    exact round_spec (by omega)

theorem applySign_natCast (s : Sign) (m : ℕ) (e : ℤ) :
    applySign s (m * 2 ^ e) = (s.apply m : ℤ) * 2 ^ e := by
  cases s <;> simp [applySign, Sign.apply]

/-- A signed number in units of a smaller power of two. -/
theorem apply_decreaseExponent {s : Sign} {m : ℕ} {e t : ℤ} (h : t ≤ e) :
    ((s.apply (decreaseExponent m e t).1 : ℤ) : ℚ) * 2 ^ t = applySign s (m * 2 ^ e) := by
  rw [← decreaseExponent_value m e t, decreaseExponent_snd h, applySign_natCast]

/-- A canonical form is its own rounding. -/
theorem rounded_unpackedValue {u : UnpackedFloat} (hu : Canonical u) :
    rounded (unpackedValue u) = unpackedValue u := by
  cases u with
  | infinity s => exact hu.elim
  | notANumber => exact hu.elim
  | zero s => simp [unpackedValue]
  | finite s m e h =>
    rw [unpackedValue, rounded_applySign]
    congr 1
    obtain ⟨hm, he, -⟩ := hu
    exact rounded_eq_self ⟨m, e, by exact_mod_cast hm, he, by norm_cast⟩

@[simp]
theorem canonical_neg {u : UnpackedFloat} : Canonical u.neg ↔ Canonical u := by
  cases u <;> rfl

@[simp]
theorem unpackedValue_neg (u : UnpackedFloat) : unpackedValue u.neg = -unpackedValue u := by
  cases u with
  | finite s m e h =>
    cases s
    · exact (neg_neg _).symm
    · rfl
  | _ => simp [unpackedValue, UnpackedFloat.neg]

theorem add_spec {a b : UnpackedFloat} (ha : Canonical a) (hb : Canonical b) :
    Canonical (UnpackedFloat.add .binary64 a b) ∧
      unpackedValue (UnpackedFloat.add .binary64 a b) =
        rounded (unpackedValue a + unpackedValue b) := by
  cases a with
  | infinity s => exact ha.elim
  | notANumber => exact ha.elim
  | zero s =>
    cases b with
    | infinity s' => exact hb.elim
    | notANumber => exact hb.elim
    | zero s' =>
      simp only [UnpackedFloat.add]
      split_ifs <;> simp [Canonical, unpackedValue]
    | finite s' m e h =>
      simp only [UnpackedFloat.add]
      refine ⟨hb, ?_⟩
      rw [show unpackedValue (.zero s) = 0 from rfl, zero_add, rounded_unpackedValue hb]
  | finite s m e h =>
    cases b with
    | infinity s' => exact hb.elim
    | notANumber => exact hb.elim
    | zero s' =>
      simp only [UnpackedFloat.add]
      refine ⟨ha, ?_⟩
      rw [show unpackedValue (.zero s') = 0 from rfl, add_zero, rounded_unpackedValue ha]
    | finite s' m' e' h' =>
      simp only [UnpackedFloat.add]
      -- both operands are counted in units of the lesser exponent, so that their sum is exact and
      -- rounded once
      obtain ⟨hc, hv⟩ := normalize_spec
        (s.apply (decreaseExponent m e (min e e')).1 +
          s'.apply (decreaseExponent m' e' (min e e')).1)
        (min e e') .positive
      refine ⟨hc, ?_⟩
      rw [hv]
      push_cast
      rw [add_mul, apply_decreaseExponent (min_le_left _ _),
        apply_decreaseExponent (min_le_right _ _)]
      rfl

theorem sub_eq_add (a b : UnpackedFloat) :
    UnpackedFloat.sub .binary64 a b = UnpackedFloat.add .binary64 a b.neg := by
  cases a <;> cases b <;> try rfl
  case finite.finite s m e h s' m' e' h' =>
    simp only [UnpackedFloat.sub, UnpackedFloat.add, UnpackedFloat.neg]
    congr 1
    cases s'
    · exact sub_neg_eq_add _ _
    · exact sub_eq_add_neg _ _

theorem sub_spec {a b : UnpackedFloat} (ha : Canonical a) (hb : Canonical b) :
    Canonical (UnpackedFloat.sub .binary64 a b) ∧
      unpackedValue (UnpackedFloat.sub .binary64 a b) =
        rounded (unpackedValue a - unpackedValue b) := by
  have h := add_spec ha (canonical_neg.mpr hb)
  rwa [← sub_eq_add, unpackedValue_neg, ← sub_eq_add_neg] at h

/-! ### Products -/

theorem applySign_mul (s s' : Sign) (p q : ℚ) :
    applySign s p * applySign s' q = applySign (s * s') (p * q) := by
  cases s <;> cases s'
  · exact neg_mul_neg p q
  · exact neg_mul p q
  · exact mul_neg p q
  · rfl

/-- A product whose exponent is not above the one of its last place. -/
theorem mul_finite_spec (s s' : Sign) {m m' : ℕ} (e e' : ℤ) (h : 0 < m) (h' : 0 < m')
    (he : e + e' ≤ Format.binary64.targetExponent (totalExponent (m * m') (e + e'))) :
    Canonical (UnpackedFloat.mul .binary64 (.finite s m e h) (.finite s' m' e' h')) ∧
      unpackedValue (UnpackedFloat.mul .binary64 (.finite s m e h) (.finite s' m' e' h')) =
        rounded (applySign s (m * 2 ^ e) * applySign s' (m' * 2 ^ e')) := by
  have hpos : (0 : ℚ) < (m * m' : ℕ) * 2 ^ (e + e') :=
    mul_pos (by exact_mod_cast Nat.mul_pos h h') (zpow_pos (by norm_num) _)
  have hexact : ((m * m' : ℕ) : ℚ) * 2 ^ (e + e') = m * 2 ^ e * (m' * 2 ^ e') := by
    rw [zpow_add₀ (by norm_num)]
    push_cast
    ring
  rw [applySign_mul, rounded_applySign, ← hexact]
  refine roundWithAccuracy_spec hpos ?_ he
  rw [mul_div_cancel_right₀ _ (zpow_pos (by norm_num) _).ne']
  exact stands_exact _

theorem mul_spec {a b : UnpackedFloat} (ha : Canonical a) (hb : Canonical b) :
    Canonical (UnpackedFloat.mul .binary64 a b) ∧
      unpackedValue (UnpackedFloat.mul .binary64 a b) =
        rounded (unpackedValue a * unpackedValue b) := by
  cases a with
  | infinity s => exact ha.elim
  | notANumber => exact ha.elim
  | zero s =>
    cases b with
    | infinity s' => exact hb.elim
    | notANumber => exact hb.elim
    | zero s' => simp [UnpackedFloat.mul, Canonical, unpackedValue]
    | finite s' m e h => simp [UnpackedFloat.mul, Canonical, unpackedValue]
  | finite s m e h =>
    cases b with
    | infinity s' => exact hb.elim
    | notANumber => exact hb.elim
    | zero s' => simp [UnpackedFloat.mul, Canonical, unpackedValue]
    | finite s' m' e' h' =>
      refine mul_finite_spec s s' e e' h h' ?_
      obtain ⟨-, he, hlow⟩ := ha
      obtain ⟨-, he', hlow'⟩ := hb
      rw [targetExponent_eq, totalExponent_eq]
      -- a product of two short mantissas has the least exponent twice
      by_cases hdigits : 2 ^ 52 ≤ m * m'
      · have hlog := (Nat.le_log2 (Nat.mul_pos h h').ne').mpr hdigits
        omega
      · have hm : ¬2 ^ 52 ≤ m := fun hm => hdigits (hm.trans (Nat.le_mul_of_pos_right m h'))
        have hm' : ¬2 ^ 52 ≤ m' := fun hm' => hdigits (hm'.trans (Nat.le_mul_of_pos_left m' h))
        have h1 := hlow.resolve_left hm
        have h2 := hlow'.resolve_left hm'
        omega

/-! ### Quotients -/

theorem applySign_div (s s' : Sign) (p q : ℚ) :
    applySign s p / applySign s' q = applySign (s / s') (p / q) := by
  cases s <;> cases s'
  · exact neg_div_neg_eq p q
  · exact neg_div q p
  · exact div_neg p
  · rfl

/-- The remainder of a division tells where the fraction of the quotient lies. -/
theorem stands_div {n d : ℕ} (hd : 0 < d) :
    Stands (.ofMantissaAndAccuracy (n / d) (accuracyOfFraction (n % d) d)) (n / d) := by
  have hd' : (0 : ℚ) < d := by exact_mod_cast hd
  have hfloor : ((n / d : ℕ) : ℤ) = ⌊(n : ℚ) / d⌋ := by
    rw [Rat.floor_natCast_div_natCast]
    norm_cast
  have hfract : Int.fract ((n : ℚ) / d) = (n % d : ℕ) / (d : ℚ) :=
    Int.fract_div_natCast_eq_div_natCast_mod
  unfold accuracyOfFraction
  split_ifs with h0
  · rw [h0, Nat.cast_zero, zero_div] at hfract
    exact ⟨hfloor, by rw [hfract]; simp [ExtendedMantissa.ofMantissaAndAccuracy],
      by rw [hfract]; simp [ExtendedMantissa.ofMantissaAndAccuracy]⟩
  · have hpos : (0 : ℚ) < (n % d : ℕ) / (d : ℚ) :=
      div_pos (by exact_mod_cast Nat.pos_of_ne_zero h0) hd'
    -- twice the remainder against the divisor says on which side of one half the fraction lies
    rcases lt_trichotomy (2 * (n % d)) d with hlt | heq | hgt
    · have hhalf : ((n % d : ℕ) : ℚ) / d < 1 / 2 := by
        rw [div_lt_div_iff₀ hd' (by norm_num)]
        have : (2 * (n % d : ℕ) : ℚ) < d := by exact_mod_cast hlt
        linarith
      rw [Nat.compare_eq_lt.mpr hlt]
      refine ⟨hfloor, ?_, ?_⟩ <;> rw [hfract] <;>
        simp only [ExtendedMantissa.ofMantissaAndAccuracy, Bool.false_eq_true, false_iff,
          true_iff, not_le]
      · exact hhalf
      · exact ⟨hpos.ne', hhalf.ne⟩
    · have hhalf : ((n % d : ℕ) : ℚ) / d = 1 / 2 := by
        rw [div_eq_div_iff hd'.ne' (by norm_num)]
        have : (2 * (n % d : ℕ) : ℚ) = d := by exact_mod_cast heq
        linarith
      rw [Nat.compare_eq_eq.mpr heq]
      refine ⟨hfloor, ?_, ?_⟩ <;> rw [hfract, hhalf] <;>
        simp [ExtendedMantissa.ofMantissaAndAccuracy]
    · have hhalf : 1 / 2 < ((n % d : ℕ) : ℚ) / d := by
        rw [div_lt_div_iff₀ (by norm_num) hd']
        have : (d : ℚ) < 2 * (n % d : ℕ) := by exact_mod_cast hgt
        linarith
      rw [Nat.compare_eq_gt.mpr hgt]
      refine ⟨hfloor, ?_, ?_⟩ <;> rw [hfract] <;>
        simp only [ExtendedMantissa.ofMantissaAndAccuracy, true_iff]
      · exact hhalf.le
      · exact ⟨hpos.ne', hhalf.ne'⟩

/-- A quotient has at most one binary digit less than the lengths of its operands let expect. -/
theorem log2_div_ge {n d : ℕ} (hn : n ≠ 0) (hd : 0 < d) :
    (n.log2 : ℤ) - d.log2 - 1 ≤ (n / d).log2 := by
  rcases Nat.lt_or_ge d.log2 n.log2 with hlt | hge
  · obtain ⟨a, ha⟩ : ∃ a, n.log2 = a + (d.log2 + 1) := ⟨n.log2 - d.log2 - 1, by omega⟩
    have hle : 2 ^ a ≤ n / d := by
      rw [Nat.le_div_iff_mul_le hd]
      calc 2 ^ a * d ≤ 2 ^ a * 2 ^ (d.log2 + 1) := Nat.mul_le_mul_left _ Nat.lt_log2_self.le
        _ = 2 ^ n.log2 := by rw [← pow_add, ← ha]
        _ ≤ n := Nat.log2_self_le hn
    have hne : n / d ≠ 0 := (lt_of_lt_of_le (Nat.two_pow_pos a) hle).ne'
    have := (Nat.le_log2 hne).mpr hle
    omega
  · omega

theorem div_finite_spec (s s' : Sign) {m m' : ℕ} (e e' : ℤ) (h : 0 < m) (h' : 0 < m') :
    Canonical (UnpackedFloat.div .binary64 (.finite s m e h) (.finite s' m' e' h')) ∧
      unpackedValue (UnpackedFloat.div .binary64 (.finite s m e h) (.finite s' m' e' h')) =
        rounded (applySign s (m * 2 ^ e) / applySign s' (m' * 2 ^ e')) := by
  have hm : (0 : ℚ) < m := by exact_mod_cast h
  have hm' : (0 : ℚ) < m' := by exact_mod_cast h'
  have hpos : 0 < m * 2 ^ e / (m' * (2 : ℚ) ^ e') :=
    div_pos (mul_pos hm (zpow_pos (by norm_num) e)) (mul_pos hm' (zpow_pos (by norm_num) e'))
  rw [applySign_div, rounded_applySign]
  set t := min (e - e')
    (Format.binary64.targetExponent (totalExponent m e - totalExponent m' e')) with ht
  set n := m <<< (e - e' - t).toNat with hn
  have hn0 : n ≠ 0 := by
    rw [hn, Nat.shiftLeft_eq]
    positivity
  -- in units of `2 ^ t` the quotient is `n / m'`
  have hexact : m * 2 ^ e / (m' * (2 : ℚ) ^ e') / 2 ^ t = n / m' := by
    have hpow : (2 : ℚ) ^ e = 2 ^ e' * 2 ^ t * 2 ^ (e - e' - t).toNat := by
      rw [← zpow_natCast, ← zpow_add₀ (by norm_num), ← zpow_add₀ (by norm_num)]
      congr 1
      omega
    rw [hn, Nat.shiftLeft_eq, hpow]
    push_cast
    field_simp
  refine roundWithAccuracy_spec hpos ?_ ?_
  · rw [hexact]
    exact stands_div h'
  · have hdigits := log2_div_ge hn0 h'
    have hlog : n.log2 = m.log2 + (e - e' - t).toNat := log2_shiftLeft h.ne' _
    rw [targetExponent_eq, totalExponent_eq, totalExponent_eq] at ht
    rw [targetExponent_eq, totalExponent_eq]
    change t ≤ max (((n / m').log2 : ℤ) + 1 + t - 53) (-1074)
    omega

theorem div_spec {a b : UnpackedFloat} (ha : Canonical a) (hb : Canonical b)
    (h0 : unpackedValue b ≠ 0) :
    Canonical (UnpackedFloat.div .binary64 a b) ∧
      unpackedValue (UnpackedFloat.div .binary64 a b) =
        rounded (unpackedValue a / unpackedValue b) := by
  cases b with
  | infinity s' => exact hb.elim
  | notANumber => exact hb.elim
  | zero s' => exact absurd rfl h0
  | finite s' m' e' h' =>
    cases a with
    | infinity s => exact ha.elim
    | notANumber => exact ha.elim
    | zero s => simp [UnpackedFloat.div, Canonical, unpackedValue]
    | finite s m e h => exact div_finite_spec s s' e e' h h'

/-! ### Decimal numbers -/

/-- A positive decimal number is read as its rounding, unless its exponent is out of all
proportion. -/
theorem ofScientific_spec {m : ℕ} {e : ℤ} (hm : m ≠ 0) (hbig : e ≤ 2048)
    (hsmall : -(2048 + m.log2 : ℤ) ≤ e) :
    Canonical (UnpackedFloat.ofScientific .binary64 m e) ∧
      unpackedValue (UnpackedFloat.ofScientific .binary64 m e) = rounded (m * 10 ^ e) := by
  unfold UnpackedFloat.ofScientific
  rw [dif_neg hm, if_neg (by norm_num; omega), if_neg (by norm_num; omega)]
  split_ifs with he
  · have hpos : 0 < m <<< 53 := by
      rw [Nat.shiftLeft_eq]
      positivity
    have hten : 0 < 10 ^ e.toNat := Nat.pow_pos (by decide)
    -- with so many zeros behind it the product has all the digits that can be kept
    have hdigits : 2 ^ 53 ≤ m <<< 53 * 10 ^ e.toNat := by
      rw [Nat.shiftLeft_eq]
      calc 2 ^ 53 ≤ m * 2 ^ 53 := Nat.le_mul_of_pos_left _ (Nat.pos_of_ne_zero hm)
        _ ≤ m * 2 ^ 53 * 10 ^ e.toNat := Nat.le_mul_of_pos_right _ hten
    have hlog := (Nat.le_log2 (Nat.mul_pos hpos hten).ne').mpr hdigits
    obtain ⟨hc, hv⟩ := mul_finite_spec .positive .positive (-53) 0 hpos hten
      (by rw [targetExponent_eq, totalExponent_eq]; omega)
    refine ⟨hc, hv.trans ?_⟩
    have hpow : (10 : ℚ) ^ e = 10 ^ e.toNat := by
      rw [← zpow_natCast, Int.toNat_of_nonneg he]
    have hshift : ((m <<< 53 : ℕ) : ℚ) * 2 ^ (-53 : ℤ) = m := by
      rw [Nat.shiftLeft_eq, Nat.cast_mul, mul_assoc]
      norm_num
    rw [hpow, applySign, applySign, hshift, zpow_zero, mul_one, Nat.cast_pow, Nat.cast_ofNat]
  · obtain ⟨hc, hv⟩ := div_finite_spec .positive .positive 0 0
      (Nat.pos_iff_ne_zero.2 hm) (Nat.pow_pos (n := (-e).toNat) (by decide : 0 < 10))
    refine ⟨hc, ?_⟩
    rw [hv]
    have hpow : (10 : ℚ) ^ e = (((10 ^ (-e).toNat : ℕ) : ℚ))⁻¹ := by
      push_cast
      rw [← zpow_natCast, Int.toNat_of_nonneg (by omega), zpow_neg, inv_inv]
    rw [hpow]
    simp [applySign, div_eq_mul_inv]

end DesignTokens.Number
