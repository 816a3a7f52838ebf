import DesignTokens.Proofs.Number.Rounded

/-!
# Rounding of unpacked doubles

The operations on doubles end in one step: a magnitude, given as an integer part with a round bit
and a sticky bit, is shifted to its last place and rounded there.  `Stands` says which number such a
triple stands for, and `roundWithAccuracy_spec` that the step yields `rounded` of it.

`Canonical` is the form in which every finite double is held: 53 digits, or fewer at the least
exponent.  In that form the order of numbers is the order of exponents and then of mantissas.
-/

namespace DesignTokens.Number

open Float.Model Float.Model.UnpackedFloat

/-! ### Round and sticky bits -/

/-- The number that a mantissa and its two residual bits stand for: the bits say where the fraction
lies relative to zero and one half. -/
structure Stands (em : ExtendedMantissa) (q : ℚ) : Prop where
  mantissa_eq : (em.mantissa : ℤ) = ⌊q⌋
  roundBit_iff : em.roundBit = true ↔ 1 / 2 ≤ Int.fract q
  stickyBit_iff : em.stickyBit = true ↔ Int.fract q ≠ 0 ∧ Int.fract q ≠ 1 / 2

theorem stands_exact (m : ℕ) : Stands (.ofMantissaAndAccuracy m .exact) m where
  mantissa_eq := by simp [ExtendedMantissa.ofMantissaAndAccuracy]
  roundBit_iff := by simp [ExtendedMantissa.ofMantissaAndAccuracy]
  stickyBit_iff := by simp [ExtendedMantissa.ofMantissaAndAccuracy]

theorem Stands.roundedMantissa_eq {em : ExtendedMantissa} {q : ℚ} (h : Stands em q) :
    (em.roundedMantissa : ℤ) = nearestEven q := by
  obtain ⟨m, r, s⟩ := em
  obtain ⟨hm, hr, hs⟩ := h
  simp only at hm hr hs
  have h0 := Int.fract_nonneg q
  unfold nearestEven
  rw [← hm]
  -- the two bits tell whether the fraction is zero, below one half, one half or above it
  cases r <;> cases s <;>
    simp only [ExtendedMantissa.roundedMantissa, ExtendedMantissa.accuracy,
      Accuracy.roundToNearestEven, Bool.false_eq_true, false_iff, true_iff, not_le, not_and_or,
      not_not] at hr hs ⊢
  · rw [if_pos hr]
  · rw [if_pos hr]
  · have hhalf : Int.fract q = 1 / 2 := hs.resolve_left (by linarith)
    rw [hhalf, if_neg (lt_irrefl _), if_neg (lt_irrefl _)]
    push_cast
    rfl
  · have hlt : 1 / 2 < Int.fract q := lt_of_le_of_ne hr (Ne.symm hs.2)
    rw [if_neg (not_lt.mpr hr), if_pos hlt]
    push_cast
    rfl

/-- Halving moves the lowest digit of the whole part into the round bit. -/
theorem Stands.shiftRightOne {em : ExtendedMantissa} {q : ℚ} (h : Stands em q) :
    Stands em.shiftRightOne (q / 2) := by
  obtain ⟨m, r, s⟩ := em
  obtain ⟨hm, hr, hs⟩ := h
  simp only at hm hr hs
  have h0 := Int.fract_nonneg q
  have h1 := Int.fract_lt_one q
  have hq : (m : ℚ) + Int.fract q = q := by
    rw [← Int.floor_add_fract q, ← hm]
    simp
  have hdigits : (m : ℚ) = 2 * (m / 2 : ℕ) + (m % 2 : ℕ) := by
    exact_mod_cast (Nat.div_add_mod m 2).symm
  have hmod : m % 2 = 0 ∨ m % 2 = 1 := by omega
  have hfloor : ⌊q / 2⌋ = ((m / 2 : ℕ) : ℤ) := by
    rw [Int.floor_eq_iff, Int.cast_natCast]
    rcases hmod with h | h <;> rw [h] at hdigits <;> push_cast at hdigits <;>
      constructor <;> linarith
  have hfract : Int.fract (q / 2) = ((m % 2 : ℕ) + Int.fract q) / 2 := by
    rw [Int.fract, hfloor, Int.cast_natCast]
    linarith
  refine ⟨hfloor.symm, ?_, ?_⟩
  · simp only [ExtendedMantissa.shiftRightOne]
    rw [hfract]
    rcases hmod with h | h <;> rw [h] <;> push_cast <;> simp <;> linarith
  · simp only [ExtendedMantissa.shiftRightOne, Bool.or_eq_true]
    -- some fraction is left exactly when there was one before
    have hbefore : 1 / 2 ≤ Int.fract q ∨ Int.fract q ≠ 0 ∧ Int.fract q ≠ 1 / 2 ↔
        Int.fract q ≠ 0 := by
      constructor
      · rintro (h | h) h'
        · linarith
        · exact h.1 h'
      · intro h
        by_cases hhalf : Int.fract q = 1 / 2
        · exact Or.inl hhalf.ge
        · exact Or.inr ⟨h, hhalf⟩
    have hafter : ((m % 2 : ℕ) + Int.fract q) / 2 ≠ 0 ∧ ((m % 2 : ℕ) + Int.fract q) / 2 ≠ 1 / 2 ↔
        Int.fract q ≠ 0 := by
      rcases hmod with h | h <;> rw [h] <;> push_cast
      · refine ⟨fun h h' => h.1 (by rw [h']; norm_num), fun h => ⟨fun h' => h ?_, fun h' => ?_⟩⟩ <;>
          linarith
      · refine ⟨fun h h' => h.2 (by rw [h']; norm_num), fun h => ⟨fun h' => ?_, fun h' => h ?_⟩⟩ <;>
          linarith
    rw [hr, hs, hfract, hbefore, hafter]

theorem Stands.shiftRight {em : ExtendedMantissa} {q : ℚ} (h : Stands em q) (n : ℕ) :
    Stands (em >>> n) (q / 2 ^ n) := by
  change Stands (n.repeat ExtendedMantissa.shiftRightOne em) (q / 2 ^ n)
  induction n with
  | zero => simpa [Nat.repeat] using h
  | succ n ih =>
    rw [Nat.repeat, pow_succ, ← div_div]
    exact ih.shiftRightOne

/-! ### The last place of a magnitude -/

theorem targetExponent_eq (t : ℤ) : Format.binary64.targetExponent t = max (t - 53) (-1074) := by
  simp [Format.targetExponent, Format.mantissaBits, Format.minExponent]

theorem totalExponent_eq (m : ℕ) (e : ℤ) : totalExponent m e = m.log2 + 1 + e := rfl

/-- The whole part of a positive number in units of `2 ^ e` knows its binary logarithm. -/
theorem log_eq_of_floor {q : ℚ} {m : ℕ} {e : ℤ} (hq : 0 < q) (hm : (m : ℤ) = ⌊q / 2 ^ e⌋)
    (hm0 : m ≠ 0) : Int.log 2 q = m.log2 + e := by
  have hpos : (0 : ℚ) < 2 ^ e := zpow_pos (by norm_num) e
  have hle : (m : ℚ) ≤ q / 2 ^ e := by
    have h := Int.floor_le (q / 2 ^ e)
    rw [← hm] at h
    exact_mod_cast h
  have hlt : q / 2 ^ e < (m + 1 : ℕ) := by
    have h := Int.lt_floor_add_one (q / 2 ^ e)
    rw [← hm] at h
    exact_mod_cast h
  have hlow : 2 ^ m.log2 ≤ m := Nat.log2_self_le hm0
  have hhigh : m + 1 ≤ 2 ^ (m.log2 + 1) := Nat.lt_log2_self
  apply le_antisymm
  · rw [← Int.lt_add_one_iff, ← Int.lt_zpow_iff_log_lt (by norm_num) hq]
    calc q < (m + 1 : ℕ) * 2 ^ e := (div_lt_iff₀ hpos).mp hlt
      _ ≤ (2 ^ (m.log2 + 1) : ℕ) * 2 ^ e :=
          mul_le_mul_of_nonneg_right (by exact_mod_cast hhigh) hpos.le
      _ = ((2 : ℕ) : ℚ) ^ ((m.log2 : ℤ) + e + 1) := by
          push_cast
          rw [← zpow_natCast, ← zpow_add₀ (by norm_num)]
          congr 1
          push_cast
          ring
  · rw [← Int.zpow_le_iff_le_log (by norm_num) hq]
    calc ((2 : ℕ) : ℚ) ^ ((m.log2 : ℤ) + e) = (2 ^ m.log2 : ℕ) * 2 ^ e := by
          push_cast
          rw [← zpow_natCast, ← zpow_add₀ (by norm_num)]
      _ ≤ m * 2 ^ e := mul_le_mul_of_nonneg_right (by exact_mod_cast hlow) hpos.le
      _ ≤ q := (le_div_iff₀ hpos).mp hle

/-- The exponent that a magnitude is shifted to is its last place, if it is not below the one it
has. -/
theorem targetExponent_eq_lastPlace {q : ℚ} {m : ℕ} {e : ℤ} (hq : 0 < q)
    (hm : (m : ℤ) = ⌊q / 2 ^ e⌋) (he : e ≤ Format.binary64.targetExponent (totalExponent m e)) :
    Format.binary64.targetExponent (totalExponent m e) = lastPlace q := by
  rw [targetExponent_eq, totalExponent_eq] at he ⊢
  unfold lastPlace
  rw [abs_of_pos hq]
  by_cases hm0 : m = 0
  · -- less than one unit, and the unit is the least there is
    subst hm0
    simp only [Nat.log2_zero] at he ⊢
    have hunit : q < 2 ^ (-1074 : ℤ) := by
      have h := Int.floor_eq_zero_iff.mp (by simpa using hm.symm)
      have hlt : q < 2 ^ e := by
        have := (div_lt_iff₀ (zpow_pos (by norm_num) e)).mp h.2
        simpa using this
      exact lt_of_lt_of_le hlt (zpow_le_zpow_right₀ (by norm_num) (by omega))
    have hlog : Int.log 2 q < -1074 := by
      rw [← Int.lt_zpow_iff_log_lt (by norm_num) hq]
      exact_mod_cast hunit
    omega
  · rw [log_eq_of_floor hq hm hm0]
    omega

/-! ### Canonical forms -/

/-- A magnitude with a sign. -/
def applySign : Sign → ℚ → ℚ
  | .negative, q => -q
  | .positive, q => q

/-- The value of an unpacked double; NaN and `±∞` count as zero. -/
def unpackedValue : UnpackedFloat → ℚ
  | .finite s m e _ => applySign s (m * 2 ^ e)
  | _ => 0

/-- A finite double in the form in which it can be packed. -/
def Canonical : UnpackedFloat → Prop
  | .zero _ => True
  | .finite _ m e _ => m < 2 ^ 53 ∧ -1074 ≤ e ∧ (2 ^ 52 ≤ m ∨ e = -1074)
  | _ => False

theorem rounded_applySign (s : Sign) (q : ℚ) :
    rounded (applySign s q) = applySign s (rounded q) := by
  cases s
  · exact rounded_neg q
  · rfl

/-- Shifting to the exponent of a number `q` given in units of `2 ^ e`. -/
theorem stands_shiftToExponent {m : ℕ} {e t : ℤ} {acc : Accuracy} {q : ℚ}
    (h : Stands (.ofMantissaAndAccuracy m acc) (q / 2 ^ e)) (het : e ≤ t) :
    Stands (shiftToExponent m e acc t).1 (q / 2 ^ t) ∧ (shiftToExponent m e acc t).2 = t := by
  constructor
  · have hpow : (2 : ℚ) ^ t = 2 ^ e * 2 ^ (t - e).toNat := by
      rw [← zpow_natCast, ← zpow_add₀ (by norm_num)]
      congr 1
      omega
    rw [hpow, ← div_div]
    exact h.shiftRight (t - e).toNat
  · simp only [shiftToExponent]
    omega

/-- A mantissa of at most 53 digits stays where it is. -/
theorem shiftToTargetExponent_of_lt {n : ℕ} {e : ℤ} (hn : n < 2 ^ 53) (he : -1074 ≤ e) :
    shiftToTargetExponent .binary64 n e .exact = (⟨n, false, false⟩, e) := by
  have hlog : n.log2 < 53 := by
    by_cases h0 : n = 0
    · subst h0
      simp
    · exact (Nat.log2_lt h0).mpr hn
  have hshift : (Format.binary64.targetExponent (totalExponent n e) - e).toNat = 0 := by
    rw [targetExponent_eq, totalExponent_eq]
    omega
  simp only [shiftToTargetExponent, shiftToExponent, hshift]
  simp [HShiftRight.hShiftRight, Nat.repeat, ExtendedMantissa.ofMantissaAndAccuracy]

/-- A mantissa that was rounded up to `2 ^ 53` is halved. -/
theorem shiftToTargetExponent_two_pow {e : ℤ} (he : -1074 ≤ e) :
    shiftToTargetExponent .binary64 (2 ^ 53) e .exact = (⟨2 ^ 52, false, false⟩, e + 1) := by
  have hshift : (Format.binary64.targetExponent (totalExponent (2 ^ 53) e) - e).toNat = 1 := by
    rw [targetExponent_eq, totalExponent_eq, Nat.log2_two_pow]
    omega
  simp only [shiftToTargetExponent, shiftToExponent, hshift]
  simp [HShiftRight.hShiftRight, Nat.repeat, ExtendedMantissa.ofMantissaAndAccuracy,
    ExtendedMantissa.shiftRightOne]

/-- The rounded whole part of a number, counted in its last place, has 53 digits, or fewer at the
least last place; it can also have just become `2 ^ 53`. -/
theorem nearestEven_div_lastPlace_bounds {q : ℚ} (hq : 0 < q) :
    nearestEven (q / 2 ^ lastPlace q) ≤ 2 ^ 53 ∧
      (2 ^ 52 ≤ nearestEven (q / 2 ^ lastPlace q) ∨ lastPlace q = -1074) := by
  have hpos : (0 : ℚ) < 2 ^ lastPlace q := zpow_pos (by norm_num) _
  constructor
  · have hlt := abs_lt_two_zpow_lastPlace q
    rw [abs_of_pos hq, zpow_add₀ (by norm_num), mul_comm, zpow_ofNat] at hlt
    have h := nearestEven_mono ((div_lt_iff₀ hpos).mpr hlt).le
    rwa [nearestEven_two_pow] at h
  · by_cases hlast : lastPlace q = -1074
    · exact Or.inr hlast
    · left
      have hle := two_zpow_lastPlace_le_abs hq.ne'
        (lt_of_le_of_ne (neg_1074_le_lastPlace q) (Ne.symm hlast))
      rw [abs_of_pos hq, zpow_add₀ (by norm_num), mul_comm, zpow_ofNat] at hle
      have h := nearestEven_mono ((le_div_iff₀ hpos).mpr hle)
      rwa [nearestEven_two_pow] at h

/-- The last step of every operation: a positive magnitude `q`, known by its whole part in units of
`2 ^ e` and its residual bits, becomes the canonical form of `rounded q`. -/
theorem roundWithAccuracy_spec {s : Sign} {m : ℕ} {e : ℤ} {acc : Accuracy} {q : ℚ} (hq : 0 < q)
    (h : Stands (.ofMantissaAndAccuracy m acc) (q / 2 ^ e))
    (he : e ≤ Format.binary64.targetExponent (totalExponent m e)) :
    Canonical (roundWithAccuracy .binary64 s m e acc) ∧
      unpackedValue (roundWithAccuracy .binary64 s m e acc) = applySign s (rounded q) := by
  have hm : (m : ℤ) = ⌊q / 2 ^ e⌋ := by
    have h1 := h.mantissa_eq
    have h2 : (ExtendedMantissa.ofMantissaAndAccuracy m acc).mantissa = m := by
      cases acc with
      | exact => rfl
      | inexact o => cases o <;> rfl
    rwa [h2] at h1
  have htarget := targetExponent_eq_lastPlace hq hm he
  obtain ⟨hst, hexp⟩ := stands_shiftToExponent h he
  rw [htarget] at hst hexp
  have hn := hst.roundedMantissa_eq
  obtain ⟨hle, hlow⟩ := nearestEven_div_lastPlace_bounds hq
  have hmin := neg_1074_le_lastPlace q
  unfold roundWithAccuracy
  rw [shiftToTargetExponent, htarget]
  simp only
  rw [hexp]
  -- from here on only the rounded mantissa counts, and not the shift that led to it
  generalize (shiftToExponent m e acc (lastPlace q)).1.roundedMantissa = n at hn ⊢
  have hrounded : rounded q = n * 2 ^ lastPlace q := by
    rw [rounded, ← hn]
    norm_cast
  rw [← hn] at hle hlow
  have hle' : n ≤ 2 ^ 53 := by exact_mod_cast hle
  -- rounding up can give a digit too many; the mantissa is a power of two then, and is shifted once
  -- more
  rcases hle'.lt_or_eq with hlt | rfl
  · rw [shiftToTargetExponent_of_lt hlt hmin]
    simp only
    split_ifs with h0
    · refine ⟨trivial, ?_⟩
      rw [hrounded, h0]
      cases s <;> simp [unpackedValue, applySign]
    · refine ⟨⟨hlt, hmin, ?_⟩, ?_⟩
      · exact_mod_cast hlow
      · rw [hrounded]
        rfl
  · rw [shiftToTargetExponent_two_pow hmin]
    simp only [Nat.reducePow, OfNat.ofNat_ne_zero, ↓reduceDIte]
    refine ⟨⟨by norm_num, by omega, Or.inl (by norm_num)⟩, ?_⟩
    rw [hrounded, unpackedValue, zpow_add_one₀ (by norm_num)]
    congr 1
    push_cast
    ring

end DesignTokens.Number
