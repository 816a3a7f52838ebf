import DesignTokens.Number.Shape
import DesignTokens.Proofs.Number.Operations

/-!
# Packed doubles

A double is held as 64 bits.  Packing a canonical form and unpacking it again gives the form back,
unless it overflows to `±∞` (`unpack_pack`, `unpack_pack_of_le`).  What a finite double is unpacked
to is canonical (`canonical_unpack`) and tells the double (`eq_of_unpack_eq`).
-/

namespace DesignTokens.Number

open Float.Model Float.Model.UnpackedFloat

/-! ### Unpacking what was packed -/

theorem toNat_implicit (M : BitVec 52) : (1#1 ++ M).toNat = 2 ^ 52 + M.toNat := by
  rw [BitVec.toNat_append, ← Nat.shiftLeft_add_eq_or_of_lt M.isLt, Nat.shiftLeft_eq]
  simp

/-- The number of the fields of a subnormal double. -/
theorem unpack_packComponents_subnormal {s : Sign} {M : BitVec 52} (hM : 0 < M.toNat) :
    UnpackedFloat.unpack .binary64 (packComponents .binary64 s 0#11 M) =
      .finite s M.toNat (-1074) hM := by
  have hM' : M ≠ 0#52 := by
    rintro rfl
    simp at hM
  unfold UnpackedFloat.unpack
  simp only [unpackMantissa_packComponents, unpackExponent_packComponents,
    unpackSign_packComponents, Sign.ofBitVec_toBitVec]
  rw [if_neg (by decide), if_pos trivial, dif_neg hM']
  rfl

theorem unpack_packComponents_normal {s : Sign} {E : BitVec 11} {M : BitVec 52} (h0 : E ≠ 0#11)
    (h1 : E ≠ -1#11) :
    UnpackedFloat.unpack .binary64 (packComponents .binary64 s E M) =
      .finite s (2 ^ 52 + M.toNat) (E.toNat - 1075) (Nat.add_pos_left (Nat.two_pow_pos 52) _) := by
  unfold UnpackedFloat.unpack
  simp only [unpackMantissa_packComponents, unpackExponent_packComponents,
    unpackSign_packComponents, Sign.ofBitVec_toBitVec]
  rw [if_neg h1, if_neg h0]
  congr 1
  exact toNat_implicit M

@[simp]
theorem unpack_packedInfinity (s : Sign) :
    UnpackedFloat.unpack .binary64 (packedInfinity .binary64 s) = .infinity s := by
  cases s <;> rfl

/-- The bits of a finite form: the exponent is biased by 1075, which counts from the last digit. -/
theorem pack_finite (s : Sign) (m : ℕ) (e : ℤ) (h : 0 < m) :
    UnpackedFloat.pack .binary64 (.finite s m e h) =
      if 2048 ≤ (e + 1075).toNat + 1 then packedInfinity .binary64 s
      else if m.log2 + 1 = 53 then
        packComponents .binary64 s (BitVec.ofNat 11 (e + 1075).toNat) (BitVec.ofNat 52 m)
      else packComponents .binary64 s 0#11 (BitVec.ofNat 52 m) := by
  have hbias : e + Format.binary64.exponentBias + (52 : ℕ) = e + 1075 := by
    rw [show (Format.binary64.exponentBias : ℤ) = 1023 from rfl]
    push_cast
    ring
  unfold UnpackedFloat.pack
  simp only
  rw [hbias]
  rfl

/-- A canonical form whose exponent fits is unpacked as it was packed. -/
theorem unpack_pack_of_exponent_le {s : Sign} {m : ℕ} {e : ℤ} {h : 0 < m}
    (hc : Canonical (.finite s m e h)) (he : e ≤ 971) :
    UnpackedFloat.unpack .binary64 (UnpackedFloat.pack .binary64 (.finite s m e h)) =
      .finite s m e h := by
  obtain ⟨hm, hmin, hlow⟩ := hc
  rw [pack_finite, if_neg (by omega)]
  -- a leading digit at its full place is not stored, and comes back with the exponent
  by_cases hnormal : 2 ^ 52 ≤ m
  · have hlog : m.log2 = 52 := (Nat.log2_eq_iff h.ne').mpr ⟨hnormal, hm⟩
    have hE : (BitVec.ofNat 11 (e + 1075).toNat).toNat = (e + 1075).toNat := by
      rw [BitVec.toNat_ofNat, Nat.mod_eq_of_lt (by omega)]
    rw [if_pos (by rw [hlog]), unpack_packComponents_normal]
    · congr 1
      · rw [BitVec.toNat_ofNat]
        omega
      · rw [hE]
        omega
    · intro h0
      rw [h0, BitVec.toNat_zero] at hE
      omega
    · intro h1
      rw [h1, show (-1#11 : BitVec 11).toNat = 2047 from rfl] at hE
      omega
  · have hlog : m.log2 < 52 := (Nat.log2_lt h.ne').mpr (by omega)
    obtain rfl := hlow.resolve_left hnormal
    have hM : (BitVec.ofNat 52 m).toNat = m := by
      rw [BitVec.toNat_ofNat, Nat.mod_eq_of_lt (by omega)]
    rw [if_neg (by omega), unpack_packComponents_subnormal (by rw [hM]; exact h)]
    congr 1

/-! ### The greatest double -/

/-- The least power of two that is greater than every double. -/
def limit : ℚ := 2 ^ (1024 : ℤ)

/-- The exponent of a canonical form fits exactly when the number is below the limit. -/
theorem exponent_le_iff {s : Sign} {m : ℕ} {e : ℤ} {h : 0 < m} (hc : Canonical (.finite s m e h)) :
    e ≤ 971 ↔ (m : ℚ) * 2 ^ e < limit := by
  obtain ⟨hm, -, hlow⟩ := hc
  have hpos : (0 : ℚ) < 2 ^ e := zpow_pos (by norm_num) e
  have hlimit (k : ℤ) : (2 : ℚ) ^ (1024 - k) * 2 ^ k = limit := by
    rw [limit, ← zpow_add₀ (by norm_num), sub_add_cancel]
  constructor
  · intro he
    calc (m : ℚ) * 2 ^ e < 2 ^ (1024 - 971 : ℤ) * 2 ^ e :=
          mul_lt_mul_of_pos_right (by norm_num; exact_mod_cast hm) hpos
      _ ≤ 2 ^ (1024 - 971 : ℤ) * 2 ^ (971 : ℤ) :=
          mul_le_mul_of_nonneg_left (zpow_le_zpow_right₀ (by norm_num) he) (by positivity)
      _ = limit := hlimit 971
  · intro hlt
    by_contra he
    -- only at the least exponent are there numbers with fewer digits
    have hdigits : 2 ^ 52 ≤ m := hlow.resolve_right (by omega)
    have hge : limit ≤ m * 2 ^ e :=
      calc limit = 2 ^ (1024 - 972 : ℤ) * 2 ^ (972 : ℤ) := (hlimit 972).symm
        _ ≤ 2 ^ (1024 - 972 : ℤ) * 2 ^ e :=
            mul_le_mul_of_nonneg_left (zpow_le_zpow_right₀ (by norm_num) (by omega)) (by positivity)
        _ ≤ m * 2 ^ e := mul_le_mul_of_nonneg_right (by norm_num; exact_mod_cast hdigits) hpos.le
    exact absurd hlt (not_lt.mpr hge)

theorem abs_applySign {s : Sign} {q : ℚ} (hq : 0 ≤ q) : |applySign s q| = q := by
  cases s
  · exact (abs_neg q).trans (abs_of_nonneg hq)
  · exact abs_of_nonneg hq

theorem abs_unpackedValue_finite {s : Sign} {m : ℕ} {e : ℤ} (h : 0 < m) :
    |unpackedValue (.finite s m e h)| = m * 2 ^ e :=
  abs_applySign (mul_pos (by exact_mod_cast h) (zpow_pos (by norm_num) e)).le

/-- A canonical form below the limit is unpacked as it was packed. -/
theorem unpack_pack {u : UnpackedFloat} (hu : Canonical u) (hlt : |unpackedValue u| < limit) :
    (Float.Model.pack u).unpack = u := by
  cases u with
  | infinity s => exact hu.elim
  | notANumber => exact hu.elim
  | zero s => exact unpack_packedZero
  | finite s m e h =>
    rw [abs_unpackedValue_finite] at hlt
    exact unpack_pack_of_exponent_le hu ((exponent_le_iff hu).mpr hlt)

/-- A canonical form from the limit on becomes `±∞`. -/
theorem unpack_pack_of_le {u : UnpackedFloat} (hu : Canonical u) (hle : limit ≤ |unpackedValue u|) :
    (Float.Model.pack u).unpack =
      .infinity (if unpackedValue u < 0 then .negative else .positive) := by
  cases u with
  | infinity s => exact hu.elim
  | notANumber => exact hu.elim
  | zero s =>
    have hpos : 0 < limit := zpow_pos (by norm_num) _
    rw [show unpackedValue (.zero s) = 0 from rfl, abs_zero] at hle
    exact absurd hpos (not_lt.mpr hle)
  | finite s m e h =>
    have hpos : (0 : ℚ) < m * 2 ^ e := mul_pos (by exact_mod_cast h) (zpow_pos (by norm_num) e)
    rw [abs_unpackedValue_finite] at hle
    have he : ¬e ≤ 971 := fun he => absurd ((exponent_le_iff hu).mp he) (not_lt.mpr hle)
    have hpack : UnpackedFloat.pack .binary64 (.finite s m e h) = packedInfinity .binary64 s := by
      rw [pack_finite, if_pos (by omega)]
    have hsign :
        (if unpackedValue (.finite s m e h) < 0 then Sign.negative else .positive) = s := by
      cases s
      · exact if_pos (neg_lt_zero.mpr hpos)
      · exact if_neg (not_lt.mpr hpos.le)
    rw [hsign]
    change UnpackedFloat.unpack .binary64 (UnpackedFloat.pack .binary64 (.finite s m e h)) = _
    rw [hpack, unpack_packedInfinity]

/-! ### What a double is unpacked to -/

/-- Bits whose exponent is not the greatest one stand for a canonical form below the limit. -/
theorem unpack_packComponents_finite (s : Sign) (E : BitVec 11) (M : BitVec 52) (hE : E ≠ -1#11) :
    let u := UnpackedFloat.unpack .binary64 (packComponents .binary64 s E M)
    Canonical u ∧ |unpackedValue u| < limit := by
  intro u
  have hM := M.isLt
  -- an exponent field of zero is that of the zeros and of numbers below `2 ^ -1022`; with any other
  -- a leading digit is understood
  by_cases h0 : E = 0#11
  · subst h0
    by_cases hM0 : M = 0#52
    · subst hM0
      have hu : u = .zero s := unpack_packedZero
      rw [hu]
      refine ⟨trivial, ?_⟩
      rw [show unpackedValue (.zero s) = 0 from rfl, abs_zero]
      exact zpow_pos (by norm_num) _
    · have hpos : 0 < M.toNat := by
        rwa [BitVec.toNat_pos, BitVec.pos_iff_ne_zero]
      have hu : u = .finite s M.toNat (-1074) hpos := unpack_packComponents_subnormal hpos
      have hc : Canonical u := by
        rw [hu]
        exact ⟨by omega, le_rfl, Or.inr rfl⟩
      rw [hu] at hc ⊢
      refine ⟨hc, ?_⟩
      rw [abs_unpackedValue_finite, ← exponent_le_iff hc]
      norm_num
  · have hlow : 1 ≤ E.toNat := by
      rw [Nat.one_le_iff_ne_zero]
      exact fun h => h0 (BitVec.eq_of_toNat_eq h)
    have hhigh : E.toNat ≤ 2046 := by
      have h1 : E.toNat ≠ 2047 := fun h => hE (BitVec.eq_of_toNat_eq h)
      have h2 := E.isLt
      omega
    have hu : u = .finite s (2 ^ 52 + M.toNat) (E.toNat - 1075) _ :=
      unpack_packComponents_normal h0 hE
    have hc : Canonical u := by
      rw [hu]
      exact ⟨by omega, by omega, Or.inl (by omega)⟩
    rw [hu] at hc ⊢
    refine ⟨hc, ?_⟩
    rw [abs_unpackedValue_finite, ← exponent_le_iff hc]
    omega

/-- A finite double is unpacked to a canonical form below the limit. -/
theorem canonical_unpack {f : Float.Model} (hf : f.isFinite = true) :
    Canonical f.unpack ∧ |unpackedValue f.unpack| < limit := by
  have hbits := @packComponents_unpackSign_unpackExponent_unpackMantissa .binary64 f.toBits.toBitVec
  -- the greatest exponent field is that of `±∞` and NaN
  have hE : @unpackExponent .binary64 f.toBits.toBitVec ≠ -1#11 := by
    intro h
    have hu : f.unpack.isFinite = true := hf
    unfold Float.Model.unpack UnpackedFloat.unpack at hu
    simp only [h, if_true] at hu
    split_ifs at hu <;> cases hu
  have hfinite := unpack_packComponents_finite
    (Sign.ofBitVec (@unpackSign .binary64 f.toBits.toBitVec)) _
    (@unpackMantissa .binary64 f.toBits.toBitVec) hE
  rw [hbits] at hfinite
  exact hfinite

/-- Doubles that are unpacked alike are equal. -/
theorem eq_of_unpack_eq {x y : Float} (h : x.toModel.unpack = y.toModel.unpack) : x = y := by
  rw [← Float.toBits_inj, ← UInt64.toBitVec_inj]
  exact (unpack_inj_of_valid x.toModel.valid y.toModel.valid).mp h

end DesignTokens.Number
