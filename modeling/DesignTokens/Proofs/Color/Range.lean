import DesignTokens.Proofs.Color.Channel

/-!
# The range of the channels

Saturation and lightness bound the channels of a colour without its hue: a channel of lightness `l`
and spread `a` lies between `l - a` and `l + a`, as they are rounded (`channelValue_between`), and
so do the bytes (`toByte_between`).  The greatest and the least channel of a colour are therefore no
further apart than the bytes of these two (`greatest_toRgb_le`, `le_least_toRgb`).
-/

namespace DesignTokens

open Number

namespace Rgb

/-- The greatest channel. -/
def greatest (color : Rgb) : ℕ :=
  max (max color.r.toNat color.g.toNat) color.b.toNat

/-- The least channel. -/
def least (color : Rgb) : ℕ :=
  min (min color.r.toNat color.g.toNat) color.b.toNat

end Rgb

namespace Hsl

section Between

variable {l a : Float}

/-- The ends between which the channels of a lightness and a spread lie. -/
theorem ends_spec (hl : Bounded 1 l) (ha : Bounded 1 a) :
    ((l - a).isFinite = true ∧ |value (l - a)| ≤ 2 ∧ value (l - a) = rounded (value l - value a)) ∧
      ((l + a).isFinite = true ∧ |value (l + a)| ≤ 2 ∧
        value (l + a) = rounded (value l + value a)) := by
  have hl1 : value l ≤ 1 := by simpa using hl.le
  have ha1 : value a ≤ 1 := by simpa using ha.le
  have hl0 := hl.nonneg
  have ha0 := ha.nonneg
  have htop : (1 : ℚ) ≤ 2 ^ (1023 : ℤ) := one_le_zpow₀ (by norm_num) (by norm_num)
  obtain ⟨hsum, hsumv⟩ := hl.add ha (by norm_num)
  have hdiff : |value l - value a| ≤ 1 := abs_le.mpr ⟨by linarith, by linarith⟩
  obtain ⟨hsub, hsubv⟩ := (sub_roundsTo hl.finite ha.finite).of_abs_le (hdiff.trans htop)
  refine ⟨⟨hsub, ?_, hsubv⟩, hsum.finite, ?_, hsumv⟩
  · rw [hsubv]
    exact (abs_rounded_le onGrid_one hdiff).trans one_le_two
  · rw [abs_of_nonneg hsum.nonneg]
    exact_mod_cast hsum.le

/-- `l - a ≤ l - a · depth k ≤ l + a`, as they are rounded. -/
theorem channelValue_between (hl : Bounded 1 l) (ha : Bounded 1 a) (k : Float) :
    value (l - a) ≤ value (channelValue l a k) ∧ value (channelValue l a k) ≤ value (l + a) := by
  obtain ⟨⟨-, -, hlow⟩, -, -, hhigh⟩ := ends_spec hl ha
  have hpart : |value a * value (depth k)| ≤ value a := by
    rw [abs_mul, abs_of_nonneg ha.nonneg]
    exact mul_le_of_le_one_right ha.nonneg (depth_spec k).2
  -- the spread is a double itself, and rounding does not leave what lies between it and its
  -- negative
  obtain ⟨hbelow, habove⟩ := abs_le.mp (abs_rounded_le (onGrid_value ha.finite) hpart)
  rw [hlow, hhigh, (channelValue_spec hl ha k).2]
  exact ⟨rounded_mono (by linarith), rounded_mono (by linarith)⟩

theorem toByte_between (hl : Bounded 1 l) (ha : Bounded 1 a) (k : Float) :
    toByte (l - a) ≤ toByte (channelValue l a k) ∧
    toByte (channelValue l a k) ≤ toByte (l + a) := by
  obtain ⟨⟨hlowf, hlow2, -⟩, hhighf, hhigh2, -⟩ := ends_spec hl ha
  obtain ⟨hf, h2⟩ := (channelValue_spec hl ha k).1
  obtain ⟨hbelow, habove⟩ := channelValue_between hl ha k
  exact ⟨toByte_mono hlowf hlow2 hf h2 hbelow, toByte_mono hf h2 hhighf hhigh2 habove⟩

end Between

/-- The byte that no channel of a saturation and lightness is above, at any hue. -/
def upperEnd (s l : Float) : ℕ :=
  (toByte (fraction l + spread (fraction s) (fraction l))).toNat

/-- The byte that no channel of a saturation and lightness is below, at any hue. -/
def lowerEnd (s l : Float) : ℕ :=
  (toByte (fraction l - spread (fraction s) (fraction l))).toNat

theorem greatest_toRgb_le (hue s l : Float) : (toRgb ⟨hue, s, l⟩).greatest ≤ upperEnd s l := by
  have hl := fraction_bounded l
  have hchannel := fun k =>
    UInt8.le_iff_toNat_le.mp (toByte_between hl (spread_spec (fraction_bounded s) hl).1 k).2
  exact max_le (max_le (hchannel _) (hchannel _)) (hchannel _)

theorem le_least_toRgb (hue s l : Float) : lowerEnd s l ≤ (toRgb ⟨hue, s, l⟩).least := by
  have hl := fraction_bounded l
  have hchannel := fun k =>
    UInt8.le_iff_toNat_le.mp (toByte_between hl (spread_spec (fraction_bounded s) hl).1 k).1
  exact le_min (le_min (hchannel _) (hchannel _)) (hchannel _)

end Hsl

end DesignTokens
