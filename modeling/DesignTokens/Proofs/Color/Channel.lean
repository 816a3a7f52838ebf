import DesignTokens.Color.Hsl
import DesignTokens.Proofs.Number.Close
import DesignTokens.Proofs.Number.Whole

/-!
# The order of channels

A channel is `l - a · depth k`, and `|depth k| ≤ 1` at every position `k`, NaN included
(`depth_spec`).  So where `l - a ≥ l' + a'` with room for two roundings (`Dominates`), every channel
of the first colour is at least that of the second, at every hue and after rounding to bytes
(`toRgb_le_of_dominates`).  At saturation `0` the colour is grey, whatever the hue
(`toRgb_of_saturation_zero`).
-/

namespace DesignTokens.Hsl

open Number

/-! ### The depth of a channel -/

/-- `depth k` is finite and in `[-1, 1]`, also at NaN and `±∞`. -/
theorem depth_spec (k : Float) : (depth k).isFinite = true ∧ |value (depth k)| ≤ 1 := by
  unfold depth
  generalize min (k - 3) (9 - k) = t
  have hone := value_one
  have hneg : (-1 : Float).isFinite = true ∧ value (-1) = -1 := by
    have h := value_neg hone.1
    rwa [hone.2] at h
  have hmin : min t 1 = if t ≤ 1 then t else 1 := rfl
  have hmax : max (min t 1) (-1) = if min t 1 ≤ -1 then -1 else min t 1 := rfl
  rw [hmax]
  split
  case isTrue => exact ⟨hneg.1, by rw [hneg.2]; norm_num⟩
  case isFalse h =>
    rw [hmin] at h ⊢
    split at h
    case isTrue ht =>
      rw [if_pos ht]
      have hfinite := isFinite_of_not_le_of_le hneg.1 hone.1 h ht
      rw [le_iff_value_le hfinite hneg.1, hneg.2, not_le] at h
      rw [le_iff_value_le hfinite hone.1, hone.2] at ht
      exact ⟨hfinite, abs_le.mpr ⟨h.le, ht⟩⟩
    case isFalse ht =>
      -- NaN fails every comparison, and ends here too
      rw [if_neg ht]
      exact ⟨hone.1, by rw [hone.2]; norm_num⟩

/-! ### Fractions and spreads -/

/-- Every percentage is brought into `[0, 1]`. -/
theorem fraction_bounded (percent : Float) : Bounded 1 (fraction percent) := by
  obtain ⟨hhundred, hvalue⟩ : Bounded 100 100.0 ∧ value 100.0 = 100 := value_literal 100 (by decide)
  have hzero : Bounded 100 0.0 :=
    ⟨value_zero.1.finite, value_zero.1.nonneg, by rw [value_zero.2]; norm_num⟩
  have hfinite : (finiteOrZero percent).isFinite = true := by
    unfold finiteOrZero
    split
    case isTrue h => exact h
    case isFalse => exact hzero.finite
  have hclamp : Bounded 100 (clamp 0.0 100.0 (finiteOrZero percent)) := by
    obtain ⟨hf, hv⟩ :=
      value_clamp hzero.finite hhundred.finite (by rw [value_zero.2, hvalue]; norm_num) hfinite
    rw [value_zero.2] at hv
    refine ⟨hf, hv ▸ le_max_left _ _, hv ▸ max_le (by norm_num) ?_⟩
    exact (min_le_right _ _).trans hhundred.le
  have h := div_roundsTo hclamp.finite hhundred.finite (by rw [hvalue]; norm_num)
  rw [hvalue] at h
  refine (h.bounded (div_nonneg hclamp.nonneg (by norm_num)) ?_ (by norm_num)).1
  rw [div_le_iff₀ (by norm_num)]
  simpa using hclamp.le

theorem one_sub_bounded {l : Float} (hl : Bounded 1 l) : Bounded 1 (1 - l) := by
  have hone := value_one
  have h := sub_roundsTo hone.1 hl.finite
  rw [hone.2] at h
  exact (h.bounded (sub_nonneg.mpr (by simpa using hl.le)) (by simpa using hl.nonneg)
    (by norm_num)).1

theorem spread_spec {s l : Float} (hs : Bounded 1 s) (hl : Bounded 1 l) :
    Bounded 1 (spread s l) ∧ value (spread s l) = rounded (value s * value (min l (1 - l))) := by
  have hmin : Bounded 1 (min l (1 - l)) := by
    have h : min l (1 - l) = if l ≤ 1 - l then l else 1 - l := rfl
    rw [h]
    split
    case isTrue => exact hl
    case isFalse => exact one_sub_bounded hl
  exact hs.mul hmin (by norm_num)

/-! ### Channel values -/

theorem abs_mul_depth_le {a : Float} (ha : Bounded 1 a) (k : Float) :
    |value a * value (depth k)| ≤ 1 := by
  rw [abs_mul, abs_of_nonneg ha.nonneg]
  have ha1 : value a ≤ 1 := by simpa using ha.le
  exact mul_le_one₀ ha1 (abs_nonneg _) (depth_spec k).2

/-- `l - a · depth k` with its two roundings. -/
theorem channelValue_spec {l a : Float} (hl : Bounded 1 l) (ha : Bounded 1 a) (k : Float) :
    ((channelValue l a k).isFinite = true ∧ |value (channelValue l a k)| ≤ 2) ∧
      value (channelValue l a k) = rounded (value l - rounded (value a * value (depth k))) := by
  have htop : ((2 : ℕ) : ℚ) ≤ 2 ^ (1023 : ℤ) := natCast_le_top (by norm_num)
  have htwo : OnGrid (2 : ℕ) := onGrid_natCast (by norm_num)
  rw [Nat.cast_ofNat] at htop htwo
  have hproduct := abs_mul_depth_le ha k
  obtain ⟨hmul, hmulv⟩ := (mul_roundsTo ha.finite (depth_spec k).1).of_abs_le
    (hproduct.trans (one_le_two.trans htop))
  have hpart := abs_le.mp (abs_rounded_le onGrid_one hproduct)
  have hl0 := hl.nonneg
  have hl1 : value l ≤ 1 := by simpa using hl.le
  have hdiff : |value l - value (a * depth k)| ≤ 2 := by
    rw [hmulv, abs_le]
    constructor <;> linarith
  obtain ⟨hsub, hsubv⟩ := (sub_roundsTo hl.finite hmul).of_abs_le (hdiff.trans htop)
  refine ⟨⟨hsub, ?_⟩, hsubv.trans (by rw [hmulv])⟩
  change |value (l - a * depth k)| ≤ 2
  rw [hsubv]
  exact abs_rounded_le htwo hdiff

/-- `l - a` is above `l' + a'`, with room for two roundings. -/
def Clears (l a l' a' : Float) : Prop :=
  |value a - value a'| + 2 ^ (-52 : ℤ) ≤ value l - value l'

instance (l a l' a' : Float) : Decidable (Clears l a l' a') :=
  inferInstanceAs (Decidable (_ ≤ _))

theorem channelValue_le_of_clears {l a l' a' : Float} (hl : Bounded 1 l) (ha : Bounded 1 a)
    (hl' : Bounded 1 l') (ha' : Bounded 1 a') (h : Clears l a l' a') (k : Float) :
    value (channelValue l' a' k) ≤ value (channelValue l a k) := by
  rw [(channelValue_spec hl ha k).2, (channelValue_spec hl' ha' k).2]
  apply rounded_mono
  have herror : ∀ {a : Float}, Bounded 1 a →
      |rounded (value a * value (depth k)) - value a * value (depth k)| ≤ 2 ^ (-53 : ℤ) := fun ha =>
    abs_rounded_sub_le_of_abs_le (k := 0) (by simpa using abs_mul_depth_le ha k) (by norm_num)
  have h₁ := (abs_le.mp (herror ha)).2
  have h₂ := (abs_le.mp (herror ha')).1
  have hparts : value a * value (depth k) - value a' * value (depth k) ≤ |value a - value a'| := by
    rw [← sub_mul]
    calc (value a - value a') * value (depth k) ≤ |(value a - value a') * value (depth k)| :=
        le_abs_self _
      _ = |value a - value a'| * |value (depth k)| := abs_mul _ _
      _ ≤ |value a - value a'| := mul_le_of_le_one_right (abs_nonneg _) (depth_spec k).2
  -- each channel value is off by one rounding, and the room is for both
  have hhalves : (2 : ℚ) ^ (-52 : ℤ) = 2 ^ (-53 : ℤ) + 2 ^ (-53 : ℤ) := by norm_num
  unfold Clears at h
  linarith

/-! ### Bytes -/

/-- `toByte v` is `255 · v` rounded to an integer and clamped to `[0, 255]`. -/
theorem toNat_toByte {v : Float} (hv : v.isFinite = true) (hle : |value v| ≤ 2) :
    (toByte v).toNat = min 255 (awayFromZero (rounded (value v * 255))).toNat := by
  obtain ⟨hbyte, hvalue⟩ : Bounded 255 255.0 ∧ value 255.0 = 255 := value_literal 255 (by decide)
  have htop : |value v * value 255.0| ≤ 2 ^ (1023 : ℤ) := by
    rw [hvalue, abs_mul]
    calc |value v| * |255| ≤ 2 * 255 := mul_le_mul hle (by norm_num) (abs_nonneg _) (by norm_num)
      _ ≤ 2 ^ (9 : ℤ) := by norm_num
      _ ≤ 2 ^ (1023 : ℤ) := zpow_le_zpow_right₀ (by norm_num) (by norm_num)
  obtain ⟨hmul, hmulv⟩ := (mul_roundsTo hv hbyte.finite).of_abs_le htop
  obtain ⟨hwhole, hwholev⟩ := value_nearestWhole hmul
  obtain ⟨hclamp, hclampv⟩ :=
    value_clamp value_zero.1.finite hbyte.finite (by rw [value_zero.2, hvalue]; norm_num) hwhole
  rw [hwholev, hmulv, hvalue, value_zero.2] at hclampv
  have hcast : ∀ n : ℤ, max (0 : ℚ) (min n 255) = ((max 0 (min n 255) : ℤ) : ℚ) := by
    intro n
    push_cast
    rfl
  unfold toByte
  rw [toNat_toUInt8 hclamp, hclampv, hcast, Int.floor_intCast]
  omega

/-- A channel of doubles leaves `[0, 1]` by no more than its last rounding. -/
theorem channelValue_bounds {s l : Float} (hs : Bounded 1 s) (hl : Bounded 1 l) (k : Float) :
    0 ≤ value (channelValue l (spread s l) k) ∧
    value (channelValue l (spread s l) k) ≤ 1 + 2 ^ (-52 : ℤ) := by
  obtain ⟨ha, hav⟩ := spread_spec hs hl
  have hone := value_one
  obtain ⟨hminf, hmin⟩ := value_min hl.finite (one_sub_bounded hl).finite
  have hs1 : value s ≤ 1 := by simpa using hs.le
  have hl1 : value l ≤ 1 := by simpa using hl.le
  -- the spread is at most the distance to either end, the upper one as it is rounded
  have hspread : value (spread s l) ≤ min (value l) (value (1 - l)) := by
    rw [hav, ← hmin]
    refine rounded_le (onGrid_value hminf) (mul_le_of_le_one_left ?_ hs1)
    rw [hmin]
    exact le_min hl.nonneg (one_sub_bounded hl).nonneg
  have hupper : value (1 - l) ≤ 1 - value l + 2 ^ (-53 : ℤ) := by
    have hround := sub_roundsTo hone.1 hl.finite
    rw [hone.2] at hround
    have habs : |1 - value l| ≤ 2 ^ (0 : ℤ) := by
      rw [abs_of_nonneg (sub_nonneg.mpr hl1), zpow_zero]
      linarith [hl.nonneg]
    rw [(hround.of_abs_le (habs.trans (zpow_le_zpow_right₀ (by norm_num) (by norm_num)))).2]
    have herror := (abs_le.mp (abs_rounded_sub_le_of_abs_le habs (by norm_num))).2
    rw [zero_sub] at herror
    linarith
  have hpart : |value (spread s l) * value (depth k)| ≤ value (spread s l) := by
    rw [abs_mul, abs_of_nonneg ha.nonneg]
    exact mul_le_of_le_one_right ha.nonneg (depth_spec k).2
  have hlow := le_rounded (onGrid_value (value_neg ha.finite).1)
    ((value_neg ha.finite).2 ▸ (abs_le.mp hpart).1)
  have hhigh := rounded_le (onGrid_value ha.finite) (abs_le.mp hpart).2
  rw [(value_neg ha.finite).2] at hlow
  rw [(channelValue_spec hl ha k).2]
  constructor
  · exact rounded_nonneg (by linarith [min_le_left (value l) (value (1 - l))])
  · refine rounded_le ⟨2 ^ 52 + 1, -52, by norm_num, by norm_num, by norm_num⟩ ?_
    have hhalf : (2 : ℚ) ^ (-53 : ℤ) ≤ 2 ^ (-52 : ℤ) := by norm_num
    linarith [min_le_right (value l) (value (1 - l))]

theorem channel_fraction_spec (hue saturation lightness start : Float) :
    let v := channel remainder hue (fraction saturation) (fraction lightness) start
    v.isFinite = true ∧ 0 ≤ value v ∧ value v ≤ 1 + 2 ^ (-52 : ℤ) := by
  have hs := fraction_bounded saturation
  have hl := fraction_bounded lightness
  exact ⟨(channelValue_spec hl (spread_spec hs hl).1 _).1.1, channelValue_bounds hs hl _⟩

/-- A channel of doubles is rounded to an integer from 0 to 255. -/
theorem awayFromZero_channel_bounds {v : Float} (hv : v.isFinite = true) (h0 : 0 ≤ value v)
    (h1 : value v ≤ 1 + 2 ^ (-52 : ℤ)) :
    (v * 255.0).isFinite = true ∧ 0 ≤ awayFromZero (value (v * 255.0)) ∧
      awayFromZero (value (v * 255.0)) ≤ 255 := by
  obtain ⟨hbyte, hvalue⟩ : Bounded 255 255.0 ∧ value 255.0 = 255 := value_literal 255 (by decide)
  have hquarter : value v * value 255.0 ≤ 1021 / 4 := by
    rw [hvalue]
    calc value v * 255 ≤ (1 + 2 ^ (-52 : ℤ)) * 255 := mul_le_mul_of_nonneg_right h1 (by norm_num)
      _ ≤ 1021 / 4 := by norm_num
  obtain ⟨hmul, hmulv⟩ := (mul_roundsTo hv hbyte.finite).bounded (m := 256)
    (mul_nonneg h0 hbyte.nonneg) (hquarter.trans (by norm_num)) (by norm_num)
  refine ⟨hmul.finite, ?_, ?_⟩
  · have h := awayFromZero_mono hmul.nonneg
    rwa [← Int.cast_zero, awayFromZero_intCast] at h
  · -- less than `1/2` above 255, it is rounded down to 255
    have hhigh : value (v * 255.0) ≤ 1021 / 4 :=
      hmulv ▸ rounded_le ⟨1021, -2, by norm_num, by norm_num, by norm_num⟩ hquarter
    have h := awayFromZero_mono hhigh
    rwa [show awayFromZero (1021 / 4) = 255 by norm_num [awayFromZero, round_eq]] at h

/-- The clamp to `[0, 255]` in `toByte` changes nothing. -/
theorem clamp_nearestWhole {v : Float} (hv : v.isFinite = true) (h0 : 0 ≤ value v)
    (h1 : value v ≤ 1 + 2 ^ (-52 : ℤ)) :
    clamp 0.0 255.0 (nearestWhole (v * 255.0)) = nearestWhole (v * 255.0) := by
  obtain ⟨hbyte, hvalue⟩ : Bounded 255 255.0 ∧ value 255.0 = 255 := value_literal 255 (by decide)
  obtain ⟨hmul, hlow, hhigh⟩ := awayFromZero_channel_bounds hv h0 h1
  obtain ⟨hwhole, hwholev⟩ := value_nearestWhole hmul
  refine clamp_eq_self value_zero.1.finite hbyte.finite hwhole ?_ ?_
  · rw [value_zero.2, hwholev]
    exact_mod_cast hlow
  · rw [hvalue, hwholev]
    exact_mod_cast hhigh

/-- The byte of a channel of doubles is the integer nearest to 255 times the channel. -/
theorem toNat_toByte_channel {v : Float} (hv : v.isFinite = true) (h0 : 0 ≤ value v)
    (h1 : value v ≤ 1 + 2 ^ (-52 : ℤ)) :
    ((toByte v).toNat : ℤ) = awayFromZero (value (v * 255.0)) := by
  obtain ⟨hmul, hlow, hhigh⟩ := awayFromZero_channel_bounds hv h0 h1
  obtain ⟨hwhole, hwholev⟩ := value_nearestWhole hmul
  unfold toByte
  rw [clamp_nearestWhole hv h0 h1, toNat_toUInt8 hwhole, hwholev, Int.floor_intCast]
  omega

theorem toByte_mono {v w : Float} (hv : v.isFinite = true) (hv2 : |value v| ≤ 2)
    (hw : w.isFinite = true) (hw2 : |value w| ≤ 2) (hvw : value v ≤ value w) :
    toByte v ≤ toByte w := by
  rw [UInt8.le_iff_toNat_le, toNat_toByte hv hv2, toNat_toByte hw hw2]
  have h := awayFromZero_mono
    (rounded_mono (mul_le_mul_of_nonneg_right hvw (by norm_num : (0 : ℚ) ≤ 255)))
  omega

/-! ### Colours -/

/-- Of two pairs `(s, l)`, the first is above the second at every hue. -/
def Dominates (upper lower : Float × Float) : Prop :=
  Clears (fraction upper.2) (spread (fraction upper.1) (fraction upper.2))
    (fraction lower.2) (spread (fraction lower.1) (fraction lower.2))

instance (upper lower : Float × Float) : Decidable (Dominates upper lower) :=
  inferInstanceAs (Decidable (Clears ..))

/-- No channel of a dominated colour is above the same channel of the other, at any hue. -/
theorem toRgb_le_of_dominates {upper lower : Float × Float} (h : Dominates upper lower)
    (hue : Float) :
    (toRgb ⟨hue, lower.1, lower.2⟩).r ≤ (toRgb ⟨hue, upper.1, upper.2⟩).r ∧
      (toRgb ⟨hue, lower.1, lower.2⟩).g ≤ (toRgb ⟨hue, upper.1, upper.2⟩).g ∧
      (toRgb ⟨hue, lower.1, lower.2⟩).b ≤ (toRgb ⟨hue, upper.1, upper.2⟩).b := by
  have hchannel : ∀ k : Float,
      toByte (channelValue (fraction lower.2) (spread (fraction lower.1) (fraction lower.2)) k) ≤
        toByte (channelValue (fraction upper.2)
          (spread (fraction upper.1) (fraction upper.2)) k) := by
    intro k
    have hl := fraction_bounded upper.2
    have hl' := fraction_bounded lower.2
    have ha := (spread_spec (fraction_bounded upper.1) hl).1
    have ha' := (spread_spec (fraction_bounded lower.1) hl').1
    obtain ⟨hf, h2⟩ := (channelValue_spec hl ha k).1
    obtain ⟨hf', h2'⟩ := (channelValue_spec hl' ha' k).1
    exact toByte_mono hf' h2' hf h2 (channelValue_le_of_clears hl ha hl' ha' h k)
  exact ⟨hchannel _, hchannel _, hchannel _⟩

/-- The grey of a lightness. -/
def grey (lightness : Float) : Rgb :=
  ⟨toByte (fraction lightness), toByte (fraction lightness), toByte (fraction lightness)⟩

/-- At saturation `0` every hue is grey. -/
theorem toRgb_of_saturation_zero (hue lightness : Float) :
    toRgb ⟨hue, 0.0, lightness⟩ = grey lightness := by
  have hl := fraction_bounded lightness
  have hl2 : |value (fraction lightness)| ≤ 2 := by
    have h1 : value (fraction lightness) ≤ 1 := by simpa using hl.le
    rw [abs_of_nonneg hl.nonneg]
    linarith
  obtain ⟨ha, hav⟩ := spread_spec (fraction_bounded 0.0) hl
  have hfraction : value (fraction 0.0) = 0 := by
    rw [(by decide : fraction 0.0 = 0.0)]
    exact value_zero.2
  rw [hfraction, zero_mul, rounded_zero] at hav
  have hchannel : ∀ k : Float,
      toByte (channelValue (fraction lightness) (spread (fraction 0.0) (fraction lightness)) k) =
        toByte (fraction lightness) := by
    intro k
    obtain ⟨⟨hf, h2⟩, hv⟩ := channelValue_spec hl ha k
    rw [hav, zero_mul, rounded_zero, sub_zero, rounded_eq_self (onGrid_value hl.finite)] at hv
    rw [← UInt8.toNat_inj, toNat_toByte hf h2, toNat_toByte hl.finite hl2, hv]
  unfold toRgb grey channels channel
  dsimp only
  rw [hchannel, hchannel, hchannel]

end DesignTokens.Hsl
