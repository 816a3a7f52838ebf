import DesignTokens.Proofs.Color.Conversion
import DesignTokens.Proofs.Contrast.Luminance
import DesignTokens.Proofs.Number.Threshold

/-!
# From channels to hue, saturation and lightness, and back

Over `ℚ` the components of three channels give these back: lightness and spread are the middle and
half of their range (`spread_of_range`), and the hue is measured from the greatest channel towards
the greater of the other two (`restores_of_mix`); if green or blue is the greatest, the hue is
shifted by 120 or 240 degrees (`Restores.rotate`).

In doubles the channels are fractions of bytes, so that different ones are at least one byte apart
(`share_add_le`).  What is divided by is then far above the errors, the components of a colour are
close to the rational ones (`shows_toHsl`), and each channel comes back close enough to be rounded
to its byte.
-/

namespace DesignTokens

open Number

namespace Hsl

/-! ### The rational components of three channels -/

section Mix

variable {x y z : ℚ}

/-- The channels of a hue, in units of 60 degrees, with maximum `top` and minimum `bottom`. -/
structure Restores (top bottom turns r g b : ℚ) : Prop where
  red : (top + bottom) / 2 - (top - bottom) / 2 * wave (2 * turns) = r
  green : (top + bottom) / 2 - (top - bottom) / 2 * wave (8 + 2 * turns) = g
  blue : (top + bottom) / 2 - (top - bottom) / 2 * wave (4 + 2 * turns) = b

namespace Restores

variable {top bottom turns r g b : ℚ}

theorem sub_turns (h : Restores top bottom turns r g b) (n : ℤ) :
    Restores top bottom (turns - 6 * n) r g b := by
  have hwave : ∀ start : ℚ, wave (start + 2 * (turns - 6 * n)) = wave (start + 2 * turns) := by
    intro start
    rw [← wave_add_turns _ n]
    congr 1
    ring
  refine ⟨?_, by rw [hwave, h.green], by rw [hwave, h.blue]⟩
  have hred := hwave 0
  rw [zero_add, zero_add] at hred
  rw [hred, h.red]

/-- A hue 120 degrees further has the channels rotated. -/
theorem rotate (h : Restores top bottom turns r g b) : Restores top bottom (turns + 2) b r g := by
  have hgreen : wave (8 + 2 * (turns + 2)) = wave (2 * turns) := by
    rw [← wave_add_turns (2 * turns) 1]
    congr 1
    push_cast
    ring
  refine ⟨?_, by rw [hgreen, h.red], ?_⟩
  · rw [show 2 * (turns + 2) = 4 + 2 * turns by ring, h.blue]
  · rw [show 4 + 2 * (turns + 2) = 8 + 2 * turns by ring, h.green]

end Restores

/-- Behind the greatest channel the wave falls with the hue. -/
theorem wave_behind {turns : ℚ} (h : |turns| ≤ 1) :
    wave (8 + 2 * turns) = min (1 - 2 * turns) 1 := by
  obtain ⟨hlow, hhigh⟩ := abs_le.mp h
  have hturn : |8 + 2 * turns - 12 * (1 : ℤ)| = 4 - 2 * turns := by
    rw [abs_of_nonpos (by push_cast; linarith)]
    push_cast
    ring
  rw [wave, distance_eq 1 (by linarith), hturn, max_eq_left (le_min (by linarith) (by norm_num))]
  congr 1
  ring

/-- Before the greatest channel the wave rises with the hue. -/
theorem wave_before {turns : ℚ} (h : |turns| ≤ 1) :
    wave (4 + 2 * turns) = min (1 + 2 * turns) 1 := by
  obtain ⟨hlow, hhigh⟩ := abs_le.mp h
  have hturn : |4 + 2 * turns - 12 * (0 : ℤ)| = 4 + 2 * turns := by
    rw [abs_of_nonneg (by push_cast; linarith)]
    push_cast
    ring
  rw [wave, distance_eq 0 (by linarith), hturn, max_eq_left (le_min (by linarith) (by norm_num))]
  congr 1
  ring

/-- With the greatest channel first, the other two stand behind and before it: the hue lies on the
side of the greater of them, and the wave gives each channel back. -/
theorem restores_of_mix (hy : y ≤ x) (hz : z ≤ x) (hleast : min y z < x) :
    |(y - z) / (x - min y z)| ≤ 1 ∧ Restores x (min y z) ((y - z) / (x - min y z)) x y z := by
  have hbelow : min y z ≤ y ∧ min y z ≤ z := ⟨min_le_left y z, min_le_right y z⟩
  generalize hmin : min y z = least at *
  have hdelta : 0 < x - least := sub_pos.mpr hleast
  have hrange : |(y - z) / (x - least)| ≤ 1 := by
    rw [abs_div, abs_of_pos hdelta, div_le_one hdelta, abs_le]
    constructor <;> linarith
  have hside : 0 ≤ (y - z) / (x - least) ↔ z ≤ y := by rw [le_div_iff₀ hdelta, zero_mul, sub_nonneg]
  have hturns : (x - least) * ((y - z) / (x - least)) = y - z := mul_div_cancel₀ _ hdelta.ne'
  -- from here on `turns` is any number with the sign and the product just found
  generalize (y - z) / (x - least) = turns at *
  obtain ⟨hlow, hhigh⟩ := abs_le.mp hrange
  have hred : wave (2 * turns) = -1 :=
    wave_of_near 0 (abs_le.mpr ⟨by push_cast; linarith, by push_cast; linarith⟩)
  refine ⟨hrange, by rw [hred]; ring, ?_, ?_⟩
  · rw [wave_behind hrange]
    rcases le_or_gt 0 turns with hbehind | hbefore
    · rw [min_eq_right (hside.mp hbehind)] at hmin
      rw [min_eq_left (by linarith)]
      linear_combination hturns - hmin
    · rw [min_eq_left (not_le.mp (mt hside.mpr (not_le.mpr hbefore))).le] at hmin
      rw [min_eq_right (by linarith)]
      linear_combination -hmin
  · rw [wave_before hrange]
    rcases le_or_gt 0 turns with hbehind | hbefore
    · rw [min_eq_right (hside.mp hbehind)] at hmin
      rw [min_eq_right (by linarith)]
      linear_combination -hmin
    · rw [min_eq_left (not_le.mp (mt hside.mpr (not_le.mpr hbefore))).le] at hmin
      rw [min_eq_left (by linarith)]
      linear_combination -hmin - hturns

/-- The saturation is what makes the spread half of the range. -/
theorem spread_of_range {greatest least : ℚ} (h0 : 0 ≤ least) (hlt : least < greatest)
    (h1 : greatest ≤ 1) :
    greatest - least ≤ 1 - |2 * ((greatest + least) / 2) - 1| ∧
      spread ((greatest - least) / (1 - |2 * ((greatest + least) / 2) - 1|))
        ((greatest + least) / 2) =
        (greatest - least) / 2 := by
  have hrange : greatest - least ≤ 1 - |2 * ((greatest + least) / 2) - 1| := by
    have habs : |2 * ((greatest + least) / 2) - 1| ≤ 1 - (greatest - least) :=
      abs_le.mpr ⟨by linarith, by linarith⟩
    linarith
  refine ⟨hrange, ?_⟩
  have hchroma := chroma_eq ((greatest - least) / (1 - |2 * ((greatest + least) / 2) - 1|))
    ((greatest + least) / 2)
  rw [mul_div_cancel₀ _ (by linarith)] at hchroma
  linarith

end Mix

end Hsl

namespace Rgb

open Hsl

/-! ### Channels as fractions -/

/-- `byte / 255`. -/
def share (byte : UInt8) : ℚ :=
  byte.toNat / 255

theorem share_bounds (byte : UInt8) : 0 ≤ share byte ∧ share byte ≤ 1 := by
  have hlt : byte.toNat < 256 := byte.toNat_lt
  have hcast : (byte.toNat : ℚ) ≤ 255 := by exact_mod_cast Nat.le_of_lt_succ hlt
  unfold share
  exact ⟨by positivity, by linarith⟩

/-- Different bytes are at least `1 / 255` apart. -/
theorem share_add_le {c d : UInt8} (h : share c < share d) : share c + 1 / 255 ≤ share d := by
  unfold share at h ⊢
  rw [div_lt_div_iff_of_pos_right (by norm_num), Nat.cast_lt] at h
  have hcast : (c.toNat : ℚ) + 1 ≤ d.toNat := by exact_mod_cast h
  linarith

theorem share_injective : Function.Injective share := by
  intro c d h
  rw [share, share, div_left_inj' (by norm_num), Nat.cast_inj] at h
  exact UInt8.toNat_inj.mp h

theorem close_share (byte : UInt8) : Close (2 ^ (-53 : ℤ)) (byte.toFloat / 255.0) (share byte) := by
  obtain ⟨hbounded, hvalue⟩ := Contrast.fraction_spec byte
  obtain ⟨h0, h1⟩ := share_bounds byte
  change value _ = rounded (share byte) at hvalue
  refine ⟨hbounded.finite, ?_⟩
  rw [hvalue]
  refine abs_rounded_sub_le_of_abs_le (k := 0) ?_ (by norm_num)
  rwa [abs_of_nonneg h0, zpow_zero]

/-- Fractions of bytes are ordered as their doubles. -/
theorem value_le_iff (c d : UInt8) :
    value (c.toFloat / 255.0) ≤ value (d.toFloat / 255.0) ↔ share c ≤ share d := by
  constructor
  · intro h
    by_contra hlt
    have hgap := share_add_le (not_le.mp hlt)
    have hc := (abs_le.mp (close_share c).near).1
    have hd := (abs_le.mp (close_share d).near).2
    have hsmall : (2 : ℚ) ^ (-53 : ℤ) ≤ 1 / 1000 := by norm_num
    linarith
  · intro h
    rw [(Contrast.fraction_spec c).2, (Contrast.fraction_spec d).2]
    exact rounded_mono h

/-! ### Components of close channels -/

section Components

variable {greatest least : Float} {top bottom : ℚ}

theorem close_range (hgreatest : Close (2 ^ (-53 : ℤ)) greatest top)
    (hleast : Close (2 ^ (-53 : ℤ)) least bottom) (h : |top - bottom| ≤ 1) :
    Close (2 ^ (-51 : ℤ)) (greatest - least) (top - bottom) :=
  (hgreatest.sub hleast 1 h 1 (by norm_num)).weaken (by norm_num)

theorem close_lightness (hgreatest : Close (2 ^ (-53 : ℤ)) greatest top)
    (hleast : Close (2 ^ (-53 : ℤ)) least bottom) (h0 : 0 ≤ bottom) (hle : bottom ≤ top)
    (h1 : top ≤ 1) : Close (2 ^ (-50 : ℤ)) ((greatest + least) / 2.0) ((top + bottom) / 2) := by
  have htwo : Close 0 2.0 2 := Close.literal 2 (by decide)
  have hsum := hgreatest.add hleast 2 (abs_le.mpr ⟨by linarith, by linarith⟩) 2 (by norm_num)
  have hhalf := hsum.div htwo 1 2 (abs_le.mpr ⟨by linarith, by linarith⟩) (by norm_num)
    (by norm_num) 1 (by norm_num)
  exact hhalf.weaken (by norm_num)

/-- What the range is divided by for the saturation. -/
theorem close_divisor {l : Float} (hl : Close (2 ^ (-50 : ℤ)) l ((top + bottom) / 2))
    (h0 : 0 ≤ bottom) (hle : bottom ≤ top) (h1 : top ≤ 1) :
    Close (2 ^ (-48 : ℤ)) (1.0 - (2.0 * l - 1.0).abs) (1 - |2 * ((top + bottom) / 2) - 1|) := by
  have htwo : Close 0 2.0 2 := Close.literal 2 (by decide)
  have hone : Close 0 1.0 1 := Close.of_value_eq value_unit.1.finite value_unit.2
  have hdouble := htwo.mul hl 2 1 (abs_of_pos (by norm_num)).le
    (abs_le.mpr ⟨by linarith, by linarith⟩) 2 (by norm_num)
  have habs : |2 * ((top + bottom) / 2) - 1| ≤ 1 := abs_le.mpr ⟨by linarith, by linarith⟩
  have hoff := (hdouble.sub hone 1 habs 1 (by norm_num)).abs
  refine (hone.sub hoff 1 ?_ 1 (by norm_num)).weaken (by norm_num)
  rw [abs_of_nonneg (sub_nonneg.mpr habs)]
  exact sub_le_self 1 (abs_nonneg _)

/-- The range of the channels and the divisor are at least `1 / 255`, far above the errors. -/
theorem close_saturation {l : Float} (hgreatest : Close (2 ^ (-53 : ℤ)) greatest top)
    (hleast : Close (2 ^ (-53 : ℤ)) least bottom)
    (hl : Close (2 ^ (-50 : ℤ)) l ((top + bottom) / 2)) (h0 : 0 ≤ bottom)
    (hgap : bottom + 1 / 255 ≤ top) (h1 : top ≤ 1) :
    Close (2 ^ (-39 : ℤ)) ((greatest - least) / (1.0 - (2.0 * l - 1.0).abs))
      ((top - bottom) / (1 - |2 * ((top + bottom) / 2) - 1|)) := by
  have hrange := (spread_of_range h0 (by linarith) h1).1
  have hdelta := close_range hgreatest hleast (abs_le.mpr ⟨by linarith, by linarith⟩)
  have hdivisor := close_divisor hl h0 (by linarith) h1
  have hpos : 0 < 1 - |2 * ((top + bottom) / 2) - 1| := by linarith
  -- the divisor is no less than the range, and so than the share of one byte
  have hquotient := hdelta.div hdivisor 1 (1 / 256)
    (by rw [abs_of_nonneg (div_nonneg (by linarith) hpos.le)]; exact (div_le_one hpos).mpr hrange)
    (by norm_num)
    (by rw [abs_of_pos hpos]; norm_num; linarith) 1 (by norm_num)
  exact hquotient.weaken (by norm_num)

theorem close_turns {y z : Float} {y' z' : ℚ} (hy : Close (2 ^ (-53 : ℤ)) y y')
    (hz : Close (2 ^ (-53 : ℤ)) z z') {delta : Float} {range : ℚ}
    (hdelta : Close (2 ^ (-51 : ℤ)) delta range) (hrange : 1 / 255 ≤ range) (hle : range ≤ 1)
    (hturns : |(y' - z') / range| ≤ 1) :
    Close (2 ^ (-41 : ℤ)) ((y - z) / delta) ((y' - z') / range) := by
  have hpos : 0 < range := by linarith
  have hyz : |y' - z'| ≤ 1 := by
    rw [abs_div, abs_of_pos hpos, div_le_one hpos] at hturns
    exact hturns.trans hle
  have hquotient := (close_range hy hz hyz).div hdelta 1 (1 / 256) hturns (by norm_num)
    (by rw [abs_of_pos hpos]; norm_num; linarith) 1 (by norm_num)
  exact hquotient.weaken (by norm_num)

theorem close_hue {x : Float} {turns : ℚ} (h : Close (2 ^ (-40 : ℤ)) x turns)
    (hbound : |turns| ≤ 7) : Close (2 ^ (-33 : ℤ)) (60.0 * x) (60 * turns) := by
  have hsixty : Close 0 60.0 60 := Close.literal 60 (by decide)
  have hmul := hsixty.mul h 60 7 (abs_of_pos (by norm_num)).le hbound 9 (by norm_num)
  exact hmul.weaken (by norm_num)

/-- Where green or blue is the greatest, the turns are counted from there. -/
theorem close_hue_add {x shift : Float} {turns shift' : ℚ} (h : Close (2 ^ (-41 : ℤ)) x turns)
    (hturns : |turns| ≤ 1) (hshift : Close 0 shift shift') (hlow : 2 ≤ shift')
    (hhigh : shift' ≤ 4) :
    Close (2 ^ (-33 : ℤ)) (60.0 * (x + shift)) (60 * (turns + shift')) ∧
    0 ≤ value (60.0 * (x + shift)) := by
  obtain ⟨hbelow, habove⟩ := abs_le.mp hturns
  have hsum := h.add hshift 5 (abs_le.mpr ⟨by linarith, by linarith⟩) 3 (by norm_num)
  have hhue := close_hue (hsum.weaken (by norm_num)) (abs_le.mpr ⟨by linarith, by linarith⟩)
  have hsmall : (2 : ℚ) ^ (-33 : ℤ) ≤ 1 := by norm_num
  exact ⟨hhue, by linarith [(abs_le.mp hhue.near).1]⟩

/-- On the side of the greatest channel where the turns are negative, they are counted from the turn
before. -/
theorem close_wrap_turns {x : Float} {turns : ℚ} (h : Close (2 ^ (-41 : ℤ)) x turns) :
    ∃ n : ℤ, Close (2 ^ (-40 : ℤ)) (wrap x 6.0) (turns - 6 * n) ∧ |turns - 6 * n| ≤ 7 ∧
      0 ≤ value (wrap x 6.0) := by
  have hsix : Close 0 6.0 6 := Close.literal 6 (by decide)
  have hround := wrap_roundsTo h.finite hsix.finite (by rw [hsix.value_eq]; norm_num)
  rw [hsix.value_eq] at hround
  have hfract0 := Int.fract_nonneg (value x / 6)
  have hfract1 := Int.fract_lt_one (value x / 6)
  have hfract : Int.fract (value x / 6) * 6 = value x - 6 * ⌊value x / 6⌋ := by
    rw [Int.fract]
    ring
  have hnear : |Int.fract (value x / 6) * 6 - (turns - 6 * ⌊value x / 6⌋)| ≤ 2 ^ (-41 : ℤ) := by
    rw [hfract, sub_sub_sub_cancel_right]
    exact h.near
  have hbound : |turns - 6 * ⌊value x / 6⌋| ≤ 7 := by
    have hsmall : (2 : ℚ) ^ (-41 : ℤ) ≤ 1 := by norm_num
    obtain ⟨hlow, hhigh⟩ := abs_le.mp hnear
    rw [abs_le]
    constructor <;> linarith
  have hclose := Close.of_roundsTo hround hnear hbound 3 (by norm_num)
  refine ⟨⌊value x / 6⌋, hclose.weaken (by norm_num), hbound, ?_⟩
  exact (hround.bounded (m := 6) (by linarith) (by push_cast; linarith) (by norm_num)).1.nonneg

end Components

/-! ### The hue of three channels -/

section Hue

variable {delta : Float}

/-- The side of the greatest channel on which the hue lies, and how far. -/
theorem turns_spec {x y z : UInt8} (hy : share y ≤ share x) (hz : share z ≤ share x)
    (hgap : min (share y) (share z) + 1 / 255 ≤ share x)
    (hdelta : Close (2 ^ (-51 : ℤ)) delta (share x - min (share y) (share z))) :
    ∃ turns : ℚ, |turns| ≤ 1 ∧
      Restores (share x) (min (share y) (share z)) turns (share x) (share y) (share z) ∧
      Close (2 ^ (-41 : ℤ)) ((y.toFloat / 255.0 - z.toFloat / 255.0) / delta) turns := by
  obtain ⟨hturns, hrestores⟩ := restores_of_mix hy hz (by linarith)
  have hleast : 0 ≤ min (share y) (share z) := le_min (share_bounds y).1 (share_bounds z).1
  have hle : share x - min (share y) (share z) ≤ 1 := by linarith [(share_bounds x).2]
  exact ⟨_, hturns, hrestores,
    close_turns (close_share y) (close_share z) hdelta (by linarith) hle hturns⟩

/-- Counted from the greatest channel itself, the turns may be negative and are wrapped. -/
theorem wrapped_hue_spec {x y z : UInt8} (hy : share y ≤ share x) (hz : share z ≤ share x)
    (hgap : min (share y) (share z) + 1 / 255 ≤ share x)
    (hdelta : Close (2 ^ (-51 : ℤ)) delta (share x - min (share y) (share z))) :
    ∃ turns : ℚ, Restores (share x) (min (share y) (share z)) turns (share x) (share y) (share z) ∧
      Close (2 ^ (-33 : ℤ)) (60.0 * wrap ((y.toFloat / 255.0 - z.toFloat / 255.0) / delta) 6.0)
        (60 * turns) ∧
      0 ≤ value (60.0 * wrap ((y.toFloat / 255.0 - z.toFloat / 255.0) / delta) 6.0) := by
  obtain ⟨turns, -, hrestores, hclose⟩ := turns_spec hy hz hgap hdelta
  obtain ⟨n, hwrap, hbound, h0⟩ := close_wrap_turns hclose
  have hhue := close_hue hwrap hbound
  refine ⟨_, hrestores.sub_turns n, hhue, ?_⟩
  -- near zero the error is no help: the wrapped turns are not negative, and neither is what they
  -- round to
  have hsixty : Close 0 60.0 60 := Close.literal 60 (by decide)
  rw [(mul_roundsTo hsixty.finite hwrap.finite).value_eq hhue.finite, hsixty.value_eq]
  exact rounded_nonneg (mul_nonneg (by norm_num) h0)

/-- The greatest of three numbers is the third if it is neither of the others. -/
theorem eq_third_of_eq_max {a b c d : ℚ} (h : a = max (max b c) d) (hb : a ≠ b)
    (hc : a ≠ c) : a = d := by
  rcases max_choice (max b c) d with hmax | hmax
  · rw [hmax] at h
    rcases max_choice b c with hmax' | hmax'
    · exact absurd (h.trans hmax') hb
    · exact absurd (h.trans hmax') hc
  · exact h.trans hmax

/-- The hue in doubles gives the channels back, whichever is the greatest. -/
theorem hue_spec {r g b : UInt8} {greatest : Float} {top bottom : ℚ}
    (htop : top = max (max (share r) (share g)) (share b))
    (hbottom : bottom = min (min (share r) (share g)) (share b)) (hgap : bottom + 1 / 255 ≤ top)
    (hfinite : greatest.isFinite = true) (hgreatest : value greatest =
      max (max (value (r.toFloat / 255.0)) (value (g.toFloat / 255.0))) (value (b.toFloat / 255.0)))
    (hdelta : Close (2 ^ (-51 : ℤ)) delta (top - bottom)) :
    ∃ turns : ℚ, Restores top bottom turns (share r) (share g) (share b) ∧
      Close (2 ^ (-33 : ℤ))
        (hue (r.toFloat / 255.0) (g.toFloat / 255.0) (b.toFloat / 255.0) greatest delta)
          (60 * turns) ∧
      0 ≤ value (hue (r.toFloat / 255.0) (g.toFloat / 255.0) (b.toFloat / 255.0)
        greatest delta) := by
  have hr := (close_share r).finite
  have hg := (close_share g).finite
  -- whichever double is the greatest, its byte is the greatest one
  have hrle : value (r.toFloat / 255.0) ≤ value greatest :=
    hgreatest ▸ (le_max_left _ _).trans (le_max_left _ _)
  have hgle : value (g.toFloat / 255.0) ≤ value greatest :=
    hgreatest ▸ (le_max_right _ _).trans (le_max_left _ _)
  have hble : value (b.toFloat / 255.0) ≤ value greatest := hgreatest ▸ le_max_right _ _
  unfold hue
  split
  case isTrue hred =>
    rw [beq_iff_value_eq hfinite hr] at hred
    have hgr := (value_le_iff g r).mp (hgle.trans hred.le)
    have hbr := (value_le_iff b r).mp (hble.trans hred.le)
    rw [max_eq_left hgr, max_eq_left hbr] at htop
    rw [min_eq_right hgr] at hbottom
    rw [htop, hbottom] at hgap hdelta ⊢
    exact wrapped_hue_spec hgr hbr hgap hdelta
  case isFalse hred =>
    rw [beq_iff_value_eq hfinite hr] at hred
    split
    case isTrue hgreen =>
      rw [beq_iff_value_eq hfinite hg] at hgreen
      have hrg := (value_le_iff r g).mp (hrle.trans hgreen.le)
      have hbg := (value_le_iff b g).mp (hble.trans hgreen.le)
      rw [max_eq_right hrg, max_eq_left hbg] at htop
      rw [min_eq_left hrg, min_comm] at hbottom
      rw [htop, hbottom] at hgap hdelta ⊢
      obtain ⟨turns, hturns, hrestores, hclose⟩ := turns_spec hbg hrg hgap hdelta
      exact ⟨_, hrestores.rotate,
        close_hue_add hclose hturns (Close.literal 2 (by decide)) le_rfl (by norm_num)⟩
    case isFalse hgreen =>
      rw [beq_iff_value_eq hfinite hg] at hgreen
      have hblue := eq_third_of_eq_max hgreatest hred hgreen
      have hrb := (value_le_iff r b).mp (hrle.trans hblue.le)
      have hgb := (value_le_iff g b).mp (hgle.trans hblue.le)
      rw [max_eq_right (max_le hrb hgb)] at htop
      rw [min_eq_left ((min_le_left _ _).trans hrb)] at hbottom
      rw [htop, hbottom] at hgap hdelta ⊢
      obtain ⟨turns, hturns, hrestores, hclose⟩ := turns_spec hrb hgb hgap hdelta
      -- the channels are rotated twice, so that the turns are counted from blue
      have hrotated := hrestores.rotate.rotate
      rw [add_assoc, show (2 : ℚ) + 2 = 4 by norm_num] at hrotated
      exact ⟨_, hrotated,
        close_hue_add hclose hturns (Close.literal 4 (by decide)) (by norm_num) le_rfl⟩

end Hue

/-! ### There and back -/

section RoundTrip

variable (color : Rgb)

/-- The greatest share of a channel. -/
def top : ℚ :=
  max (max (share color.r) (share color.g)) (share color.b)

/-- The least share of a channel. -/
def bottom : ℚ :=
  min (min (share color.r) (share color.g)) (share color.b)

theorem range_bounds : 0 ≤ color.bottom ∧ color.bottom ≤ color.top ∧ color.top ≤ 1 := by
  obtain ⟨hr0, hr1⟩ := share_bounds color.r
  obtain ⟨hg0, hg1⟩ := share_bounds color.g
  obtain ⟨hb0, hb1⟩ := share_bounds color.b
  refine ⟨le_min (le_min hr0 hg0) hb0, ?_, max_le (max_le hr1 hg1) hb1⟩
  exact (min_le_right _ _).trans (le_max_right _ _)

/-- A colour is grey, or its channels are at least one apart. -/
theorem grey_or_apart :
    color = ⟨color.r, color.r, color.r⟩ ∨ color.bottom + 1 / 255 ≤ color.top := by
  rcases lt_or_ge color.top (color.bottom + 1 / 255) with hlt | hge
  · left
    -- no two shares are apart, since those of bytes would be so by a whole byte
    have hequal :
        ∀ c d : UInt8, color.bottom ≤ share c → share d ≤ color.top → ¬share c < share d := by
      intro c d hc hd hcd
      linarith [share_add_le hcd]
    have hrbottom : color.bottom ≤ share color.r := (min_le_left _ _).trans (min_le_left _ _)
    have hgbottom : color.bottom ≤ share color.g := (min_le_left _ _).trans (min_le_right _ _)
    have hbbottom : color.bottom ≤ share color.b := min_le_right _ _
    have hrtop : share color.r ≤ color.top := (le_max_left _ _).trans (le_max_left _ _)
    have hgtop : share color.g ≤ color.top := (le_max_right _ _).trans (le_max_left _ _)
    have hbtop : share color.b ≤ color.top := le_max_right _ _
    have hg : color.g = color.r := share_injective
      (le_antisymm (not_lt.mp (hequal _ _ hrbottom hgtop)) (not_lt.mp (hequal _ _ hgbottom hrtop)))
    have hb : color.b = color.r := share_injective
      (le_antisymm (not_lt.mp (hequal _ _ hrbottom hbtop)) (not_lt.mp (hequal _ _ hbbottom hrtop)))
    calc color = ⟨color.r, color.g, color.b⟩ := rfl
      _ = ⟨color.r, color.r, color.r⟩ := by rw [hg, hb]
  · exact Or.inr hge

theorem toRgb_toHsl_of_grey (byte : UInt8) :
    (toHsl ⟨byte, byte, byte⟩).toRgb = ⟨byte, byte, byte⟩ := by
  obtain ⟨h0, h1⟩ := share_bounds byte
  have hbyte := close_share byte
  have hself : ∀ x : Float, max x x = x ∧ min x x = x := fun x => ⟨ite_self _, ite_self _⟩
  have hdelta : byte.toFloat / 255.0 - byte.toFloat / 255.0 == 0.0 := by
    have hround := sub_roundsTo hbyte.finite hbyte.finite
    rw [sub_self] at hround
    obtain ⟨hfinite, hvalue⟩ := hround.of_abs_le (by norm_num)
    rw [beq_iff_value_eq hfinite value_zero.1.finite, value_zero.2, hvalue, rounded_zero]
  have hlightness :=
    close_fraction (close_lightness hbyte hbyte h0 le_rfl h1) (by linarith)
      (by linarith) (by norm_num)
  rw [add_self_div_two] at hlightness
  unfold toHsl
  simp only [hself, hdelta, if_true]
  rw [toRgb_of_saturation_zero, grey, toByte_eq_of_close (hlightness.weaken (by norm_num))]

/-- The components of a colour that is not grey are close to the rational ones. -/
theorem shows_toHsl (hgap : color.bottom + 1 / 255 ≤ color.top) :
    ∃ turns : ℚ, Restores color.top color.bottom turns (share color.r) (share color.g)
      (share color.b) ∧
      Shows color.toHsl ((color.top + color.bottom) / 2)
        ((color.top - color.bottom) / 2) turns := by
  obtain ⟨h0, hle, h1⟩ := color.range_bounds
  have hr := close_share color.r
  have hg := close_share color.g
  have hb := close_share color.b
  have hgreatest : Close (2 ^ (-53 : ℤ)) _ color.top := ((hr.max hg).max hb).weaken (by simp)
  have hleast : Close (2 ^ (-53 : ℤ)) _ color.bottom := ((hr.min hg).min hb).weaken (by simp)
  have hdelta := close_range hgreatest hleast (abs_le.mpr ⟨by linarith, by linarith⟩)
  have hl := close_lightness hgreatest hleast h0 hle h1
  have hs := close_saturation hgreatest hleast hl h0 hgap h1
  obtain ⟨hrange, hspread⟩ := spread_of_range h0 (by linarith) h1
  have hvalue :
      value (max (max (color.r.toFloat / 255.0) (color.g.toFloat / 255.0))
        (color.b.toFloat / 255.0)) = _ :=
    (value_max (hr.max hg).finite hb.finite).2
  rw [(value_max hr.finite hg.finite).2] at hvalue
  obtain ⟨turns, hrestores, hhue, hnonneg⟩ := hue_spec rfl rfl hgap hgreatest.finite hvalue hdelta
  -- the range is far above its error, so that the colour is not taken for a grey
  have hne :
      ¬(max (max (color.r.toFloat / 255.0) (color.g.toFloat / 255.0)) (color.b.toFloat / 255.0) -
      min (min (color.r.toFloat / 255.0) (color.g.toFloat / 255.0)) (color.b.toFloat / 255.0) ==
        0.0) = true := by
    rw [beq_iff_value_eq hdelta.finite value_zero.1.finite, value_zero.2]
    refine hdelta.value_ne_zero ?_
    rw [abs_of_nonneg (sub_nonneg.mpr hle)]
    calc (2 : ℚ) ^ (-51 : ℤ) < 1 / 255 := by norm_num
      _ ≤ color.top - color.bottom := by linarith
  have hpos : 0 < 1 - |2 * ((color.top + color.bottom) / 2) - 1| := by linarith
  have hs0 := div_nonneg (sub_nonneg.mpr hle) hpos.le
  have hs1 := (div_le_one hpos).mpr hrange
  have hlightness : Close (2 ^ (-49 : ℤ)) _ _ :=
    (close_fraction hl (by linarith) (by linarith) (by norm_num)).weaken (by norm_num)
  have hsaturation : Close (2 ^ (-36 : ℤ)) _ _ :=
    (close_fraction hs hs0 hs1 (by norm_num)).weaken (by norm_num)
  refine ⟨turns, hrestores, ?_⟩
  unfold toHsl
  dsimp only
  rw [if_neg hne]
  refine ⟨hlightness, ?_, hhue, hnonneg⟩
  rw [← hspread]
  exact close_spread hsaturation hlightness hs0 hs1 (by linarith) (by linarith)

/-- `toRgb` is a left inverse of `toHsl`. -/
theorem toRgb_toHsl : color.toHsl.toRgb = color := by
  rcases color.grey_or_apart with hgrey | hgap
  · rw [hgrey]
    exact toRgb_toHsl_of_grey color.r
  · obtain ⟨turns, hrestores, hshows⟩ := color.shows_toHsl hgap
    obtain ⟨h0, hle, h1⟩ := color.range_bounds
    have hlightness : |(color.top + color.bottom) / 2| ≤ 1 := abs_le.mpr ⟨by linarith, by linarith⟩
    have hspread : |(color.top - color.bottom) / 2| ≤ 1 := abs_le.mpr ⟨by linarith, by linarith⟩
    have hzero : Bounded 8 0.0 :=
      ⟨value_zero.1.finite, value_zero.1.nonneg, by rw [value_zero.2]; norm_num⟩
    have height : Bounded 8 8.0 := (value_literal 8 (by decide)).1
    have hfour : Bounded 8 4.0 := (literal_spec 8 (by decide)).1
    have hred := hshows.close_channel hlightness hspread hzero
    have hgreen := hshows.close_channel hlightness hspread height
    have hblue := hshows.close_channel hlightness hspread hfour
    rw [value_zero.2, zero_add, hrestores.red] at hred
    rw [(Close.literal 8 (by decide)).value_eq, hrestores.green] at hgreen
    rw [(Close.literal 4 (by decide)).value_eq, hrestores.blue] at hblue
    unfold toRgb channels channel
    dsimp only
    rw [toByte_eq_of_close (hred.weaken (by norm_num)),
      toByte_eq_of_close (hgreen.weaken (by norm_num)),
      toByte_eq_of_close (hblue.weaken (by norm_num))]

end RoundTrip

end Rgb

end DesignTokens
