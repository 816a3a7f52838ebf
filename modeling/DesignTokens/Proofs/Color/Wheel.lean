import DesignTokens.Proofs.Color.Channel

/-!
# The colour wheel over ℚ

The formulas of a channel are used over `ℚ` here.  The depth at a position of the wheel only depends
on the distance to the nearest multiple of 12 (`depth_position`): it is a `wave` of period 12
(`wave_add_turns`) and Lipschitz constant 1 (`abs_wave_sub_le`).  It is constant near a multiple of
12 and far from one, and linear in between (`wave_of_near`, `wave_of_far`, `wave_of_between`).  So
the three channels are those of the six sectors of the wheel (`channels_follow_sectors`).
-/

namespace DesignTokens

namespace Number

/-- `x - m · ⌊x / m⌋`. -/
def modulo (x m : ℚ) : ℚ :=
  x - m * ⌊x / m⌋

theorem modulo_eq {x m : ℚ} (n : ℤ) (hm : 0 < m) (hlow : m * n ≤ x) (hhigh : x < m * n + m) :
    modulo x m = x - m * n := by
  have hfloor : ⌊x / m⌋ = n := by
    rw [Int.floor_eq_iff, le_div_iff₀ hm, div_lt_iff₀ hm]
    constructor <;> linarith
  rw [modulo, hfloor]

theorem modulo_bounds (x : ℚ) {m : ℚ} (hm : 0 < m) : 0 ≤ modulo x m ∧ modulo x m < m := by
  have hlow := Int.floor_le (x / m)
  have hhigh := Int.lt_floor_add_one (x / m)
  rw [le_div_iff₀ hm] at hlow
  rw [div_lt_iff₀ hm] at hhigh
  unfold modulo
  constructor <;> linarith

end Number

namespace Hsl

open Number

/-! ### The wave -/

/-- The distance of `t` to the nearest multiple of 12. -/
def distance (t : ℚ) : ℚ :=
  |t - 12 * round (t / 12)|

/-- The depth of a channel at `t = start + hue / 30`, without reduction modulo 12. -/
def wave (t : ℚ) : ℚ :=
  max (min (distance t - 3) 1) (-1)

section Wave

variable {t : ℚ}

/-- No multiple of 12 is nearer than the nearest one. -/
theorem distance_le (t : ℚ) (n : ℤ) : distance t ≤ |t - 12 * n| := by
  have hscale : ∀ m : ℤ, |t - 12 * m| = 12 * |t / 12 - m| := by
    intro m
    rw [← abs_of_pos (by norm_num : (0 : ℚ) < 12), ← abs_mul,
      abs_of_pos (by norm_num : (0 : ℚ) < 12)]
    congr 1
    ring
  rw [distance, hscale, hscale]
  exact mul_le_mul_of_nonneg_left (round_le _ n) (by norm_num)

/-- A multiple of 12 that is at most 6 away is the nearest one. -/
theorem distance_eq (n : ℤ) (h : |t - 12 * n| ≤ 6) : distance t = |t - 12 * n| := by
  apply le_antisymm (distance_le t n)
  by_cases hn : round (t / 12) = n
  · rw [distance, hn]
  · -- any other multiple is 12 further
    have hapart : (1 : ℚ) ≤ |((n - round (t / 12) : ℤ) : ℚ)| := by
      exact_mod_cast Int.one_le_abs (sub_ne_zero.mpr (Ne.symm hn))
    have htriangle := abs_add_le (t - 12 * round (t / 12)) (-(t - 12 * n))
    rw [show t - 12 * (round (t / 12) : ℚ) + -(t - 12 * n) =
      12 * ((n - round (t / 12) : ℤ) : ℚ) by push_cast; ring, abs_mul, abs_neg,
      abs_of_pos (by norm_num : (0 : ℚ) < 12)] at htriangle
    unfold distance
    linarith

theorem distance_add_turns (t : ℚ) (n : ℤ) : distance (t + 12 * n) = distance t := by
  have hle : ∀ (t : ℚ) (n : ℤ), distance (t + 12 * n) ≤ distance t := by
    intro t n
    have h := distance_le (t + 12 * n) (round (t / 12) + n)
    rwa [show t + 12 * n - 12 * ((round (t / 12) + n : ℤ) : ℚ) =
      t - 12 * round (t / 12) by push_cast; ring] at h
  apply le_antisymm (hle t n)
  have h := hle (t + 12 * n) (-n)
  rwa [show t + 12 * n + 12 * ((-n : ℤ) : ℚ) = t by push_cast; ring] at h

theorem abs_distance_sub_le (s t : ℚ) : |distance s - distance t| ≤ |s - t| := by
  have hle : ∀ s t : ℚ, distance s - distance t ≤ |s - t| := by
    intro s t
    have hturn := distance_le s (round (t / 12))
    have htriangle := abs_sub_le s t (12 * round (t / 12))
    unfold distance at hturn ⊢
    linarith
  rw [abs_le]
  constructor
  · have h := hle t s
    rw [abs_sub_comm] at h
    linarith
  · exact hle s t

/-- The wave has period 12. -/
theorem wave_add_turns (t : ℚ) (n : ℤ) : wave (t + 12 * n) = wave t := by
  rw [wave, wave, distance_add_turns]

/-- The wave is Lipschitz with constant 1. -/
theorem abs_wave_sub_le (s t : ℚ) : |wave s - wave t| ≤ |s - t| :=
  calc |wave s - wave t| ≤ |min (distance s - 3) 1 - min (distance t - 3) 1| :=
      abs_max_sub_max_le_abs _ _ _
    _ ≤ |distance s - 3 - (distance t - 3)| := by
        simpa using abs_min_sub_min_le_max (distance s - 3) 1 (distance t - 3) 1
    _ = |distance s - distance t| := by rw [sub_sub_sub_cancel_right]
    _ ≤ |s - t| := abs_distance_sub_le s t

theorem abs_wave_le (t : ℚ) : |wave t| ≤ 1 :=
  abs_le.mpr ⟨le_max_right _ _, max_le (min_le_right _ _) (by norm_num)⟩

theorem wave_of_near (n : ℤ) (h : |t - 12 * n| ≤ 2) : wave t = -1 := by
  rw [wave, distance_eq n (by linarith), min_eq_left (by linarith), max_eq_right (by linarith)]

theorem wave_of_far (n : ℤ) (hlow : 4 ≤ |t - 12 * n|) (hhigh : |t - 12 * n| ≤ 6) : wave t = 1 := by
  rw [wave, distance_eq n hhigh, min_eq_right (by linarith), max_eq_left (by norm_num)]

theorem wave_of_between (n : ℤ) (hlow : 2 ≤ |t - 12 * n|) (hhigh : |t - 12 * n| ≤ 4) :
    wave t = |t - 12 * n| - 3 := by
  rw [wave, distance_eq n (by linarith), min_eq_left (by linarith), max_eq_left (by linarith)]

end Wave

/-- On `[0, 12]` the depth is the wave. -/
theorem depth_eq_wave {k : ℚ} (h0 : 0 ≤ k) (h12 : k ≤ 12) : depth k = wave k := by
  unfold depth wave
  congr 2
  rcases le_total k 6 with hfirst | hsecond
  · rw [distance_eq 0 (by rw [abs_le]; constructor <;> push_cast <;> linarith),
      min_eq_left (by linarith)]
    push_cast
    rw [mul_zero, sub_zero, abs_of_nonneg h0]
  · rw [distance_eq 1 (by rw [abs_le]; constructor <;> push_cast <;> linarith),
      min_eq_right (by linarith)]
    push_cast
    rw [mul_one, abs_of_nonpos (by linarith)]
    ring

/-- The depth at the position modulo 12 is the wave at `start + hue / 30`. -/
theorem depth_position (start hue : ℚ) :
    depth (position modulo start hue) = wave (start + hue / 30) := by
  unfold position
  obtain ⟨h0, h12⟩ := modulo_bounds (start + hue / 30) (by norm_num : (0 : ℚ) < 12)
  rw [depth_eq_wave h0 h12.le, modulo]
  have hturns := wave_add_turns (start + hue / 30) (-⌊(start + hue / 30) / 12⌋)
  push_cast at hturns
  rwa [mul_neg, ← sub_eq_add_neg] at hturns

/-! ### The six sectors -/

/-- `(C, X, 0)` permuted by the sector of the hue. -/
def inSector (h greatest second : ℚ) : ℚ × ℚ × ℚ :=
  if h < 60 then (greatest, second, 0)
  else if h < 120 then (second, greatest, 0)
  else if h < 180 then (0, greatest, second)
  else if h < 240 then (0, second, greatest)
  else if h < 300 then (second, 0, greatest)
  else (greatest, 0, second)

/-- Red, green and blue by the textbook, for saturation and lightness in `[0, 1]`: the chroma
`C = (1 - |2l - 1|)s`, `X = C(1 - |h/60 mod 2 - 1|)` and `m = l - C/2`. -/
def sectorChannels (h s l : ℚ) : ℚ × ℚ × ℚ :=
  let chroma := (1 - |2 * l - 1|) * s
  let second := chroma * (1 - |modulo (h / 60) 2 - 1|)
  let base := l - chroma / 2
  let part := inSector h chroma second
  (part.1 + base, part.2.1 + base, part.2.2 + base)

theorem channel_eq (h s l start : ℚ) :
    channel modulo h s l start = l - spread s l * wave (start + h / 30) := by
  rw [channel, channelValue, depth_position]

/-- The chroma is twice the spread. -/
theorem chroma_eq (s l : ℚ) : (1 - |2 * l - 1|) * s = 2 * spread s l := by
  unfold spread
  rcases le_total l (1 - l) with h | h
  · rw [min_eq_left h, abs_of_nonpos (by linarith)]
    ring
  · rw [min_eq_right h, abs_of_nonneg (by linarith)]
    ring

section Sectors

variable {h s l start : ℚ}

theorem channel_of_near (s l : ℚ) (n : ℤ) (hlow : -2 ≤ start + h / 30 - 12 * n)
    (hhigh : start + h / 30 - 12 * n ≤ 2) :
    channel modulo h s l start = 2 * spread s l + (l - spread s l) := by
  rw [channel_eq, wave_of_near n (abs_le.mpr ⟨hlow, hhigh⟩)]
  ring

theorem channel_of_far (s l : ℚ) (n : ℤ) {d : ℚ}
    (hd : start + h / 30 - 12 * n = d ∨ start + h / 30 - 12 * n = -d) (hlow : 4 ≤ d)
    (hhigh : d ≤ 6) : channel modulo h s l start = 0 + (l - spread s l) := by
  rw [← abs_eq (by linarith)] at hd
  rw [channel_eq, wave_of_far n (by rwa [hd]) (by rwa [hd])]
  ring

theorem channel_of_between (s l : ℚ) (n : ℤ) {x : ℚ}
    (hd : start + h / 30 - 12 * n = 4 - 2 * x ∨ start + h / 30 - 12 * n = -(4 - 2 * x)) (h0 : 0 ≤ x)
    (h1 : x ≤ 1) : channel modulo h s l start = 2 * spread s l * x + (l - spread s l) := by
  rw [← abs_eq (by linarith)] at hd
  rw [channel_eq, wave_of_between n (by linarith) (by linarith), hd]
  ring

/-- The part of the second channel in the first sector of a pair, where it rises. -/
theorem rising_part (n : ℤ) (hlow : 2 * n ≤ h / 60) (hhigh : h / 60 < 2 * n + 1) :
    1 - |modulo (h / 60) 2 - 1| = h / 60 - 2 * n := by
  rw [modulo_eq n (by norm_num) (by linarith) (by linarith), abs_of_nonpos (by linarith)]
  ring

/-- The part of the second channel in the second sector of a pair, where it falls. -/
theorem falling_part (n : ℤ) (hlow : 2 * n + 1 ≤ h / 60) (hhigh : h / 60 < 2 * n + 2) :
    1 - |modulo (h / 60) 2 - 1| = 2 * n + 2 - h / 60 := by
  rw [modulo_eq n (by norm_num) (by linarith) (by linarith), abs_of_nonneg (by linarith)]
  ring

theorem channels_rat (h s l : ℚ) :
    channels modulo h s l =
      (channel modulo h s l 0, channel modulo h s l 8, channel modulo h s l 4) := by
  norm_num [channels]

theorem ofPercent_rat (percent : ℚ) : ofPercent percent = percent / 100 := by
  norm_num [ofPercent]

theorem channels_eq_sectorChannels (hlow : 0 ≤ h) (hhigh : h < 360) (s l : ℚ) :
    channels modulo h s l = sectorChannels h s l := by
  rw [channels_rat]
  unfold sectorChannels inSector
  dsimp only
  rw [chroma_eq, mul_div_cancel_left₀ _ (by norm_num : (2 : ℚ) ≠ 0)]
  split_ifs with h60 h120 h180 h240 h300 <;> refine congrArg₂ Prod.mk ?_ (congrArg₂ Prod.mk ?_ ?_)
  -- red is greatest and green rises
  · exact channel_of_near s l 0 (by linarith) (by linarith)
  · rw [rising_part 0 (by linarith) (by linarith)]
    exact channel_of_between s l 1 (Or.inr (by push_cast; linarith)) (by linarith) (by linarith)
  · exact channel_of_far s l 0 (Or.inl rfl) (by linarith) (by linarith)
  -- green is greatest and red falls
  · rw [falling_part 0 (by linarith) (by linarith)]
    exact channel_of_between s l 0 (Or.inl (by push_cast; linarith)) (by linarith) (by linarith)
  · exact channel_of_near s l 1 (by linarith) (by linarith)
  · exact channel_of_far s l 1 (Or.inr (neg_neg _).symm) (by linarith) (by linarith)
  -- green is greatest and blue rises
  · exact channel_of_far s l 0 (Or.inl rfl) (by linarith) (by linarith)
  · exact channel_of_near s l 1 (by linarith) (by linarith)
  · rw [rising_part 1 (by linarith) (by linarith)]
    exact channel_of_between s l 1 (Or.inr (by push_cast; linarith)) (by linarith) (by linarith)
  -- blue is greatest and green falls
  · exact channel_of_far s l 1 (Or.inr (neg_neg _).symm) (by linarith) (by linarith)
  · rw [falling_part 1 (by linarith) (by linarith)]
    exact channel_of_between s l 1 (Or.inl (by push_cast; linarith)) (by linarith) (by linarith)
  · exact channel_of_near s l 1 (by linarith) (by linarith)
  -- blue is greatest and red rises
  · rw [rising_part 2 (by linarith) (by linarith)]
    exact channel_of_between s l 1 (Or.inr (by push_cast; linarith)) (by linarith) (by linarith)
  · exact channel_of_far s l 1 (Or.inl rfl) (by linarith) (by linarith)
  · exact channel_of_near s l 1 (by linarith) (by linarith)
  -- red is greatest and blue falls
  · exact channel_of_near s l 1 (by linarith) (by linarith)
  · exact channel_of_far s l 2 (Or.inr (neg_neg _).symm) (by linarith) (by linarith)
  · rw [falling_part 2 (by linarith) (by linarith)]
    exact channel_of_between s l 1 (Or.inl (by push_cast; linarith)) (by linarith) (by linarith)

/-- A channel is in `[0, 1]`. -/
theorem channel_bounds (hs0 : 0 ≤ s) (hs : s ≤ 1) (hl0 : 0 ≤ l) (hl : l ≤ 1) (h start : ℚ) :
    0 ≤ channel modulo h s l start ∧ channel modulo h s l start ≤ 1 := by
  have hmin : 0 ≤ min l (1 - l) := le_min (by linarith) (by linarith)
  have hspread0 : 0 ≤ spread s l := mul_nonneg hs0 hmin
  have hspread : spread s l ≤ min l (1 - l) := mul_le_of_le_one_left hmin hs
  have hpart : |spread s l * wave (start + h / 30)| ≤ spread s l := by
    rw [abs_mul, abs_of_nonneg hspread0]
    exact mul_le_of_le_one_right hspread0 (abs_wave_le _)
  rw [abs_le] at hpart
  rw [le_min_iff] at hspread
  rw [channel_eq]
  constructor <;> linarith

/-- `255 · v` is rounded to an integer in `[0, 255]`. -/
theorem awayFromZero_byte {v : ℚ} (h0 : 0 ≤ v) (h1 : v ≤ 1) :
    max 0 (min (awayFromZero (v * 255)) 255) = awayFromZero (v * 255) := by
  have hlow := awayFromZero_mono (show ((0 : ℤ) : ℚ) ≤ v * 255 by push_cast; linarith)
  have hhigh := awayFromZero_mono (show v * 255 ≤ ((255 : ℤ) : ℚ) by push_cast; linarith)
  rw [awayFromZero_intCast] at hlow hhigh
  omega

/-- Any property of every channel holds of red, green and blue. -/
theorem forall_mem_channels {α : Type} [Add α] [Sub α] [Mul α] [Div α] [Neg α] [Min α] [Max α]
    [OfNat α 1] [OfNat α 3] [OfNat α 9] [OfNat α 12] [OfNat α 30] [OfScientific α] {P : α → Prop}
    {modulo : α → α → α} {hue s l : α} (h : ∀ start, P (channel modulo hue s l start)) :
    let rgb := channels modulo hue s l
    ∀ v ∈ [rgb.1, rgb.2.1, rgb.2.2], P v := by
  intro rgb v hv
  simp only [List.mem_cons, List.not_mem_nil, or_false] at hv
  rcases hv with rfl | rfl | rfl
  · exact h 0.0
  · exact h 8.0
  · exact h 4.0

/-- Over the rationals the channels of a hue, a saturation and a lightness are those of the six
sectors of the wheel.  They lie in `[0, 1]`, so that rounding them to bytes needs no clamp.  `toRgb`
evaluates the same formula in doubles: its bytes are the channels rounded, and the clamp to
`[0, 255]` changes none of them. -/
theorem channels_follow_sectors (hh0 : 0 ≤ h) (hh : h < 360) (hs0 : 0 ≤ s) (hs : s ≤ 100)
    (hl0 : 0 ≤ l) (hl : l ≤ 100) :
    channels modulo h (ofPercent s) (ofPercent l) = sectorChannels h (s / 100) (l / 100) ∧
    (let rgb := channels modulo h (ofPercent s) (ofPercent l)
      ∀ v ∈ [rgb.1, rgb.2.1, rgb.2.2], 0 ≤ v ∧ v ≤ 1 ∧
        max 0 (min (awayFromZero (v * 255)) 255) = awayFromZero (v * 255)) ∧
    ∀ color : Hsl,
      let hue := wrap (finiteOrZero color.h) 360.0
      let rgb := channels remainder hue (fraction color.s) (fraction color.l)
      color.toRgb = ⟨toByte rgb.1, toByte rgb.2.1, toByte rgb.2.2⟩ ∧
      ∀ v ∈ [rgb.1, rgb.2.1, rgb.2.2],
        clamp 0.0 255.0 (nearestWhole (v * 255.0)) = nearestWhole (v * 255.0) ∧
        ((toByte v).toNat : ℤ) = awayFromZero (value (v * 255.0)) := by
  rw [ofPercent_rat, ofPercent_rat]
  refine ⟨channels_eq_sectorChannels hh0 hh (s / 100) (l / 100),
    forall_mem_channels fun start => ?_, ?_⟩
  · obtain ⟨h0, h1⟩ :=
      channel_bounds (s := s / 100) (l := l / 100) (by linarith) (by linarith) (by linarith)
        (by linarith) h start
    exact ⟨h0, h1, awayFromZero_byte h0 h1⟩
  · intro color
    refine ⟨rfl, forall_mem_channels fun start => ?_⟩
    obtain ⟨hfinite, h0, h1⟩ :=
      channel_fraction_spec (wrap (finiteOrZero color.h) 360.0) color.s color.l start
    exact ⟨clamp_nearestWhole hfinite h0 h1, toNat_toByte_channel hfinite h0 h1⟩

/-- Where two sectors meet: magenta. -/
theorem channels_follow_sectors_magenta :
    channels modulo 300 (ofPercent 100) (ofPercent 50) = ((1, 0, 1) : ℚ × ℚ × ℚ) := by
  obtain ⟨hsectors, -⟩ := channels_follow_sectors (by norm_num : (0 : ℚ) ≤ 300) (by norm_num)
    (by norm_num : (0 : ℚ) ≤ 100) (by norm_num) (by norm_num : (0 : ℚ) ≤ 50) (by norm_num)
  rw [hsectors]
  norm_num [sectorChannels, inSector, modulo]

end Sectors

end Hsl

end DesignTokens
