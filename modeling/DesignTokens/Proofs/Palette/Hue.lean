import DesignTokens.Palette.Basic
import DesignTokens.Proofs.Number.Literal
import DesignTokens.Proofs.Number.Remainder
import DesignTokens.Proofs.Number.Threshold

/-!
# Hues of palettes

`normalizeHue` maps every hue into `[0, 360]`.  The value 360 comes from rounding alone, for hues
just below a multiple of 360 (`value_normalizeHue_lt_iff`), and a second reduction maps it to 0; on
every other hue `normalizeHue` is idempotent (`normalizeHue_normalizeHue_iff`).  The palettes of a
set take their hues from one that is reduced already, so theirs are always in `[0, 360)`; that of
the set itself is so except just below a multiple of 360 (`generate_hues`).
-/

namespace DesignTokens

open Number

/-! ### Reducing hues -/

/-- `hue` is finite and in `[0, 360)`. -/
def InTurn (hue : Float) : Prop :=
  0.0 ≤ hue ∧ hue < 360.0

/-- A finite hue that is below a multiple of 360 by at most half an ulp of the doubles below 360. -/
def IsJustBelowTurn (hue : Float) : Prop :=
  hue.isFinite = true ∧ 360 - 2 ^ (-45 : ℤ) ≤ Int.fract (value hue / 360) * 360

theorem turn_spec : (360.0 : Float).isFinite = true ∧ value 360.0 = 360 := by
  obtain ⟨hbounded, hvalue⟩ := value_literal (m := 3600) (e := 1) 360 (by decide)
  exact ⟨hbounded.finite, hvalue⟩

theorem inTurn_iff {hue : Float} (h : hue.isFinite = true) :
    InTurn hue ↔ 0 ≤ value hue ∧ value hue < 360 := by
  rw [InTurn, le_iff_value_le value_zero.1.finite h, lt_iff_value_lt h turn_spec.1,
    value_zero.2, turn_spec.2]

/-- The reduction modulo 360 over `ℚ` is in `[0, 360)`. -/
theorem fract_turn_bounds (q : ℚ) : 0 ≤ Int.fract q * 360 ∧ Int.fract q * 360 < 360 := by
  have h0 := Int.fract_nonneg q
  have h1 := Int.fract_lt_one q
  constructor <;> linarith

section Normalize

variable {hue : Float}

theorem normalizeHue_of_isFinite (h : hue.isFinite = true) : normalizeHue hue = wrap hue 360.0 :=
  if_pos h

theorem normalizeHue_of_not_isFinite (h : hue.isFinite = false) : normalizeHue hue = 0.0 :=
  if_neg (by rw [h]; exact Bool.false_ne_true)

theorem normalizeHue_roundsTo (h : hue.isFinite = true) :
    RoundsTo (Int.fract (value hue / 360) * 360) (normalizeHue hue) := by
  obtain ⟨hturn, hvalue⟩ := turn_spec
  have hround := wrap_roundsTo h hturn (by rw [hvalue]; norm_num)
  rw [hvalue] at hround
  rwa [normalizeHue_of_isFinite h]

/-- `normalizeHue hue` is in `[0, 360]`, also for NaN and `±∞`. -/
theorem bounded_normalizeHue (hue : Float) : Bounded 360 (normalizeHue hue) := by
  cases h : hue.isFinite with
  | false =>
    rw [normalizeHue_of_not_isFinite h]
    exact ⟨value_zero.1.finite, value_zero.1.nonneg, by rw [value_zero.2]; norm_num⟩
  | true =>
    obtain ⟨h0, h360⟩ := fract_turn_bounds (value hue / 360)
    exact ((normalizeHue_roundsTo h).bounded h0 (by exact_mod_cast h360.le) (by norm_num)).1

/-- `normalizeHue hue` is below 360 exactly if `hue` is not just below a multiple of 360. -/
theorem value_normalizeHue_lt_iff (hue : Float) :
    value (normalizeHue hue) < 360 ↔ ¬IsJustBelowTurn hue := by
  cases h : hue.isFinite with
  | false =>
    rw [normalizeHue_of_not_isFinite h, value_zero.2]
    simp [IsJustBelowTurn, h]
  | true =>
    have hvalue := (normalizeHue_roundsTo h).value_eq (bounded_normalizeHue hue).finite
    -- 360 is even in its last place, so that half an ulp below it is rounded up
    have hreach := le_rounded_iff (m := 360 * 2 ^ 44) (e := -44) (by norm_num)
      (by norm_num) (by norm_num)
      (by norm_num) (Int.fract (value hue / 360) * 360)
    rw [show ((360 * 2 ^ 44 : ℤ) : ℚ) * 2 ^ (-44 : ℤ) = 360 by norm_num,
      show (((360 * 2 ^ 44 : ℤ) : ℚ) - 1 / 2) * 2 ^ (-44 : ℤ) =
        360 - 2 ^ (-45 : ℤ) by norm_num] at hreach
    rw [hvalue, ← not_le, hreach]
    simp [IsJustBelowTurn, h]

/-- A nonnegative hue is reduced exactly, and so to below 360. -/
theorem value_normalizeHue_lt_of_nonneg (h : hue.isFinite = true) (h0 : 0 ≤ value hue) :
    value (normalizeHue hue) < 360 := by
  obtain ⟨hturn, hvalue⟩ := turn_spec
  have hexact := value_wrap_of_nonneg h h0 hturn (by rw [hvalue]; norm_num)
  rw [normalizeHue_of_isFinite h, hexact, hvalue]
  exact (fract_turn_bounds _).2

theorem normalizeHue_eq_self (h : hue.isFinite = true) (h0 : 0 ≤ value hue)
    (hlt : value hue < 360) : normalizeHue hue = hue := by
  obtain ⟨hturn, hvalue⟩ := turn_spec
  rw [normalizeHue_of_isFinite h]
  exact wrap_eq_self h h0 hturn (by rwa [hvalue])

/-- A second reduction changes 360 and nothing else. -/
theorem normalizeHue_normalizeHue_iff (hue : Float) :
    normalizeHue (normalizeHue hue) = normalizeHue hue ↔ ¬IsJustBelowTurn hue := by
  have hbounded := bounded_normalizeHue hue
  rw [← value_normalizeHue_lt_iff]
  constructor
  · intro h
    -- the second reduction starts from a nonnegative number, and so is exact
    rw [← h]
    exact value_normalizeHue_lt_of_nonneg hbounded.finite hbounded.nonneg
  · intro hlt
    exact normalizeHue_eq_self hbounded.finite hbounded.nonneg hlt

theorem inTurn_normalizeHue_of_nonneg (h : hue.isFinite = true) (h0 : 0 ≤ value hue) :
    InTurn (normalizeHue hue) := by
  have hbounded := bounded_normalizeHue hue
  exact (inTurn_iff hbounded.finite).mpr ⟨hbounded.nonneg, value_normalizeHue_lt_of_nonneg h h0⟩

end Normalize

/-! ### Sets of palettes -/

namespace TokenSet

theorem offsets_bounded : Bounded 360 secondaryOffset ∧ Bounded 360 accentOffset := by
  obtain ⟨hsecondary, -⟩ := literal_spec (m := 1800) (e := 1) 360 (by decide)
  obtain ⟨haccent, -⟩ := literal_spec (m := 450) (e := 1) 360 (by decide)
  exact ⟨hsecondary, haccent⟩

/-- The hues of the members of a set are finite and nonnegative. -/
theorem bounded_of_mem_members {hue : Float} (h : Bounded 360 hue) :
    ∀ member ∈ members hue, Bounded 720 member.2 := by
  obtain ⟨hsecondary, haccent⟩ := offsets_bounded
  have hself : Bounded 720 hue := ⟨h.finite, h.nonneg, h.le.trans (by norm_num)⟩
  simp only [members, List.forall_mem_cons]
  exact ⟨hself, (h.add hsecondary (by norm_num)).1, (h.add haccent (by norm_num)).1, hself, nofun⟩

/-- The palettes of a set have hues in `[0, 360)`, whatever the hue of the set. -/
theorem inTurn_of_mem_palettes (hue : Float) :
    ∀ palette ∈ (generate hue).palettes, InTurn palette.hue := by
  intro palette hpalette
  obtain ⟨member, hmember, rfl⟩ := List.mem_map.mp hpalette
  -- no member has a negative hue, even if that of the set is 360
  have hbounded := bounded_of_mem_members (bounded_normalizeHue hue) member hmember
  exact inTurn_normalizeHue_of_nonneg hbounded.finite hbounded.nonneg

theorem palette?_generate (hue : Float) : ∀ name ∈ ["primary", "neutral"],
    ((generate hue).palette? name).map Palette.hue = some (normalizeHue (normalizeHue hue)) := by
  simp [generate, palette?, members, Palette.generate]

/-- The four palettes of a generated set have hues in `[0, 360)`.  The hue of the set is in
`[0, 360]`, and it is below 360, and that of its first and last palettes, and not changed by a
second reduction, exactly if the given hue is not just below a multiple of 360. -/
theorem generate_hues (hue : Float) :
    (generate hue).palettes.map Palette.name = ["primary", "secondary", "accent", "neutral"] ∧
    (∀ palette ∈ (generate hue).palettes, InTurn palette.hue) ∧
    0.0 ≤ (generate hue).baseHue ∧ (generate hue).baseHue ≤ 360.0 ∧
    (InTurn (generate hue).baseHue ↔ ¬IsJustBelowTurn hue) ∧
    ((∀ name ∈ ["primary", "neutral"],
      ((generate hue).palette? name).map Palette.hue = some (generate hue).baseHue) ↔
        ¬IsJustBelowTurn hue) ∧
    (normalizeHue (normalizeHue hue) = normalizeHue hue ↔ ¬IsJustBelowTurn hue) := by
  have hbounded := bounded_normalizeHue hue
  have hbase : (generate hue).baseHue = normalizeHue hue := rfl
  rw [hbase]
  refine ⟨rfl, inTurn_of_mem_palettes hue, ?_, ?_, ?_, ?_, normalizeHue_normalizeHue_iff hue⟩
  · rw [le_iff_value_le value_zero.1.finite hbounded.finite, value_zero.2]
    exact hbounded.nonneg
  · rw [le_iff_value_le hbounded.finite turn_spec.1, turn_spec.2]
    exact_mod_cast hbounded.le
  · rw [inTurn_iff hbounded.finite, ← value_normalizeHue_lt_iff]
    exact and_iff_right hbounded.nonneg
  · rw [← normalizeHue_normalizeHue_iff]
    constructor
    · intro hnames
      have hprimary := hnames "primary" (by simp)
      rw [palette?_generate hue "primary" (by simp)] at hprimary
      exact Option.some.inj hprimary
    · intro hsame name hname
      rw [palette?_generate hue name hname, hsame]

/-- A hue just below `0` is reduced to `360`. -/
example : (generate (-1e-20)).baseHue = 360.0 := by decide +kernel

end TokenSet

end DesignTokens
