import DesignTokens.Proofs.Number.Order
import DesignTokens.Proofs.Number.Remainder
import DesignTokens.Proofs.Number.Squaring
import DesignTokens.Proofs.Number.Whole

/-!
# Rounding to decimal places

A double is rounded to decimal places by scaling it up and down again.  Scaling up can leave the
range of doubles, and then the way down does not lead back: the result is finite exactly where the
scaled double is (`isFinite_roundTo_iff`).

Scaling up, rounding to an integer and scaling down each follow a monotone map of the values and
keep `±∞`, and so each is monotone (`Follows.mono`), even where the scaling overflows.  So `roundTo`
is monotone on all doubles, as long as the power of ten is finite (`roundTo_mono`).
-/

namespace DesignTokens.Number

open Float.Model

/-- `nearestWhole (±∞) = ±∞`. -/
theorem nearestWhole_of_infinity {x : Float} {s : UnpackedFloat.Sign}
    (h : x.toModel.unpack = .infinity s) : nearestWhole x = x := by
  have hshape : shape x = .infinite (s == .negative) := by
    unfold shape
    rw [h]
  unfold nearestWhole
  rw [hshape]

/-- A finite double divided by one that is at least `1` is finite. -/
theorem isFinite_div_of_one_le {x y : Float} (hx : x.isFinite = true) (hy : y.isFinite = true)
    (h1 : 1 ≤ value y) : (x / y).isFinite = true := by
  have hpos : 0 < value y := by linarith
  refine ((div_roundsTo hx hy hpos.ne').of_abs_le_value hx ?_).1
  rw [abs_div, abs_of_pos hpos]
  exact div_le_self (abs_nonneg _) h1

/-- `roundTo x places` is finite exactly if `x · 10 ^ places` is. -/
theorem isFinite_roundTo_iff {x : Float} {places : ℤ} (hx : x.isFinite = true)
    (hfactor : (powInt 10.0 places).isFinite = true) (h1 : 1 ≤ value (powInt 10.0 places)) :
    (roundTo x places).isFinite = true ↔ |value x * value (powInt 10.0 places)| < overflow := by
  have hscaled := mul_roundsTo hx hfactor
  rw [← hscaled.isFinite_iff]
  unfold roundTo
  dsimp only
  constructor
  · intro hfinite
    by_contra hinfinite
    rw [Bool.not_eq_true] at hinfinite
    obtain ⟨s, hunpack⟩ := hscaled.exists_infinity hinfinite
    rw [nearestWhole_of_infinity hunpack, isFinite_infinite_div hunpack] at hfinite
    exact Bool.false_ne_true hfinite
  · intro hfinite
    exact isFinite_div_of_one_le (value_nearestWhole hfinite).1 hfactor h1

theorem powInt_ten_two : (powInt 10.0 2).isFinite = true ∧ value (powInt 10.0 2) = 100 := by
  have hpow : powInt 10.0 2 = 100.0 := by decide
  obtain ⟨hbounded, hvalue⟩ := value_literal (m := 1000) (e := 1) 100 (by decide)
  rw [hpow]
  exact ⟨hbounded.finite, hvalue⟩

/-- `roundTo x 2` is finite exactly if `100 · x` is. -/
theorem isFinite_roundTo_two_iff {x : Float} (hx : x.isFinite = true) :
    (roundTo x 2).isFinite = true ↔ |value x * 100| < overflow := by
  obtain ⟨hfactor, hvalue⟩ := powInt_ten_two
  rw [isFinite_roundTo_iff hx hfactor (by rw [hvalue]; norm_num), hvalue]

/-! ### Order -/

/-- A map of doubles that rounds a map of their values and keeps `±∞`. -/
structure Follows (f : Float → Float) (φ : ℚ → ℚ) : Prop where
  roundsTo : ∀ x, x.isFinite = true → RoundsTo (φ (value x)) (f x)
  infinity : ∀ x s, x.toModel.unpack = .infinity s → (f x).toModel.unpack = .infinity s

section Follows

variable {f : Float → Float} {φ : ℚ → ℚ}

theorem RoundsTo.ne_notANumber {q : ℚ} {z : Float} (h : RoundsTo q z) :
    z.toModel.unpack ≠ .notANumber := by
  intro hnan
  cases hz : z.isFinite with
  | false =>
    obtain ⟨s, hs⟩ := h.exists_infinity hz
    rw [hs] at hnan
    cases hnan
  | true =>
    change z.toModel.unpack.isFinite = true at hz
    rw [hnan] at hz
    cases hz

theorem Follows.ne_notANumber (h : Follows f φ) {x : Float} (hx : x.toModel.unpack ≠ .notANumber) :
    (f x).toModel.unpack ≠ .notANumber := by
  cases hu : x.toModel.unpack with
  | notANumber => exact absurd hu hx
  | infinity s =>
    rw [h.infinity x s hu]
    nofun
  | zero s =>
    refine (h.roundsTo x ?_).ne_notANumber
    show x.toModel.unpack.isFinite = true
    rw [hu]
    rfl
  | finite s m e hm =>
    refine (h.roundsTo x ?_).ne_notANumber
    show x.toModel.unpack.isFinite = true
    rw [hu]
    rfl

/-- A map that follows a monotone map of the values is monotone on all doubles. -/
theorem Follows.mono (h : Follows f φ) (hφ : Monotone φ) {x y : Float} (hxy : x ≤ y) :
    f x ≤ f y := by
  rcases le_iff_cases.mp hxy with ⟨hx, hy⟩ | ⟨hy, hx⟩ | ⟨hx, hy, hvalue⟩
  · exact le_iff_cases.mpr (.inl ⟨h.infinity x _ hx, h.ne_notANumber hy⟩)
  · exact le_iff_cases.mpr (.inr (.inl ⟨h.infinity y _ hy, h.ne_notANumber hx⟩))
  · exact (h.roundsTo x hx).le (h.roundsTo y hy) (hφ hvalue)

end Follows

section Scaling

variable {factor : Float}

theorem unpack_of_pos (hfactor : factor.isFinite = true) (hpos : 0 < value factor) :
    ∃ m e h, factor.toModel.unpack = .finite .positive m e h := by
  obtain ⟨s, e, hs, hshape, -⟩ := shape_of_pos hfactor hpos
  rcases unpack_of_shape hshape with ⟨hzero, -, -⟩ | ⟨hs', hunpack⟩
  · exact absurd hzero hs.ne'
  · exact ⟨s, e, hs', hunpack⟩

theorem follows_mul (hfactor : factor.isFinite = true) (hpos : 0 < value factor) :
    Follows (· * factor) (· * value factor) where
  roundsTo x hx := mul_roundsTo hx hfactor
  infinity x s hx := by
    obtain ⟨m, e, h, hunpack⟩ := unpack_of_pos hfactor hpos
    change (Float.Model.pack
      (UnpackedFloat.mul .binary64 x.toModel.unpack factor.toModel.unpack)).unpack = _
    rw [hx, hunpack, UnpackedFloat.mul]
    cases s <;> exact unpack_packedInfinity _

theorem follows_div (hfactor : factor.isFinite = true) (hpos : 0 < value factor) :
    Follows (· / factor) (· / value factor) where
  roundsTo x hx := div_roundsTo hx hfactor hpos.ne'
  infinity x s hx := by
    obtain ⟨m, e, h, hunpack⟩ := unpack_of_pos hfactor hpos
    change (Float.Model.pack
      (UnpackedFloat.div .binary64 x.toModel.unpack factor.toModel.unpack)).unpack = _
    rw [hx, hunpack, UnpackedFloat.div]
    cases s <;> exact unpack_packedInfinity _

theorem follows_nearestWhole : Follows nearestWhole fun q => awayFromZero q where
  roundsTo x hx := by
    obtain ⟨hfinite, hvalue⟩ := value_nearestWhole hx
    rw [← hvalue]
    exact roundsTo_value hfinite
  infinity x s hx := by rwa [nearestWhole_of_infinity hx]

end Scaling

/-- The powers of ten up to `10 ^ 308`, computed by squaring, are finite. -/
theorem powInt_ten_spec {places : ℕ} (h : places ≤ 308) :
    (powInt 10.0 places).isFinite = true ∧ 1 ≤ value (powInt 10.0 places) := by
  obtain ⟨hten, hvalue⟩ := value_literal (m := 100) (e := 1) 10 (by decide)
  have hone : 1 ≤ value 10.0 := by
    rw [hvalue]
    norm_num
  have hpower : value 10.0 ^ 308 ≤ 18 * 2 ^ (1019 : ℤ) := by
    rw [hvalue]
    exact_mod_cast (by decide +kernel : 10 ^ 308 ≤ 18 * 2 ^ 1019)
  have hlt : (value 10.0 * (1 + roundoff)) ^ places < overflow :=
    calc (value 10.0 * (1 + roundoff)) ^ places = value 10.0 ^ places * (1 + roundoff) ^ places :=
        mul_pow _ _ _
      _ ≤ value 10.0 ^ 308 * (1 + 2 ^ (-36 : ℤ)) := by
          refine mul_le_mul (pow_le_pow_right₀ hone h) (pow_one_add_roundoff (by omega)) ?_
            (by positivity)
          exact pow_nonneg (by linarith [roundoff_pos]) _
      _ ≤ 18 * 2 ^ (1019 : ℤ) * (29 / 18) :=
        mul_le_mul hpower (by norm_num) (by norm_num) (by positivity)
      _ = 29 * 2 ^ (1019 : ℤ) := by ring
      _ < overflow := lt_overflow
  rw [powInt_natCast]
  have hfinite := isFinite_powNat hten.finite hone hlt
  exact ⟨hfinite, (powNat_within hone hfinite).2.2⟩

/-- `roundTo` is monotone on all doubles, `±∞` included. -/
theorem roundTo_mono {places : ℕ} (h : places ≤ 308) {x y : Float} (hxy : x ≤ y) :
    roundTo x places ≤ roundTo y places := by
  obtain ⟨hfactor, hone⟩ := powInt_ten_spec h
  have hpos : 0 < value (powInt 10.0 places) := by linarith
  have hscaled : x * powInt 10.0 places ≤ y * powInt 10.0 places := by
    refine (follows_mul hfactor hpos).mono ?_ hxy
    intro p q hpq
    exact mul_le_mul_of_nonneg_right hpq hpos.le
  have hwhole : nearestWhole (x * powInt 10.0 places) ≤ nearestWhole (y * powInt 10.0 places) := by
    refine follows_nearestWhole.mono ?_ hscaled
    intro p q hpq
    exact Int.cast_le.mpr (awayFromZero_mono hpq)
  refine (follows_div hfactor hpos).mono ?_ hwhole
  intro p q hpq
  exact div_le_div_of_nonneg_right hpq hpos.le

/-- What lies between two doubles is rounded to places between them, if rounding leaves these as
they are. -/
theorem roundTo_between {places : ℕ} (h : places ≤ 308) {low high x : Float}
    (hlow : roundTo low places = low) (hhigh : roundTo high places = high)
    (hx : low ≤ x ∧ x ≤ high) : low ≤ roundTo x places ∧ roundTo x places ≤ high := by
  have hl := roundTo_mono h hx.1
  have hh := roundTo_mono h hx.2
  rw [hlow] at hl
  rw [hhigh] at hh
  exact ⟨hl, hh⟩

end DesignTokens.Number
