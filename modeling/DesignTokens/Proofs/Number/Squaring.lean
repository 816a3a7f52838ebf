import DesignTokens.Number.Arithmetic
import DesignTokens.Proofs.Number.Literal
import DesignTokens.Proofs.Number.Threshold

/-!
# Integer powers by repeated squaring

`Squaring acc x n result` says that a run of repeated squaring ends with `result`; it has no bound
on the number of rounds.  `powNat` is such a run (`squaring_powNat`).

* In a monoid a run gives the power itself (`Squaring.eq_mul_pow`, `powInt_eq_zpow`).
* In doubles every product is off by a relative error of at most `roundoff`.  A run multiplies as
  often as its exponent says, in whatever order, so the errors add up to those of the exponent
  (`Squaring.within`), and with them one sees that it does not overflow
  (`Squaring.isFinite_of_lt_overflow`).

A base well above one leaves the range of doubles before the errors can matter (`powInt_near`),
hence its powers grow with the exponent by nearly the base each time (`powInt_growth`).
-/

namespace DesignTokens.Number

open Float.Model Float.Model.UnpackedFloat

/-! ### Runs -/

/-- A run of repeated squaring, which multiplies `x` into `acc` as often as `n` says.  One round for
each binary digit of `n`, the least one first: a digit `1` multiplies, and the base is squared for
the next round if there is one. -/
inductive Squaring {α : Type} [Mul α] : (acc x : α) → (n : ℕ) → (result : α) → Prop
  | zero {acc x : α} : Squaring acc x 0 acc
  | one {acc x : α} : Squaring acc x 1 (acc * x)
  | even {acc x result : α} {n : ℕ} (hn : 0 < n) (rest : Squaring acc (x * x) n result) :
      Squaring acc x (2 * n) result
  | odd {acc x result : α} {n : ℕ} (hn : 0 < n) (rest : Squaring (acc * x) (x * x) n result) :
      Squaring acc x (2 * n + 1) result

/-- The loop is a run if it is given a round for each digit. -/
theorem squaring_powerLoop {α : Type} [Mul α] {digits n : ℕ} (acc x : α) (hn : n < 2 ^ digits) :
    Squaring acc x n (powerLoop digits acc x n) := by
  induction digits generalizing acc x n with
  | zero =>
    obtain rfl : n = 0 := by omega
    exact .zero
  | succ digits ih =>
    rw [powerLoop]
    -- behind the last digit the base is not squared any more
    by_cases hlast : n / 2 = 0
    · rw [if_pos hlast]
      obtain rfl | rfl : n = 0 ∨ n = 1 := by omega
      · exact .zero
      · exact .one
    · rw [if_neg hlast]
      have hrest := fun acc => ih acc (x * x) (n := n / 2) (by omega)
      by_cases hodd : n % 2 = 1
      · rw [if_pos hodd]
        have hrun := Squaring.odd (x := x) (Nat.pos_of_ne_zero hlast) (hrest (acc * x))
        rwa [show 2 * (n / 2) + 1 = n by omega] at hrun
      · rw [if_neg hodd]
        have hrun := Squaring.even (Nat.pos_of_ne_zero hlast) (hrest acc)
        rwa [show 2 * (n / 2) = n by omega] at hrun

theorem squaring_powNat {α : Type} [Mul α] [OfScientific α] (x : α) (n : ℕ) :
    Squaring 1.0 x n (powNat x n) :=
  squaring_powerLoop 1.0 x Nat.lt_log2_self

theorem powInt_natCast (x : Float) (n : ℕ) : powInt x n = powNat x n := by
  rw [powInt, if_neg (not_lt.mpr (Int.natCast_nonneg n)), Int.natAbs_natCast]

theorem powInt_negSucc (x : Float) (n : ℕ) : powInt x (Int.negSucc n) = 1.0 / powNat x (n + 1) := by
  rw [powInt, if_pos (Int.negSucc_lt_zero n), Int.natAbs_negSucc]

/-- `powInt` is a run of squaring, or its reciprocal for a negative exponent. -/
theorem exists_squaring_powInt (x : Float) (n : ℤ) :
    ∃ power, Squaring 1.0 x n.natAbs power ∧ powInt x n = if n < 0 then 1.0 / power else power :=
  ⟨_, squaring_powNat x n.natAbs, rfl⟩

/-- In a monoid a run gives `acc · x ^ n`. -/
theorem Squaring.eq_mul_pow {M : Type} [Monoid M] {acc x result : M} {n : ℕ}
    (h : Squaring acc x n result) : result = acc * x ^ n := by
  induction h with
  | zero => rw [pow_zero, mul_one]
  | one => rw [pow_one]
  | even _ _ ih => rw [ih, pow_mul, sq]
  | odd _ _ ih => rw [ih, pow_succ', pow_mul, sq, mul_assoc]

/-- Over the rationals repeated squaring computes `x ^ n`. -/
theorem powInt_eq_zpow (x : ℚ) (n : ℤ) : powInt x n = x ^ n := by
  have hone : (1.0 : ℚ) = 1 := by norm_num
  have hpower : powNat x n.natAbs = x ^ n.natAbs := by
    rw [(squaring_powNat x n.natAbs).eq_mul_pow, hone, one_mul]
  unfold powInt
  dsimp only
  rw [hpower, hone]
  split_ifs with hneg
  · rw [one_div, ← zpow_natCast, Int.ofNat_natAbs_of_nonpos hneg.le, zpow_neg, inv_inv]
  · rw [← zpow_natCast, Int.natAbs_of_nonneg (not_lt.mp hneg)]

/-- Powers of an idempotent are constant. -/
theorem Squaring.eq_of_mul_self {α : Type} [Mul α] {acc x result : α} {n : ℕ}
    (h : Squaring acc x n result) (hacc : acc * x = acc) (hx : x * x = x) : result = acc := by
  induction h with
  | zero => rfl
  | one => exact hacc
  | even _ _ ih => exact ih (by rwa [hx]) (by rw [hx, hx])
  | odd _ _ ih =>
    rw [hx, hacc] at ih
    exact ih hacc hx

/-- `x * 1.0 = x`, for NaN and `±∞` too. -/
theorem mul_one_eq (x : Float) : x * 1.0 = x := by
  refine eq_of_unpack_eq ?_
  change (Float.Model.pack
    (UnpackedFloat.mul .binary64 x.toModel.unpack (1.0 : Float).toModel.unpack)).unpack = _
  cases hu : x.toModel.unpack with
  | notANumber => rfl
  | infinity s => cases s <;> rfl
  | zero s => cases s <;> rfl
  | finite s m e h =>
    have hx : x.isFinite = true := by
      change x.toModel.unpack.isFinite = true
      rw [hu]
      rfl
    -- a finite double is the rounding of its own value
    have hc := (canonical_of_isFinite hx).1
    obtain ⟨hcanonical, hvalue⟩ := mul_spec hc (canonical_of_isFinite value_unit.1.finite).1
    change _ = rounded (value x * value 1.0) at hvalue
    rw [value_unit.2, mul_one, rounded_eq_self (onGrid_value hx)] at hvalue
    rw [← hu, unpack_pack hcanonical (by rw [hvalue]; exact (canonical_of_isFinite hx).2)]
    refine eq_of_unpackedValue_eq hcanonical hc hvalue ?_
    rw [hvalue, value, hu]
    cases s with
    | positive => exact unpackedValue_pos.ne'
    | negative => exact unpackedValue_neg_of_negative.ne

/-! ### The error of a run -/

/-- `|p - q| ≤ error · q`. -/
structure Near (error p q : ℚ) : Prop where
  low : q * (1 - error) ≤ p
  high : p ≤ q * (1 + error)

namespace Near

variable {error error' p q r : ℚ}

theorem weaken (h : Near error p q) (hq : 0 ≤ q) (herror : error ≤ error') : Near error' p q :=
  ⟨le_trans (by gcongr) h.low, h.high.trans (by gcongr)⟩

/-- The error of an error counts too. -/
theorem trans (hpq : Near error p q) (hqr : Near error' q r) (h0 : 0 ≤ error) (h1 : error ≤ 1)
    (h0' : 0 ≤ error') (hr : 0 ≤ r) : Near (error + error' + error * error') p r where
  low :=
    calc r * (1 - (error + error' + error * error')) ≤ r * ((1 - error') * (1 - error)) := by
          apply mul_le_mul_of_nonneg_left _ hr
          linarith [mul_nonneg h0 h0']
      _ = r * (1 - error') * (1 - error) := by ring
      _ ≤ q * (1 - error) := mul_le_mul_of_nonneg_right hqr.low (sub_nonneg.mpr h1)
      _ ≤ p := hpq.low
  high :=
    calc p ≤ q * (1 + error) := hpq.high
      _ ≤ r * (1 + error') * (1 + error) := mul_le_mul_of_nonneg_right hqr.high (by linarith)
      _ = r * (1 + (error + error' + error * error')) := by ring

/-- Reciprocals are close, with an error that is twice as large at most. -/
theorem inv (h : Near error p q) (hq : 0 < q) (h0 : 0 ≤ error) (hhalf : error ≤ 1 / 2) :
    Near (2 * error) p⁻¹ q⁻¹ := by
  have hp : 0 < p := lt_of_lt_of_le (mul_pos hq (by linarith)) h.low
  constructor
  · rw [inv_mul_le_iff₀ hq, ← div_eq_mul_inv, le_div_iff₀ hp]
    rcases le_total (1 - 2 * error) 0 with hneg | hpos
    · exact (mul_nonpos_of_nonpos_of_nonneg hneg hp.le).trans hq.le
    · calc (1 - 2 * error) * p ≤ (1 - 2 * error) * (q * (1 + error)) :=
          mul_le_mul_of_nonneg_left h.high hpos
        _ = q * ((1 - 2 * error) * (1 + error)) := by ring
        _ ≤ q := mul_le_of_le_one_right hq.le (by nlinarith)
  · rw [le_inv_mul_iff₀ hq, ← div_eq_mul_inv, div_le_iff₀ hp]
    calc q ≤ q * ((1 - error) * (1 + 2 * error)) := le_mul_of_one_le_right hq.le (by nlinarith)
      _ = (1 + 2 * error) * (q * (1 - error)) := by ring
      _ ≤ (1 + 2 * error) * p := mul_le_mul_of_nonneg_left h.low (by linarith)

end Near

/-- A bound of the relative error of one operation on doubles, apart from the least ones. -/
def roundoff : ℚ := 2 ^ (-52 : ℤ)

theorem roundoff_pos : 0 < roundoff :=
  zpow_pos (by norm_num) _

theorem roundoff_lt_one : roundoff < 1 := by
  norm_num [roundoff]

/-- The relative error grows toward the least doubles, by a power of two for each digit that is
lost. -/
theorem rounded_near {q : ℚ} {k : ℕ} (hq : 2 ^ (-1022 - k : ℤ) ≤ q) :
    Near (2 ^ k * roundoff) (rounded q) q := by
  have hpos : 0 < q := (zpow_pos (by norm_num) _).trans_le hq
  have herr := abs_rounded_sub_le_mul q
  rw [abs_of_pos hpos] at herr
  have hleast : (2 : ℚ) ^ (-1075 : ℤ) ≤ q * (2 ^ k * 2 ^ (-53 : ℤ)) := by
    calc (2 : ℚ) ^ (-1075 : ℤ) = 2 ^ (-1022 - k : ℤ) * (2 ^ k * 2 ^ (-53 : ℤ)) := by
          rw [← zpow_natCast, ← zpow_add₀ (by norm_num), ← zpow_add₀ (by norm_num)]
          congr 1
          ring
      _ ≤ q * (2 ^ k * 2 ^ (-53 : ℤ)) := by gcongr
  have hpower : q * 2 ^ (-53 : ℤ) ≤ q * (2 ^ k * 2 ^ (-53 : ℤ)) := by
    gcongr
    exact le_mul_of_one_le_left (by positivity) (one_le_pow₀ (by norm_num))
  have hdouble : roundoff = 2 * 2 ^ (-53 : ℤ) := by norm_num [roundoff]
  rw [abs_le] at herr
  rw [hdouble]
  constructor <;> linarith

theorem rounded_near_of_one_le {q : ℚ} (hq : 1 ≤ q) : Near roundoff (rounded q) q := by
  have hleast : (2 : ℚ) ^ (-1022 - (0 : ℕ) : ℤ) ≤ 1 :=
    zpow_le_one_of_nonpos₀ (by norm_num) (by norm_num)
  simpa using rounded_near (hleast.trans hq)

/-- A double that is not below one, with room for the error of one product: as a factor it counts
for `low` at least and for `high` at most (`Room.mul`). -/
structure Room (low high : ℚ) (x : Float) : Prop where
  one_le : 1 ≤ value x
  nonneg : 0 ≤ low
  low_le : low ≤ value x * (1 - roundoff)
  le_high : value x * (1 + roundoff) ≤ high

namespace Room

variable {low high : ℚ} {x y : Float}

theorem mul (hy : Room low high y) (hx : 1 ≤ value x) (h : (x * y).isFinite = true) :
    value x * low ≤ value (x * y) ∧ value (x * y) ≤ value x * high ∧ 1 ≤ value (x * y) := by
  obtain ⟨hxf, hyf⟩ := isFinite_of_mul h
  have hproduct : 1 ≤ value x * value y := one_le_mul_of_one_le_of_one_le hx hy.one_le
  obtain ⟨hlow, hhigh⟩ := rounded_near_of_one_le hproduct
  rw [(mul_roundsTo hxf hyf).value_eq h]
  refine ⟨?_, ?_, le_rounded onGrid_one hproduct⟩
  · calc value x * low ≤ value x * (value y * (1 - roundoff)) := by gcongr; exact hy.low_le
      _ = value x * value y * (1 - roundoff) := by ring
      _ ≤ rounded (value x * value y) := hlow
  · calc rounded (value x * value y) ≤ value x * value y * (1 + roundoff) := hhigh
      _ = value x * (value y * (1 + roundoff)) := by ring
      _ ≤ value x * high := by gcongr; exact hy.le_high

/-- The room of a square is the square of the room. -/
theorem square (hx : Room low high x) (h : (x * x).isFinite = true) :
    Room (low ^ 2) (high ^ 2) (x * x) := by
  obtain ⟨hlow, hhigh, hone⟩ := hx.mul hx.one_le h
  have hless : 0 < 1 - roundoff := sub_pos.mpr roundoff_lt_one
  have hmore : 0 < 1 + roundoff := add_pos one_pos roundoff_pos
  have hx0 : 0 ≤ value x := zero_le_one.trans hx.one_le
  have hhigh0 : 0 ≤ high := (mul_nonneg hx0 hmore.le).trans hx.le_high
  refine ⟨hone, by positivity, ?_, ?_⟩
  · calc low ^ 2 = low * low := sq low
      _ ≤ value x * (1 - roundoff) * low := mul_le_mul_of_nonneg_right hx.low_le hx.nonneg
      _ = value x * low * (1 - roundoff) := by ring
      _ ≤ value (x * x) * (1 - roundoff) := by gcongr
  · calc value (x * x) * (1 + roundoff) ≤ value x * high * (1 + roundoff) := by gcongr
      _ = value x * (1 + roundoff) * high := by ring
      _ ≤ high * high := mul_le_mul_of_nonneg_right hx.le_high hhigh0
      _ = high ^ 2 := (sq high).symm

theorem value_le_high (hx : Room low high x) : value x ≤ high := by
  have hone := hx.one_le
  have hmore : value x * 1 ≤ value x * (1 + roundoff) := by
    gcongr
    linarith [roundoff_pos]
  linarith [hx.le_high]

theorem one_le_high (hx : Room low high x) : 1 ≤ high :=
  hx.one_le.trans hx.value_le_high

theorem isFinite_mul (hy : Room low high y) (hyf : y.isFinite = true) (hxf : x.isFinite = true)
    (hx : 1 ≤ value x) (hlt : value x * high < overflow) : (x * y).isFinite = true := by
  have hx0 : 0 ≤ value x := zero_le_one.trans hx
  have hy0 : 0 ≤ value y := zero_le_one.trans hy.one_le
  rw [(mul_roundsTo hxf hyf).isFinite_iff, abs_of_nonneg (mul_nonneg hx0 hy0)]
  exact (mul_le_mul_of_nonneg_left hy.value_le_high hx0).trans_lt hlt

theorem isFinite_square (hx : Room low high x) (hxf : x.isFinite = true) {acc : ℚ}
    (hacc : 1 ≤ acc) {n : ℕ} (hn : 0 < n) (hlt : acc * (high ^ 2) ^ n < overflow) :
    (x * x).isFinite = true := by
  have hhigh := hx.one_le_high
  refine hx.isFinite_mul hxf hxf hx.one_le (lt_of_le_of_lt ?_ hlt)
  calc value x * high ≤ high * high := by gcongr; exact hx.value_le_high
    _ = high ^ 2 := (sq high).symm
    _ ≤ (high ^ 2) ^ n := le_self_pow₀ (one_le_pow₀ hhigh) hn.ne'
    _ ≤ acc * (high ^ 2) ^ n := le_mul_of_one_le_left (by positivity) hacc

end Room

namespace Squaring

variable {acc x result : Float} {n : ℕ}

/-- A run with a finite result meets nothing but finite doubles. -/
theorem isFinite (h : Squaring acc x n result) (hresult : result.isFinite = true) :
    acc.isFinite = true ∧ (0 < n → x.isFinite = true) := by
  induction h with
  | zero => exact ⟨hresult, fun h0 => absurd h0 (lt_irrefl 0)⟩
  | one => exact ⟨(isFinite_of_mul hresult).1, fun _ => (isFinite_of_mul hresult).2⟩
  | even hn _ ih => exact ⟨(ih hresult).1, fun _ => (isFinite_of_mul ((ih hresult).2 hn)).1⟩
  | odd hn _ ih =>
    exact ⟨(isFinite_of_mul (ih hresult).1).1, fun _ => (isFinite_of_mul ((ih hresult).2 hn)).1⟩

/-- A run multiplies the error of one product as often as the base.  The induction is on the run;
squaring the base squares its room, so that the bounds are powers of the first ones all along. -/
theorem within {low high : ℚ} (h : Squaring acc x n result) (hresult : result.isFinite = true)
    (hacc : 1 ≤ value acc) (hx : Room low high x) :
    value acc * low ^ n ≤ value result ∧ value result ≤ value acc * high ^ n ∧
    1 ≤ value result := by
  induction h generalizing low high with
  | zero => simpa using hacc
  | one =>
    rw [pow_one, pow_one]
    exact hx.mul hacc hresult
  | even hn rest ih =>
    rw [pow_mul, pow_mul]
    exact ih hresult hacc (hx.square ((rest.isFinite hresult).2 hn))
  | @odd acc x result n hn rest ih =>
    obtain ⟨hproduct, hsquare⟩ := rest.isFinite hresult
    obtain ⟨hlow, hhigh, hone⟩ := hx.mul hacc hproduct
    obtain ⟨hlow', hhigh', hone'⟩ := ih hresult hone (hx.square (hsquare hn))
    have hlow0 := hx.nonneg
    have hhigh0 : 0 ≤ high ^ 2 := sq_nonneg high
    rw [pow_succ', pow_succ', pow_mul, pow_mul, ← mul_assoc, ← mul_assoc]
    refine ⟨le_trans ?_ hlow', hhigh'.trans ?_, hone'⟩ <;> gcongr

/-- A run stays finite if its bound does not overflow: no double that it meets is above that
bound. -/
theorem isFinite_of_lt_overflow {low high : ℚ} (h : Squaring acc x n result)
    (hacc : acc.isFinite = true) (hacc1 : 1 ≤ value acc) (hx : x.isFinite = true)
    (hroom : Room low high x) (hlt : value acc * high ^ n < overflow) : result.isFinite = true := by
  have hhigh := hroom.one_le_high
  induction h generalizing low high with
  | zero => exact hacc
  | one =>
    rw [pow_one] at hlt
    exact hroom.isFinite_mul hx hacc hacc1 hlt
  | even hn rest ih =>
    rw [pow_mul] at hlt
    have hsquare := hroom.isFinite_square hx hacc1 hn hlt
    exact ih hacc hacc1 hsquare (hroom.square hsquare) hlt (one_le_pow₀ hhigh)
  | @odd acc x result n hn rest ih =>
    rw [pow_succ', pow_mul, ← mul_assoc] at hlt
    have hsquare := hroom.isFinite_square hx (one_le_mul_of_one_le_of_one_le hacc1 hhigh) hn hlt
    have hproduct : (acc * x).isFinite = true := by
      refine hroom.isFinite_mul hx hacc hacc1 (lt_of_le_of_lt ?_ hlt)
      exact le_mul_of_one_le_right (by positivity) (one_le_pow₀ (one_le_pow₀ hhigh))
    obtain ⟨-, hle, hone⟩ := hroom.mul hacc1 hproduct
    refine ih hproduct hone hsquare (hroom.square hsquare) (lt_of_le_of_lt ?_ hlt)
      (one_le_pow₀ hhigh)
    gcongr

end Squaring

/-! ### Powers of a base well above one -/

variable {x : Float}

theorem room_of_one_le (hx : 1 ≤ value x) :
    Room (value x * (1 - roundoff)) (value x * (1 + roundoff)) x :=
  ⟨hx, mul_nonneg (zero_le_one.trans hx) (sub_nonneg.mpr roundoff_lt_one.le), le_rfl, le_rfl⟩

theorem powNat_within (hx : 1 ≤ value x) {n : ℕ} (h : (powNat x n).isFinite = true) :
    (value x * (1 - roundoff)) ^ n ≤ value (powNat x n) ∧
    value (powNat x n) ≤ (value x * (1 + roundoff)) ^ n ∧
      1 ≤ value (powNat x n) := by
  have hrun := (squaring_powNat x n).within h value_unit.2.ge (room_of_one_le hx)
  rwa [value_unit.2, one_mul, one_mul] at hrun

/-- A power is finite if it does not overflow with the errors of all its factors. -/
theorem isFinite_powNat (hx : x.isFinite = true) (hx1 : 1 ≤ value x) {n : ℕ}
    (hlt : (value x * (1 + roundoff)) ^ n < overflow) : (powNat x n).isFinite = true := by
  refine (squaring_powNat x n).isFinite_of_lt_overflow value_unit.1.finite value_unit.2.ge hx
    (room_of_one_le hx1) ?_
  rwa [value_unit.2, one_mul]

/-- A power that is finite has not many factors. -/
theorem lt_of_isFinite_powNat (hx : 17 / 16 ≤ value x) {n : ℕ} (h : (powNat x n).isFinite = true) :
    n < 2 ^ 15 := by
  by_contra hge
  have hbase : 33 / 32 ≤ value x * (1 - roundoff) := by
    have hsmall : roundoff ≤ 1 / 64 := by norm_num [roundoff]
    nlinarith
  -- every 32 factors, errors included, are worth more than a factor of two
  have hlimit : limit ≤ value (powNat x n) :=
    calc limit = 2 ^ 1024 := zpow_ofNat 2 1024
      _ ≤ ((33 / 32) ^ 32) ^ 1024 := by gcongr; norm_num
      _ = (33 / 32) ^ (2 ^ 15) := by rw [← pow_mul]; norm_num
      _ ≤ (33 / 32) ^ n := pow_le_pow_right₀ (by norm_num) (not_lt.mp hge)
      _ ≤ (value x * (1 - roundoff)) ^ n := by gcongr
      _ ≤ value (powNat x n) := (powNat_within (by linarith) h).1
  have hlt := (canonical_of_isFinite h).2
  exact absurd ((le_abs_self _).trans_lt hlt) (not_lt.mpr hlimit)

/-- The errors of all factors together. -/
theorem pow_one_sub_roundoff {n : ℕ} (hn : n < 2 ^ 15) :
    1 - 2 ^ (-37 : ℤ) ≤ (1 - roundoff) ^ n := by
  have hcount : n * roundoff ≤ 2 ^ (-37 : ℤ) :=
    calc n * roundoff ≤ 2 ^ 15 * roundoff :=
        mul_le_mul_of_nonneg_right (by exact_mod_cast hn.le) roundoff_pos.le
      _ = 2 ^ (-37 : ℤ) := by norm_num [roundoff]
  have hbernoulli := one_add_mul_le_pow (by linarith [roundoff_lt_one] : -2 ≤ -roundoff) n
  rw [← sub_eq_add_neg] at hbernoulli
  linarith

theorem pow_one_add_roundoff {n : ℕ} (hn : n < 2 ^ 15) :
    (1 + roundoff) ^ n ≤ 1 + 2 ^ (-36 : ℤ) := by
  -- Bernoulli's inequality goes the wrong way here; the product of both powers is below one
  have hless := pow_one_sub_roundoff hn
  have hpos : (0 : ℚ) < 1 - 2 ^ (-37 : ℤ) := by norm_num
  have hmore : 0 ≤ (1 + roundoff) ^ n := pow_nonneg (by linarith [roundoff_pos]) n
  refine le_of_mul_le_mul_right ?_ hpos
  calc (1 + roundoff) ^ n * (1 - 2 ^ (-37 : ℤ)) ≤ (1 + roundoff) ^ n * (1 - roundoff) ^ n := by
        gcongr
    _ = (1 - roundoff ^ 2) ^ n := by rw [← mul_pow]; congr 1; ring
    _ ≤ 1 := pow_le_one₀ (by nlinarith [roundoff_pos, roundoff_lt_one])
      (by linarith [sq_nonneg roundoff])
    _ ≤ (1 + 2 ^ (-36 : ℤ)) * (1 - 2 ^ (-37 : ℤ)) := by norm_num

/-- A finite power is close to the exact one. -/
theorem powNat_near (hx : 17 / 16 ≤ value x) {n : ℕ} (h : (powNat x n).isFinite = true) :
    Near (2 ^ (-36 : ℤ)) (value (powNat x n)) (value x ^ n) := by
  have hn := lt_of_isFinite_powNat hx h
  obtain ⟨hlow, hhigh, -⟩ := powNat_within (by linarith) h
  rw [mul_pow] at hlow hhigh
  have hpos : 0 ≤ value x ^ n := pow_nonneg (by linarith) n
  refine ⟨le_trans ?_ hlow, hhigh.trans ?_⟩
  · gcongr
    calc (1 : ℚ) - 2 ^ (-36 : ℤ) ≤ 1 - 2 ^ (-37 : ℤ) := by norm_num
      _ ≤ (1 - roundoff) ^ n := pow_one_sub_roundoff hn
  · gcongr
    exact pow_one_add_roundoff hn

/-- The same on both sides of zero: the reciprocal of a finite power has lost two digits at most. -/
theorem powInt_near (hx : 17 / 16 ≤ value x) {n : ℤ} (h : (powInt x n).isFinite = true)
    (h0 : value (powInt x n) ≠ 0) : Near (2 ^ (-32 : ℤ)) (value (powInt x n)) (value x ^ n) := by
  have hx0 : 0 < value x := by linarith
  cases n with
  | ofNat m =>
    rw [Int.ofNat_eq_natCast, powInt_natCast] at h ⊢
    rw [zpow_natCast]
    exact (powNat_near hx h).weaken (pow_nonneg hx0.le m) (by norm_num)
  | negSucc m =>
    rw [powInt_negSucc] at h h0 ⊢
    have hfinite := isFinite_of_div h h0
    have hone := (powNat_within (by linarith) hfinite).2.2
    have hround := div_roundsTo value_unit.1.finite hfinite (by linarith)
    rw [hround.value_eq h, value_unit.2, one_div, zpow_negSucc]
    have hlimit : value (powNat x (m + 1)) ≤ 2 ^ (1024 : ℤ) :=
      (le_abs_self _).trans (canonical_of_isFinite hfinite).2.le
    -- what is below the limit has a reciprocal that has lost two digits at most
    have hleast : (2 : ℚ) ^ (-1022 - (2 : ℕ) : ℤ) ≤ (value (powNat x (m + 1)))⁻¹ := by
      rw [show (-1022 - (2 : ℕ) : ℤ) = -1024 by norm_num, zpow_neg]
      exact inv_anti₀ (by linarith) hlimit
    have hpos : 0 < value x ^ (m + 1) := pow_pos hx0 _
    have hinv := (powNat_near hx hfinite).inv hpos (by norm_num) (by norm_num)
    have hboth := (rounded_near hleast).trans hinv (by norm_num [roundoff])
      (by norm_num [roundoff]) (by norm_num)
      (inv_pos.mpr hpos).le
    exact hboth.weaken (inv_pos.mpr hpos).le (by norm_num [roundoff])

/-- Powers of a base well above one grow with the exponent, on both sides of zero. -/
theorem powInt_growth (hx : 17 / 16 ≤ value x) {s t : ℤ} (hst : s < t)
    (hs : (powInt x s).isFinite = true) (hs0 : value (powInt x s) ≠ 0)
    (ht : (powInt x t).isFinite = true) (ht0 : value (powInt x t) ≠ 0) :
    33 / 32 * value (powInt x s) ≤ value (powInt x t) := by
  have hx0 : 0 < value x := by linarith
  have hpos : 0 < value x ^ s := zpow_pos hx0 s
  calc 33 / 32 * value (powInt x s) ≤ 33 / 32 * (value x ^ s * (1 + 2 ^ (-32 : ℤ))) := by
        gcongr
        exact (powInt_near hx hs hs0).high
    _ = value x ^ s * (33 / 32 * (1 + 2 ^ (-32 : ℤ))) := by ring
    _ ≤ value x ^ s * (17 / 16 * (1 - 2 ^ (-32 : ℤ))) :=
      mul_le_mul_of_nonneg_left (by norm_num) hpos.le
    _ ≤ value x ^ s * (value x * (1 - 2 ^ (-32 : ℤ))) := by gcongr
    _ = value x ^ (s + 1) * (1 - 2 ^ (-32 : ℤ)) := by
        rw [zpow_add_one₀ hx0.ne']
        ring
    _ ≤ value x ^ t * (1 - 2 ^ (-32 : ℤ)) :=
        mul_le_mul_of_nonneg_right (zpow_le_zpow_right₀ (by linarith) hst) (by norm_num)
    _ ≤ value (powInt x t) := (powInt_near hx ht ht0).low

/-- Numbers that are apart by such a factor are rounded apart, from the least number with all its
digits on. -/
theorem rounded_lt_rounded {p q : ℚ} (hpq : 33 / 32 * p ≤ q) (hp : 2 ^ (-1022 : ℤ) ≤ rounded p) :
    rounded p < rounded q := by
  -- the number itself may lie below, but not by a whole power of two
  have hleast : (2 : ℚ) ^ (-1022 - (1 : ℕ) : ℤ) ≤ p := by
    by_contra hlt
    have hround := rounded_le (onGrid_two_zpow (by norm_num)) (not_le.mp hlt).le
    have hpower : (2 : ℚ) ^ (-1022 - (1 : ℕ) : ℤ) < 2 ^ (-1022 : ℤ) :=
      zpow_lt_zpow_right₀ (by norm_num) (by norm_num)
    exact absurd (hp.trans hround) (not_le.mpr hpower)
  have hp0 : 0 < p := (zpow_pos (by norm_num) _).trans_le hleast
  have hle : p ≤ q := by linarith
  calc rounded p ≤ p * (1 + 2 ^ 1 * roundoff) := (rounded_near hleast).high
    _ < p * (33 / 32 * (1 - 2 ^ 1 * roundoff)) :=
      mul_lt_mul_of_pos_left (by norm_num [roundoff]) hp0
    _ = 33 / 32 * p * (1 - 2 ^ 1 * roundoff) := by ring
    _ ≤ q * (1 - 2 ^ 1 * roundoff) := mul_le_mul_of_nonneg_right hpq (by norm_num [roundoff])
    _ ≤ rounded q := (rounded_near (hleast.trans hle)).low

end DesignTokens.Number
