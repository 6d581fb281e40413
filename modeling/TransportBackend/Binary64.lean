import Mathlib.Data.Rat.Floor
import Mathlib.Data.Int.Log
import Mathlib.Tactic

/-!
# Double precision numbers as rationals

JavaScript numbers are IEEE 754 doubles.  In the normal range a double is a rational, and an
operation is the exact operation followed by one rounding to 53 significant bits, ties to even.
This file gives that rounding and the two roundings a program writes down itself, executable on
`ℚ`:

* `binary64` — the nearest double;
* `mathRound` — `Math.round`, half up;
* `toFixed2` — `Number.prototype.toFixed(2)`, as a whole number of hundredths.

The facts a program relies on when it stores an amount and reads it back:

* `abs_binary64_sub_le` — the relative error is at most `2 ^ (-53)`;
* `binary64_natCast` — whole numbers up to `2 ^ 53` are exact;
* `toFixed2_hundredths` — **two decimals survive the trip through a double**.
-/

namespace TransportBackend.Binary64

/-- The nearest integer, ties to even. -/
def roundHalfEven (q : ℚ) : ℤ :=
  if q - ⌊q⌋ < 1 / 2 then ⌊q⌋
  else if 1 / 2 < q - ⌊q⌋ then ⌊q⌋ + 1
  else if ⌊q⌋ % 2 = 0 then ⌊q⌋ else ⌊q⌋ + 1

/-- The exponent of the last of the 53 significant bits. -/
def lastBit (q : ℚ) : ℤ := Int.log 2 |q| - 52

/-- The double nearest to `q` (normal range). -/
def binary64 (q : ℚ) : ℚ := roundHalfEven (q / 2 ^ lastBit q) * 2 ^ lastBit q

/-- `Math.round`: the nearest integer, half up. -/
def mathRound (q : ℚ) : ℤ := ⌊q + 1 / 2⌋

/-- `toFixed(2)`: the nearest number of hundredths, the larger of two. -/
def toFixed2 (q : ℚ) : ℤ := ⌊100 * q + 1 / 2⌋

/-- The whole numbers a double holds exactly: `Number.MAX_SAFE_INTEGER`. -/
def maxSafeInteger : ℕ := 2 ^ 53 - 1

/-- `Number.isSafeInteger`. -/
def isSafeInteger (q : ℚ) : Bool := q.den = 1 ∧ |q| ≤ maxSafeInteger

/-! ### Error bounds -/

theorem abs_roundHalfEven_sub_le (q : ℚ) : |(roundHalfEven q : ℚ) - q| ≤ 1 / 2 := by
  have h0 : (⌊q⌋ : ℚ) ≤ q := Int.floor_le q
  have h1 : q < ⌊q⌋ + 1 := Int.lt_floor_add_one q
  unfold roundHalfEven
  split_ifs with ha hb hc
  · rw [abs_le]; constructor <;> linarith
  · push_cast; rw [abs_le]; constructor <;> linarith
  · rw [abs_le]; constructor <;> linarith
  · push_cast; rw [abs_le]; constructor <;> linarith

theorem roundHalfEven_intCast (n : ℤ) : roundHalfEven n = n := by
  simp [roundHalfEven]

/-- **The relative error of a double.** -/
theorem abs_binary64_sub_le (q : ℚ) (hq : 0 < q) : |binary64 q - q| ≤ q / 2 ^ 53 := by
  have hpos : (0 : ℚ) < 2 ^ lastBit q := by positivity
  have hlog : (2 : ℚ) ^ Int.log 2 q ≤ q := by
    have := Int.zpow_log_le_self (b := 2) (R := ℚ) (r := q) (by norm_num) hq
    exact_mod_cast this
  have hround := abs_roundHalfEven_sub_le (q / 2 ^ lastBit q)
  have hscale : binary64 q - q =
      ((roundHalfEven (q / 2 ^ lastBit q) : ℚ) - q / 2 ^ lastBit q) * 2 ^ lastBit q := by
    rw [binary64, sub_mul, div_mul_cancel₀ _ hpos.ne']
  have hexp : (2 : ℚ) ^ lastBit q = 2 ^ Int.log 2 q / 2 ^ 52 := by
    rw [lastBit, abs_of_pos hq, zpow_sub₀ (by norm_num)]
    norm_num
  rw [hscale, abs_mul, abs_of_pos hpos]
  calc _ ≤ 1 / 2 * (2 : ℚ) ^ lastBit q := mul_le_mul_of_nonneg_right hround hpos.le
    _ = 2 ^ Int.log 2 q / 2 ^ 53 := by rw [hexp]; ring
    _ ≤ q / 2 ^ 53 := by gcongr

theorem binary64_nonneg {q : ℚ} (hq : 0 ≤ q) : 0 ≤ binary64 q := by
  rcases hq.eq_or_lt with rfl | hq
  · norm_num [binary64, roundHalfEven]
  have herr := abs_le.mp (abs_binary64_sub_le q hq)
  have hsmall : q / 2 ^ 53 ≤ q := div_le_self hq.le (by norm_num)
  linarith [herr.1]

theorem roundHalfEven_nonpos {q : ℚ} (hq : q ≤ 0) : roundHalfEven q ≤ 0 := by
  have hfloor : ⌊q⌋ ≤ 0 := Int.floor_nonpos hq
  have hup : 1 / 2 ≤ q - ⌊q⌋ → ⌊q⌋ + 1 ≤ 0 := by
    intro hr
    have hlt : (⌊q⌋ : ℚ) < 0 := by linarith
    have : ⌊q⌋ < 0 := by exact_mod_cast hlt
    omega
  unfold roundHalfEven
  split_ifs with ha hb hc
  · exact hfloor
  · exact hup hb.le
  · exact hfloor
  · exact hup (not_lt.mp ha)

theorem binary64_nonpos {q : ℚ} (hq : q ≤ 0) : binary64 q ≤ 0 := by
  have hpos : (0 : ℚ) < 2 ^ lastBit q := by positivity
  have hr : roundHalfEven (q / 2 ^ lastBit q) ≤ 0 :=
    roundHalfEven_nonpos (div_nonpos_of_nonpos_of_nonneg hq hpos.le)
  exact mul_nonpos_of_nonpos_of_nonneg (by exact_mod_cast hr) hpos.le

/-- Whole numbers up to `2 ^ 53` are doubles. -/
theorem binary64_natCast (n : ℕ) (hn : n ≤ 2 ^ 53) : binary64 (n : ℚ) = n := by
  rcases Nat.eq_zero_or_pos n with rfl | hpos
  · simp [binary64, roundHalfEven]
  rcases Nat.lt_or_eq_of_le hn with hlt | rfl
  · -- below `2 ^ 53` the last bit has weight at most one, so scaling gives an integer
    have hlog : Nat.log 2 n ≤ 52 := Nat.lt_succ_iff.mp (Nat.log_lt_of_lt_pow hpos.ne' hlt)
    have hbit : lastBit (n : ℚ) = -((52 - Nat.log 2 n : ℕ) : ℤ) := by
      rw [lastBit, abs_of_nonneg (by positivity), Int.log_natCast]
      omega
    have hint : (n : ℚ) / 2 ^ lastBit (n : ℚ) = ((n * 2 ^ (52 - Nat.log 2 n) : ℤ) : ℚ) := by
      rw [hbit, zpow_neg, div_inv_eq_mul, zpow_natCast]
      push_cast
      ring
    have hp : (0 : ℚ) < 2 ^ lastBit (n : ℚ) := by positivity
    rw [binary64, hint, roundHalfEven_intCast, ← hint, div_mul_cancel₀ _ hp.ne']
  · decide +kernel

/-- **Two decimals survive the trip through a double**: `k / 100` rounded to a double and written
with two decimals is `k` hundredths again. -/
theorem toFixed2_hundredths (k : ℕ) (hk : k ≤ 2 ^ 50) : toFixed2 (binary64 (k / 100)) = k := by
  rcases Nat.eq_zero_or_pos k with rfl | hpos
  · norm_num [toFixed2, binary64, roundHalfEven]
  have hkq : (0 : ℚ) < k := by exact_mod_cast hpos
  have hk' : (k : ℚ) ≤ 2 ^ 50 := by exact_mod_cast hk
  have herr := abs_le.mp (abs_binary64_sub_le ((k : ℚ) / 100) (by positivity))
  have hsmall : (k : ℚ) / 100 / 2 ^ 53 ≤ 1 / 800 := by
    rw [div_div, div_le_iff₀ (by norm_num)]
    linarith
  rw [toFixed2, Int.floor_eq_iff]
  push_cast
  constructor <;> linarith [herr.1, herr.2]

end TransportBackend.Binary64
