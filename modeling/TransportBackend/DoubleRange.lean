import TransportBackend.Binary64
import Mathlib.Order.WithBot

/-!
# The range of a double

`binary64` rounds within the normal range.  A figure typed with many digits may leave it: past the
largest double it is `Infinity` (`⊤`), and close to zero the last bit is no finer than `2 ^ (-1074)`.

* `double` — the nearest double to a number that is not negative;
* `double_natCast` — whole numbers up to `2 ^ 53` are exact;
* `double_double`, `double_near` — **a double is rounded to itself**, and anything else to one near it.
-/

namespace TransportBackend.DoubleRange

open TransportBackend.Binary64

/-- The exponent of the last significant bit, never below that of the smallest double. -/
def rangeBit (q : ℚ) : ℤ := max (-1074) (lastBit q)

/-- The double nearest to a number that is not negative. -/
def double (q : ℚ) : WithTop ℚ :=
  let r : ℚ := roundHalfEven (q / 2 ^ rangeBit q) * 2 ^ rangeBit q
  if r < 2 ^ 1024 then (r : WithTop ℚ) else ⊤

/-- A product, rounded. -/
def times (x : WithTop ℚ) (factor : ℚ) : WithTop ℚ := x.bind fun q => double (q * factor)

/-- A quotient, rounded. -/
def dividedBy (x : WithTop ℚ) (divisor : ℚ) : WithTop ℚ := x.bind fun q => double (q / divisor)

/-- What is not `Infinity`. -/
def finite {α : Type} : WithTop α → Option α
  | ⊤ => none
  | (a : α) => some a

/-- `Math.round`. -/
def rounded (x : WithTop ℚ) : WithTop ℤ := x.map mathRound

theorem lastBit_natCast_ge {n : ℕ} (hn : 0 < n) : (-52 : ℤ) ≤ lastBit (n : ℚ) := by
  have hlog : (0 : ℤ) ≤ Int.log 2 |(n : ℚ)| := by
    rw [abs_of_nonneg (by positivity), Int.log_natCast]
    positivity
  unfold lastBit
  omega

theorem double_natCast (n : ℕ) (hn : n ≤ 2 ^ 53) : double (n : ℚ) = ((n : ℚ) : WithTop ℚ) := by
  have hsmall : (n : ℚ) < 2 ^ 1024 := by
    have hle : (n : ℚ) ≤ 2 ^ 53 := by exact_mod_cast hn
    exact hle.trans_lt (pow_lt_pow_right₀ one_lt_two (by norm_num))
  have hvalue : (roundHalfEven ((n : ℚ) / 2 ^ rangeBit n) : ℚ) * 2 ^ rangeBit (n : ℚ) = n := by
    rcases Nat.eq_zero_or_pos n with rfl | hpos
    · simp [roundHalfEven]
    · have hbit : rangeBit (n : ℚ) = lastBit n :=
        max_eq_right ((by norm_num : (-1074 : ℤ) ≤ -52).trans (lastBit_natCast_ge hpos))
      rw [hbit]
      exact binary64_natCast n hn
  unfold double
  dsimp only
  rw [hvalue, if_pos hsmall]

theorem times_natCast {n factor : ℕ} (h : n * factor ≤ 2 ^ 53) :
    times ((n : ℚ) : WithTop ℚ) factor = ((n * factor : ℕ) : ℚ) := by
  show double ((n : ℚ) * factor) = _
  rw [← double_natCast _ h]
  push_cast
  rfl

theorem times_one {n : ℕ} (hn : n ≤ 2 ^ 53) : times ((n : ℚ) : WithTop ℚ) 1 = ((n : ℚ) : WithTop ℚ) := by
  show double ((n : ℚ) * 1) = _
  rw [mul_one, double_natCast n hn]

theorem rounded_natCast (n : ℕ) : rounded ((n : ℚ) : WithTop ℚ) = ((n : ℤ) : WithTop ℤ) := by
  have hround : mathRound (n : ℚ) = n := by
    rw [mathRound, Int.floor_eq_iff]
    push_cast
    constructor <;> linarith
  show ((mathRound (n : ℚ) : ℤ) : WithTop ℤ) = _
  rw [hround]

/-! ### Doubles are fixed, and near -/

/-- The value of a double that is finite. -/
theorem double_value {q d : ℚ} (h : double q = (d : WithTop ℚ)) :
    d = roundHalfEven (q / 2 ^ rangeBit q) * 2 ^ rangeBit q ∧ d < 2 ^ 1024 := by
  unfold double at h
  dsimp only at h
  split at h
  · rename_i hsmall
    obtain rfl := WithTop.coe_inj.mp h
    exact ⟨rfl, hsmall⟩
  · cases h

/-- A whole number of units in the last place is a double. -/
theorem double_dyadic {m : ℕ} (hm : m < 2 ^ 53) {e : ℤ} (he : -1074 ≤ e)
    (hfinite : (m : ℚ) * 2 ^ e < 2 ^ 1024) : double ((m : ℚ) * 2 ^ e) = (((m : ℚ) * 2 ^ e : ℚ) : WithTop ℚ) := by
  have hvalue : (roundHalfEven ((m : ℚ) * 2 ^ e / 2 ^ rangeBit ((m : ℚ) * 2 ^ e)) : ℚ) *
      2 ^ rangeBit ((m : ℚ) * 2 ^ e) = (m : ℚ) * 2 ^ e := by
    rcases Nat.eq_zero_or_pos m with rfl | hpos
    · simp [roundHalfEven]
    have hq : (0 : ℚ) < (m : ℚ) * 2 ^ e := by positivity
    have hbit : rangeBit ((m : ℚ) * 2 ^ e) ≤ e := by
      have hbound : (m : ℚ) * 2 ^ e < 2 ^ (53 + e) := by
        rw [zpow_add₀ (by norm_num)]
        have : (m : ℚ) < 2 ^ (53 : ℤ) := by exact_mod_cast hm
        gcongr
      have hlog : Int.log 2 ((m : ℚ) * 2 ^ e) < 53 + e :=
        (Int.lt_zpow_iff_log_lt (by norm_num) hq).mp (by exact_mod_cast hbound)
      unfold rangeBit lastBit
      rw [abs_of_pos hq]
      omega
    generalize rangeBit ((m : ℚ) * 2 ^ e) = b at hbit
    obtain ⟨k, hk⟩ := Int.le.dest hbit
    have hint : (m : ℚ) * 2 ^ e / 2 ^ b = ((m * 2 ^ k : ℤ) : ℚ) := by
      rw [← hk, zpow_add₀ (by norm_num)]
      field_simp
      push_cast
      simp
    have hb : (0 : ℚ) < 2 ^ b := by positivity
    rw [hint, roundHalfEven_intCast, ← hint, div_mul_cancel₀ _ hb.ne']
  unfold double
  dsimp only
  rw [hvalue, if_pos hfinite]

theorem rangeBit_ge (q : ℚ) : -1074 ≤ rangeBit q := le_max_left _ _

/-- The whole number of units that a double is. -/
theorem units_bounds {q : ℚ} (hq : 0 ≤ q) :
    0 ≤ roundHalfEven (q / 2 ^ rangeBit q) ∧ roundHalfEven (q / 2 ^ rangeBit q) ≤ 2 ^ 53 := by
  have hb : (0 : ℚ) < 2 ^ rangeBit q := by positivity
  have hround := abs_le.mp (abs_roundHalfEven_sub_le (q / 2 ^ rangeBit q))
  have hlow : 0 ≤ q / 2 ^ rangeBit q := div_nonneg hq hb.le
  have hhigh : q / 2 ^ rangeBit q < 2 ^ 53 := by
    rcases hq.eq_or_lt with rfl | hpos
    · norm_num
    rw [div_lt_iff₀ hb]
    have hlog : q < (2 : ℚ) ^ (Int.log 2 q + 1) := by
      have h := Int.lt_zpow_succ_log_self (b := 2) (R := ℚ) (by norm_num) q
      exact_mod_cast h
    have hbit : Int.log 2 q - 52 ≤ rangeBit q := by
      have h : lastBit q ≤ rangeBit q := le_max_right _ _
      rwa [lastBit, abs_of_pos hpos] at h
    calc q < (2 : ℚ) ^ (Int.log 2 q + 1) := hlog
      _ = 2 ^ 53 * 2 ^ (Int.log 2 q - 52) := by
          rw [← zpow_natCast, ← zpow_add₀ (by norm_num)]
          congr 1
          push_cast
          ring
      _ ≤ 2 ^ 53 * 2 ^ rangeBit q := by gcongr; norm_num
  generalize roundHalfEven (q / 2 ^ rangeBit q) = r at hround
  constructor
  · have hlt : (-1 : ℚ) < r := by linarith [hround.1]
    have : (-1 : ℤ) < r := by exact_mod_cast hlt
    omega
  · have hlt : (r : ℚ) < 2 ^ 53 + 1 := by linarith [hround.2]
    have : r < 2 ^ 53 + 1 := by exact_mod_cast hlt
    omega

theorem double_nonneg {q d : ℚ} (hq : 0 ≤ q) (h : double q = (d : WithTop ℚ)) : 0 ≤ d := by
  rw [(double_value h).1]
  exact mul_nonneg (by exact_mod_cast (units_bounds hq).1) (by positivity)

/-- **A double is rounded to itself.** -/
theorem double_double {q d : ℚ} (hq : 0 ≤ q) (h : double q = (d : WithTop ℚ)) :
    double d = (d : WithTop ℚ) := by
  obtain ⟨hvalue, hfinite⟩ := double_value h
  obtain ⟨hlow, hhigh⟩ := units_bounds hq
  have hbit := rangeBit_ge q
  generalize rangeBit q = e at hvalue hlow hhigh hbit
  generalize roundHalfEven (q / 2 ^ e) = r at hvalue hlow hhigh
  obtain ⟨m, rfl⟩ := Int.eq_ofNat_of_zero_le hlow
  rw [hvalue] at hfinite ⊢
  rw [Int.cast_natCast] at hfinite ⊢
  rcases (show m ≤ 2 ^ 53 by exact_mod_cast hhigh).lt_or_eq with hm | rfl
  · exact double_dyadic hm hbit hfinite
  · -- the next power of two has one bit less to its last unit
    have hnext : ((2 ^ 53 : ℕ) : ℚ) * 2 ^ e = ((2 ^ 52 : ℕ) : ℚ) * 2 ^ (e + 1) := by
      rw [zpow_add₀ (by norm_num)]
      push_cast
      ring
    rw [hnext] at hfinite ⊢
    exact double_dyadic (by norm_num) (by omega) hfinite

/-- **The error of a double**, relative or one half of the smallest. -/
theorem double_near {q d : ℚ} (hq : 0 ≤ q) (h : double q = (d : WithTop ℚ)) :
    |d - q| ≤ q / 2 ^ 53 + 2 ^ (-1075 : ℤ) := by
  have hb : (0 : ℚ) < 2 ^ rangeBit q := by positivity
  have hround := abs_roundHalfEven_sub_le (q / 2 ^ rangeBit q)
  have hscale : d - q = ((roundHalfEven (q / 2 ^ rangeBit q) : ℚ) - q / 2 ^ rangeBit q) * 2 ^ rangeBit q := by
    rw [(double_value h).1, sub_mul, div_mul_cancel₀ _ hb.ne']
  have hunit : (2 : ℚ) ^ rangeBit q / 2 ≤ q / 2 ^ 53 + 2 ^ (-1075 : ℤ) ∨ q = 0 := by
    rcases hq.eq_or_lt with rfl | hpos
    · exact .inr rfl
    refine .inl ?_
    have hlog : (2 : ℚ) ^ Int.log 2 q ≤ q := by
      have h := Int.zpow_log_le_self (b := 2) (R := ℚ) (r := q) (by norm_num) hpos
      exact_mod_cast h
    rcases max_choice (-1074) (lastBit q) with hmax | hmax
    · have hsmallest : (2 : ℚ) ^ rangeBit q / 2 = 2 ^ (-1075 : ℤ) := by
        unfold rangeBit
        rw [hmax, show (-1074 : ℤ) = -1075 + 1 by norm_num, zpow_add₀ (by norm_num)]
        ring
      rw [hsmallest]
      have : 0 ≤ q / 2 ^ 53 := by positivity
      linarith
    · have hlast : (2 : ℚ) ^ rangeBit q / 2 = 2 ^ Int.log 2 q / 2 ^ 53 := by
        unfold rangeBit
        rw [hmax, lastBit, abs_of_pos hpos, zpow_sub₀ (by norm_num)]
        norm_num
        ring
      have hle : (2 : ℚ) ^ Int.log 2 q / 2 ^ 53 ≤ q / 2 ^ 53 := by gcongr
      have hpow : (0 : ℚ) < 2 ^ (-1075 : ℤ) := by positivity
      linarith
  rcases hunit with hunit | rfl
  · rw [hscale, abs_mul, abs_of_pos hb]
    calc _ ≤ 1 / 2 * (2 : ℚ) ^ rangeBit q := mul_le_mul_of_nonneg_right hround hb.le
      _ = 2 ^ rangeBit q / 2 := by ring
      _ ≤ _ := hunit
  · rw [hscale]
    simp [roundHalfEven]

end TransportBackend.DoubleRange
