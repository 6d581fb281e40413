import Mathlib.Logic.Equiv.Nat
import Mathlib.Tactic.Ring

/-!
# Numbers in marked digits

A number is written digit by digit in some base, the lowest digit first, and every digit but the last is
marked by adding the base to it.  Integers are written as the numbers they are counted by, the positive ones
at the even places and the negative ones at the odd places.

* `Base`, `written`, `readNumber`: writing a number, and reading one from the front of a list;
* `readNumber_written`: **what was written is read, and what stands behind it is left**;
* `mem_written`: no digit reaches twice the base;
* `counted_nonneg`, `counted_neg`: where an integer is counted.
-/

namespace TransportBackend.MarkedDigits

/-- More than one digit. -/
structure Base where
  size : ℕ
  large : 1 < size

/-! ### Writing -/

/-- The digits of a number, the lowest first, all but the last marked. -/
def written (b : Base) (n : ℕ) : List ℕ :=
  if n < b.size then [n] else (b.size + n % b.size) :: written b (n / b.size)
termination_by n
decreasing_by
  have hlarge := b.large
  exact Nat.div_lt_self (by omega) b.large

section Written

variable {b : Base}

theorem written_last {n : ℕ} (h : n < b.size) : written b n = [n] := by
  rw [written, if_pos h]

theorem written_next {n : ℕ} (h : b.size ≤ n) :
    written b n = (b.size + n % b.size) :: written b (n / b.size) := by
  rw [written, if_neg (not_lt.mpr h)]

/-- **No digit reaches twice the base.** -/
theorem mem_written {n : ℕ} : ∀ d ∈ written b n, d < 2 * b.size := by
  have hlarge := b.large
  induction n using Nat.strongRecOn with
  | ind n ih =>
      intro d hd
      rcases lt_or_ge n b.size with hlast | hnext
      · rw [written_last hlast, List.mem_singleton] at hd
        omega
      · rw [written_next hnext, List.mem_cons] at hd
        rcases hd with rfl | hd
        · have hdigit := Nat.mod_lt n (by omega : 0 < b.size)
          omega
        · exact ih (n / b.size) (Nat.div_lt_self (by omega) b.large) d hd

theorem written_ne_nil (n : ℕ) : written b n ≠ [] := by
  rw [written]
  split <;> exact List.cons_ne_nil _ _

end Written

/-! ### Reading -/

section Read

variable {α : Type} (b : Base) (digit : α → ℕ)

/-- The number at the front, on top of a sum, its lowest digit at a place; what is left comes second. -/
def readNumber (place sum : ℕ) : List α → ℕ × List α
  | [] => (sum, [])
  | c :: cs =>
      if b.size ≤ digit c then readNumber (place * b.size) (sum + digit c % b.size * place) cs
      else (sum + digit c % b.size * place, cs)

variable {b digit}

theorem readNumber_marked {c : α} (h : b.size ≤ digit c) (place sum : ℕ) (cs : List α) :
    readNumber b digit place sum (c :: cs) =
      readNumber b digit (place * b.size) (sum + digit c % b.size * place) cs := by
  rw [readNumber, if_pos h]

theorem readNumber_last {c : α} (h : digit c < b.size) (place sum : ℕ) (cs : List α) :
    readNumber b digit place sum (c :: cs) = (sum + digit c * place, cs) := by
  rw [readNumber, if_neg (not_le.mpr h), Nat.mod_eq_of_lt h]

/-- A sum only grows. -/
theorem le_readNumber (place sum : ℕ) (cs : List α) : sum ≤ (readNumber b digit place sum cs).1 := by
  induction cs generalizing place sum with
  | nil => exact le_rfl
  | cons c cs ih =>
      rcases lt_or_ge (digit c) b.size with hlast | hmarked
      · rw [readNumber_last hlast]
        exact Nat.le_add_right _ _
      · rw [readNumber_marked hmarked]
        exact (Nat.le_add_right _ _).trans (ih _ _)

/-- **What was written is read, and what stands behind it is left.** -/
theorem readNumber_written {n : ℕ} {cs : List α} (hcs : cs.map digit = written b n) (place sum : ℕ) (rest : List α) :
    readNumber b digit place sum (cs ++ rest) = (sum + n * place, rest) := by
  induction n using Nat.strongRecOn generalizing cs place sum with
  | ind n ih =>
      have hlarge := b.large
      rcases lt_or_ge n b.size with hlast | hnext
      · rw [written_last hlast] at hcs
        obtain ⟨c, rfl, hc⟩ := List.map_eq_singleton_iff.mp hcs
        have hsmall : digit c < b.size := hc ▸ hlast
        rw [List.singleton_append, readNumber_last hsmall, hc]
      · rw [written_next hnext] at hcs
        obtain ⟨c, cs, rfl, hc, hrest⟩ := List.map_eq_cons_iff.mp hcs
        have hmarked : b.size ≤ digit c := by omega
        have hdigit : digit c % b.size = n % b.size := by rw [hc, Nat.add_mod_left, Nat.mod_mod]
        have hsum : n % b.size * place + n / b.size * (place * b.size) = n * place := by
          calc n % b.size * place + n / b.size * (place * b.size)
              = (b.size * (n / b.size) + n % b.size) * place := by ring
            _ = n * place := by rw [Nat.div_add_mod]
        rw [List.cons_append, readNumber_marked hmarked, ih (n / b.size) (Nat.div_lt_self (by omega) b.large) hrest,
          hdigit, Nat.add_assoc, hsum]

end Read

/-! ### Integers -/

/-- The place an integer is counted at. -/
abbrev counted (z : ℤ) : ℕ := Equiv.intEquivNat z

theorem counted_nonneg (n : ℕ) : counted (n : ℤ) = 2 * n := rfl

theorem counted_neg (n : ℕ) : counted (Int.negSucc n) = 2 * n + 1 := rfl

/-- The integer counted at a place, from whether the place is odd. -/
theorem counted_symm (n : ℕ) :
    Equiv.intEquivNat.symm n = if n % 2 = 1 then Int.negSucc (n / 2) else ((n / 2 : ℕ) : ℤ) := by
  rw [Equiv.symm_apply_eq]
  split
  · show n = counted (Int.negSucc (n / 2))
    rw [counted_neg]
    omega
  · show n = counted ((n / 2 : ℕ) : ℤ)
    rw [counted_nonneg]
    omega

end TransportBackend.MarkedDigits
