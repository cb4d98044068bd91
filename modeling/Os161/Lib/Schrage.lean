import Mathlib.Data.Int.GCD
import Mathlib.Data.Int.ModEq
import Mathlib.Tactic.LinearCombination

/-!
# Multiplication modulo `m` without large products

To compute `a * s` modulo `m`, divide `s` by the quotient `m / a` and combine quotient and
remainder. When `m % a` is at most `m / a`, no number on the way leaves the range between `-m` and
`m`, and one correction of the sign gives the residue.
-/
namespace Os161.Lib

def schrage (a m s : Int) : Int := a * (s % (m / a)) - m % a * (s / (m / a))

variable {a m s : Int}

theorem schrage_modEq (a m s : Int) : schrage a m s ≡ a * s [ZMOD m] := by
  apply Int.modEq_iff_dvd.2
  refine ⟨s / (m / a), ?_⟩
  have hm := Int.mul_ediv_add_emod m a
  have hs := Int.mul_ediv_add_emod s (m / a)
  unfold schrage
  linear_combination (s / (m / a)) * hm - a * hs

section Range

variable (ha : 0 < a) (ham : a ≤ m)
include ha ham

theorem schrage_quotient_pos : 0 < m / a :=
  Int.le_ediv_of_mul_le ha (by omega)

theorem schrage_low (s : Int) : 0 ≤ a * (s % (m / a)) ∧ a * (s % (m / a)) < m := by
  have hq := schrage_quotient_pos ha ham
  constructor
  · exact mul_nonneg ha.le (Int.emod_nonneg s hq.ne')
  · have hm := Int.mul_ediv_add_emod m a
    have hr := Int.emod_nonneg m ha.ne'
    calc a * (s % (m / a)) < a * (m / a) := mul_lt_mul_of_pos_left (Int.emod_lt_of_pos s hq) ha
      _ ≤ m := by omega

variable (hr : m % a ≤ m / a) (hs : 0 ≤ s)
include hr hs

theorem schrage_high : 0 ≤ m % a * (s / (m / a)) ∧ m % a * (s / (m / a)) ≤ s := by
  have hq := schrage_quotient_pos ha ham
  have hdiv : 0 ≤ s / (m / a) := Int.ediv_nonneg hs hq.le
  constructor
  · exact mul_nonneg (Int.emod_nonneg m ha.ne') hdiv
  · have hsq := Int.mul_ediv_add_emod s (m / a)
    have hrem := Int.emod_nonneg s hq.ne'
    calc m % a * (s / (m / a)) ≤ m / a * (s / (m / a)) := mul_le_mul_of_nonneg_right hr hdiv
      _ ≤ s := by omega

/-- The residue, for a multiplier that has no divisor in common with the modulus. It is not `0`. -/
theorem schrage_residue (hco : Int.gcd m a = 1) (hpos : 0 < s) (hsm : s < m) :
    0 < a * s % m ∧ (if schrage a m s ≤ 0 then schrage a m s + m else schrage a m s) = a * s % m := by
  have hmod : schrage a m s % m = a * s % m := schrage_modEq a m s
  obtain ⟨hlow, hlow'⟩ := schrage_low ha ham s
  obtain ⟨hhigh, hhigh'⟩ := schrage_high ha ham hr hs
  have hm : 0 < m := by omega
  have hne : a * s % m ≠ 0 := by
    intro h0
    have hdvd : m ∣ s := Int.dvd_of_dvd_mul_right_of_gcd_one (Int.dvd_of_emod_eq_zero h0) hco
    have := Int.le_of_dvd hpos hdvd
    omega
  have hnonneg := Int.emod_nonneg (a * s) hm.ne'
  have hrange : -m < schrage a m s ∧ schrage a m s < m := by
    unfold schrage
    omega
  refine ⟨by omega, ?_⟩
  rw [← hmod] at hne ⊢
  split
  · next hle =>
    have hneg : schrage a m s ≠ 0 := by
      intro h0
      rw [h0, Int.zero_emod] at hne
      exact hne rfl
    rw [← Int.add_emod_right, Int.emod_eq_of_lt (by omega) (by omega)]
  · exact (Int.emod_eq_of_lt (by omega) (by omega)).symm

end Range

end Os161.Lib
