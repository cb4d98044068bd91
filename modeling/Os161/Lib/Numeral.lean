import Mathlib.Data.Nat.Digits.Lemmas

/-!
# Numerals

Numerals are lists of digits, the most significant one first. `numeral b n` is the one that is
written for `n` in base `b`, which has no superfluous zeros; `ofNumeral` reads any list of digits.
-/
namespace Os161.Lib

variable {b n : Nat}

def ofNumeral (b : Nat) (l : List Nat) : Nat := Nat.ofDigits b l.reverse

@[simp] theorem ofNumeral_nil (b : Nat) : ofNumeral b [] = 0 := rfl

@[simp] theorem ofNumeral_singleton (b d : Nat) : ofNumeral b [d] = d := by simp [ofNumeral]

theorem ofNumeral_append (b : Nat) (l l' : List Nat) :
    ofNumeral b (l ++ l') = ofNumeral b l * b ^ l'.length + ofNumeral b l' := by
  rw [ofNumeral, List.reverse_append, Nat.ofDigits_append, List.length_reverse, Nat.add_comm, Nat.mul_comm]
  rfl

@[simp] theorem ofNumeral_replicate_zero (b k : Nat) : ofNumeral b (List.replicate k 0) = 0 := by
  induction k with
  | zero => rfl
  | succ k ih => rw [List.replicate_succ', ofNumeral_append, ih, ofNumeral_singleton, Nat.zero_mul]

def numeral (b n : Nat) : List Nat := if n = 0 then [0] else (Nat.digits b n).reverse

@[simp] theorem ofNumeral_numeral (b n : Nat) : ofNumeral b (numeral b n) = n := by
  unfold numeral
  split
  · next h => rw [ofNumeral_singleton, h]
  · rw [ofNumeral, List.reverse_reverse, Nat.ofDigits_digits]

theorem numeral_ne_nil (b n : Nat) : numeral b n ≠ [] := by
  unfold numeral
  split
  · exact List.cons_ne_nil 0 []
  · next h => rwa [ne_eq, List.reverse_eq_nil_iff, Nat.digits_eq_nil_iff_eq_zero]

theorem lt_of_mem_numeral (hb : 1 < b) {d : Nat} (hd : d ∈ numeral b n) : d < b := by
  unfold numeral at hd
  split at hd
  · rw [List.mem_singleton] at hd
    omega
  · rw [List.mem_reverse] at hd
    exact Nat.digits_lt_base hb hd

theorem numeral_of_lt (hn : n < b) : numeral b n = [n] := by
  unfold numeral
  split
  · next h => rw [h]
  · next h => rw [Nat.digits_of_lt b n h hn, List.reverse_singleton]

/-- The last digit is written first. -/
theorem numeral_of_le (hb : 1 < b) (hn : b ≤ n) : numeral b n = numeral b (n / b) ++ [n % b] := by
  have hdiv : n / b ≠ 0 := (Nat.div_pos hn (by omega)).ne'
  unfold numeral
  rw [if_neg (by omega), if_neg hdiv, Nat.digits_def' hb (by omega), List.reverse_cons]

/-- Only the numeral of zero begins with a zero. -/
theorem eq_nil_of_numeral_eq_zero_cons {l : List Nat} (h : numeral b n = 0 :: l) : l = [] := by
  unfold numeral at h
  split at h
  · exact (List.cons.inj h).2.symm
  · next hn =>
    have hrev : Nat.digits b n = l.reverse ++ [0] := by rw [← List.reverse_cons, ← h, List.reverse_reverse]
    have hlast := Nat.getLast_digit_ne_zero b hn
    simp [hrev] at hlast

theorem length_numeral_le (hb : 1 < b) {k : Nat} (hk : 0 < k) (hn : n < b ^ k) : (numeral b n).length ≤ k := by
  unfold numeral
  split
  · exact hk
  · rw [List.length_reverse]
    exact (Nat.digits_length_le_iff hb n).2 hn

end Os161.Lib
