import Mathlib.Algebra.GroupWithZero.Nat
import Mathlib.Algebra.Ring.Int.Defs
import Mathlib.Data.BitVec
import Mathlib.Tactic.Common
import Mathlib.Data.Nat.Basic
import Mathlib.Logic.Function.Basic

/-!
# Bytes, big-endian words and bit arrays

Words of any width are bit vectors. `beWord` and `beByte` are the two directions of
the big-endian layout of 32-bit words. A bit array is a sequence of words of one
width; bit `i` lives in word `i / w` at position `i % w`, and is read and changed
through one-bit masks as C code does it.
-/
namespace Os161.Lib

abbrev Byte := BitVec 8
abbrev Half := BitVec 16
abbrev Word := BitVec 32

/-- The 32-bit word whose most significant byte is `a`. -/
def beWord (a b c d : Byte) : Word := a ++ b ++ c ++ d

/-- Byte `i` of a word in memory order: byte `0` is the most significant. -/
def beByte (w : Word) (i : Nat) : Byte := w.extractLsb' (8 * (3 - i)) 8

@[simp] theorem beWord_beByte (w : Word) : beWord (beByte w 0) (beByte w 1) (beByte w 2) (beByte w 3) = w := by
  apply BitVec.eq_of_getLsbD_eq
  intro i hi
  have split : i < 8 ∨ (8 ≤ i ∧ i < 16) ∨ (16 ≤ i ∧ i < 24) ∨ 24 ≤ i := by omega
  simp only [beWord, beByte, BitVec.getLsbD_append, BitVec.getLsbD_extractLsb']
  rcases split with h | h | h | h
  · simp [h]
  · rw [if_neg (by omega), if_pos (by omega), decide_eq_true (by omega), Bool.true_and]
    congr 1; omega
  · rw [if_neg (by omega), if_neg (by omega), if_pos (by omega), decide_eq_true (by omega), Bool.true_and]
    congr 1; omega
  · rw [if_neg (by omega), if_neg (by omega), if_neg (by omega), decide_eq_true (by omega), Bool.true_and]
    congr 1; omega

theorem beWord_zero : beWord 0 0 0 0 = 0 := by decide

/-- The two halves of a word, most significant first. -/
def halves (hi lo : Half) : Word := hi ++ lo
def highHalf (w : Word) : Half := w.extractLsb' 16 16
def lowHalf (w : Word) : Half := w.extractLsb' 0 16

@[simp] theorem highHalf_halves (hi lo : Half) : highHalf (halves hi lo) = hi := by
  apply BitVec.eq_of_getLsbD_eq
  intro i h
  simp only [highHalf, halves, BitVec.getLsbD_extractLsb', BitVec.getLsbD_append, h, decide_true, Bool.true_and]
  rw [if_neg (by omega), Nat.add_sub_cancel_left]

@[simp] theorem lowHalf_halves (hi lo : Half) : lowHalf (halves hi lo) = lo := by
  apply BitVec.eq_of_getLsbD_eq
  intro i h
  simp only [lowHalf, halves, BitVec.getLsbD_extractLsb', BitVec.getLsbD_append, h, decide_true,
    Bool.true_and, Nat.zero_add, if_true]

/-! ## Bit arrays -/

section BitArray

variable {w : Nat}

/-- The mask of bit `i` inside its word. -/
def bitMask (w i : Nat) : BitVec w := 1#w <<< (i % w)

def bitTest (v : Nat → BitVec w) (i : Nat) : Bool := (v (i / w) &&& bitMask w i) != 0

def bitSet (v : Nat → BitVec w) (i : Nat) : Nat → BitVec w :=
  Function.update v (i / w) (v (i / w) ||| bitMask w i)

def bitClear (v : Nat → BitVec w) (i : Nat) : Nat → BitVec w :=
  Function.update v (i / w) (v (i / w) &&& ~~~ bitMask w i)

theorem getLsbD_bitMask (hw : 0 < w) (i j : Nat) : (bitMask w i).getLsbD j = decide (j = i % w) := by
  have hm : i % w < w := Nat.mod_lt _ hw
  simp only [bitMask, BitVec.getLsbD_shiftLeft, BitVec.getLsbD_one]
  by_cases h : j = i % w
  · subst h; simp [hm, hw]
  · simp [h]; omega

theorem bitTest_eq_getLsbD (hw : 0 < w) (v : Nat → BitVec w) (i : Nat) : bitTest v i = (v (i / w)).getLsbD (i % w) := by
  have hm : i % w < w := Nat.mod_lt _ hw
  unfold bitTest
  cases hb : (v (i / w)).getLsbD (i % w) with
  | true =>
    simp only [bne_iff_ne, ne_eq]
    intro h
    have := congrArg (fun x => x.getLsbD (i % w)) h
    simp [getLsbD_bitMask hw, hb] at this
  | false =>
    simp only [bne_eq_false_iff_eq]
    apply BitVec.eq_of_getLsbD_eq
    intro j hj
    simp only [BitVec.getLsbD_and, getLsbD_bitMask hw]
    by_cases h : j = i % w <;> simp [h, hb]

theorem same_bit_iff (i j : Nat) : i / w = j / w ∧ i % w = j % w ↔ i = j := by
  constructor
  · rintro ⟨hd, hm⟩
    rw [← Nat.div_add_mod i w, ← Nat.div_add_mod j w, hd, hm]
  · rintro rfl
    exact ⟨rfl, rfl⟩

@[simp] theorem bitTest_bitSet (hw : 0 < w) (v : Nat → BitVec w) (i j : Nat) :
    bitTest (bitSet v i) j = (decide (j = i) || bitTest v j) := by
  have hs := same_bit_iff (w := w) j i
  simp only [bitTest_eq_getLsbD hw, bitSet, Function.update_apply]
  by_cases hd : j / w = i / w
  · simp only [hd, if_true, BitVec.getLsbD_or, getLsbD_bitMask hw]
    simp only [hd, true_and] at hs
    rw [decide_eq_decide.mpr hs, Bool.or_comm]
  · have : j ≠ i := fun h => hd (by rw [h])
    simp [hd, this]

@[simp] theorem bitTest_bitClear (hw : 0 < w) (v : Nat → BitVec w) (i j : Nat) :
    bitTest (bitClear v i) j = (!decide (j = i) && bitTest v j) := by
  have hs := same_bit_iff (w := w) j i
  have hm : j % w < w := Nat.mod_lt _ hw
  simp only [bitTest_eq_getLsbD hw, bitClear, Function.update_apply]
  by_cases hd : j / w = i / w
  · simp only [hd, if_true, BitVec.getLsbD_and, BitVec.getLsbD_not, getLsbD_bitMask hw]
    simp only [hd, true_and] at hs
    simp only [hm, hs, decide_true, Bool.true_and]
    rw [Bool.and_comm]
  · have : j ≠ i := fun h => hd (by rw [h])
    simp [hd, this]

/-- Clearing a bit that was set before restores the array. -/
theorem bitClear_bitSet (hw : 0 < w) (v : Nat → BitVec w) {i : Nat} (hi : bitTest v i = false) :
    bitClear (bitSet v i) i = v := by
  funext j
  by_cases hj : j = i / w
  · subst hj
    rw [bitTest_eq_getLsbD hw] at hi
    simp only [bitClear, bitSet, Function.update_self]
    apply BitVec.eq_of_getLsbD_eq
    intro k hk
    simp only [BitVec.getLsbD_and, BitVec.getLsbD_or, BitVec.getLsbD_not, getLsbD_bitMask hw, hk,
      decide_true, Bool.true_and]
    by_cases e : k = i % w <;> simp [e, hi]
  · rw [bitClear, Function.update_of_ne hj, bitSet, Function.update_of_ne hj]

theorem allOnes_iff (x : BitVec w) : x = BitVec.allOnes w ↔ ∀ k < w, x.getLsbD k = true := by
  constructor
  · rintro rfl k hk
    simp [hk]
  · intro h
    apply BitVec.eq_of_getLsbD_eq
    intro k hk
    simp [hk, h k hk]

/-- Scan `n` bits of a word upwards from bit `k` for one that is clear. -/
def clearBit (x : BitVec w) (k : Nat) : Nat → Option Nat
  | 0 => none
  | n + 1 => if x &&& (1#w <<< k) = 0 then some k else clearBit x (k + 1) n

/-- The outcome of looking for a clear bit word by word: a word and a position in it, no
word with room, or a word that looked to have room and had none. -/
inductive Scan where
  | found (ix offset : Nat)
  | full
  | stuck

/-- Scan `n` words upwards from word `ix`, looking inside those that are not full. -/
def scanWords (v : Nat → BitVec w) (ix : Nat) : Nat → Scan
  | 0 => .full
  | n + 1 =>
    if v ix ≠ BitVec.allOnes w then
      match clearBit (v ix) 0 w with
      | some offset => .found ix offset
      | none => .stuck
    else scanWords v (ix + 1) n

theorem and_shift_eq_zero (x : BitVec w) {k : Nat} (hk : k < w) : x &&& (1#w <<< k) = 0 ↔ x.getLsbD k = false := by
  have h := bitTest_eq_getLsbD (Nat.zero_lt_of_lt hk) (fun _ => x) k
  rw [Nat.mod_eq_of_lt hk] at h
  simp only [bitTest, bitMask, Nat.mod_eq_of_lt hk] at h
  rw [← h]
  simp

theorem clearBit_spec (x : BitVec w) (k n : Nat) (hn : k + n ≤ w) :
    match clearBit x k n with
    | some j => k ≤ j ∧ j < k + n ∧ x.getLsbD j = false ∧ ∀ i, k ≤ i → i < j → x.getLsbD i = true
    | none => ∀ i, k ≤ i → i < k + n → x.getLsbD i = true := by
  induction n generalizing k with
  | zero => intro i hi hk; omega
  | succ n ih =>
    simp only [clearBit, and_shift_eq_zero x (show k < w by omega)]
    by_cases hx : x.getLsbD k = false
    · simp only [hx, if_true]
      exact ⟨le_refl k, by omega, trivial, fun i hi hk => by omega⟩
    · simp only [hx]
      have hx' : x.getLsbD k = true := by simpa using hx
      have ih := ih (k + 1) (by omega)
      cases hc : clearBit x (k + 1) n with
      | none =>
        rw [hc] at ih
        intro i hi hlt
        rcases Nat.eq_or_lt_of_le hi with rfl | hi
        · exact hx'
        · exact ih i hi (by omega)
      | some j =>
        rw [hc] at ih
        obtain ⟨h1, h2, h3, h4⟩ := ih
        refine ⟨by omega, by omega, h3, fun i hi hlt => ?_⟩
        rcases Nat.eq_or_lt_of_le hi with rfl | hi
        · exact hx'
        · exact h4 i hi hlt

/-- The scan finds the least clear bit at or above its first word, and reports a full
array only when every bit it looked at is set; it never gets stuck. -/
theorem scanWords_spec (hw : 0 < w) (v : Nat → BitVec w) (ix n : Nat) :
    match scanWords v ix n with
    | .found jx k => ix ≤ jx ∧ jx < ix + n ∧ k < w ∧ bitTest v (jx * w + k) = false ∧
        ∀ i, ix * w ≤ i → i < jx * w + k → bitTest v i = true
    | .full => ∀ i, ix * w ≤ i → i < (ix + n) * w → bitTest v i = true
    | .stuck => False := by
  have bit (jx k : Nat) (hk : k < w) : bitTest v (jx * w + k) = (v jx).getLsbD k := by
    rw [bitTest_eq_getLsbD hw, Nat.mul_comm, Nat.mul_add_div hw, Nat.mul_add_mod,
      Nat.div_eq_of_lt hk, Nat.mod_eq_of_lt hk, Nat.add_zero]
  have ofWord (jx : Nat) (i : Nat) (h1 : jx * w ≤ i) (h2 : i < (jx + 1) * w) :
      bitTest v i = (v jx).getLsbD (i - jx * w) := by
    rw [← bit jx (i - jx * w) (by rw [Nat.add_mul] at h2; omega)]
    congr 1; omega
  induction n generalizing ix with
  | zero => intro i h1 h2; simp at h2; omega
  | succ n ih =>
    simp only [scanWords]
    by_cases hf : v ix = BitVec.allOnes w
    · simp only [hf, ne_eq, not_true_eq_false, if_false]
      have full := (allOnes_iff (v ix)).mp hf
      have below (i : Nat) (h1 : ix * w ≤ i) (h2 : i < (ix + 1) * w) : bitTest v i = true := by
        rw [ofWord ix i h1 h2]
        exact full _ (by rw [Nat.add_mul] at h2; omega)
      have ih := ih (ix + 1)
      cases hs : scanWords v (ix + 1) n with
      | stuck => rw [hs] at ih; exact ih
      | full =>
        rw [hs] at ih
        intro i h1 h2
        by_cases h : i < (ix + 1) * w
        · exact below i h1 h
        · exact ih i (by omega) (by rw [Nat.add_right_comm]; exact h2)
      | found jx k =>
        rw [hs] at ih
        obtain ⟨h1, h2, h3, h4, h5⟩ := ih
        refine ⟨by omega, by omega, h3, h4, fun i hi hlt => ?_⟩
        by_cases h : i < (ix + 1) * w
        · exact below i hi h
        · exact h5 i (by omega) hlt
    · simp only [hf, ne_eq, not_false_eq_true, if_true]
      have hc := clearBit_spec (v ix) 0 w (by omega)
      cases hk : clearBit (v ix) 0 w with
      | none =>
        rw [hk] at hc
        exact hf ((allOnes_iff _).mpr fun k hk => hc k (by omega) (by omega))
      | some k =>
        rw [hk] at hc
        obtain ⟨-, h2, h3, h4⟩ := hc
        have h2 : k < w := by omega
        refine ⟨le_refl _, by omega, h2, by rw [bit ix k h2, h3], fun i h1 hlt => ?_⟩
        rw [ofWord ix i h1 (by rw [Nat.add_mul]; omega)]
        exact h4 _ (by omega) (by omega)

end BitArray

end Os161.Lib
