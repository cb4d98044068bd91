import Mathlib.Data.Finset.Basic
import Os161.Lib.Prog
import Os161.Lib.Run
import Os161.Lib.Words
import Os161.Kern.Errno

/-!
# Bitmaps

`kern/lib/bitmap.c`: a bitmap of `nbits` bits kept in bytes. The storage behind a
bitmap has `words nbits` bytes; the bits of the last byte past `nbits` are padding that
`bitmapCreate` marks in use, so that `bitmapAlloc` never hands one out. The number of bytes is
computed in 32 bits.
-/
namespace Os161.Kern

open Lib Prog

/-- The assertions of `bitmap.c`. -/
inductive BitmapAssert where
  | createWords | createOverbits
  | allocRange | allocStuck
  | markRange | markInUse
  | unmarkRange | unmarkFree
  deriving DecidableEq, Repr

def bitsPerWord : Nat := 8

def divroundup (a b : Nat) : Nat := (a + b - 1) % 2 ^ 32 / b

structure Bitmap where
  nbits : Nat
  v : Nat → Byte

def Bitmap.words (b : Bitmap) : Nat := divroundup b.nbits bitsPerWord

/-- Set the bits `j, …, 7` of byte `ix`, the loop over the padding in `bitmap_create`. -/
def markOverbits (v : Nat → Byte) (ix : Nat) (j : Nat) : Nat → Nat → Byte
  | 0 => v
  | n + 1 => markOverbits (Function.update v ix (v ix ||| (1#8 <<< j))) ix (j + 1) n

/-- A bitmap with all its bits clear. The storage comes from `kmalloc`. -/
def bitmapCreate (nbits : Nat) : Except BitmapAssert Bitmap :=
  let words := divroundup nbits bitsPerWord
  let v : Nat → Byte := fun _ => 0
  if nbits / bitsPerWord < words then
    let ix := words - 1
    let overbits := nbits - ix * bitsPerWord
    if nbits / bitsPerWord ≠ words - 1 then .error .createWords
    else if ¬ (0 < overbits ∧ overbits < bitsPerWord) then .error .createOverbits
    else .ok ⟨nbits, markOverbits v ix overbits (bitsPerWord - overbits)⟩
  else .ok ⟨nbits, v⟩

def bitmapAlloc : Prog BitmapAssert Errno Bitmap Nat := do
  let b ← Prog.get
  match scanWords b.v 0 b.words with
  | .full => Prog.raise .enospc
  | .stuck => Prog.stop .allocStuck
  | .found ix offset =>
    let index := ix * bitsPerWord + offset
    Prog.modify fun b => { b with v := bitSet b.v index }
    Prog.check (index < b.nbits) .allocRange
    pure index

def bitmapMark (index : Nat) : Prog BitmapAssert Errno Bitmap Unit := do
  let b ← Prog.get
  Prog.check (index < b.nbits) .markRange
  Prog.check (bitTest b.v index = false) .markInUse
  Prog.modify fun b => { b with v := bitSet b.v index }

def bitmapUnmark (index : Nat) : Prog BitmapAssert Errno Bitmap Unit := do
  let b ← Prog.get
  Prog.check (index < b.nbits) .unmarkRange
  Prog.check (bitTest b.v index = true) .unmarkFree
  Prog.modify fun b => { b with v := bitClear b.v index }

def bitmapIsset (b : Bitmap) (index : Nat) : Bool := bitTest b.v index

@[simp] theorem bitmapIsset_set (b : Bitmap) (i j : Nat) :
    bitmapIsset { b with v := bitSet b.v i } j = (decide (j = i) || bitmapIsset b j) :=
  bitTest_bitSet (by decide) b.v i j

@[simp] theorem bitmapIsset_clear (b : Bitmap) (i j : Nat) :
    bitmapIsset { b with v := bitClear b.v i } j = (!decide (j = i) && bitmapIsset b j) :=
  bitTest_bitClear (by decide) b.v i j

/-- Every bit of the storage past `nbits` is in use. -/
def Bitmap.Padded (b : Bitmap) : Prop :=
  ∀ i, b.nbits ≤ i → i < b.words * bitsPerWord → bitmapIsset b i = true

/-- The number of bits for which the computation of the number of bytes does not wrap. -/
def Bitmap.Fits (nbits : Nat) : Prop := nbits ≤ 2 ^ 32 - 8

theorem Bitmap.nbits_le_words (b : Bitmap) (h : Fits b.nbits) : b.nbits ≤ b.words * bitsPerWord := by
  unfold Fits at h
  unfold Bitmap.words divroundup bitsPerWord
  omega

/-- A padded bitmap hands out its least clear bit, and one that fits fails only when all are set. -/
theorem bitmapAlloc_spec (b : Bitmap) (h : b.Padded) :
    Sat (fun _ => False) bitmapAlloc b (fun r c => match r with
      | .ok i => i < b.nbits ∧ bitmapIsset b i = false ∧ (∀ j < i, bitmapIsset b j = true) ∧
          c = { b with v := bitSet b.v i }
      | .error e => e = .enospc ∧ c = b ∧ (Bitmap.Fits b.nbits → ∀ i < b.nbits, bitmapIsset b i = true)) := by
  have hs := scanWords_spec (show 0 < 8 by decide) b.v 0 b.words
  unfold bitmapAlloc
  simp only [sat_bind, sat_get]
  cases hc : scanWords b.v 0 b.words with
  | stuck => rw [hc] at hs; exact hs.elim
  | full =>
    rw [hc] at hs
    refine ⟨rfl, rfl, fun hfit i hi => hs i (by omega) ?_⟩
    have hle := b.nbits_le_words hfit
    unfold bitsPerWord at hle
    omega
  | found ix k =>
    rw [hc] at hs
    obtain ⟨-, hx, hk, hclear, hbelow⟩ := hs
    have hlt : ix * bitsPerWord + k < b.nbits := by
      by_contra hge
      have := h (ix * 8 + k) (Nat.le_of_not_lt hge) (by unfold bitsPerWord; omega)
      simp [bitmapIsset, hclear] at this
    simp only [sat_bind, sat_modify, sat_check, sat_pure, hlt, if_true]
    exact ⟨trivial, hclear, fun j hj => hbelow j (by omega) hj, trivial⟩

theorem bitmapMark_spec (b : Bitmap) {i : Nat} (hi : i < b.nbits) (hclear : bitmapIsset b i = false) :
    Sat (fun _ => False) (bitmapMark i) b (fun r c => r = .ok () ∧ c = { b with v := bitSet b.v i }) := by
  have hclear' : bitTest b.v i = false := hclear
  simp [bitmapMark, hi, hclear']

theorem bitmapUnmark_spec (b : Bitmap) {i : Nat} (hi : i < b.nbits) (hset : bitmapIsset b i = true) :
    Sat (fun _ => False) (bitmapUnmark i) b (fun r c => r = .ok () ∧ c = { b with v := bitClear b.v i }) := by
  have hset' : bitTest b.v i = true := hset
  simp [bitmapUnmark, hi, hset']

/-! ## Creation -/

/-- The loop sets exactly the bits `j, …, j + n - 1` of its byte. -/
theorem bitTest_markOverbits (v : Nat → Byte) (ix j n i : Nat) (hn : j + n ≤ 8) :
    bitTest (markOverbits v ix j n) i =
      (decide (ix * 8 + j ≤ i ∧ i < ix * 8 + j + n) || bitTest v i) := by
  induction n generalizing v j with
  | zero => simp [markOverbits]
  | succ n ih =>
    have hset : Function.update v ix (v ix ||| (1#8 <<< j)) = bitSet v (ix * 8 + j) := by
      have hd : (ix * 8 + j) / 8 = ix := by omega
      have hm : (ix * 8 + j) % 8 = j := by omega
      rw [bitSet, bitMask, hd, hm]
    rw [markOverbits, hset, ih _ (j + 1) (by omega), bitTest_bitSet (by decide), ← Bool.or_assoc, ← Bool.decide_or]
    congr 2
    grind

theorem bitmapCreate_spec {nbits : Nat} (h : Bitmap.Fits nbits) :
    ∃ b, bitmapCreate nbits = .ok b ∧ b.nbits = nbits ∧ b.Padded ∧ ∀ i < nbits, bitmapIsset b i = false := by
  unfold Bitmap.Fits at h
  have hwords : divroundup nbits 8 = (nbits + 7) / 8 := by
    unfold divroundup
    omega
  have hzero (i : Nat) : bitTest (fun _ => 0 : Nat → Byte) i = false := by simp [bitTest]
  unfold bitmapCreate bitsPerWord
  simp only [hwords]
  by_cases hover : nbits / 8 < (nbits + 7) / 8
  · rw [if_pos hover, if_neg (by omega), if_neg (by omega)]
    refine ⟨_, rfl, rfl, fun i hi hw => ?_, fun i hi => ?_⟩
    all_goals
      simp only [bitmapIsset]
      rw [bitTest_markOverbits _ _ _ _ _ (by omega), hzero, Bool.or_false]
    · simp only [Bitmap.words, bitsPerWord, hwords] at hi hw
      rw [decide_eq_true_iff]
      omega
    · rw [decide_eq_false_iff_not]
      omega
  · rw [if_neg hover]
    refine ⟨_, rfl, rfl, fun i hi hw => ?_, fun i _ => hzero i⟩
    simp only [Bitmap.words, bitsPerWord, hwords] at hi hw
    omega

/-! ## Runs -/

inductive BitmapOp where
  | mark (index : Nat)
  | unmark (index : Nat)
  | alloc
  deriving DecidableEq

/-- A call, with the index that `bitmap_alloc` reports. -/
def BitmapOp.call : BitmapOp → Prog BitmapAssert Errno Bitmap (Option Nat)
  | .mark index => do bitmapMark index; pure none
  | .unmark index => do bitmapUnmark index; pure none
  | .alloc => do let index ← bitmapAlloc; pure (some index)

/-- A bit is marked when it is clear, and unmarked when it is set. -/
def BitmapOp.Allowed (b : Bitmap) : BitmapOp → Prop
  | .mark index => index < b.nbits ∧ bitmapIsset b index = false
  | .unmark index => index < b.nbits ∧ bitmapIsset b index = true
  | .alloc => True

instance (b : Bitmap) : DecidablePred (BitmapOp.Allowed b)
  | .mark index => inferInstanceAs (Decidable (index < b.nbits ∧ bitmapIsset b index = false))
  | .unmark index => inferInstanceAs (Decidable (index < b.nbits ∧ bitmapIsset b index = true))
  | .alloc => inferInstanceAs (Decidable True)

def BitmapStep (b : Bitmap) (e : BitmapOp × Except Errno (Option Nat)) (b' : Bitmap) : Prop :=
  e.1.Allowed b ∧ e.1.call b = .ok (e.2, b')

/-- The same calls on a set of indices below `nbits`. -/
inductive SetStep (nbits : Nat) :
    Finset Nat → BitmapOp × Except Errno (Option Nat) → Finset Nat → Prop
  | mark {S : Finset Nat} {i : Nat} (hi : i ∉ S) (hlt : i < nbits) :
      SetStep nbits S (.mark i, .ok none) (insert i S)
  | unmark {S : Finset Nat} {i : Nat} (hi : i ∈ S) : SetStep nbits S (.unmark i, .ok none) (S.erase i)
  | alloc {S : Finset Nat} {i : Nat} (hi : i ∉ S) (hlt : i < nbits) (hleast : ∀ j < i, j ∈ S) :
      SetStep nbits S (.alloc, .ok (some i)) (insert i S)
  | enospc {S : Finset Nat} (hfull : ∀ i < nbits, i ∈ S) :
      SetStep nbits S (.alloc, .error .enospc) S

/-- The bitmap has the bits of the set, and its padding. -/
structure Bitmap.Holds (b : Bitmap) (nbits : Nat) (S : Finset Nat) : Prop where
  nbits_eq : b.nbits = nbits
  padded : b.Padded
  isset : ∀ i < nbits, bitmapIsset b i = true ↔ i ∈ S
  bounded : ∀ i ∈ S, i < nbits

namespace Bitmap.Holds

variable {b : Bitmap} {nbits i : Nat} {S : Finset Nat}

section

variable (h : b.Holds nbits S) (hi : i < nbits)
include h hi

theorem clear : bitmapIsset b i = false ↔ i ∉ S := by
  rw [← h.isset i hi, Bool.not_eq_true]

theorem set : { b with v := bitSet b.v i }.Holds nbits (insert i S) where
  nbits_eq := h.nbits_eq
  padded j hj hw := by
    rw [bitmapIsset_set, h.padded j hj hw, Bool.or_true]
  isset j hj := by
    rw [bitmapIsset_set, Bool.or_eq_true, decide_eq_true_iff, h.isset j hj, Finset.mem_insert]
  bounded j hj := by
    obtain rfl | hj := Finset.mem_insert.1 hj
    · exact hi
    · exact h.bounded j hj

theorem unset : { b with v := bitClear b.v i }.Holds nbits (S.erase i) where
  nbits_eq := h.nbits_eq
  padded j hj hw := by
    have hne : j ≠ i := by
      have := h.nbits_eq
      simp only at hj
      omega
    rw [bitmapIsset_clear, h.padded j hj hw, decide_eq_false hne]
    rfl
  isset j hj := by
    rw [bitmapIsset_clear, Bool.and_eq_true, Bool.not_eq_true', decide_eq_false_iff_not, h.isset j hj, Finset.mem_erase]
  bounded j hj := h.bounded j (Finset.mem_of_mem_erase hj)

end

end Bitmap.Holds

/-- The call fails no assertion, does what the set does, and changes nothing on an error. -/
def BitmapOp.Refines (b : Bitmap) (nbits : Nat) (S : Finset Nat) (op : BitmapOp) : Prop :=
  Prog.Sat (fun _ => False) op.call b fun r b' =>
    ∃ S', SetStep nbits S (op, r) S' ∧ b'.Holds nbits S' ∧ ∀ e, r = .error e → b' = b

theorem BitmapOp.refines {b : Bitmap} {nbits : Nat} {S : Finset Nat} (op : BitmapOp)
    (hfit : Bitmap.Fits nbits) (h : b.Holds nbits S) (hop : op.Allowed b) : op.Refines b nbits S := by
  have hn := h.nbits_eq
  unfold BitmapOp.Refines
  cases op with
  | mark i =>
    obtain ⟨hlt, hclear⟩ := hop
    simp only [call, sat_bind]
    refine (bitmapMark_spec b hlt hclear).mono ?_
    rintro r c ⟨rfl, rfl⟩
    have hi : i < nbits := by omega
    exact ⟨insert i S, .mark ((h.clear hi).1 hclear) hi, h.set hi, by simp⟩
  | unmark i =>
    obtain ⟨hlt, hset⟩ := hop
    simp only [call, sat_bind]
    refine (bitmapUnmark_spec b hlt hset).mono ?_
    rintro r c ⟨rfl, rfl⟩
    have hi : i < nbits := by omega
    exact ⟨S.erase i, .unmark ((h.isset i hi).1 hset), h.unset hi, by simp⟩
  | alloc =>
    simp only [call, sat_bind]
    refine (bitmapAlloc_spec b h.padded).mono ?_
    rintro (e | i) c hc
    · obtain ⟨rfl, rfl, hfull⟩ := hc
      rw [hn] at hfull
      exact ⟨S, .enospc fun i hi => (h.isset i hi).1 (hfull hfit i hi), h, fun _ _ => rfl⟩
    · obtain ⟨hlt, hclear, hbelow, rfl⟩ := hc
      have hi : i < nbits := by omega
      refine ⟨insert i S, .alloc ((h.clear hi).1 hclear) hi fun j hj => ?_, h.set hi, by simp⟩
      exact (h.isset j (by omega)).1 (hbelow j hj)

/-- Whatever is marked, unmarked and allocated, the bitmap is the set that the same calls make,
with its padding in use; and the next call fails no assertion. -/
theorem bitmap_refines_set {nbits : Nat} (hfit : Bitmap.Fits nbits) : ∃ b₀, bitmapCreate nbits = .ok b₀ ∧
    ∀ {tr : List (BitmapOp × Except Errno (Option Nat))} {b : Bitmap}, Run BitmapStep b₀ tr b →
      ∃ S, Run (SetStep nbits) ∅ tr S ∧ b.Holds nbits S ∧ ∀ op : BitmapOp, op.Allowed b → op.Refines b nbits S := by
  obtain ⟨b₀, hcreate, hn, hpad, hclear⟩ := bitmapCreate_spec hfit
  refine ⟨b₀, hcreate, fun {tr b} run => ?_⟩
  have key : ∃ S, Run (SetStep nbits) ∅ tr S ∧ b.Holds nbits S := by
    refine run.history (I := fun tr b => ∃ S, Run (SetStep nbits) ∅ tr S ∧ b.Holds nbits S) ?_ ?_
    · exact ⟨∅, .start, hn, hpad, fun i hi => by simp [hclear i hi], by simp⟩
    · intro tr t e u ⟨S, hrun, hholds⟩ ⟨hop, hcall⟩
      obtain ⟨S', hstep, hholds', -⟩ := (e.1.refines hfit hholds hop).of_ok hcall
      exact ⟨S', .step hrun hstep, hholds'⟩
  obtain ⟨S, hrun, hholds⟩ := key
  exact ⟨S, hrun, hholds, fun op hop => op.refines hfit hholds hop⟩

/-- A bitmap with six bits of padding gives out its two bits, and then nothing. -/
theorem bitmap_refines_set_two : Bitmap.Fits 2 ∧ ∃ b₀ b S, bitmapCreate 2 = .ok b₀ ∧
    Run BitmapStep b₀ [(.alloc, .error .enospc), (.alloc, .ok (some 0)), (.mark 1, .ok none)] b ∧
    b.Holds 2 S ∧ Run (SetStep 2) ∅ [(.alloc, .error .enospc), (.alloc, .ok (some 0)), (.mark 1, .ok none)] S := by
  have hfit : Bitmap.Fits 2 := by unfold Bitmap.Fits; decide
  obtain ⟨b₀, hcreate, h⟩ := bitmap_refines_set hfit
  obtain rfl : (⟨2, markOverbits (fun _ => 0) 0 2 6⟩ : Bitmap) = b₀ := Except.ok.inj hcreate
  have run : Run BitmapStep ⟨2, markOverbits (fun _ => 0) 0 2 6⟩
      [(.alloc, .error .enospc), (.alloc, .ok (some 0)), (.mark 1, .ok none)] _ :=
    .step (.step (.step .start ⟨by decide, rfl⟩) ⟨trivial, rfl⟩) ⟨trivial, rfl⟩
  obtain ⟨S, hset, hholds, -⟩ := h run
  exact ⟨hfit, _, _, S, hcreate, run, hholds, hset⟩

end Os161.Kern
