import Os161.Lib.Memory
import Os161.Lib.Words

/-!
# `memcpy`, `memmove` and `bzero`

The copies of `lib/libc/memcpy.c` and `lib/libc/memmove.c`, which both go word by word when the
pointers and the length allow it. `memmove` copies upwards when the destination is below the source
and downwards otherwise, so what is read at each step is still the original, whatever the overlap
and whatever the size of a step. `bzero` of `lib/libc/bzero.c` has the same two sizes of steps.
-/
namespace Os161.Libc

open Lib

def sizeofLong : Nat := 4

/-- The test for copying by words. -/
def ByWords (dst src len : Word) : Prop :=
  dst.toNat % sizeofLong = 0 ∧ src.toNat % sizeofLong = 0 ∧ len.toNat % sizeofLong = 0

instance (dst src len : Word) : Decidable (ByWords dst src len) := inferInstanceAs (Decidable (_ ∧ _ ∧ _))

def memcpy (dst src len : Word) (m : Word → Byte) : Word → Byte :=
  if ByWords dst src len then copyUp sizeofLong dst src (len.toNat / sizeofLong) 0 m
  else copyUp 1 dst src len.toNat 0 m

def memmove (dst src len : Word) (m : Word → Byte) : Word → Byte :=
  if dst < src then memcpy dst src len m
  else if ByWords dst src len then copyDown sizeofLong dst src (len.toNat / sizeofLong) m
  else copyDown 1 dst src len.toNat m

variable {dst src len : Word} {m : Word → Byte}

theorem ByWords.length_eq (h : ByWords dst src len) : sizeofLong * (len.toNat / sizeofLong) = len.toNat :=
  Nat.mul_div_cancel' (Nat.dvd_of_mod_eq_zero h.2.2)

/-! ## Either size of a step -/

/-- Upwards, by words or by bytes, the whole range is read before it is written. -/
theorem memcpy_eq (hle : dst.toNat ≤ src.toNat) (hsrc : src.toNat + len.toNat ≤ 2 ^ 32) :
    memcpy dst src len m = storeCells m dst (loadCells m src len.toNat) := by
  unfold memcpy
  split
  · next hw => rw [copyUp_eq hle (by rwa [hw.length_eq]), hw.length_eq]
  · rw [copyUp_eq hle (by rwa [Nat.one_mul]), Nat.one_mul]

theorem memmove_eq (hdst : dst.toNat + len.toNat ≤ 2 ^ 32) (hsrc : src.toNat + len.toNat ≤ 2 ^ 32) :
    memmove dst src len m = storeCells m dst (loadCells m src len.toNat) := by
  unfold memmove
  split
  · next hlt => exact memcpy_eq (Nat.le_of_lt hlt) hsrc
  · next hge =>
    have hle : src.toNat ≤ dst.toNat := Nat.not_lt.1 hge
    split
    · next hw => rw [copyDown_eq hle (by rwa [hw.length_eq]), hw.length_eq]
    · rw [copyDown_eq hle (by rwa [Nat.one_mul]), Nat.one_mul]

/-! ## A simultaneous copy -/

/-- `n` is `m` with the range at `dst` replaced by what the range at `src` held in `m`. -/
structure Simultaneous (dst src len : Word) (m n : Word → Byte) : Prop where
  copied : ∀ i < len.toNat, n (dst + BitVec.ofNat 32 i) = m (src + BitVec.ofNat 32 i)
  kept : ∀ a, (∀ i < len.toNat, a ≠ dst + BitVec.ofNat 32 i) → n a = m a

theorem simultaneous_storeCells : Simultaneous dst src len m (storeCells m dst (loadCells m src len.toNat)) where
  copied i hi := by
    have hlen := len.isLt
    rw [storeCells_apply m dst (by simpa using hi) (by simpa using hlen.le)]
    simp [loadCells]
  kept a ha := by
    apply storeCells_of_le
    rw [length_loadCells]
    by_contra hlt
    apply ha (a - dst).toNat (Nat.not_le.1 hlt)
    rw [BitVec.ofNat_toNat, BitVec.setWidth_eq, BitVec.add_comm, BitVec.sub_add_cancel]

/-- `memmove` that goes byte by byte, whatever the alignment. -/
def memmoveBytes (dst src len : Word) (m : Word → Byte) : Word → Byte :=
  if dst < src then copyUp 1 dst src len.toNat 0 m else copyDown 1 dst src len.toNat m

/-- Where neither range wraps around, `memmove` copies as if at once, and the steps of four bytes,
its own and those of the `memcpy` that it calls, have the result of steps of one byte. -/
theorem memmove_simultaneous (hdst : dst.toNat + len.toNat ≤ 2 ^ 32) (hsrc : src.toNat + len.toNat ≤ 2 ^ 32) :
    Simultaneous dst src len m (memmove dst src len m) ∧ memmove dst src len m = memmoveBytes dst src len m ∧
      (dst < src → memcpy dst src len m = copyUp 1 dst src len.toNat 0 m) := by
  have hup (hle : dst.toNat ≤ src.toNat) :
      copyUp 1 dst src len.toNat 0 m = storeCells m dst (loadCells m src len.toNat) := by
    rw [copyUp_eq hle (by rwa [Nat.one_mul]), Nat.one_mul]
  have hdown (hle : src.toNat ≤ dst.toNat) :
      copyDown 1 dst src len.toNat m = storeCells m dst (loadCells m src len.toNat) := by
    rw [copyDown_eq hle (by rwa [Nat.one_mul]), Nat.one_mul]
  refine ⟨?_, ?_, fun hlt => ?_⟩
  · rw [memmove_eq hdst hsrc]
    exact simultaneous_storeCells
  · rw [memmove_eq hdst hsrc, memmoveBytes]
    split
    · next hlt => rw [hup (Nat.le_of_lt hlt)]
    · next hge => rw [hdown (Nat.not_lt.1 hge)]
  · have hle : dst.toNat ≤ src.toNat := Nat.le_of_lt hlt
    rw [memcpy_eq hle hsrc, hup hle]

/-- A memory in which every cell is its own address. -/
def sampleMemory (a : Word) : Byte := a.setWidth 8

/-- Two words that overlap their copy in one. -/
theorem memmove_sampleMemory : Simultaneous 4 0 8 sampleMemory (memmove 4 0 8 sampleMemory) ∧
    memmove 4 0 8 sampleMemory = memmoveBytes 4 0 8 sampleMemory ∧
    ((4 : Word) < 0 → memcpy 4 0 8 sampleMemory = copyUp 1 4 0 8 0 sampleMemory) :=
  memmove_simultaneous (by decide) (by decide)

/-! ## Clearing a block -/

def bzero (block len : Word) (m : Word → Byte) : Word → Byte :=
  if block.toNat % sizeofLong = 0 ∧ len.toNat % sizeofLong = 0 then
    fillUp block sizeofLong 0 (len.toNat / sizeofLong) 0 m
  else fillUp block 1 0 len.toNat 0 m

theorem bzero_eq : bzero dst len m = storeCells m dst (List.replicate len.toNat 0) := by
  have hlen := len.isLt.le
  unfold bzero
  split
  · next hw =>
    have hcount : sizeofLong * (len.toNat / sizeofLong) = len.toNat :=
      Nat.mul_div_cancel' (Nat.dvd_of_mod_eq_zero hw.2)
    rw [fillUp_eq 0 (by rwa [hcount]), hcount]
  · rw [fillUp_eq 0 (by rwa [Nat.one_mul]), Nat.one_mul]

end Os161.Libc
