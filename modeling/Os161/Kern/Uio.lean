import Os161.Lib.Prog
import Os161.Lib.Words
import Os161.Kern.Errno

/-!
# Data transfer descriptors

`kern/userprog/uio.c`. A `Uio` stands for a `struct uio` together with the memory its
single iovec points to: `iov` is the content of the part of the buffer that is still to be
transferred (so `iov_len` is its length), `moved` collects the bytes that went through it,
in order. For a user buffer `mapped` is the length of the prefix of `iov` that can be
accessed; a copy that would leave it fails with `EFAULT`.

`uioOffset` has the 32 bits of the `off_t`, so that a sum wraps around; `Uio.offset` is the number
they stand for. An address space is a pointer, and `tVmspace` is the one of the current thread.
-/
namespace Os161.Kern

open Lib Prog

inductive UioRw where
  | read | write
  deriving DecidableEq, Repr

inductive UioSeg where
  | userspace | sysspace | userispace
  deriving DecidableEq, Repr

inductive UioPanic where
  | sizeReachedZero | zerosNotRead | space
  deriving DecidableEq, Repr

structure Uio where
  iov : List Byte
  moved : List Byte
  mapped : Nat
  uioOffset : Nat
  uioResid : Nat
  uioSegflg : UioSeg
  uioRw : UioRw
  uioSpace : Option Nat := none
  tVmspace : Option Nat := none

def sub32 (a b : Nat) : Nat := (a + (2 ^ 32 - b % 2 ^ 32)) % 2 ^ 32

theorem sub32_of_le {a b : Nat} (h : b ≤ a) (ha : a < 2 ^ 32) : sub32 a b = a - b := by
  unfold sub32
  omega

namespace Uio

/-- `uio_offset` as a signed number. -/
def offset (u : Uio) : Int := (BitVec.ofNat 32 u.uioOffset).toInt

/-- What `uiomove` asserts about `uio_space`. -/
def SpaceOk (u : Uio) : Prop := u.uioSpace = if u.uioSegflg = .sysspace then none else u.tVmspace

instance (u : Uio) : Decidable u.SpaceOk := inferInstanceAs (Decidable (_ = _))

/-- The copy of the next `n` bytes runs into a bad user address. -/
def Faults (u : Uio) (n : Nat) : Prop := u.uioSegflg ≠ .sysspace ∧ u.mapped < n

instance (u : Uio) (n : Nat) : Decidable (u.Faults n) := inferInstanceAs (Decidable (_ ∧ _))

/-- The descriptor after `d` went through it: stored into the buffer when reading a file,
taken out of it when writing one. -/
def advance (u : Uio) (d : List Byte) : Uio :=
  { u with
    iov := u.iov.drop d.length
    moved := u.moved ++ d
    mapped := u.mapped - d.length
    uioOffset := (u.uioOffset + d.length) % 2 ^ 32
    uioResid := sub32 u.uioResid d.length }

end Uio

/-- The transfer loop of `uiomove`. When the file is read, `ptr` holds the kernel's bytes;
when it is written, the bytes that end up at `ptr` are the result. Every round moves at
least one byte, so `n` rounds are enough. -/
def uiomoveLoop : Nat → List Byte → Nat → Prog UioPanic Errno Uio (List Byte)
  | 0, _, _ => pure []
  | rounds + 1, ptr, n => do
    let u ← Prog.get
    if 0 < n ∧ 0 < u.uioResid then
      let size := min u.iov.length n
      Prog.check (size ≠ 0) .sizeReachedZero
      if u.Faults size then Prog.raise .efault
      else
        let d := match u.uioRw with
          | .read => ptr.take size
          | .write => u.iov.take size
        Prog.modify (Uio.advance · d)
        let rest ← uiomoveLoop rounds (ptr.drop size) (n - size)
        pure (d ++ rest)
    else pure []

def uiomove (ptr : List Byte) (n : Nat) : Prog UioPanic Errno Uio (List Byte) := do
  let u ← Prog.get
  Prog.check u.SpaceOk .space
  uiomoveLoop n ptr n

def zerosSize : Nat := 16

def uiomovezerosLoop : Nat → Nat → Prog UioPanic Errno Uio Unit
  | 0, _ => pure ()
  | rounds + 1, n =>
    if 0 < n then do
      let amt := min zerosSize n
      let _ ← uiomove (List.replicate zerosSize 0) amt
      uiomovezerosLoop rounds (n - amt)
    else pure ()

def uiomovezeros (n : Nat) : Prog UioPanic Errno Uio Unit := do
  let u ← Prog.get
  Prog.check (u.uioRw = .read) .zerosNotRead
  uiomovezerosLoop n n

def mkKuio (kbuf : List Byte) (pos : Nat) (rw : UioRw) : Uio where
  iov := kbuf
  moved := []
  mapped := kbuf.length
  uioOffset := pos
  uioResid := kbuf.length
  uioSegflg := .sysspace
  uioRw := rw

namespace Uio

variable (u : Uio)

section

variable (d : List Byte)
include d

@[simp] theorem advance_iov : (u.advance d).iov = u.iov.drop d.length := rfl
@[simp] theorem advance_moved : (u.advance d).moved = u.moved ++ d := rfl
@[simp] theorem advance_offset : (u.advance d).uioOffset = (u.uioOffset + d.length) % 2 ^ 32 := rfl
@[simp] theorem advance_mapped : (u.advance d).mapped = u.mapped - d.length := rfl
@[simp] theorem advance_rw : (u.advance d).uioRw = u.uioRw := rfl
@[simp] theorem advance_segflg : (u.advance d).uioSegflg = u.uioSegflg := rfl
@[simp] theorem advance_resid : (u.advance d).uioResid = sub32 u.uioResid d.length := rfl

end

/-- `uio_resid` promises no more than the buffer holds; it and `uio_offset` are 32-bit values, and
`uio_space` goes with the buffer. -/
structure Fits : Prop where
  resid_le : u.uioResid ≤ u.iov.length
  resid_lt : u.uioResid < 2 ^ 32
  offset_lt : u.uioOffset < 2 ^ 32
  space : u.SpaceOk

variable {u}

theorem Fits.advance (h : u.Fits) {d : List Byte} (hd : d.length ≤ u.uioResid) : (u.advance d).Fits := by
  have hr := sub32_of_le hd h.resid_lt
  have := h.resid_le
  have := h.resid_lt
  refine ⟨?_, ?_, Nat.mod_lt _ (by decide), h.space⟩ <;>
    simp only [advance_resid, advance_iov, List.length_drop, hr] <;> omega

@[simp] theorem advance_nil (h : u.Fits) : u.advance [] = u := by
  have hr := sub32_of_le (Nat.zero_le u.uioResid) h.resid_lt
  have ho : (u.uioOffset + 0) % 2 ^ 32 = u.uioOffset := Nat.mod_eq_of_lt h.offset_lt
  simp only [Uio.advance, List.length_nil, ho, hr, List.drop_zero, List.append_nil, Nat.sub_zero]

theorem advance_append (h : u.Fits) {c d : List Byte} (hc : c.length + d.length ≤ u.uioResid) :
    (u.advance c).advance d = u.advance (c ++ d) := by
  have hr := h.resid_lt
  have h1 : sub32 u.uioResid c.length = u.uioResid - c.length := sub32_of_le (by omega) hr
  have h2 : sub32 u.uioResid (c.length + d.length) = u.uioResid - (c.length + d.length) :=
    sub32_of_le hc hr
  have h3 : sub32 (u.uioResid - c.length) d.length = u.uioResid - c.length - d.length :=
    sub32_of_le (by omega) (by omega)
  simp [Uio.advance, h1, h2, h3, List.append_assoc, Nat.add_assoc, Nat.sub_sub, List.drop_drop, Nat.mod_add_mod]

end Uio

theorem mkKuio_fits {kbuf : List Byte} (h : kbuf.length < 2 ^ 32) {pos : Nat} (hp : pos < 2 ^ 32) (rw : UioRw) :
    (mkKuio kbuf pos rw).Fits := ⟨le_rfl, h, hp, rfl⟩

/-- The bytes a transfer of `n` bytes moves. -/
def transfer (u : Uio) (ptr : List Byte) (n : Nat) : List Byte :=
  match u.uioRw with
  | .read => ptr.take n
  | .write => u.iov.take n

theorem uiomoveLoop_zero (rounds : Nat) (ptr : List Byte) : uiomoveLoop rounds ptr 0 = pure [] := by
  cases rounds <;> rfl

theorem sat_uiomove {K : UioPanic → Prop} {u : Uio} (h : u.SpaceOk) {ptr : List Byte} {n : Nat}
    {Q : Except Errno (List Byte) → Uio → Prop} :
    Sat K (uiomove ptr n) u Q ↔ Sat K (uiomoveLoop n ptr n) u Q := by
  simp only [uiomove, sat_bind, sat_get, sat_check, h, if_true]

/-- One round of the loop is enough for what the buffer and `uio_resid` have room for. -/
theorem uiomove_once (u : Uio) (h : u.SpaceOk) (ptr : List Byte) {n : Nat} (h0 : 0 < n) (hi : n ≤ u.iov.length)
    (hn : n ≤ u.uioResid) :
    Sat (fun _ => False) (uiomove ptr n) u (fun r v => match r with
      | .ok d => d = transfer u ptr n ∧ v = u.advance d
      | .error e => e = .efault ∧ v = u ∧ u.Faults n) := by
  obtain ⟨n, rfl⟩ : ∃ m, n = m + 1 := ⟨n - 1, by omega⟩
  have hmin : min u.iov.length (n + 1) = n + 1 := by omega
  rw [sat_uiomove h]
  simp only [uiomoveLoop, sat_bind, sat_get, sat_ite, sat_check, sat_raise, sat_modify, sat_pure, hmin]
  rw [if_pos (by omega), if_pos (by omega)]
  by_cases hf : u.Faults (n + 1)
  · simp [hf]
  · simp only [hf, if_false]
    rw [Nat.sub_self, uiomoveLoop_zero]
    simp [transfer]

/-- Within the residual, `uiomove` moves exactly `n` bytes, or nothing on a bad address. -/
theorem uiomove_spec (u : Uio) (h : u.Fits) (ptr : List Byte) {n : Nat} (hn : n ≤ u.uioResid) :
    Sat (fun _ => False) (uiomove ptr n) u (fun r v => match r with
      | .ok d => d = transfer u ptr n ∧ v = u.advance d
      | .error e => e = .efault ∧ v = u ∧ u.Faults n) := by
  cases n with
  | zero =>
    rw [sat_uiomove h.space]
    refine ⟨?_, (Uio.advance_nil h).symm⟩
    unfold transfer
    cases u.uioRw <;> simp
  | succ n => exact uiomove_once u h.space ptr (Nat.succ_pos n) (Nat.le_trans hn h.resid_le) hn

theorem uiomovezerosLoop_spec (rounds n : Nat) (hr : n ≤ rounds) (u : Uio) (h : u.Fits)
    (hrw : u.uioRw = .read) (hn : n ≤ u.uioResid) :
    Sat (fun _ => False) (uiomovezerosLoop rounds n) u (fun r v => match r with
      | .ok _ => v = u.advance (List.replicate n 0)
      | .error e => e = .efault ∧ u.Faults n ∧ ∃ k < n, v = u.advance (List.replicate k 0)) := by
  induction rounds generalizing n u with
  | zero =>
    obtain rfl : n = 0 := by omega
    exact (Uio.advance_nil h).symm
  | succ rounds ih =>
    unfold uiomovezerosLoop
    by_cases h0 : 0 < n
    · have hz : 0 < zerosSize := by decide
      have hamt : min zerosSize n ≤ n := Nat.min_le_right _ _
      simp only [h0, if_true, sat_bind]
      refine (uiomove_spec u h _ (n := min zerosSize n) (by omega)).mono ?_
      rintro (e | d) v hv
      · obtain ⟨rfl, rfl, hfault⟩ := hv
        exact ⟨rfl, ⟨hfault.1, Nat.lt_of_lt_of_le hfault.2 hamt⟩, 0, h0, (Uio.advance_nil h).symm⟩
      · obtain ⟨rfl, rfl⟩ := hv
        have hd : transfer u (List.replicate zerosSize 0) (min zerosSize n) =
            List.replicate (min zerosSize n) 0 := by simp [transfer, hrw]
        rw [hd]
        have hfit : (u.advance (List.replicate (min zerosSize n) 0)).Fits :=
          h.advance (by simp; omega)
        have hres : (u.advance (List.replicate (min zerosSize n) 0)).uioResid = u.uioResid - min zerosSize n := by
          simp only [Uio.advance_resid, List.length_replicate]
          exact sub32_of_le (by omega) h.resid_lt
        refine (ih (n - min zerosSize n) (by omega) _ hfit (by simpa using hrw) (by omega)).mono ?_
        have join (k : Nat) (hk : min zerosSize n + k ≤ u.uioResid) :
            (u.advance (List.replicate (min zerosSize n) 0)).advance (List.replicate k 0) =
              u.advance (List.replicate (min zerosSize n + k) 0) := by
          rw [Uio.advance_append h (by simpa using hk), List.replicate_append_replicate]
        rintro (e | a) v hv
        · obtain ⟨rfl, ⟨hs, hm⟩, k, hk, rfl⟩ := hv
          rw [Uio.advance_mapped, List.length_replicate] at hm
          exact ⟨rfl, ⟨hs, by omega⟩, min zerosSize n + k, by omega, join k (by omega)⟩
        · subst hv
          have := join (n - min zerosSize n) (by omega)
          rwa [Nat.add_sub_cancel' hamt] at this
    · obtain rfl : n = 0 := by omega
      simpa using (Uio.advance_nil h).symm

/-- `uiomovezeros` stores `n` zeros, or fewer and then fails, on a bad address. -/
theorem uiomovezeros_spec (n : Nat) (u : Uio) (h : u.Fits) (hrw : u.uioRw = .read)
    (hn : n ≤ u.uioResid) :
    Sat (fun _ => False) (uiomovezeros n) u (fun r v => match r with
      | .ok _ => v = u.advance (List.replicate n 0)
      | .error e => e = .efault ∧ u.Faults n ∧ ∃ k < n, v = u.advance (List.replicate k 0)) := by
  simp only [uiomovezeros, sat_bind, sat_get, sat_check, hrw, if_true]
  exact uiomovezerosLoop_spec n n le_rfl u h hrw hn

end Os161.Kern
