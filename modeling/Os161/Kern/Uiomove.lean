import Os161.Kern.Uio

/-!
# Sequences of transfers

What `uiomove` and `uiomovezeros` do when they are called with any amounts, one after the other, on
a descriptor whose buffer may be longer than `uio_resid`. The loop of `uiomove` asks whether
anything is left of `uio_resid`, but cuts the amount down to the length of the buffer only. A
request that is longer than what is left goes past it, into the rest of the buffer, and `uio_resid`
wraps around. Nothing keeps `uio_offset` from wrapping either.
-/
namespace Os161.Kern

open Lib Prog

abbrev UioM := Prog UioPanic Errno Uio

inductive UioCall where
  /-- `uiomove` with all of a buffer -/
  | move (ptr : List Byte)
  | zeros (n : Nat)
  deriving DecidableEq

/-- The bytes that a call is to transfer. When a file is written, only their number matters. -/
def UioCall.bytes : UioCall → List Byte
  | .move ptr => ptr
  | .zeros n => List.replicate n 0

def UioCall.run : UioCall → UioM (List Byte)
  | .move ptr => uiomove ptr ptr.length
  | .zeros n => do
    uiomovezeros n
    pure []

/-- The descriptor `v` says that `d` went through `u`, which had that much left. -/
structure Moved (u v : Uio) (d : List Byte) : Prop where
  le : d.length ≤ u.uioResid
  offset : v.offset = u.offset + d.length
  eq : v = { u with
    iov := u.iov.drop d.length
    moved := u.moved ++ d
    mapped := u.mapped - d.length
    uioOffset := v.uioOffset
    uioResid := u.uioResid - d.length }

/-- All the bytes, or as many as `uio_resid` lets through. -/
def promised (u : Uio) (data : List Byte) : List Byte := transfer u data (min data.length u.uioResid)

/-- The promise for `data`. Where a bad address is met, the descriptor is left with the bytes that
were not transferred. -/
def Kept (u : Uio) (data : List Byte) (r : Except Errno (List Byte)) (v : Uio) : Prop := match r with
  | .ok out => Moved u v (promised u data) ∧ (u.uioRw = .write → out = promised u data)
  | .error e => e = .efault ∧ v.Faults v.iov.length ∧ ∃ d, d <+: promised u data ∧ Moved u v d

section Descriptors

variable {u v w : Uio} {c d ptr data : List Byte}

theorem Uio.offset_lt (u : Uio) : u.offset < 2 ^ 31 := by
  unfold Uio.offset
  rw [BitVec.toInt_eq_toNat_cond]
  have := (BitVec.ofNat 32 u.uioOffset).isLt
  split <;> omega

theorem Moved.resid (h : Moved u v d) : v.uioResid = u.uioResid - d.length := by rw [h.eq]

theorem Moved.trans (h : Moved u v c) (h' : Moved v w d) : Moved u w (c ++ d) := by
  have hc := h.le
  have hd := h'.le
  have ho := h.offset
  have ho' := h'.offset
  rw [h.resid] at hd
  refine ⟨by rw [List.length_append]; omega, by rw [List.length_append]; omega, ?_⟩
  rw [h'.eq, h.eq]
  simp only [List.length_append, List.drop_drop, List.append_assoc, Nat.sub_sub]

theorem Moved.cancel (h : Moved u v c) (h' : Moved u w (c ++ d)) : Moved v w d := by
  have hd := h'.le
  have ho := h.offset
  have ho' := h'.offset
  rw [List.length_append] at hd ho'
  refine ⟨by rw [h.resid]; omega, by omega, ?_⟩
  rw [h'.eq, h.eq]
  simp only [List.length_append, List.drop_drop, List.append_assoc, Nat.sub_sub]

end Descriptors

/-! ## One call -/

section OneCall

variable {u : Uio} {ptr : List Byte}

end OneCall

/-! ## Sequences of pieces -/

section Pieces

variable {u v w : Uio} {ptr data d : List Byte} {ptrs : List (List Byte)}

theorem Uio.Faults.mono {m n : Nat} (h : u.Faults m) (hmn : m ≤ n) : u.Faults n :=
  ⟨h.1, Nat.lt_of_lt_of_le h.2 hmn⟩

variable {n : Nat} {ns : List Nat}

/-- The promise includes an offset for the last byte that was moved. -/
theorem Kept.offset_lt {r : Except Errno (List Byte)} (h : Kept u data r v) :
    u.offset + v.moved.length < 2 ^ 31 + u.moved.length := by
  have hlt {d : List Byte} (hm : Moved u v d) : u.offset + v.moved.length < 2 ^ 31 + u.moved.length := by
    have ho := hm.offset
    have := v.offset_lt
    rw [hm.eq] at ⊢
    simp only [List.length_append]
    omega
  cases r with
  | ok out => exact hlt h.1
  | error e =>
    obtain ⟨-, -, d, -, hm⟩ := h
    exact hlt hm

end Pieces

/-! ## Calls as pieces -/

section Calls

variable {u : Uio} {K : UioPanic → Prop} {calls : List UioCall}

/-- The buffers that the loop of `uiomove` is entered with. -/
def UioCall.pieces : UioCall → List (List Byte)
  | .move ptr => [ptr]
  | .zeros n => List.replicate (n / zerosSize) (List.replicate zerosSize 0) ++
      if n % zerosSize = 0 then [] else [List.replicate (n % zerosSize) 0]

end Calls

end Os161.Kern
