import Os161.Sfs.Bmap

/-!
# Reading and writing files

Specifications of `sfs_partialio`, `sfs_blockio` and `sfs_io`. Every piece of a transfer moves
some number of bytes between the descriptor and the file (`Moved`), and pieces compose
(`Moved.trans`). A write that fails has stored whole blocks up to a block boundary, and
nothing else; a read changes nothing. When the device fails to write a block, its bytes have
already been taken out of the descriptor, which is then ahead of the file (`Torn`).
-/
namespace Os161.Sfs

open Lib Kern SfsFs Prog

variable {L H : Nat → Prop} {s t : SfsFs} {u w : Uio} {ino : Nat}

section Lifting

variable {α : Type} {K : SfsPanic → Prop} {Q : Except Errno α → SfsFs × Uio → Prop}

@[simp] theorem sat_onFs (m : SfsM α) : Sat K (onFs m) (s, u) Q ↔ Sat K m s (fun r t => Q r (t, u)) :=
  sat_focus ..

@[simp] theorem sat_onUio (m : Prog UioPanic Errno Uio α) : Sat K (onUio m) (s, u) Q ↔
    Sat (fun p => K (.uio p)) m u (fun r w => Q r (s, w)) :=
  sat_focus ..

@[simp] theorem sat_getUio {Q : Except Errno Uio → SfsFs × Uio → Prop} :
    Sat K getUio (s, u) Q ↔ Q (.ok u) (s, u) := Iff.rfl

end Lifting

/-- `Endures` for a call that moves data: it ends as `P` says or, after a failed transfer, with
`EIO` as `R` says. -/
def EnduresIo {α : Type} (K : SfsPanic → Prop) (m : SfsIoM α) (s : SfsFs) (u : Uio)
    (P : Except Errno α → SfsFs × Uio → Prop) (R : SfsFs × Uio → Prop) : Prop :=
  Prog.Sat K m (s, u) fun r p => Fares s r p.1 ∧ (P r (p.1.calm, p.2) ∨ r = .error .eio ∧ R (p.1.calm, p.2))

namespace EnduresIo

variable {α : Type} {K : SfsPanic → Prop} {m : SfsIoM α} {P : Except Errno α → SfsFs × Uio → Prop}
  {R : SfsFs × Uio → Prop}

theorem seq (h : EnduresIo K m s u P R) {Q : Except Errno α → SfsFs × Uio → Prop}
    (ok : ∀ a t w, Fares s (.ok a : Except Errno α) t → P (.ok a) (t.calm, w) → Q (.ok a) (t, w))
    (err : ∀ e t w, Fares s (.error e : Except Errno α) t → P (.error e) (t.calm, w) → Q (.error e) (t, w))
    (bad : ∀ t w, Fares s (.error .eio : Except Errno α) t → R (t.calm, w) → Q (.error .eio) (t, w)) :
    Sat K m (s, u) Q := by
  refine h.mono fun r p hr => ?_
  obtain ⟨hf, hp | ⟨rfl, hb⟩⟩ := hr
  · cases r with
    | ok a => exact ok a p.1 p.2 hf hp
    | error e => exact err e p.1 p.2 hf hp
  · exact bad p.1 p.2 hf hb

theorem healthy (h : EnduresIo K m s u P R) (C : Core L H s) : Sat K m (s, u) P := by
  refine Sat.mono h fun r p hr => ?_
  obtain ⟨ht, he⟩ := hr.1.calm_eq C
  have hp := hr.2.resolve_right fun hb => he hb.1
  rwa [ht] at hp

end EnduresIo

/-! ## Bytes moved -/

def pending (s : SfsFs) (ino : Nat) (u : Uio) (k : Nat) : List Byte :=
  match u.uioRw with
  | .read => s.fileBytes ino u.uioOffset k
  | .write => u.iov.take k

theorem length_pending {k : Nat} (hf : u.Fits) (hk : k ≤ u.uioResid) : (pending s ino u k).length = k := by
  have := hf.resid_le
  unfold pending
  cases u.uioRw <;> simp; omega

structure Moved (L H : Nat → Prop) (ino : Nat) (s : SfsFs) (u : Uio) (k : Nat) (t : SfsFs)
    (w : Uio) : Prop where
  core : Core L H t
  step : FileStep L ino s t
  size : (t.inode ino).sfiSize = (s.inode ino).sfiSize
  le : k ≤ u.uioResid
  fits_file : k ≠ 0 → u.uioOffset + k ≤ sfsMaxblocks * sfsBlocksize
  uio : w = u.advance (pending s ino u k)
  read : u.uioRw = .read → t = s
  write : u.uioRw = .write → ∀ i, t.byte ino i =
    if u.uioOffset ≤ i ∧ i < u.uioOffset + k then u.iov.getD (i - u.uioOffset) 0
    else s.byte ino i

/-- A transfer of `len` bytes stopped after `k`. -/
structure Stalled (u : Uio) (len k : Nat) : Prop where
  short : k < len ∨ (len = 0 ∧ u.uioOffset % sfsBlocksize ≠ 0)
  read : u.uioRw = .read → u.uioSegflg = .sysspace →
    sfsMaxblocks * sfsBlocksize ≤ u.uioOffset + k
  write : u.uioRw = .write → k = 0 ∨ (u.uioOffset + k) % sfsBlocksize = 0

/-- The specification of a transfer of `len` bytes. -/
def Transfers (L H : Nat → Prop) (ino : Nat) (s : SfsFs) (u : Uio) (len : Nat)
    (r : Except Errno Unit) (p : SfsFs × Uio) : Prop :=
  ∃ k, Moved L H ino s u k p.1 p.2 ∧ (r = .ok () → k = len) ∧
    ∀ e, r = .error e → Stalled u len k

/-- Why a transfer of `len` bytes stopped after `k`, on a device that works. -/
def Reason (u : Uio) (len k : Nat) : Errno → Prop
  | .efault => u.Faults len
  | .einval => sfsMaxblocks * sfsBlocksize ≤ u.uioOffset + k
  | .enospc => u.uioRw = .write
  | _ => False

/-- `Transfers`, with the reasons for which a transfer stops. -/
def Stops (L H : Nat → Prop) (ino : Nat) (s : SfsFs) (u : Uio) (len : Nat)
    (r : Except Errno Unit) (p : SfsFs × Uio) : Prop :=
  ∃ k, Moved L H ino s u k p.1 p.2 ∧ (r = .ok () → k = len) ∧
    ∀ e, r = .error e → Stalled u len k ∧ Reason u len k e

/-- The device failed in a transfer of `len` bytes: `m` bytes went through the descriptor, but only
`k` of them between it and the file. -/
structure Torn (L H : Nat → Prop) (ino : Nat) (s : SfsFs) (u : Uio) (len k m : Nat)
    (p : SfsFs × Uio) : Prop where
  moved : ∃ H', (∀ b, H b → H' b) ∧ Moved L H' ino s u k p.1 (u.advance (pending s ino u k))
  stored : k ≤ m
  le : m ≤ len ∧ len ≤ u.uioResid
  fits_file : m ≠ 0 → u.uioOffset + m ≤ sfsMaxblocks * sfsBlocksize
  uio : p.2 = u.advance (pending s ino u m)
  short : k < len ∨ (len = 0 ∧ u.uioOffset % sfsBlocksize ≠ 0)
  write : u.uioRw = .write → k = 0 ∨ (u.uioOffset + k) % sfsBlocksize = 0
  chunk : m = k ∨ m = len ∨ (u.uioOffset + m) % sfsBlocksize = 0

theorem fileBytes_append (s : SfsFs) (ino o j k : Nat) :
    s.fileBytes ino o (j + k) = s.fileBytes ino o j ++ s.fileBytes ino (o + j) k := by
  simp [fileBytes, List.range_add, Nat.add_assoc]

namespace Moved

section

variable {k : Nat} (h : Moved L H ino s u k t w)
include h

theorem fits (hf : u.Fits) : w.Fits := by
  rw [h.uio]
  exact hf.advance (by rw [length_pending hf h.le]; exact h.le)

theorem offset (hf : u.Fits) : w.uioOffset = u.uioOffset + k := by
  have hlt := hf.offset_lt
  have hmax : sfsMaxblocks * sfsBlocksize < 2 ^ 32 := by decide
  have hk := h.fits_file
  rw [h.uio, Uio.advance_offset, length_pending hf h.le]
  exact Nat.mod_eq_of_lt (by omega)

theorem resid (hf : u.Fits) : w.uioResid = u.uioResid - k := by
  rw [h.uio, Uio.advance_resid, length_pending hf h.le, sub32_of_le h.le hf.resid_lt]

theorem rw_eq : w.uioRw = u.uioRw := by
  rw [h.uio, Uio.advance_rw]

theorem segflg : w.uioSegflg = u.uioSegflg := by
  rw [h.uio, Uio.advance_segflg]

theorem iov (hf : u.Fits) : w.iov = u.iov.drop k := by
  rw [h.uio, Uio.advance_iov, length_pending hf h.le]

end

theorem zero (hf : u.Fits) (C : Core L H t) (q : Quiet L ino s t) (hr : u.uioRw = .read → t = s) :
    Moved L H ino s u 0 t u where
  core := C
  step := q.toFileStep
  size := q.size
  le := Nat.zero_le _
  fits_file h := absurd rfl h
  uio := by
    have : pending s ino u 0 = [] := by
      unfold pending
      cases u.uioRw <;> simp [fileBytes]
    rw [this, Uio.advance_nil hf]
  read := hr
  write _ i := by
    rw [if_neg (by omega), q.content i]

theorem pending_add {j : Nat} (h : Moved L H ino s u j t w) (hf : u.Fits) (k : Nat) :
    pending s ino u (j + k) = pending s ino u j ++ pending t ino w k := by
  unfold pending
  rw [h.rw_eq, h.offset hf, h.iov hf]
  cases hrw : u.uioRw with
  | read =>
    rw [h.read hrw]
    exact fileBytes_append s ino u.uioOffset j k
  | write => exact List.take_add

theorem advance_add {j k : Nat} (h : Moved L H ino s u j t w) (hf : u.Fits) (hk : k ≤ w.uioResid) :
    w.advance (pending t ino w k) = u.advance (pending s ino u (j + k)) := by
  have hlen : (pending t ino w k).length = k := length_pending (h.fits hf) hk
  have hle := h.le
  rw [h.resid hf] at hk
  rw [h.pending_add hf, ← Uio.advance_append hf, ← h.uio]
  rw [length_pending hf h.le, hlen]
  omega

theorem trans {H' : Nat → Prop} {j k : Nat} {t' : SfsFs} {w' : Uio} (h : Moved L H ino s u j t w)
    (hf : u.Fits) (h' : Moved L H' ino t w k t' w') : Moved L H' ino s u (j + k) t' w' := by
  have hle := h'.le
  rw [h.resid hf] at hle
  have hjk : j + k ≤ u.uioResid := by have := h.le; omega
  refine ⟨h'.core, h.step.trans h'.step, h'.size.trans h.size, hjk, fun hne => ?_, ?_, fun hr => ?_, fun hw i => ?_⟩
  · have h1 := h.fits_file
    have h2 := h'.fits_file
    rw [h.offset hf] at h2
    omega
  · rw [h'.uio, h.advance_add hf h'.le]
  · rw [h'.read (h.rw_eq.trans hr), h.read hr]
  · rw [h'.write (h.rw_eq.trans hw) i, h.write hw i, h.offset hf, h.iov hf]
    by_cases h1 : u.uioOffset + j ≤ i ∧ i < u.uioOffset + j + k
    · rw [if_pos h1, if_pos (by omega), List.getD_eq_getElem?_getD, List.getElem?_drop, List.getD_eq_getElem?_getD]
      congr 2
      omega
    · rw [if_neg h1]
      by_cases h2 : u.uioOffset ≤ i ∧ i < u.uioOffset + j
      · rw [if_pos h2, if_pos (by omega)]
      · rw [if_neg h2, if_neg (by omega)]

end Moved

variable {r : Except Errno Unit}

theorem Stops.transfers {len : Nat} {p : SfsFs × Uio}
    (h : Stops L H ino s u len r p) : Transfers L H ino s u len r p := by
  obtain ⟨k, hm, hok, herr⟩ := h
  exact ⟨k, hm, hok, fun e he => (herr e he).1⟩

/-- The device failed before the first byte, or after `m` bytes were taken that it did not store. -/
theorem Torn.lost {len m : Nat} (hf : u.Fits) (h : Leaked L H s ino t)
    (hr : u.uioRw = .read → t = s) (hres : len ≤ u.uioResid)
    (hpos : 0 < len ∨ u.uioOffset % sfsBlocksize ≠ 0) (hm : m = 0 ∨ m = len)
    (hmax : m ≠ 0 → u.uioOffset + m ≤ sfsMaxblocks * sfsBlocksize)
    (hw : w = u.advance (pending s ino u m)) : Torn L H ino s u len 0 m (t, w) := by
  obtain ⟨H', hH, D⟩ := h.core
  have hz : Moved L H' ino s u 0 t u := .zero hf D h.quiet hr
  refine ⟨⟨H', hH, hz.uio ▸ hz⟩, Nat.zero_le m, by omega, hmax, hw, by omega, fun _ => .inl rfl, ?_⟩
  exact hm.imp_right .inl

/-- A piece of a transfer stopped, so the transfer did. -/
theorem Stops.longer {len len' : Nat} {e : Errno} {p : SfsFs × Uio} (h : Stops L H ino s u len (.error e) p)
    (hlen : len = 0 → len' = 0 ∨ u.uioOffset % sfsBlocksize = 0) (hle : len ≤ len') : Stops L H ino s u len' (.error e) p := by
  obtain ⟨k, hm, -, herr⟩ := h
  refine ⟨k, hm, nofun, fun e' he => ?_⟩
  obtain ⟨hs, hr⟩ := herr e' he
  have hshort := hs.short
  refine ⟨⟨by omega, hs.read, hs.write⟩, ?_⟩
  cases e' with
  | efault => exact ⟨hr.1, Nat.lt_of_lt_of_le hr.2 hle⟩
  | einval | enospc => exact hr
  | _ => exact hr.elim

theorem Torn.longer {len len' k m : Nat} {p : SfsFs × Uio} (h : Torn L H ino s u len k m p)
    (hlen : len = 0 → len' = 0 ∨ u.uioOffset % sfsBlocksize = 0) (hle : len ≤ len')
    (hend : len = len' ∨ (u.uioOffset + len) % sfsBlocksize = 0) (hres : len' ≤ u.uioResid) :
    Torn L H ino s u len' k m p := by
  have hshort := h.short
  have hm := h.le
  refine ⟨h.moved, h.stored, by omega, h.fits_file, h.uio, by omega, h.write, ?_⟩
  rcases h.chunk with hk | rfl | h0
  · exact .inl hk
  · exact .inr hend
  · exact .inr (.inr h0)

section After

variable {j len : Nat} {p : SfsFs × Uio} (h : Moved L H ino s u j t w) (hf : u.Fits)
  (hb : (u.uioOffset + j) % sfsBlocksize = 0) (hlen : len ≠ 0)
include h hf hb hlen

/-- A transfer continues where an earlier piece of it ended on a block boundary. -/
theorem Stops.after (h' : Stops L H ino t w len r p) : Stops L H ino s u (j + len) r p := by
  obtain ⟨k, hm, hok, herr⟩ := h'
  refine ⟨j + k, h.trans hf hm, fun hr => by rw [hok hr], fun e he => ?_⟩
  obtain ⟨hs, hr⟩ := herr e he
  have hoff := h.offset hf
  refine ⟨⟨by have := hs.short; omega, fun hr hseg => ?_, fun hw => .inr ?_⟩, ?_⟩
  · have := hs.read (h.rw_eq.trans hr) (h.segflg.trans hseg)
    omega
  · rcases hs.write (h.rw_eq.trans hw) with rfl | h0
    · exact hb
    · rwa [hoff, Nat.add_assoc] at h0
  · cases e with
    | efault =>
      refine ⟨h.segflg ▸ hr.1, ?_⟩
      have hmap : w.mapped = u.mapped - j := by
        rw [h.uio, Uio.advance_mapped, length_pending hf h.le]
      have := hr.2
      omega
    | einval => exact Nat.le_trans hr (by rw [hoff, Nat.add_assoc])
    | enospc => exact h.rw_eq.symm.trans hr
    | _ => exact hr.elim

theorem Torn.after {k m : Nat} (h' : Torn L H ino t w len k m p) : Torn L H ino s u (j + len) (j + k) (j + m) p := by
  obtain ⟨H', hH, hm⟩ := h'.moved
  have hoff := h.offset hf
  have hres := h.resid hf
  have hle := h'.le
  have hj := h.le
  refine ⟨⟨H', hH, ?_⟩, Nat.add_le_add_left h'.stored j, by omega, fun _ => ?_, ?_, ?_, fun hw => .inr ?_, ?_⟩
  · rw [← h.advance_add hf hm.le]
    exact h.trans hf hm
  · have h1 := h.fits_file
    have h2 := h'.fits_file
    omega
  · rw [h'.uio, h.advance_add hf (by omega)]
  · have := h'.short
    omega
  · rcases h'.write (h.rw_eq.trans hw) with rfl | h0
    · exact hb
    · rwa [hoff, Nat.add_assoc] at h0
  · rcases h'.chunk with rfl | rfl | h0
    · exact .inl rfl
    · exact .inr (.inl rfl)
    · exact .inr (.inr (by rwa [hoff, Nat.add_assoc] at h0))

end After

/-- The call moves `len` bytes between the descriptor and the file `ino`, as far as memory, space
and the device allow it. -/
def Carries (L H : Nat → Prop) (ino : Nat) (m : SfsIoM Unit) (s : SfsFs) (u : Uio) (len : Nat) : Prop :=
  EnduresIo NoPanic m s u (Stops L H ino s.calm u len)
    (fun p => ∃ k n, Torn L H ino s.calm u len k n p)

variable {n : Nat}

/-- The rest of a transfer of which `j` bytes are done. -/
theorem Carries.after {m : SfsIoM Unit} {j len : Nat} (h : Carries L H ino m t w len)
    (hft : Fares s (.ok () : Except Errno Unit) t) (hm : Moved L H ino s.calm u j t.calm w) (hf : u.Fits)
    (hb : (u.uioOffset + j) % sfsBlocksize = 0) (hlen : len ≠ 0) (hsum : j + len = n) :
    Sat NoPanic m (t, w) fun r p => Fares s r p.1 ∧ (Stops L H ino s.calm u n r (p.1.calm, p.2) ∨
        r = .error .eio ∧ ∃ k i, Torn L H ino s.calm u n k i (p.1.calm, p.2)) := by
  subst hsum
  refine Sat.mono h fun r p hp => ⟨hft.trans hp.1, ?_⟩
  rcases hp.2 with h | ⟨he, k, i, h⟩
  · exact .inl (h.after hm hf hb hlen)
  · exact .inr ⟨he, j + k, j + i, h.after hm hf hb hlen⟩

/-! ## One block -/

variable {o : Nat}

section Block

variable (C : Core L H s) {k : Nat} (hl : L ino) (h0 : s.ptr (.data ino k) ≠ 0)
include C hl h0

/-- Writing a data block of a file changes that block of the contents. -/
theorem Core.block_writeData (d : Block) (j : Nat) :
    (s.writeSector (s.ptr (.data ino k)) d).block ino j = if j = k then d else s.block ino j := by
  have hp := ptr_writeSector d (C.plain_of_data hl h0) (p := .data ino j) hl
  unfold block
  rw [hp]
  by_cases hj : j = k
  · subst hj
    rw [if_neg h0, if_pos rfl, sector_writeSector, if_pos rfl]
  · rw [if_neg hj]
    split
    · rfl
    · next hj0 =>
      rw [sector_writeSector, if_neg]
      intro he
      exact hj (Ptr.data.inj (C.owned.pointer_inj (p := .data ino j) (q := .data ino k) hl hl hj0 he)).2

theorem Core.fileStep_writeData (d : Block) : FileStep L ino s (s.writeSector (s.ptr (.data ino k)) d) := by
  have hb := C.plain_of_data hl h0
  refine ⟨⟨rfl, rfl, rfl, rfl, rfl, rfl⟩, map_put_self C.table.ino_nodup _,
    fun j hj _ => inode_writeSector d hb hj, fun j hj hne i => ?_, ?_, ?_⟩
  · refine byte_congr (ptr_writeSector d hb (p := .data j _) hj) fun hj0 => ?_
    rw [sector_writeSector, if_neg]
    intro he
    exact hne (Ptr.data.inj (C.owned.pointer_inj (p := .data j _) (q := .data ino k) hj hl hj0 he)).1
  · rw [inode_writeSector d hb hl]
  · rw [inode_writeSector d hb hl]

/-- Storing `d` at byte `o` of block `k`, where `d` stays inside the block. -/
theorem Core.byte_writeData {d : Block} {l : List Byte}
    (hk : k = o / sfsBlocksize) (hlen : o % sfsBlocksize + l.length ≤ sfsBlocksize) (hd : ∀ j < sfsBlocksize, d.get j =
      if o % sfsBlocksize ≤ j ∧ j < o % sfsBlocksize + l.length
      then l.getD (j - o % sfsBlocksize) 0 else (s.block ino k).get j) (i : Nat) :
    (s.writeSector (s.ptr (.data ino k)) d).byte ino i =
      if o ≤ i ∧ i < o + l.length then l.getD (i - o) 0 else s.byte ino i := by
  unfold byte
  rw [C.block_writeData hl h0]
  unfold sfsBlocksize at *
  by_cases hi : i / 512 = k
  · rw [if_pos hi, hd _ (Nat.mod_lt _ (by decide))]
    have hio : o ≤ i ∧ i < o + l.length ↔ o % 512 ≤ i % 512 ∧ i % 512 < o % 512 + l.length := by
      omega
    by_cases hc : o ≤ i ∧ i < o + l.length
    · rw [if_pos (hio.1 hc), if_pos hc]
      congr 1
      omega
    · rw [if_neg (fun h => hc (hio.2 h)), if_neg hc, hi]
  · rw [if_neg hi, if_neg]
    omega

end Block

theorem fileBytes_eq_slice (s : SfsFs) (ino : Nat) (h : o % sfsBlocksize + n ≤ sfsBlocksize) :
    s.fileBytes ino o n = (s.block ino (o / sfsBlocksize)).slice (o % sfsBlocksize) n := by
  refine List.map_congr_left fun i hi => ?_
  have hi := List.mem_range.1 hi
  unfold byte sfsBlocksize at *
  rw [show (o + i) / 512 = o / 512 by omega, show (o + i) % 512 = o % 512 + i by omega]

theorem take_slice (b : Block) (k : Nat) {m : Nat} (h : n ≤ m) : (b.slice k m).take n = b.slice k n := by
  simp [Block.slice, ← List.map_take, List.take_range, Nat.min_eq_left h]

theorem getD_take {l : List Byte} {i : Nat} (h : i < n) : (l.take n).getD i 0 = l.getD i 0 := by
  rw [List.getD_eq_getElem?_getD, List.getElem?_take_of_lt h, List.getD_eq_getElem?_getD]

/-- What is moved inside a mapped block ends below the maximal file size. -/
theorem end_le_of_block_lt (hm : o / sfsBlocksize < sfsMaxblocks)
    (hn : o % sfsBlocksize + n ≤ sfsBlocksize) : o + n ≤ sfsMaxblocks * sfsBlocksize := by
  have h1 := Nat.div_add_mod' o sfsBlocksize
  have h2 : (o / sfsBlocksize + 1) * sfsBlocksize ≤ sfsMaxblocks * sfsBlocksize :=
    Nat.mul_le_mul_right _ hm
  rw [Nat.succ_mul] at h2
  omega

theorem sfsIobuf_endures (C : Core L H s.calm) (hl : L ino) {k : Nat} {m : UioRw}
    (hr : s.calm.ptr (.data ino k) = 0 → m = .read) : Endures NoPanic (sfsIobuf (s.calm.ptr (.data ino k)) m) s
      (fun r t => r = .ok (s.calm.block ino k) ∧ t = s.calm) (· = s.calm) := by
  unfold sfsIobuf
  by_cases h0 : s.calm.ptr (.data ino k) = 0
  · obtain rfl := hr h0
    simp only [h0, if_true, Endures, sat_bind, sat_check, sat_pure]
    exact ⟨.still rfl rfl, .inl ⟨by simp [block, h0], trivial⟩⟩
  · have hlt := (C.owned.pointer_used (p := .data ino k) hl h0).1
    simp only [h0, if_false]
    have hb : s.calm.block ino k = s.sector (s.calm.ptr (.data ino k)) := by
      simp only [block, h0, if_false]
      rfl
    rw [hb]
    exact sfsRblock_spec (s := s) (C.dBlocks ▸ hlt)

/-- What `sfs_bmap` failing means for the piece of a transfer that asked for the block. -/
theorem Stops.of_bmap_error (hf : u.Fits) {len : Nat} {e : Errno} (hpos : 0 < len ∨ u.uioOffset % sfsBlocksize ≠ 0)
    (h : BmapPost L H s ino (u.uioOffset / sfsBlocksize) (u.uioRw == .write) (.error e) t) :
    Stops L H ino s u len (.error e) (t, u) := by
  have hcase := h.error e rfl
  refine ⟨0, .zero hf h.core h.quiet fun hr => ?_, nofun, ?_⟩
  · rcases hcase with ⟨-, -, rfl⟩ | ⟨-, hw, -⟩
    · rfl
    · simp [hr] at hw
  · intro e' he'
    obtain rfl : e = e' := by simpa using he'
    rcases hcase with ⟨rfl, hm, -⟩ | ⟨rfl, hw, -⟩
    · have hle : sfsMaxblocks * sfsBlocksize ≤ u.uioOffset + 0 :=
        (Nat.le_div_iff_mul_le (by decide)).1 hm
      exact ⟨⟨by omega, fun _ _ => hle, fun _ => .inl rfl⟩, hle⟩
    · have hw : u.uioRw = .write := by simpa using hw
      exact ⟨⟨by omega, by simp [hw], fun _ => .inl rfl⟩, hw⟩

/-- The same when the device fails under `sfs_bmap`. -/
theorem Torn.of_bmap (hf : u.Fits) (C : Core L H s) {len : Nat} (hres : len ≤ u.uioResid)
    (hpos : 0 < len ∨ u.uioOffset % sfsBlocksize ≠ 0) (h : t = s ∨ (u.uioRw == .write) = true ∧ Leaked L H s ino t) :
    Torn L H ino s u len 0 0 (t, u) := by
  have hleak : Leaked L H s ino t := by
    rcases h with rfl | h
    · exact .refl C
    · exact h.2
  have hz : Moved L H ino s u 0 s u := .zero hf C (.refl C.table) fun _ => rfl
  refine .lost hf hleak (fun hr => ?_) hres hpos (.inl rfl) (absurd rfl) hz.uio
  exact h.elim id fun h => by simp [hr] at h

/-- `sfs_blockio` gives the descriptor back with the file's offset, whatever the device did with it.
-/
theorem restore_descriptor (u : Uio) (b : Nat) (d : List Byte) :
    let w := { u with uioOffset := b * sfsBlocksize, uioResid := sfsBlocksize }.advance d
    { w with
      uioOffset := sub32 (w.uioOffset + u.uioOffset) (b * sfsBlocksize)
      uioResid := sub32 (w.uioResid + u.uioResid) sfsBlocksize } = u.advance d := by
  have h1 : sub32 ((b * sfsBlocksize + d.length) % 2 ^ 32 + u.uioOffset) (b * sfsBlocksize) =
      (u.uioOffset + d.length) % 2 ^ 32 := by
    unfold sub32 sfsBlocksize
    omega
  have h2 : sub32 (sub32 sfsBlocksize d.length + u.uioResid) sfsBlocksize = sub32 u.uioResid d.length := by
    unfold sub32 sfsBlocksize
    omega
  simp only [Uio.advance, h1, h2]

/-- The same when the device did nothing with it. -/
theorem restore_untouched (hf : u.Fits) (b : Nat) : { u with
    uioOffset := sub32 (b * sfsBlocksize + u.uioOffset) (b * sfsBlocksize)
    uioResid := sub32 (sfsBlocksize + u.uioResid) sfsBlocksize } = u := by
  have ho := hf.offset_lt
  have hr := hf.resid_lt
  have h1 : sub32 (b * sfsBlocksize + u.uioOffset) (b * sfsBlocksize) = u.uioOffset := by
    unfold sub32 sfsBlocksize
    omega
  have h2 : sub32 (sfsBlocksize + u.uioResid) sfsBlocksize = u.uioResid := by
    unfold sub32 sfsBlocksize
    omega
  rw [h1, h2]

section Pieces

variable {sv : Nat} {v : SfsVnode} (C : Core L H s.calm) (hv : s.vnode? sv = some v) (hf : u.Fits)
include C hv hf

theorem sfsPartialio_endures {len : Nat} (hlen : u.uioOffset % sfsBlocksize + len ≤ sfsBlocksize)
    (hres : len ≤ u.uioResid) (hpos : 0 < len ∨ u.uioOffset % sfsBlocksize ≠ 0) :
    Carries L H v.svIno (sfsPartialio sv (u.uioOffset % sfsBlocksize) len) s u len := by
  have hl := C.live_of_vnode? hv
  simp only [Carries, EnduresIo, sfsPartialio, sat_bind, sat_getUio, sat_check, hlen, if_true, sat_onFs]
  refine (sfsBmap_endures C hv _ _).seq (fun b t hft h => ?_) (fun e t hft h => ?_) fun t hft h => ?_
  · obtain ⟨hm, hb, hw0, hr0⟩ := h.ok b rfl
    have hmax := end_le_of_block_lt hm hlen
    have hrt : u.uioRw = .read → t.calm = s.calm := fun hr => hr0 (by simp [hr])
    have D := h.core
    have hbuf := sfsIobuf_endures D hl (k := u.uioOffset / sfsBlocksize) (m := u.uioRw) fun h0 => by
      cases hrw : u.uioRw with
      | read => rfl
      | write => exact absurd (hb.trans h0) (hw0 (by simp [hrw]))
    have hleak : Leaked L H s.calm v.svIno t.calm := ⟨⟨H, fun _ h => h, D⟩, h.quiet⟩
    rw [← hb] at hbuf
    refine hbuf.seq (fun iobuf t' hft' h' => ?_) (fun e _ _ h => by cases h.1) fun t' hft' h' => ?_
    · obtain ⟨rfl, ht'⟩ : iobuf = t.calm.block v.svIno (u.uioOffset / sfsBlocksize) ∧ t'.calm = t.calm :=
        ⟨by simpa using h'.1, h'.2⟩
      have hft := hft.trans hft'
      rw [← ht'] at hb hrt D hleak ⊢
      simp only [sat_onUio]
      refine Sat.weaken ((uiomove_spec u hf _ hres).mono ?_) fun _ h => h
      rintro (e | d) w' hmv
      · obtain ⟨rfl, rfl, hfault⟩ := hmv
        refine ⟨hft.trans (.still rfl rfl), .inl ⟨0, .zero hf D hleak.quiet hrt, by simp, fun e he => ?_⟩⟩
        obtain rfl : Errno.efault = e := by simpa using he
        exact ⟨⟨by omega, fun _ hseg => absurd hseg hfault.1, fun _ => .inl rfl⟩, hfault⟩
      · obtain ⟨rfl, rfl⟩ := hmv
        cases hrw : u.uioRw with
        | read =>
          have hts := hrt hrw
          have hp : transfer u ((t'.calm.block v.svIno (u.uioOffset / sfsBlocksize)).slice
              (u.uioOffset % sfsBlocksize) (sfsBlocksize - u.uioOffset % sfsBlocksize)) len =
              pending s.calm v.svIno u len := by
            unfold transfer pending
            rw [hrw, hts]
            simp only [fileBytes_eq_slice s.calm v.svIno hlen]
            exact take_slice _ _ (by omega)
          simp only [sat_when, reduceCtorEq, if_false]
          refine ⟨hft.trans (.still rfl rfl), .inl ⟨len, ⟨D, hleak.quiet.toFileStep, hleak.quiet.size,
            hres, fun _ => hmax, by rw [hp], fun _ => hts, ?_⟩, fun _ => rfl, by simp⟩⟩
          simp [hrw]
        | write =>
          have hb0 : b ≠ 0 := hw0 (by simp [hrw])
          have h0 : t'.calm.ptr (.data v.svIno (u.uioOffset / sfsBlocksize)) ≠ 0 := hb ▸ hb0
          have hlt := (D.owned.pointer_used (p := .data v.svIno _) hl h0).1
          have htr (ptr : List Byte) : transfer u ptr len = u.iov.take len := by
            simp [transfer, hrw]
          have hpend : pending s.calm v.svIno u len = u.iov.take len := by simp [pending, hrw]
          have hiov : len ≤ u.iov.length := Nat.le_trans hres hf.resid_le
          have htl : (u.iov.take len).length = len := List.length_take_of_le hiov
          simp only [sat_when, if_true, sat_onFs, htr, hb]
          refine (sfsWblock_spec (s := t') (D.dBlocks ▸ hlt) _).seq (fun _ x hfx hx => ?_)
            (fun e _ _ h => by cases h.1) fun x hfx hx => ?_
          · refine ⟨hft.trans hfx, .inl ⟨len, ?_, fun _ => rfl, by simp⟩⟩
            simp only [hx.2]
            refine ⟨D.writeSector _ (D.plain_of_data hl h0), ?_, ?_, hres, fun _ => hmax, by rw [hpend],
              by simp [hrw], fun _ i => ?_⟩
            · exact hleak.quiet.toFileStep.trans (D.fileStep_writeData hl h0 _)
            · rw [Core.inode_writeSector _ (D.plain_of_data hl h0) hl, hleak.quiet.size]
            · rw [D.byte_writeData hl h0 rfl (l := u.iov.take len) (by rw [htl]; exact hlen)
                (fun j hj => Block.get_splice _ _ hj), htl, hleak.quiet.content i]
              split
              · rw [getD_take (by omega)]
              · rfl
          · -- the bytes were taken out of the descriptor before the block was written
            refine ⟨hft.trans hfx, .inr ⟨rfl, 0, len, ?_⟩⟩
            rw [hx]
            exact .lost hf hleak (by simp [hrw]) hres hpos (.inr rfl) (fun _ => hmax) (by rw [hpend])
    · refine ⟨hft.trans hft'.error, .inr ⟨rfl, 0, 0, ?_⟩⟩
      rw [h']
      have hz : Moved L H v.svIno s.calm u 0 t.calm u := .zero hf D h.quiet hrt
      exact .lost hf hleak hrt hres hpos (.inl rfl) (absurd rfl) hz.uio
  · exact ⟨hft.error, .inl (.of_bmap_error hf hpos h)⟩
  · exact ⟨hft.error, .inr ⟨rfl, 0, 0, .of_bmap hf C hres hpos h⟩⟩

omit hv hf in
/-- A whole block between the device and a descriptor that asks for exactly that block. The bytes of
a block that is not written are lost to the descriptor. -/
theorem sfsRwblock_endures {b : Nat} (hb : b < s.nblocks) (hsp : u.SpaceOk) (hiov : sfsBlocksize ≤ u.iov.length)
    (ho : u.uioOffset = b * sfsBlocksize) (hres : u.uioResid = sfsBlocksize) :
    EnduresIo NoPanic sfsRwblock s u (fun r p => match r with
      | .ok _ => p.2 = u.advance (transfer u ((s.sector b).slice 0 sfsBlocksize) sfsBlocksize) ∧
          p.1 = match u.uioRw with
            | .read => s.calm
            | .write => s.calm.writeSector b (Block.ofFn fun k => u.iov.getD k 0)
      | .error e => p = (s.calm, u) ∧ e = .efault ∧ u.Faults sfsBlocksize)
      (fun p => p.1 = s.calm ∧
        (p.2 = u ∨ u.uioRw = .write ∧ p.2 = u.advance (u.iov.take sfsBlocksize))) := by
  have hdiv : u.uioOffset / sfsBlocksize = b := by
    rw [ho]
    exact Nat.mul_div_cancel _ (by decide)
  have hmod : u.uioOffset % sfsBlocksize = 0 := by
    rw [ho]
    exact Nat.mul_mod_left _ _
  have hdev : b < s.sfsDevice.dBlocks := C.dBlocks ▸ hb
  simp only [EnduresIo, sfsRwblock, sat_bind, sat_getUio, sat_check, hmod, hres, and_self, if_true, hdiv]
  cases hrw : u.uioRw with
  | read =>
    simp only [sat_bind, sat_onFs, sat_onUio, sat_pure]
    refine (sfsRblock_spec hdev).seq (fun d t hft h => ?_) (fun e _ _ h => by cases h.1)
      fun t hft h => ⟨hft.error, .inr ⟨rfl, h, .inl trivial⟩⟩
    obtain ⟨rfl, ht⟩ : d = s.sector b ∧ t.calm = s.calm := ⟨by simpa using h.1, h.2⟩
    refine Sat.weaken ((uiomove_once u hsp _ (by decide) hiov (Nat.le_of_eq hres.symm)).mono ?_) fun _ h => h
    rintro (e | d) w hw
    · obtain ⟨rfl, rfl, hfault⟩ := hw
      exact ⟨hft.trans (.still rfl rfl), .inl ⟨by rw [ht], rfl, hfault⟩⟩
    · obtain ⟨rfl, rfl⟩ := hw
      exact ⟨hft.trans (.still rfl rfl), .inl ⟨rfl, ht⟩⟩
  | write =>
    simp only [sat_bind, sat_onFs, sat_onUio]
    refine Sat.weaken ((uiomove_once u hsp _ (by decide) hiov (Nat.le_of_eq hres.symm)).mono ?_) fun _ h => h
    rintro (e | d) w hw
    · obtain ⟨rfl, rfl, hfault⟩ := hw
      exact ⟨.still rfl rfl, .inl ⟨rfl, rfl, hfault⟩⟩
    · obtain ⟨rfl, rfl⟩ := hw
      have htr (ptr : List Byte) : transfer u ptr sfsBlocksize = u.iov.take sfsBlocksize := by
        simp [transfer, hrw]
      simp only [htr]
      refine (sfsWblock_spec hdev _).seq (fun _ t hft h => ⟨hft, .inl ⟨trivial, h.2.trans ?_⟩⟩)
        (fun e _ _ h => by cases h.1) fun t hft h => ⟨hft, .inr ⟨rfl, h, .inr ⟨trivial, trivial⟩⟩⟩
      congr 1
      refine Block.ext fun k hk => ?_
      rw [Block.get_ofFn _ hk, Block.get_ofFn _ hk]
      exact getD_take hk

theorem sfsBlockio_endures (ho : u.uioOffset % sfsBlocksize = 0) (hres : sfsBlocksize ≤ u.uioResid) :
    Carries L H v.svIno (sfsBlockio sv) s u sfsBlocksize := by
  have hl := C.live_of_vnode? hv
  have hpos : 0 < sfsBlocksize ∨ u.uioOffset % sfsBlocksize ≠ 0 := .inl (by decide)
  simp only [Carries, EnduresIo, sfsBlockio, sat_bind, sat_getUio, sat_onFs]
  refine (sfsBmap_endures C hv _ _).seq (fun b t hft h => ?_) (fun e t hft h => ?_) fun t hft h => ?_
  · obtain ⟨hm, hb, hw0, hr0⟩ := h.ok b rfl
    have hmax {k : Nat} (hk : k ≤ sfsBlocksize) :=
      end_le_of_block_lt (n := k) hm (by omega)
    have hrt : u.uioRw = .read → t.calm = s.calm := fun hr => hr0 (by simp [hr])
    have D := h.core
    have hleak : Leaked L H s.calm v.svIno t.calm := ⟨⟨H, fun _ h => h, D⟩, h.quiet⟩
    simp only [sat_ite]
    by_cases hb0 : b = 0
    · have hrw : u.uioRw = .read := by
        cases hrw : u.uioRw with
        | read => rfl
        | write => exact absurd hb0 (hw0 (by simp [hrw]))
      have hts := hrt hrw
      simp only [hb0, if_true, sat_bind, sat_check, hrw, sat_onUio]
      refine Sat.weaken ((uiomovezeros_spec _ u hf hrw hres).mono ?_) fun _ h => h
      -- an unmapped block reads as zeros
      have hz (k : Nat) (hk : k ≤ sfsBlocksize) : List.replicate k 0 = pending s.calm v.svIno u k := by
        have : s.calm.block v.svIno (u.uioOffset / sfsBlocksize) = Block.zero := by
          rw [← hts]
          simp [block, ← hb, hb0]
        simp only [pending, hrw]
        rw [fileBytes_eq_slice s.calm v.svIno (by omega), this]
        simp [Block.slice, List.map_const']
      have moved (k : Nat) (hk : k ≤ sfsBlocksize) :
          Moved L H v.svIno s.calm u k t.calm (u.advance (List.replicate k 0)) :=
        ⟨D, h.quiet.toFileStep, h.quiet.size, by omega, fun _ => hmax hk, by rw [hz k hk], fun _ => hts,
          by simp [hrw]⟩
      rintro (e | a) w hw
      · obtain ⟨rfl, hfault, k, hk, rfl⟩ := hw
        refine ⟨hft.trans (.still rfl rfl), .inl ⟨k, moved k (by omega), nofun, fun e he => ?_⟩⟩
        obtain rfl : Errno.efault = e := by simpa using he
        exact ⟨⟨.inl hk, fun _ hs => absurd hs hfault.1, by simp [hrw]⟩, hfault⟩
      · subst hw
        exact ⟨hft.trans (.still rfl rfl), .inl ⟨_, moved _ le_rfl, fun _ => rfl, nofun⟩⟩
    · have h0 : t.calm.ptr (.data v.svIno (u.uioOffset / sfsBlocksize)) ≠ 0 := hb ▸ hb0
      have hlt := (D.owned.pointer_used (p := .data v.svIno _) hl h0).1
      rw [← hb] at hlt
      have hiov := hf.resid_le
      simp only [hb0, if_false, sat_bind, sat_check, hres, if_true, sat_onUio, sat_modify, sat_attempt]
      have hun := restore_untouched hf b
      have hz : Moved L H v.svIno s.calm u 0 t.calm u := .zero hf D h.quiet hrt
      refine (sfsRwblock_endures (u := { u with uioOffset := b * sfsBlocksize, uioResid := sfsBlocksize }) D hlt
        hf.space (Nat.le_trans hres hiov) rfl rfl).seq (fun _ x w hfx hp => ?_)
        (fun e x w hfx hp => ?_) fun x w hfx hp => ?_
      · obtain ⟨rfl, hx⟩ : w = _ ∧ x.calm = _ := hp
        simp only [sat_onUio, sat_modify, sat_ofExcept]
        have hblock : t.calm.block v.svIno (u.uioOffset / sfsBlocksize) = t.sector b := by
          simp only [block, ← hb, hb0, if_false]
          rfl
        have hd : transfer { u with uioOffset := b * sfsBlocksize, uioResid := sfsBlocksize }
            ((t.sector b).slice 0 sfsBlocksize) sfsBlocksize = pending s.calm v.svIno u sfsBlocksize := by
          unfold transfer pending
          cases hrw : u.uioRw with
          | read =>
            simp only
            rw [← hrt hrw, fileBytes_eq_slice t.calm v.svIno (by omega), ho, hblock]
            exact take_slice _ _ le_rfl
          | write => rfl
        rw [hd, restore_descriptor]
        refine ⟨hft.trans (hfx.trans (.still rfl rfl)), .inl ⟨sfsBlocksize, ?_, fun _ => rfl, nofun⟩⟩
        cases hrw : u.uioRw with
        | read =>
          simp only [hrw] at hx
          simp only [hx]
          exact ⟨D, h.quiet.toFileStep, h.quiet.size, hres, fun _ => hmax le_rfl, rfl, hrt, by simp [hrw]⟩
        | write =>
          simp only [hrw, hb] at hx
          simp only [hx]
          have htl : (u.iov.take sfsBlocksize).length = sfsBlocksize :=
            List.length_take_of_le (Nat.le_trans hres hiov)
          refine ⟨D.writeSector _ (D.plain_of_data hl h0), ?_, ?_, hres, fun _ => hmax le_rfl, rfl,
            by simp [hrw], fun _ i => ?_⟩
          · exact h.quiet.toFileStep.trans (D.fileStep_writeData hl h0 _)
          · rw [Core.inode_writeSector _ (D.plain_of_data hl h0) hl, h.quiet.size]
          · rw [D.byte_writeData hl h0 rfl (l := u.iov.take sfsBlocksize) (by rw [htl]; omega)
              (fun j hj => ?_), htl, h.quiet.content i]
            · split
              · rw [getD_take (by omega)]
              · rfl
            · rw [Block.get_ofFn _ hj, htl, if_pos (by omega), ho, Nat.sub_zero, getD_take hj]
      · obtain ⟨hp, rfl, hfault⟩ := hp
        obtain ⟨hx, rfl⟩ := Prod.mk.inj hp
        simp only [sat_onUio, sat_modify, sat_ofExcept, hun]
        refine ⟨hft.trans hfx.error, .inl ⟨0, by simpa only [hx] using hz, nofun, fun e he => ?_⟩⟩
        obtain rfl : Errno.efault = e := by simpa using he
        exact ⟨⟨.inl (by decide), fun _ hs => absurd hs hfault.1, fun _ => .inl rfl⟩, hfault⟩
      · obtain ⟨hx, hw⟩ : x.calm = t.calm ∧ _ := hp
        simp only [sat_onUio, sat_modify, sat_ofExcept]
        refine ⟨hft.trans hfx.error, .inr ⟨trivial, 0, ?_⟩⟩
        rw [hx]
        rcases hw with rfl | ⟨hrw, rfl⟩
        · exact ⟨0, hun.symm ▸ .lost hf hleak hrt hres hpos (.inl rfl) (absurd rfl) hz.uio⟩
        · have hrw : u.uioRw = .write := hrw
          have hpend : pending s.calm v.svIno u sfsBlocksize = u.iov.take sfsBlocksize := by
            simp [pending, hrw]
          have htl : (u.iov.take sfsBlocksize).length = sfsBlocksize :=
            List.length_take_of_le (Nat.le_trans hres hiov)
          refine ⟨sfsBlocksize, ?_⟩
          rw [restore_descriptor, ← hpend]
          exact .lost hf hleak (by simp [hrw]) hres hpos (.inr rfl) (fun _ => hmax le_rfl) rfl
  · exact ⟨hft.error, .inl (.of_bmap_error hf hpos h)⟩
  · exact ⟨hft.error, .inr ⟨rfl, 0, 0, .of_bmap hf C hres hpos h⟩⟩

end Pieces

/-! ## Whole regions -/

theorem sfsIoBlocks_endures (n : Nat) {sv : Nat} {v : SfsVnode} (C : Core L H s.calm)
    (hv : s.vnode? sv = some v) (hf : u.Fits) (ho : u.uioOffset % sfsBlocksize = 0)
    (hres : n * sfsBlocksize ≤ u.uioResid) : Carries L H v.svIno (sfsIoBlocks sv n) s u (n * sfsBlocksize) := by
  induction n generalizing s u v with
  | zero =>
    exact ⟨.still rfl rfl, .inl ⟨0, .zero hf C (.refl C.table) fun _ => rfl,
      fun _ => (Nat.zero_mul _).symm, by simp⟩⟩
  | succ n ih =>
    have hmul : (n + 1) * sfsBlocksize = sfsBlocksize + n * sfsBlocksize := by
      rw [Nat.succ_mul, Nat.add_comm]
    rw [hmul] at hres ⊢
    simp only [Carries, EnduresIo, sfsIoBlocks, sat_bind]
    have hb : (u.uioOffset + sfsBlocksize) % sfsBlocksize = 0 := by
      rw [Nat.add_mod_right, ho]
    refine (sfsBlockio_endures C hv hf ho (by omega)).seq (fun _ t w hft h => ?_)
      (fun e t w hft h => ⟨hft, .inl (h.longer (fun _ => .inr ho) (Nat.le_add_right ..))⟩)
      fun t w hft h => ⟨hft, .inr ⟨rfl, h.imp fun k h => h.imp fun m h =>
        h.longer (fun _ => .inr ho) (Nat.le_add_right ..) (.inr hb) hres⟩⟩
    obtain ⟨k, hm, hok, -⟩ := h
    obtain rfl := hok rfl
    obtain ⟨i, d, hw⟩ := hm.step.vnode? hv
    cases n with
    | zero => exact ⟨hft.trans (.still rfl rfl), .inl ⟨_, hm, fun _ => by simp, by simp⟩⟩
    | succ n =>
      exact (ih hm.core hw (hm.fits hf) (by rw [hm.offset hf, hb]) (by rw [hm.resid hf]; omega)).after
        hft hm hf hb (Nat.mul_ne_zero (Nat.succ_ne_zero n) (by decide)) rfl

section Region

variable {sv : Nat} {v : SfsVnode} (C : Core L H s.calm) (hv : s.vnode? sv = some v) (hf : u.Fits)
include C hv hf

theorem sfsIoAligned_endures (ho : u.uioOffset % sfsBlocksize = 0) :
    Carries L H v.svIno (sfsIoAligned sv) s u u.uioResid := by
  have hdm := Nat.div_add_mod' u.uioResid sfsBlocksize
  have hlt := Nat.mod_lt u.uioResid (show 0 < sfsBlocksize by decide)
  have hle : u.uioResid / sfsBlocksize * sfsBlocksize ≤ u.uioResid := Nat.div_mul_le_self ..
  have hb : (u.uioOffset + u.uioResid / sfsBlocksize * sfsBlocksize) % sfsBlocksize = 0 := by
    rw [Nat.add_mul_mod_self_right, ho]
  simp only [Carries, EnduresIo, sfsIoAligned, sat_bind, sat_getUio, sat_check, ho, if_true]
  refine (sfsIoBlocks_endures _ C hv hf ho hle).seq (fun _ t w hft h => ?_)
    (fun e t w hft h => ⟨hft, .inl (h.longer (fun _ => .inr ho) hle)⟩)
    fun t w hft h => ⟨hft, .inr ⟨rfl, h.imp fun k h => h.imp fun m h =>
      h.longer (fun _ => .inr ho) hle (.inr hb) le_rfl⟩⟩
  obtain ⟨k, hm, hok, -⟩ := h
  obtain rfl := hok rfl
  have hr : w.uioResid = u.uioResid - u.uioResid / sfsBlocksize * sfsBlocksize := hm.resid hf
  have ho' : w.uioOffset % sfsBlocksize = 0 := by rw [hm.offset hf, hb]
  simp only [sat_getUio, sat_when]
  rw [if_pos (by omega)]
  split
  · next hpos =>
    obtain ⟨i, d, hw⟩ := hm.step.vnode? hv
    have hfit : w.uioOffset % sfsBlocksize + w.uioResid ≤ sfsBlocksize := by omega
    have hp := sfsPartialio_endures hm.core hw (hm.fits hf) hfit le_rfl (.inl hpos)
    rw [ho'] at hp
    exact hp.after hft hm hf hb (by omega) (by omega)
  · exact ⟨hft.trans (.still rfl rfl), .inl ⟨_, hm, fun _ => by omega, by simp⟩⟩

/-- A transfer moves all of `uio_resid`, or stalls. -/
theorem sfsIoBody_endures : Carries L H v.svIno (sfsIoBody sv) s u u.uioResid := by
  have hlt := Nat.mod_lt u.uioOffset (show 0 < sfsBlocksize by decide)
  simp only [Carries, EnduresIo, sfsIoBody, sat_bind, sat_getUio, sat_when]
  by_cases ho : u.uioOffset % sfsBlocksize = 0
  · rw [if_neg (by omega)]
    split
    · exact sfsIoAligned_endures C hv hf ho
    · exact ⟨.still rfl rfl, .inl ⟨0, .zero hf C (.refl C.table) fun _ => rfl, fun _ => by omega, by simp⟩⟩
  · rw [if_pos ho]
    generalize hl : min (sfsBlocksize - u.uioOffset % sfsBlocksize) u.uioResid = len
    have hle : len ≤ u.uioResid := by omega
    have hlen : len = 0 → u.uioResid = 0 ∨ u.uioOffset % sfsBlocksize = 0 := by omega
    have hend : len = u.uioResid ∨ (u.uioOffset + len) % sfsBlocksize = 0 := by
      unfold sfsBlocksize at *
      omega
    refine (sfsPartialio_endures C hv hf (by omega) hle (.inr ho)).seq (fun _ t w hft h => ?_)
      (fun e t w hft h => ⟨hft, .inl (h.longer hlen hle)⟩)
      fun t w hft h => ⟨hft, .inr ⟨rfl, h.imp fun k h => h.imp fun m h => h.longer hlen hle hend le_rfl⟩⟩
    obtain ⟨k, hm, hok, -⟩ := h
    obtain rfl := hok rfl
    have hr : w.uioResid = u.uioResid - k := hm.resid hf
    simp only [sat_getUio]
    split
    · next hne =>
      have hb : (u.uioOffset + k) % sfsBlocksize = 0 := hend.resolve_left (by omega)
      obtain ⟨i, d, hw⟩ := hm.step.vnode? hv
      exact (sfsIoAligned_endures hm.core hw (hm.fits hf) (by rw [hm.offset hf, hb])).after hft hm hf hb hne
        (show k + w.uioResid = u.uioResid by omega)
    · exact ⟨hft.trans (.still rfl rfl), .inl ⟨_, hm, fun _ => by omega, by simp⟩⟩

end Region

/-! ## Writing -/

/-- What a write through `sfs_io` leaves behind: `k` bytes of the buffer are in the file, which
grew if the transfer ended past its end. -/
structure Wrote (L H : Nat → Prop) (ino : Nat) (s : SfsFs) (u : Uio) (k : Nat) (t : SfsFs)
    (w : Uio) : Prop where
  core : Core L H t
  step : FileStep L ino s t
  le : k ≤ u.uioResid
  fits_file : k ≠ 0 → u.uioOffset + k ≤ sfsMaxblocks * sfsBlocksize
  uio : w = u.advance (u.iov.take k)
  byte : ∀ i, t.byte ino i =
    if u.uioOffset ≤ i ∧ i < u.uioOffset + k then u.iov.getD (i - u.uioOffset) 0
    else s.byte ino i
  size : (t.inode ino).sfiSize =
    if (s.inode ino).sfiSize.toInt < (u.uioOffset + k : Nat) then BitVec.ofNat 32 (u.uioOffset + k)
    else (s.inode ino).sfiSize

/-- What a write through `sfs_io` leaves behind when the device failed: the file grew by the `m`
bytes that were taken out of the descriptor, `k` of which are in the file. -/
structure TornWrite (L H : Nat → Prop) (ino : Nat) (s : SfsFs) (u : Uio) (k m : Nat) (t : SfsFs)
    (w : Uio) : Prop where
  core : ∃ H', (∀ b, H b → H' b) ∧ Core L H' t
  step : FileStep L ino s t
  stored : k ≤ m
  le : m ≤ u.uioResid
  fits_file : m ≠ 0 → u.uioOffset + m ≤ sfsMaxblocks * sfsBlocksize
  uio : w = u.advance (u.iov.take m)
  byte : ∀ i, t.byte ino i =
    if u.uioOffset ≤ i ∧ i < u.uioOffset + k then u.iov.getD (i - u.uioOffset) 0
    else s.byte ino i
  size : (t.inode ino).sfiSize =
    if (s.inode ino).sfiSize.toInt < (u.uioOffset + m : Nat) then BitVec.ofNat 32 (u.uioOffset + m)
    else (s.inode ino).sfiSize
  short : k < u.uioResid ∨ (u.uioResid = 0 ∧ u.uioOffset % sfsBlocksize ≠ 0)
  aligned : k = 0 ∨ (u.uioOffset + k) % sfsBlocksize = 0
  chunk : m = k ∨ m = u.uioResid ∨ (u.uioOffset + m) % sfsBlocksize = 0

theorem Core.setSize {sv : Nat} {v : SfsVnode} (C : Core L H s) (hv : s.vnode? sv = some v) (n : Word) :
    let t := s.updateVnode sv (SfsVnode.setInode fun i => { i with sfiSize := n })
    Core L H t ∧ FileStep L v.svIno s t ∧ (t.inode v.svIno).sfiSize = n ∧
      (∀ i, t.byte v.svIno i = s.byte v.svIno i) ∧ ∀ p, t.ptr p = s.ptr p := by
  intro t
  have hin := C.table.inode_setInode hv (fun i => { i with sfiSize := n })
  have hp (p : Ptr) : t.ptr p = s.ptr p := by
    by_cases hq : p.ino = v.svIno
    · have hself := C.table.inode_of_vnode? hv
      have hin' := hin p.ino
      rw [if_pos hq] at hin'
      rw [← hq] at hself
      cases p <;> simp_all [ptr, Ptr.ino, t, SfsInode.direct]
    · exact C.table.ptr_setInode_ne hv _ hq
  refine ⟨C.setInode hv rfl (C.owned.congr (fun p _ => hp p) fun _ _ => Iff.rfl),
    C.fileStep_setInode hv rfl rfl, ?_, fun i => byte_congr (hp _) fun _ => rfl, hp⟩
  rw [hin, if_pos rfl]

/-- The end of `sfs_io` for a write that took `m` bytes: the file is as long as the descriptor says.
-/
theorem Core.grow {sv : Nat} {v : SfsVnode} (C : Core L H s) (hv : s.vnode? sv = some v)
    {t : SfsFs} (ht : t = if v.svI.sfiSize.toInt < o
      then s.updateVnode sv (SfsVnode.setInode fun i => { i with sfiSize := BitVec.ofNat 32 o }) else s) :
    Core L H t ∧ FileStep L v.svIno s t ∧ (∀ i, t.byte v.svIno i = s.byte v.svIno i) ∧
      (t.inode v.svIno).sfiSize = if (s.inode v.svIno).sfiSize.toInt < o then BitVec.ofNat 32 o
        else (s.inode v.svIno).sfiSize := by
  subst ht
  rw [C.table.inode_of_vnode? hv]
  split
  · obtain ⟨D, st, hsz, hby, -⟩ := C.setSize hv (BitVec.ofNat 32 o)
    exact ⟨D, st, hby, hsz⟩
  · exact ⟨C, (Quiet.refl C.table).toFileStep, fun _ => rfl, by rw [C.table.inode_of_vnode? hv]⟩

/-- What `sfs_io` does with the result of a write after `m` bytes went through the descriptor. -/
theorem sat_finishWrite {sv k m : Nat} {v : SfsVnode} {H' : Nat → Prop}
    (hv : s.vnode? sv = some v) (hf : u.Fits) (hw : u.uioRw = .write) (hft : Fares s r t)
    (hm : Moved L H' v.svIno s.calm u k t.calm (u.advance (pending s.calm v.svIno u k)))
    (hle : m ≤ u.uioResid) (hmax : m ≠ 0 → u.uioOffset + m ≤ sfsMaxblocks * sfsBlocksize)
    (hwu : w = u.advance (pending s.calm v.svIno u m)) :
    Sat NoPanic (do
      let w ← getUio
      let v ← onFs (vnode sv)
      Prog.when (w.uioRw = .write ∧ v.svI.sfiSize.toInt < w.uioOffset)
        (onFs (setInode sv fun i => { i with sfiSize := BitVec.ofNat 32 w.uioOffset }))
      onUio (Prog.modify fun u => { u with uioResid := (u.uioResid + 0) % 2 ^ 32 })
      Prog.ofExcept r) (t, w) (fun r' p => r' = r ∧ p.2 = w ∧ Fares s r p.1 ∧ Core L H' p.1.calm ∧
        FileStep L v.svIno s.calm p.1.calm ∧ (∀ i, p.1.calm.byte v.svIno i = t.calm.byte v.svIno i) ∧
        (p.1.calm.inode v.svIno).sfiSize =
          if (s.calm.inode v.svIno).sfiSize.toInt < (u.uioOffset + m : Nat)
          then BitVec.ofNat 32 (u.uioOffset + m) else (s.calm.inode v.svIno).sfiSize) := by
  obtain ⟨i, d, hv'⟩ := hm.step.vnode? hv
  have hvt : t.vnode? sv = some _ := hv'
  have hlen : (pending s.calm v.svIno u m).length = m := length_pending hf hle
  have hwf : w.Fits := hwu ▸ hf.advance (by rw [hlen]; exact hle)
  have hw32 : (w.uioResid + 0) % 2 ^ 32 = w.uioResid := Nat.mod_eq_of_lt hwf.resid_lt
  have hrw : w.uioRw = .write := by rw [hwu, Uio.advance_rw, hw]
  have hoff : w.uioOffset = u.uioOffset + m := by
    have hlt := hf.offset_lt
    have h32 : sfsMaxblocks * sfsBlocksize < 2 ^ 32 := by decide
    rw [hwu, Uio.advance_offset, hlen]
    exact Nat.mod_eq_of_lt (by omega)
  obtain ⟨D, st, hby, hsz⟩ := hm.core.grow hv' (o := u.uioOffset + m) rfl
  rw [hm.size] at hsz
  simp only [sat_bind, sat_getUio, sat_onFs, sat_vnode hvt, sat_when, hrw, true_and, sat_setInode, hoff]
  split
  · next hlt =>
    rw [if_pos hlt] at D st hby hsz
    simp only [sat_onUio, sat_modify, hw32, sat_ofExcept]
    exact ⟨trivial, trivial, ⟨hft.mem, hft.io⟩, D, hm.step.trans st, hby, hsz⟩
  · next hge =>
    rw [if_neg hge] at D st hby hsz
    simp only [sat_onUio, sat_modify, hw32, sat_ofExcept]
    exact ⟨trivial, trivial, hft, D, hm.step.trans st, fun _ => trivial, hsz⟩

theorem sfsIo_write_endures {sv : Nat} {v : SfsVnode} (C : Core L H s.calm)
    (hv : s.vnode? sv = some v) (hf : u.Fits) (hw : u.uioRw = .write) :
    EnduresIo NoPanic (sfsIo sv) s u (fun r p => ∃ k, Wrote L H v.svIno s.calm u k p.1 p.2 ∧
        (r = .ok () → k = u.uioResid) ∧ ∀ e, r = .error e → Stalled u u.uioResid k ∧ Reason u u.uioResid k e)
      (fun p => ∃ k m, TornWrite L H v.svIno s.calm u k m p.1 p.2) := by
  have hx : sfsExtraresid v.svI.sfiSize.toInt u = 0 := by simp [sfsExtraresid, hw]
  have hpend (k : Nat) : pending s.calm v.svIno u k = u.iov.take k := by simp [pending, hw]
  unfold EnduresIo sfsIo
  refine (sat_bind _).2 (sat_getUio.2 ?_)
  refine (sat_bind _).2 ((sat_onFs _).2 ((sat_vnode hv).2 ?_))
  dsimp only
  rw [if_neg (by simp [hw]), hx]
  refine (sat_bind _).2 ((sat_check _ _).2 ?_)
  rw [if_pos (.inl rfl)]
  refine (sat_bind _).2 ((sat_onUio _).2 ((sat_modify _).2 ?_))
  refine (sat_bind _).2 (sat_attempt.2 ((sfsIoBody_endures C hv hf).mono ?_))
  rintro r ⟨t, w⟩ ⟨hft, ⟨k, hm, hok, herr⟩ | ⟨rfl, k, m, h⟩⟩
  · refine (sat_finishWrite hv hf hw hft (hm.uio ▸ hm) hm.le hm.fits_file hm.uio).mono ?_
    rintro _ ⟨x, _⟩ ⟨rfl, rfl, hfx, D, st, hby, hsz⟩
    refine ⟨hfx, .inl ⟨k, ⟨D, st, hm.le, hm.fits_file, ?_, fun i => (hby i).trans (hm.write hw i), hsz⟩, hok, herr⟩⟩
    rw [← hpend]
    exact hm.uio
  · obtain ⟨H', hH, hm⟩ := h.moved
    refine (sat_finishWrite hv hf hw hft hm h.le.1 h.fits_file h.uio).mono ?_
    rintro _ ⟨x, _⟩ ⟨rfl, rfl, hfx, D, st, hby, hsz⟩
    refine ⟨hfx, .inr ⟨rfl, k, m, ⟨H', hH, D⟩, st, h.stored, h.le.1, h.fits_file, ?_,
      fun i => (hby i).trans (hm.write hw i), hsz, h.short, h.write hw, h.chunk⟩⟩
    rw [← hpend]
    exact h.uio

theorem sfsIobuf_spec (C : Core L H s) (hl : L ino) {k : Nat} {m : UioRw} (hr : s.ptr (.data ino k) = 0 → m = .read) :
    Sat NoPanic (sfsIobuf (s.ptr (.data ino k)) m) s (fun r t => r = .ok (s.block ino k) ∧ t = s) := by
  have h := (sfsIobuf_endures (s := s) (C.calm_eq.symm ▸ C) hl hr).healthy C
  rwa [C.calm_eq] at h

section Healthy

variable {sv : Nat} {v : SfsVnode} (C : Core L H s) (hv : s.vnode? sv = some v) (hf : u.Fits)
include C hv hf

theorem sfsPartialio_spec {len : Nat} (hlen : u.uioOffset % sfsBlocksize + len ≤ sfsBlocksize)
    (hres : len ≤ u.uioResid) (hpos : 0 < len ∨ u.uioOffset % sfsBlocksize ≠ 0) :
    Sat NoPanic (sfsPartialio sv (u.uioOffset % sfsBlocksize) len) (s, u) (Transfers L H v.svIno s u len) := by
  have h := (sfsPartialio_endures (s := s) (C.calm_eq.symm ▸ C) hv hf hlen hres hpos).healthy C
  rw [C.calm_eq] at h
  exact h.mono fun _ _ h => h.transfers

theorem sfsIoBody_spec : Sat NoPanic (sfsIoBody sv) (s, u) (Transfers L H v.svIno s u u.uioResid) := by
  have h := (sfsIoBody_endures (s := s) (C.calm_eq.symm ▸ C) hv hf).healthy C
  rw [C.calm_eq] at h
  exact h.mono fun _ _ h => h.transfers

theorem sfsIo_write_spec (hw : u.uioRw = .write) :
    Sat NoPanic (sfsIo sv) (s, u) (fun r p => ∃ k, Wrote L H v.svIno s u k p.1 p.2 ∧
      (r = .ok () → k = u.uioResid) ∧ ∀ e, r = .error e → Stalled u u.uioResid k) := by
  have h := (sfsIo_write_endures (s := s) (C.calm_eq.symm ▸ C) hv hf hw).healthy C
  rw [C.calm_eq] at h
  exact h.mono fun _ _ ⟨k, hk, hok, herr⟩ => ⟨k, hk, hok, fun e he => (herr e he).1⟩

end Healthy

/-! ## Writes inside a block that is there -/

section Mapped

variable {sv : Nat} {v : SfsVnode} (C : Core L H s) (hv : s.vnode? sv = some v) (hf : u.Fits)
  (hw : u.uioRw = .write) (hseg : u.uioSegflg = .sysspace)
  (h0 : s.ptr (.data v.svIno (u.uioOffset / sfsBlocksize)) ≠ 0)
include C hv hf hw hseg h0

/-- A write from the kernel fails only when it needs a new block. -/
theorem sfsPartialio_mapped {len : Nat} (hlen : u.uioOffset % sfsBlocksize + len ≤ sfsBlocksize)
    (hres : len ≤ u.uioResid) : Sat (fun _ => True) (sfsPartialio sv (u.uioOffset % sfsBlocksize) len) (s, u)
      (fun r _ => r = .ok ()) := by
  have hl := C.live_of_vnode? hv
  have weak {σ α : Type} {m : Prog SfsPanic Errno σ α} {s : σ} {Q : Except Errno α → σ → Prop}
      (h : Sat NoPanic m s Q) : Sat (fun _ => True) m s Q := h.weaken fun _ h => h.elim
  simp only [sfsPartialio, sat_bind, sat_getUio, sat_check, hlen, if_true, sat_onFs]
  refine (weak (sfsBmap_spec C hv _ _)).mono ?_
  rintro (e | b) t h
  · rcases h.error e rfl with ⟨-, hm, -⟩ | ⟨-, -, hz⟩
    · exact absurd (ptr_data_of_le hm) h0
    · exact absurd hz h0
  · obtain ⟨-, hb, hw0, -⟩ := h.ok b rfl
    have hb0 : t.ptr (.data v.svIno (u.uioOffset / sfsBlocksize)) ≠ 0 := hb ▸ hw0 (by simp [hw])
    have hlt := (h.core.owned.pointer_used (p := .data v.svIno _) hl hb0).1
    rw [hb]
    refine (weak (sfsIobuf_spec h.core hl (m := u.uioRw) fun hz => absurd hz hb0)).mono ?_
    rintro _ _ ⟨rfl, ht⟩
    simp only [ht, sat_onUio]
    refine ((uiomove_spec u hf _ hres).weaken fun _ h => h.elim).mono ?_
    rintro (e | d) w' hmv
    · exact absurd hseg hmv.2.2.1
    · simp only [hw, sat_when, if_true, sat_onFs]
      exact (sat_sfsWblock h.core.ioFaults (h.core.dBlocks ▸ hlt) _).2 rfl

theorem sfsIo_mapped (hin : u.uioOffset % sfsBlocksize + u.uioResid ≤ sfsBlocksize)
    (hpos : 0 < u.uioResid) (hlt : u.uioResid < sfsBlocksize) :
    Sat (fun _ => True) (sfsIo sv) (s, u) (fun r _ => r = .ok ()) := by
  have hpart := sfsPartialio_mapped C hv hf hw hseg h0 hin le_rfl
  have hbody : Sat (fun _ => True) (sfsIoBody sv) (s, u) (fun r _ => r = .ok ()) := by
    simp only [sfsIoBody, sat_bind, sat_getUio, sat_when]
    by_cases ho : u.uioOffset % sfsBlocksize = 0
    · rw [if_neg (by omega), if_pos (by omega)]
      rw [ho] at hpart
      simp only [sfsIoAligned, sat_bind, sat_getUio, sat_check, ho, if_true,
        Nat.div_eq_of_lt hlt, sfsIoBlocks, sat_pure, hlt, sat_when, hpos]
      exact hpart
    · rw [if_pos ho, Nat.min_eq_right (by omega)]
      refine (hpart.and (sfsPartialio_spec C hv hf hin le_rfl (.inl hpos))).mono ?_
      rintro _ ⟨t, w⟩ ⟨rfl, k, hm, hok, -⟩
      have hr : w.uioResid = 0 := by
        rw [hm.resid hf, hok rfl, Nat.sub_self]
      simp only [sat_getUio, hr, ne_eq, not_true_eq_false, if_false]
  have hx : sfsExtraresid v.svI.sfiSize.toInt u = 0 := by simp [sfsExtraresid, hw]
  simp only [sfsIo, sat_bind, sat_getUio, sat_onFs, sat_vnode hv, sat_ite]
  rw [if_neg (by simp [hw])]
  simp only [hx, true_or, sat_check, if_true, sat_onUio, sat_modify, sat_attempt]
  refine (hbody.and (sfsIoBody_spec C hv hf)).mono ?_
  rintro _ ⟨t, w⟩ ⟨rfl, k, hm, -⟩
  obtain ⟨i, d, hv'⟩ := hm.step.vnode? hv
  simp only [sat_getUio, sat_onFs, sat_vnode hv', sat_when, sat_setInode, sat_onUio, sat_modify, sat_ofExcept]
  split <;> trivial

end Mapped

/-- The number of bytes a read may return. -/
def sfsReadable (size : Int) (u : Uio) : Nat :=
  if size ≤ u.uioOffset then 0 else u.uioResid - sfsExtraresid size u

theorem toInt_ofNat_le (n : Nat) : (BitVec.ofNat 32 n).toInt ≤ n := by
  rw [BitVec.toInt_eq_toNat_cond, BitVec.toNat_ofNat]
  split <;> omega

/-- A read inside the file asks for less than `uio_resid` past the end of the file. -/
theorem sfsExtraresid_lt {size : Int} (h : u.uioOffset < size) :
    sfsExtraresid size u = 0 ∨ sfsExtraresid size u < u.uioResid := by
  have := toInt_ofNat_le (u.uioOffset + u.uioResid)
  simp only [sfsExtraresid]
  split <;> omega

/-- Without overflow, a read returns the bytes up to the end of the file. -/
theorem sfsReadable_eq {size : Nat} (hr : u.uioRw = .read) (h : u.uioOffset + u.uioResid < 2 ^ 31) :
    sfsReadable size u = min u.uioResid (size - u.uioOffset) := by
  have : (BitVec.ofNat 32 (u.uioOffset + u.uioResid)).toInt = u.uioOffset + u.uioResid := by
    rw [BitVec.toInt_eq_toNat_cond, BitVec.toNat_ofNat]
    split <;> omega
  unfold sfsReadable sfsExtraresid
  simp only [this, hr, true_and]
  split
  · omega
  · split <;> omega

/-- What a read through `sfs_io` guarantees on a device that works. -/
def ReadPost (s : SfsFs) (ino : Nat) (u : Uio) (r : Except Errno Unit) (p : SfsFs × Uio) : Prop :=
  p.1 = s ∧ ∃ k ≤ u.uioResid, p.2 = u.advance (s.fileBytes ino u.uioOffset k) ∧
    (k ≠ 0 → u.uioOffset + k ≤ sfsMaxblocks * sfsBlocksize) ∧
    (r = .ok () → k = sfsReadable (s.inode ino).sfiSize.toInt u) ∧
    ∀ e, r = .error e → Reason u (sfsReadable (s.inode ino).sfiSize.toInt u) k e ∧
      u.uioOffset < (s.inode ino).sfiSize.toInt ∧
      (k < sfsReadable (s.inode ino).sfiSize.toInt u ∨
        sfsReadable (s.inode ino).sfiSize.toInt u = 0 ∧ u.uioOffset % sfsBlocksize ≠ 0)

theorem sfsIo_read_endures {sv : Nat} {v : SfsVnode} (C : Core L H s.calm)
    (hv : s.vnode? sv = some v) (hf : u.Fits) (hr : u.uioRw = .read) :
    EnduresIo NoPanic (sfsIo sv) s u (ReadPost s.calm v.svIno u) (fun p => p.1 = s.calm) := by
  unfold ReadPost
  rw [C.table.inode_of_vnode? hv]
  simp only [EnduresIo, sfsIo, sat_bind, sat_getUio, sat_onFs, sat_vnode hv, sat_ite]
  by_cases hsz : v.svI.sfiSize.toInt ≤ u.uioOffset
  · rw [if_pos ⟨hr, hsz⟩]
    refine ⟨.still rfl rfl, .inl ⟨rfl, 0, Nat.zero_le _, ?_, absurd rfl, fun _ => by simp [sfsReadable, hsz], by simp⟩⟩
    simpa [fileBytes] using (Uio.advance_nil hf).symm
  · rw [if_neg fun h => hsz h.2]
    have hx := sfsExtraresid_lt (u := u) (by omega : (u.uioOffset : Int) < v.svI.sfiSize.toInt)
    have hn : sfsReadable v.svI.sfiSize.toInt u = u.uioResid - sfsExtraresid v.svI.sfiSize.toInt u := by
      simp [sfsReadable, hsz]
    rw [hn]
    generalize sfsExtraresid v.svI.sfiSize.toInt u = x at hx ⊢
    have hf' : { u with uioResid := u.uioResid - x }.Fits := by
      have := hf.resid_le
      have := hf.resid_lt
      exact ⟨by simp only; omega, by simp only; omega, hf.offset_lt, hf.space⟩
    simp only [sat_check, hx, if_true, sat_onUio, sat_modify, sat_attempt]
    refine (sfsIoBody_endures C hv hf').mono ?_
    -- reading changes neither the file nor its size
    have quiet {t : SfsFs} {w : Uio} {k : Nat} {H' : Nat → Prop}
        (hm : Moved L H' v.svIno s.calm { u with uioResid := u.uioResid - x } k t.calm w) :
        t.calm = s.calm ∧ t.vnode? sv = some v := by
      have ht := hm.read hr
      exact ⟨ht, (congrArg (·.vnode? sv) ht).trans hv⟩
    rintro r ⟨t, w⟩ ⟨hft, ⟨k, hm, hok, herr⟩ | ⟨rfl, k, m, h⟩⟩
    · obtain ⟨ht, hvt⟩ := quiet hm
      have hrw : w.uioRw = .read := hm.rw_eq.trans hr
      have hle : k ≤ u.uioResid - x := hm.le
      simp only [sat_getUio, sat_onFs, sat_vnode hvt, sat_when, hrw, reduceCtorEq, false_and,
        if_false, sat_onUio, sat_modify, sat_ofExcept]
      refine ⟨hft, .inl ⟨ht, k, by omega, ?_, hm.fits_file, hok, fun e he => ?_⟩⟩
      · have hw : w = _ := hm.uio
        have hpend : pending s.calm v.svIno { u with uioResid := u.uioResid - x } k =
            s.calm.fileBytes v.svIno u.uioOffset k := by
          simp [pending, hr]
        have h1 : sub32 (u.uioResid - x) k = u.uioResid - x - k :=
          sub32_of_le hle hf'.resid_lt
        have h2 : sub32 u.uioResid k = u.uioResid - k := sub32_of_le (by omega) hf.resid_lt
        have h3 : (u.uioResid - x - k + x) % 2 ^ 32 = u.uioResid - k := by
          have := hf.resid_lt
          omega
        rw [hw, hpend]
        simp only [Uio.advance, length_fileBytes, h1, h2, h3, hr]
      · obtain ⟨hs, hreason⟩ := herr e he
        refine ⟨?_, by omega, hs.short⟩
        cases e with
        | enospc => cases hr.symm.trans hreason
        | _ => exact hreason
    · obtain ⟨H', -, hm⟩ := h.moved
      obtain ⟨ht, hvt⟩ := quiet hm
      have hrw : w.uioRw = .read := by
        rw [show w = _ from h.uio]
        exact hr
      simp only [sat_getUio, sat_onFs, sat_vnode hvt, sat_when, hrw, reduceCtorEq, false_and,
        if_false, sat_onUio, sat_modify, sat_ofExcept]
      exact ⟨hft, .inr ⟨trivial, ht⟩⟩

theorem sfsIo_read_spec {sv : Nat} {v : SfsVnode} (C : Core L H s) (hv : s.vnode? sv = some v)
    (hf : u.Fits) (hr : u.uioRw = .read) : Sat NoPanic (sfsIo sv) (s, u) (fun r p => p.1 = s ∧ ∃ k ≤ u.uioResid,
      p.2 = u.advance (s.fileBytes v.svIno u.uioOffset k) ∧
      (r = .ok () → k = sfsReadable (s.inode v.svIno).sfiSize.toInt u) ∧ ∀ e, r = .error e → u.uioSegflg = .sysspace →
        sfsMaxblocks * sfsBlocksize ≤ u.uioOffset + k ∧ u.uioOffset < (s.inode v.svIno).sfiSize.toInt ∧
        (sfsReadable (s.inode v.svIno).sfiSize.toInt u ≠ 0 → k < sfsReadable (s.inode v.svIno).sfiSize.toInt u)) := by
  have h := (sfsIo_read_endures (s := s) (C.calm_eq.symm ▸ C) hv hf hr).healthy C
  rw [C.calm_eq] at h
  refine h.mono fun r p hp => ?_
  obtain ⟨ht, k, hk, hw, -, hok, herr⟩ := hp
  refine ⟨ht, k, hk, hw, hok, fun e he hseg => ?_⟩
  obtain ⟨hreason, hlt, hshort⟩ := herr e he
  refine ⟨?_, hlt, fun h0 => hshort.resolve_right fun h => h0 h.1⟩
  cases e with
  | efault => exact absurd hseg hreason.1
  | einval => exact hreason
  | enospc => exact nomatch hr.symm.trans hreason
  | _ => exact hreason.elim

end Os161.Sfs
