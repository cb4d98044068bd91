import Os161.Lib.Keyed
import Os161.Sfs.Ownership
import Os161.Sfs.Fs

/-!
# What the state says about a file

A file's inode is the copy in its vnode when it is in memory, and the one on disk otherwise.
Through it the block pointers, and through those the contents. These views are what the
invariants and the specifications of the operations talk about; each comes with a lemma that
says what part of the state it reads.
-/
namespace Os161.Sfs

open Lib Kern

def sfsMaxblocks : Nat := sfsNdirect + sfsDbperidb

variable {ino k sv : Nat} {v : SfsVnode} {g : SfsVnode → SfsVnode}

namespace SfsFs

def sector (s : SfsFs) (b : Nat) : Block := s.sfsDevice.sector b

def used (s : SfsFs) (b : Nat) : Prop := bitmapIsset s.sfsFreemap b = true

def loaded? (s : SfsFs) (ino : Nat) : Option SfsVnode := s.sfsVnodes.find? (·.svIno = ino)

def inode (s : SfsFs) (ino : Nat) : SfsInode :=
  match s.loaded? ino with
  | some v => v.svI
  | none => SfsInode.decode (s.sector ino)

def size (s : SfsFs) (ino : Nat) : Nat := (s.inode ino).sfiSize.toNat

def ptr (s : SfsFs) : Ptr → Nat
  | .indirect ino => (s.inode ino).sfiIndirect.toNat
  | .data ino k =>
    if k < sfsNdirect then ((s.inode ino).direct k).toNat
    else if sfsMaxblocks ≤ k ∨ (s.inode ino).sfiIndirect.toNat = 0 then 0
    else ((s.sector (s.inode ino).sfiIndirect.toNat).word (k - sfsNdirect)).toNat

def block (s : SfsFs) (ino k : Nat) : Block :=
  if s.ptr (.data ino k) = 0 then Block.zero else s.sector (s.ptr (.data ino k))

def byte (s : SfsFs) (ino i : Nat) : Byte :=
  (s.block ino (i / sfsBlocksize)).get (i % sfsBlocksize)

def fileBytes (s : SfsFs) (ino o n : Nat) : List Byte :=
  (List.range n).map fun i => s.byte ino (o + i)

@[simp] theorem length_fileBytes (s : SfsFs) (ino o n : Nat) : (s.fileBytes ino o n).length = n := by
  simp [fileBytes]

variable {s s' : SfsFs}

theorem inode_congr (hv : s'.loaded? ino = s.loaded? ino)
    (hs : s'.sector ino = s.sector ino) : s'.inode ino = s.inode ino := by
  unfold inode
  rw [hv, hs]

theorem ptr_congr {p : Ptr} (hi : s'.inode p.ino = s.inode p.ino) (hs : s.ptr (.indirect p.ino) ≠ 0 →
    s'.sector (s.ptr (.indirect p.ino)) = s.sector (s.ptr (.indirect p.ino))) : s'.ptr p = s.ptr p := by
  cases p with
  | indirect ino => simp only [ptr, show s'.inode ino = s.inode ino from hi]
  | data ino k =>
    simp only [Ptr.ino] at hi hs
    simp only [ptr, hi] at hs ⊢
    by_cases h0 : (s.inode ino).sfiIndirect.toNat = 0
    · simp [h0]
    · rw [hs h0]

theorem byte_congr {i : Nat} (hp : s'.ptr (.data ino (i / sfsBlocksize)) = s.ptr (.data ino (i / sfsBlocksize)))
    (hs : s.ptr (.data ino (i / sfsBlocksize)) ≠ 0 → s'.sector (s.ptr (.data ino (i / sfsBlocksize))) =
        s.sector (s.ptr (.data ino (i / sfsBlocksize)))) : s'.byte ino i = s.byte ino i := by
  unfold byte block
  rw [hp]
  split
  · rfl
  · next h0 => rw [hs h0]

theorem fileBytes_congr {o n : Nat} (h : ∀ i, o ≤ i → i < o + n → s'.byte ino i = s.byte ino i) :
    s'.fileBytes ino o n = s.fileBytes ino o n := by
  refine List.map_congr_left fun i hi => h _ (by omega) ?_
  have := List.mem_range.1 hi
  omega

theorem ptr_data_direct (hk : k < sfsNdirect) : s.ptr (.data ino k) = ((s.inode ino).direct k).toNat := by
  simp [ptr, hk]

theorem ptr_data_entry (hk : sfsNdirect ≤ k) (hm : k < sfsMaxblocks) (h0 : s.ptr (.indirect ino) ≠ 0) :
    s.ptr (.data ino k) = ((s.sector (s.ptr (.indirect ino))).word (k - sfsNdirect)).toNat := by
  have h0' : (s.inode ino).sfiIndirect.toNat ≠ 0 := h0
  simp only [ptr, if_neg (Nat.not_lt.2 hk), if_neg (not_or.2 ⟨Nat.not_le.2 hm, h0'⟩)]

theorem ptr_data_none (hk : sfsNdirect ≤ k) (h0 : s.ptr (.indirect ino) = 0) :
    s.ptr (.data ino k) = 0 := by
  have h0' : (s.inode ino).sfiIndirect.toNat = 0 := h0
  simp only [ptr, if_neg (Nat.not_lt.2 hk), h0', or_true, if_true]

theorem ptr_data_of_le (h : sfsMaxblocks ≤ k) : s.ptr (.data ino k) = 0 := by
  have : ¬ k < sfsNdirect := by unfold sfsMaxblocks at h; omega
  simp [ptr, this, h]

/-! ### Sectors -/

theorem sector_writeSector (b : Nat) (d : Block) (c : Nat) :
    (s.writeSector b d).sector c = if c = b then d else s.sector c := by
  simp [sector, writeSector, Function.update_apply]

@[simp] theorem sector_updateVnode (sv : Nat) (f : SfsVnode → SfsVnode) (c : Nat) :
    (s.updateVnode sv f).sector c = s.sector c := rfl

/-! ### The vnode table -/

/-- No two vnodes share an address or an inode number. -/
structure Table (s : SfsFs) : Prop where
  addr_nodup : (s.sfsVnodes.map (·.svAddr)).Nodup
  ino_nodup : (s.sfsVnodes.map (·.svIno)).Nodup

variable (t : s.Table)
include t

theorem Table.vnode?_iff : s.vnode? sv = some v ↔ v ∈ s.sfsVnodes ∧ v.svAddr = sv :=
  find?_key_iff (f := SfsVnode.svAddr) t.addr_nodup

theorem Table.loaded?_iff : s.loaded? ino = some v ↔ v ∈ s.sfsVnodes ∧ v.svIno = ino :=
  find?_key_iff (f := SfsVnode.svIno) t.ino_nodup

theorem Table.inode_of_mem (hv : v ∈ s.sfsVnodes) : s.inode v.svIno = v.svI := by
  unfold inode
  rw [t.loaded?_iff.2 ⟨hv, rfl⟩]

theorem Table.inode_of_vnode? (hv : s.vnode? sv = some v) : s.inode v.svIno = v.svI :=
  t.inode_of_mem (t.vnode?_iff.1 hv).1

omit t in
theorem loaded?_map {u : SfsFs} (hv : u.sfsVnodes = s.sfsVnodes.map g)
    (hg : ∀ v ∈ s.sfsVnodes, (g v).svIno = v.svIno) (ino : Nat) : u.loaded? ino = (s.loaded? ino).map g := by
  unfold loaded?
  rw [hv]
  exact find?_key_map (f := SfsVnode.svIno) hg ino

omit t in
theorem vnode?_map {u : SfsFs} (hv : u.sfsVnodes = s.sfsVnodes.map g)
    (hg : ∀ v ∈ s.sfsVnodes, (g v).svAddr = v.svAddr) (sv : Nat) : u.vnode? sv = (s.vnode? sv).map g := by
  unfold vnode?
  rw [hv]
  exact find?_key_map (f := SfsVnode.svAddr) hg sv

theorem Table.map (hv : s'.sfsVnodes = s.sfsVnodes.map g)
    (hg : ∀ v ∈ s.sfsVnodes, (g v).svAddr = v.svAddr ∧ (g v).svIno = v.svIno) : s'.Table where
  addr_nodup := by
    rw [hv, map_key_map fun v h => (hg v h).1]
    exact t.addr_nodup
  ino_nodup := by
    rw [hv, map_key_map fun v h => (hg v h).2]
    exact t.ino_nodup

section

variable (hv : s.vnode? sv = some v)
include hv

/-- Storing through the pointer to `v` changes the inode of `v` and no other. -/
theorem Table.inode_updateVnode {f : SfsVnode → SfsVnode} (hf : ∀ w, (f w).svIno = w.svIno) (ino : Nat) :
    (s.updateVnode sv f).inode ino = if ino = v.svIno then (f v).svI else s.inode ino := by
  obtain ⟨hmem, rfl⟩ := t.vnode?_iff.1 hv
  have hl := loaded?_map (s := s) (u := s.updateVnode v.svAddr f) rfl (fun w _ => by split <;> simp [hf]) ino
  unfold inode
  rw [hl]
  by_cases hi : ino = v.svIno
  · subst hi
    rw [t.loaded?_iff.2 ⟨hmem, rfl⟩]
    simp
  · rw [if_neg hi]
    cases hw : s.loaded? ino with
    | none => rfl
    | some w =>
      obtain ⟨hwm, rfl⟩ := t.loaded?_iff.1 hw
      have : w.svAddr ≠ v.svAddr := fun he =>
        hi (congrArg _ (List.inj_on_of_nodup_map t.addr_nodup hwm hmem he))
      simp [this]

theorem Table.inode_setInode
    (f : SfsInode → SfsInode) (ino : Nat) : (s.updateVnode sv (SfsVnode.setInode f)).inode ino =
      if ino = v.svIno then f v.svI else s.inode ino :=
  t.inode_updateVnode hv (f := SfsVnode.setInode f) (fun _ => rfl) ino

theorem Table.ptr_setInode_ne (f : SfsInode → SfsInode) {p : Ptr} (hp : p.ino ≠ v.svIno) :
    (s.updateVnode sv (SfsVnode.setInode f)).ptr p = s.ptr p :=
  ptr_congr (by rw [t.inode_setInode hv, if_neg hp]) fun _ => rfl

theorem Table.ptr_setDirect
    (hk : k < sfsNdirect) (b : Word) (q : Ptr) : (s.updateVnode sv (SfsVnode.setInode (·.setDirect k b))).ptr q =
      if q = .data v.svIno k then b.toNat else s.ptr q := by
  have hin := t.inode_setInode hv (·.setDirect k b) v.svIno
  have hself := t.inode_of_vnode? hv
  rw [if_pos rfl] at hin
  by_cases hq : q.ino = v.svIno
  · cases q with
    | indirect ino =>
      obtain rfl : ino = v.svIno := hq
      simp [ptr, hin, hself]
    | data ino j =>
      obtain rfl : ino = v.svIno := hq
      by_cases hj : j < sfsNdirect
      · simp only [ptr, hin, if_pos hj, hself, SfsInode.direct_setDirect _ _ _ _ hj, Ptr.data.injEq, true_and]
        split <;> rfl
      · have hjk : j ≠ k := fun h => hj (h ▸ hk)
        simp [ptr, hin, hj, hself, hjk]
  · rw [t.ptr_setInode_ne hv _ hq, if_neg]
    rintro rfl
    exact hq rfl

/-- Setting the pointer to the indirect block changes it and the pointers listed there. -/
theorem Table.ptr_setIndirect (b : Word) (q : Ptr) :
    (s.updateVnode sv (SfsVnode.setInode fun i => { i with sfiIndirect := b })).ptr q =
      match q with
      | .indirect ino => if ino = v.svIno then b.toNat else s.ptr q
      | .data ino k =>
        if ino = v.svIno ∧ sfsNdirect ≤ k then
          if sfsMaxblocks ≤ k ∨ b.toNat = 0 then 0
          else ((s.sector b.toNat).word (k - sfsNdirect)).toNat
        else s.ptr q := by
  have hin := t.inode_setInode hv (fun i => { i with sfiIndirect := b }) v.svIno
  have hself := t.inode_of_vnode? hv
  rw [if_pos rfl] at hin
  cases q with
  | indirect ino =>
    by_cases hi : ino = v.svIno
    · subst hi
      simp [ptr, hin]
    · simp [hi, t.ptr_setInode_ne hv _ (p := .indirect ino) hi]
  | data ino k =>
    by_cases hi : ino = v.svIno
    · subst hi
      by_cases hk : k < sfsNdirect
      · simp [ptr, hin, hk, Nat.not_le.2 hk, hself, SfsInode.direct]
      · simp [ptr, hin, hk, Nat.le_of_not_lt hk]
    · simp [hi, t.ptr_setInode_ne hv _ (p := .data ino k) hi]

end

end SfsFs

end Os161.Sfs
