import Os161.Sfs.View

/-!
# The invariant of a mounted file system

`Core L H s` is what every function of the file system keeps: `L` are the live inodes and `H`
the blocks that the running call has allocated and not yet entered anywhere. `FileStep` says
that a step concerns one file only. The lemmas after them are the elementary steps: taking a
block, returning blocks, writing a block, changing an inode in memory.
-/
namespace Os161.Sfs

open Lib Kern SfsFs

/-- The part of the state that no operation on files changes. -/
structure Static (s s' : SfsFs) : Prop where
  super : s'.sfsSuper = s.sfsSuper
  dBlocks : s'.sfsDevice.dBlocks = s.sfsDevice.dBlocks
  nbits : s'.sfsFreemap.nbits = s.sfsFreemap.nbits
  nextAddr : s'.nextAddr = s.nextAddr
  ioFaults : s'.ioFaults = s.ioFaults
  memFaults : s'.memFaults = s.memFaults

theorem Static.refl (s : SfsFs) : Static s s := ⟨rfl, rfl, rfl, rfl, rfl, rfl⟩

theorem Static.trans {s t u : SfsFs} (h : Static s t) (h' : Static t u) : Static s u :=
  ⟨h'.super.trans h.super, h'.dBlocks.trans h.dBlocks, h'.nbits.trans h.nbits,
    h'.nextAddr.trans h.nextAddr, h'.ioFaults.trans h.ioFaults, h'.memFaults.trans h.memFaults⟩

theorem Static.nblocks {s s' : SfsFs} (h : Static s s') : s'.nblocks = s.nblocks := by
  unfold SfsFs.nblocks
  rw [h.super]

/-- What holds of a vnode in the table. A clean one agrees with the disk. -/
structure VnodeOk (L : Nat → Prop) (s : SfsFs) (v : SfsVnode) : Prop where
  live : L v.svIno
  addr_lt : v.svAddr < s.nextAddr
  refcount_pos : 0 < v.vnRefcount
  ops : v.vnOps = if v.svIno = sfsRootLocation then .dirops else .fileops
  clean : v.svDirty = false → SfsInode.decode (s.sector v.svIno) = v.svI

/-- What `sfs_sync` would not write is on the disk. -/
structure Saved (s : SfsFs) : Prop where
  superclean : s.sfsSuperdirty = false
  super : (SfsSuper.decode (s.sector sfsSbLocation)).terminated = s.sfsSuper
  magic : s.sfsSuper.spMagic = sfsMagic
  map : s.sfsFreemapdirty = false → ∀ i, i / sfsBlocksize < sfsBitblocks s.nblocks →
    (s.sector (sfsMapLocation + i / sfsBlocksize)).get (i % sfsBlocksize) = s.sfsFreemap.v i

/-- A free map that is not flagged dirty is the one that was there, and was not dirty. -/
def Flagged (s : SfsFs) (m : Bitmap) (d : Bool) : Prop :=
  d = false → s.sfsFreemapdirty = false ∧ m = s.sfsFreemap

variable {m : Bitmap} {b : Nat}

namespace Saved

variable {s : SfsFs}

theorem vnodes (S : Saved s) (l : List SfsVnode) (n : Nat) : Saved { s with sfsVnodes := l, nextAddr := n } :=
  ⟨S.superclean, S.super, S.magic, S.map⟩

theorem freemap (S : Saved s) {d : Bool} (h : Flagged s m d) :
    Saved { s with sfsFreemap := m, sfsFreemapdirty := d } := by
  refine ⟨S.superclean, S.super, S.magic, fun hd => ?_⟩
  obtain ⟨hs, rfl⟩ := h hd
  exact S.map hs

theorem writeSector (S : Saved s) (hb : ¬ Reserved s.nblocks b) (data : Block) :
    Saved (s.writeSector b data) := by
  refine ⟨S.superclean, ?_, S.magic, fun hd i hi => ?_⟩
  · rw [sector_writeSector, if_neg fun he => hb (.inl he.symm)]
    exact S.super
  · rw [sector_writeSector, if_neg fun he => hb (.inr ⟨_, hi, he.symm⟩)]
    exact S.map hd i hi

end Saved

structure Core (L H : Nat → Prop) (s : SfsFs) : Prop where
  ioFaults : s.ioFaults = []
  memFaults : s.memFaults = []
  dBlocks : s.nblocks = s.sfsDevice.dBlocks
  nbits : s.sfsFreemap.nbits = sfsBitmapsize s.nblocks
  padding : ∀ b, s.nblocks ≤ b → b < s.sfsFreemap.nbits → s.used b
  table : s.Table
  vnode : ∀ v ∈ s.sfsVnodes, VnodeOk L s v
  root : L sfsRootLocation
  type : ∀ ino, L ino →
    (s.inode ino).sfiType = if ino = sfsRootLocation then sfsTypeDir else sfsTypeFile
  owned : Owned L H s.nblocks s.ptr s.used
  saved : Saved s

/-- The state with no failure of the device or of `kmalloc` ahead. A state in which transfers may
fail is sound when this one satisfies the invariant. -/
def SfsFs.calm (s : SfsFs) : SfsFs := { s with ioFaults := [], memFaults := [] }

theorem SfsFs.calm_of_no_faults {s : SfsFs} (hio : s.ioFaults = []) (hmem : s.memFaults = []) : s.calm = s := by
  cases s
  simp_all [SfsFs.calm]

theorem Core.calm_eq {L H : Nat → Prop} {s : SfsFs} (C : Core L H s) : s.calm = s :=
  calm_of_no_faults C.ioFaults C.memFaults

/-- A call that ran from `s` to `t` fails with `EIO` only if a transfer failed. -/
structure Fares {α : Type} (s : SfsFs) (r : Except Errno α) (t : SfsFs) : Prop where
  mem : t.memFaults = s.memFaults
  io : s.ioFaults = [] → t.ioFaults = [] ∧ r ≠ .error .eio

namespace Fares

variable {α β : Type} {s t u : SfsFs} {r : Except Errno α}

theorem still (hm : t.memFaults = s.memFaults) (hi : t.ioFaults = s.ioFaults) (hr : r ≠ .error .eio := by simp) :
    Fares s r t :=
  ⟨hm, fun h => ⟨hi.trans h, hr⟩⟩

theorem trans {a : β} (h : Fares s (.ok a : Except Errno β) t) (h' : Fares t r u) : Fares s r u :=
  ⟨h'.mem.trans h.mem, fun hs => h'.io (h.io hs).1⟩

/-- The value that is returned does not matter. -/
theorem value {a : β} (b : α) (h : Fares s (.ok a : Except Errno β) t) : Fares s (.ok b : Except Errno α) t :=
  ⟨h.mem, fun hs => ⟨(h.io hs).1, nofun⟩⟩

theorem error {e : Errno} (h : Fares s (.error e : Except Errno β) t) : Fares s (.error e : Except Errno α) t :=
  ⟨h.mem, fun hs => ⟨(h.io hs).1, fun he => (h.io hs).2 (by rw [Except.error.inj he])⟩⟩

/-- On a healthy device nothing fails and no fault is left. -/
theorem calm_eq {L H : Nat → Prop} (h : Fares s r t) (C : Core L H s) : t.calm = t ∧ r ≠ .error .eio := by
  obtain ⟨hio, hr⟩ := h.io C.ioFaults
  exact ⟨calm_of_no_faults hio (h.mem.trans C.memFaults), hr⟩

end Fares

/-- A step that changes the file `ino` and leaves the other live files alone. -/
structure FileStep (L : Nat → Prop) (ino : Nat) (s s' : SfsFs) : Prop where
  static : Static s s'
  table : ∃ i d, s'.sfsVnodes =
    s.sfsVnodes.map fun v => if v.svIno = ino then { v with svI := i, svDirty := d } else v
  inode : ∀ j, L j → j ≠ ino → s'.inode j = s.inode j
  byte : ∀ j, L j → j ≠ ino → ∀ i, s'.byte j i = s.byte j i
  type : (s'.inode ino).sfiType = (s.inode ino).sfiType
  linkcount : (s'.inode ino).sfiLinkcount = (s.inode ino).sfiLinkcount

/-- A step that changes no contents and no size either. -/
structure Quiet (L : Nat → Prop) (ino : Nat) (s s' : SfsFs) : Prop extends
    FileStep L ino s s' where
  content : ∀ i, s'.byte ino i = s.byte ino i
  size : (s'.inode ino).sfiSize = (s.inode ino).sfiSize

variable {sv : Nat} {v : SfsVnode}

namespace FileStep

variable {L : Nat → Prop} {ino : Nat} {s t u : SfsFs}

theorem trans (h : FileStep L ino s t) (h' : FileStep L ino t u) : FileStep L ino s u where
  static := h.static.trans h'.static
  table := by
    obtain ⟨i, d, hi⟩ := h.table
    obtain ⟨i', d', hi'⟩ := h'.table
    refine ⟨i', d', ?_⟩
    rw [hi', hi, List.map_map]
    refine List.map_congr_left fun v _ => ?_
    by_cases hv : v.svIno = ino <;> simp [hv]
  inode j hj hne := (h'.inode j hj hne).trans (h.inode j hj hne)
  byte j hj hne i := (h'.byte j hj hne i).trans (h.byte j hj hne i)
  type := h'.type.trans h.type
  linkcount := h'.linkcount.trans h.linkcount

theorem freemap (h : FileStep L ino s t) (d : Bool) (hn : m.nbits = t.sfsFreemap.nbits) :
    FileStep L ino s { t with sfsFreemap := m, sfsFreemapdirty := d } :=
  ⟨h.static.trans ⟨rfl, rfl, hn, rfl, rfl, rfl⟩, h.table, h.inode, h.byte, h.type, h.linkcount⟩

/-- The vnodes stay where they are; at most the inode of one changes. -/
theorem vnode? (h : FileStep L ino s t) (hv : s.vnode? sv = some v) :
    ∃ i d, t.vnode? sv = some { v with svI := i, svDirty := d } := by
  obtain ⟨i, d, hi⟩ := h.table
  rw [vnode?_map hi (fun w _ => by split <;> rfl), hv]
  by_cases hv : v.svIno = ino
  · exact ⟨i, d, by simp [hv]⟩
  · exact ⟨v.svI, v.svDirty, by simp [hv]⟩

theorem vnode?_ne (h : FileStep L ino s t) (hv : s.vnode? sv = some v)
    (hne : v.svIno ≠ ino) : t.vnode? sv = some v := by
  obtain ⟨i, d, hi⟩ := h.table
  rw [vnode?_map hi (fun w _ => by split <;> rfl), hv]
  simp [hne]

end FileStep

/-- No vnode is replaced when the table stays as it is. -/
theorem map_put_self {l : List SfsVnode} (h : (l.map (·.svIno)).Nodup) (ino : Nat) :
    ∃ i d, l = l.map fun v => if v.svIno = ino then { v with svI := i, svDirty := d } else v := by
  cases hf : l.find? (·.svIno = ino) with
  | none =>
    refine ⟨SfsInode.blank, false, ?_⟩
    have hl := find?_key_none.1 hf
    exact (List.map_id l).symm.trans (List.map_congr_left fun v hv => by simp [hl v hv])
  | some w =>
    obtain ⟨hw, rfl⟩ := (find?_key_iff (f := SfsVnode.svIno) h).1 hf
    refine ⟨w.svI, w.svDirty, (List.map_id l).symm.trans (List.map_congr_left fun v hv => ?_)⟩
    by_cases hvw : v.svIno = w.svIno
    · obtain rfl := List.inj_on_of_nodup_map h hv hw hvw
      simp
    · simp [hvw]

namespace Quiet

variable {L : Nat → Prop} {ino : Nat} {s t u : SfsFs}

theorem trans (h : Quiet L ino s t) (h' : Quiet L ino t u) : Quiet L ino s u where
  toFileStep := h.toFileStep.trans h'.toFileStep
  content i := (h'.content i).trans (h.content i)
  size := h'.size.trans h.size

theorem refl (t : s.Table) : Quiet L ino s s where
  static := .refl s
  table := map_put_self t.ino_nodup ino
  inode _ _ _ := rfl
  byte _ _ _ _ := rfl
  type := rfl
  linkcount := rfl
  content _ := rfl
  size := rfl

/-- A step that leaves the table and what the live inodes say alone is quiet for every file. -/
theorem of_views (ht : s.Table) (hs : Static s t) (hv : t.sfsVnodes = s.sfsVnodes) (hino : L ino)
    (hi : ∀ j, L j → t.inode j = s.inode j) (hb : ∀ j, L j → ∀ i, t.byte j i = s.byte j i) :
    Quiet L ino s t where
  static := hs
  table := hv ▸ map_put_self ht.ino_nodup ino
  inode j hj _ := hi j hj
  byte j hj _ := hb j hj
  type := by rw [hi ino hino]
  linkcount := by rw [hi ino hino]
  content := hb ino hino
  size := by rw [hi ino hino]

end Quiet

/-! ## Elementary steps -/

def SfsFs.mark (s : SfsFs) (b : Nat) : SfsFs :=
  { s with
    sfsFreemap := { s.sfsFreemap with v := bitSet s.sfsFreemap.v b }
    sfsFreemapdirty := true }

def SfsFs.unmark (s : SfsFs) (b : Nat) : SfsFs :=
  { s with
    sfsFreemap := { s.sfsFreemap with v := bitClear s.sfsFreemap.v b }
    sfsFreemapdirty := true }

/-- The state after `sfs_balloc` handed out `b`. -/
def SfsFs.allocated (s : SfsFs) (b : Nat) : SfsFs := (s.mark b).writeSector b Block.zero

namespace SfsFs

variable (s : SfsFs)

@[simp] theorem used_mark (b c : Nat) : (s.mark b).used c ↔ s.used c ∨ c = b := by
  simp [used, mark, or_comm]

@[simp] theorem used_unmark (b c : Nat) : (s.unmark b).used c ↔ s.used c ∧ c ≠ b := by
  simp [used, unmark, and_comm]

@[simp] theorem used_allocated (b c : Nat) : (s.allocated b).used c ↔ s.used c ∨ c = b :=
  s.used_mark b c

theorem sector_allocated (b c : Nat) : (s.allocated b).sector c = if c = b then Block.zero else s.sector c :=
  sector_writeSector b Block.zero c

end SfsFs

variable {j : Nat}

namespace Core

variable {L H H' : Nat → Prop} {s s' : SfsFs}

theorem held_congr (C : Core L H s) (h : ∀ b, H' b ↔ H b) : Core L H' s := by
  obtain rfl : H' = H := funext fun b => propext (h b)
  exact C

/-- The parts of the invariant that a step on the vnodes in memory, the sectors and the free
map has to establish again. -/
theorem step (C : Core L H s) {g : SfsVnode → SfsVnode} (hs : Static s s')
    (hv : s'.sfsVnodes = s.sfsVnodes.map g)
    (hkey : ∀ v ∈ s.sfsVnodes, (g v).svAddr = v.svAddr ∧ (g v).svIno = v.svIno)
    (hg : ∀ v ∈ s.sfsVnodes, VnodeOk L s' (g v))
    (hpad : ∀ b, s.nblocks ≤ b → (s'.used b ↔ s.used b))
    (htype : ∀ ino, L ino → (s'.inode ino).sfiType = (s.inode ino).sfiType)
    (ho : Owned L H' s.nblocks s'.ptr s'.used) (hsaved : Saved s') : Core L H' s' where
  ioFaults := hs.ioFaults.trans C.ioFaults
  memFaults := hs.memFaults.trans C.memFaults
  dBlocks := by rw [hs.nblocks, hs.dBlocks, C.dBlocks]
  nbits := by rw [hs.nblocks, hs.nbits, C.nbits]
  padding b hb hlt := by
    rw [hs.nblocks] at hb
    rw [hs.nbits] at hlt
    exact (hpad b hb).2 (C.padding b hb hlt)
  table := C.table.map hv hkey
  vnode := by
    rw [hv]
    intro w hw
    obtain ⟨v, hv, rfl⟩ := List.mem_map.1 hw
    exact hg v hv
  root := C.root
  type ino hl := (htype ino hl).trans (C.type ino hl)
  owned := hs.nblocks ▸ ho
  saved := hsaved

/-- A block that is neither an inode nor an indirect block, and not reserved. -/
structure Plain (L : Nat → Prop) (s : SfsFs) (b : Nat) : Prop where
  file : ∀ ino, L ino → ino ≠ b ∧ (s.ptr (.indirect ino) ≠ 0 → s.ptr (.indirect ino) ≠ b)
  free : ¬ Reserved s.nblocks b

theorem inode_writeSector (d : Block) (hb : Plain L s b) {ino : Nat} (hl : L ino) :
    (s.writeSector b d).inode ino = s.inode ino :=
  inode_congr rfl (by rw [sector_writeSector, if_neg (hb.file ino hl).1])

theorem ptr_writeSector (d : Block) (hb : Plain L s b) {p : Ptr} (hl : L p.ino) :
    (s.writeSector b d).ptr p = s.ptr p :=
  ptr_congr (inode_writeSector d hb hl) fun h0 => by
    rw [sector_writeSector, if_neg ((hb.file p.ino hl).2 h0)]

variable (C : Core L H s)
include C

theorem writeSector (d : Block) (hb : Plain L s b) : Core L H (s.writeSector b d) := by
  refine C.step (g := id) ⟨rfl, rfl, rfl, rfl, rfl, rfl⟩ (List.map_id _).symm
    (fun v _ => ⟨rfl, rfl⟩) (fun v hv => ?_) (fun _ _ => Iff.rfl)
    (fun ino hl => by rw [inode_writeSector d hb hl])
    (C.owned.congr (fun p hl => ptr_writeSector d hb hl) fun _ _ => Iff.rfl)
    (C.saved.writeSector hb.free d)
  have V := C.vnode v hv
  refine ⟨V.live, V.addr_lt, V.refcount_pos, V.ops, fun hd => ?_⟩
  rw [sector_writeSector, id, if_neg (hb.file _ V.live).1]
  exact V.clean hd

theorem plain_of_not_used (hb : ¬ s.used b) : Plain L s b := by
  refine ⟨fun ino hl => ⟨?_, fun h0 => ?_⟩, fun hr => hb (C.owned.reserved hr).1⟩
  · rintro rfl
    exact hb (C.owned.inode_used hl).2
  · rintro rfl
    exact hb (C.owned.pointer_used (p := .indirect ino) hl h0).2

/-- A data block is neither an inode nor an indirect block. -/
theorem plain_of_data {ino k : Nat} (hl : L ino)
    (h0 : s.ptr (.data ino k) ≠ 0) : Plain L s (s.ptr (.data ino k)) := by
  refine ⟨fun j hj => ⟨?_, fun hj0 he => ?_⟩, fun hr => (C.owned.reserved hr).2.2 (.data ino k) hl h0 rfl⟩
  · exact (C.owned.pointer_ne_inode (p := .data ino k) hl h0 hj).symm
  · exact Ptr.noConfusion (C.owned.pointer_inj (p := .indirect j) (q := .data ino k) hj hl hj0 he)

theorem mark (hb : ¬ s.used b) (hn : b < s.nblocks) : Core L (fun c => H c ∨ c = b) (s.mark b) := by
  refine C.step (g := id) ⟨rfl, rfl, rfl, rfl, rfl, rfl⟩ (List.map_id _).symm
    (fun v _ => ⟨rfl, rfl⟩) (fun v hv => ?_) (fun c hc => ?_) (fun ino hl => rfl)
    (C.owned.hold hb hn fun c => s.used_mark b c) (C.saved.freemap nofun)
  · have V := C.vnode v hv
    exact ⟨V.live, V.addr_lt, V.refcount_pos, V.ops, V.clean⟩
  · have : c ≠ b := by omega
    simp [this]

theorem discard {T : Nat → Prop} (hT : ∀ b, T b → H b) (d : Bool)
    (hn : m.nbits = s.sfsFreemap.nbits) (hd : Flagged s m d) (hu : ∀ b, bitmapIsset m b = true ↔ s.used b ∧ ¬ T b) :
    Core L (fun b => H b ∧ ¬ T b) { s with sfsFreemap := m, sfsFreemapdirty := d } := by
  refine C.step (g := id) ⟨rfl, rfl, hn, rfl, rfl, rfl⟩ (List.map_id _).symm
    (fun v _ => ⟨rfl, rfl⟩) (fun v hv => ?_) (fun b hb => ?_) (fun ino hl => rfl)
    (C.owned.discard hT fun b _ => hu b) (C.saved.freemap hd)
  · have V := C.vnode v hv
    exact ⟨V.live, V.addr_lt, V.refcount_pos, V.ops, V.clean⟩
  · refine (hu b).trans (and_iff_left fun ht => ?_)
    have := (C.owned.held_used (hT b ht)).1
    omega

theorem unmark (hb : H b) : Core L (fun c => H c ∧ c ≠ b) (s.unmark b) :=
  C.discard (T := (· = b)) (fun _ hc => hc ▸ hb) true rfl nofun fun c => s.used_unmark b c

theorem plain_mark (hb : ¬ s.used b) : Plain L (s.mark b) b :=
  ⟨(C.plain_of_not_used hb).file, (C.plain_of_not_used hb).free⟩

theorem allocated (hb : ¬ s.used b) (hn : b < s.nblocks) :
    Core L (fun c => H c ∨ c = b) (s.allocated b) :=
  (C.mark hb hn).writeSector _ (C.plain_mark hb)

theorem inode_allocated (hb : ¬ s.used b) {ino : Nat} (hl : L ino) :
    (s.allocated b).inode ino = s.inode ino :=
  inode_writeSector (s := s.mark b) _ (C.plain_mark hb) hl

theorem ptr_allocated (hb : ¬ s.used b) (p : Ptr) (hl : L p.ino) :
    (s.allocated b).ptr p = s.ptr p :=
  ptr_writeSector (s := s.mark b) _ (C.plain_mark hb) hl

theorem quiet_allocated (hb : ¬ s.used b) {ino : Nat} (hl : L ino) :
    Quiet L ino s (s.allocated b) := by
  refine .of_views C.table ⟨rfl, rfl, rfl, rfl, rfl, rfl⟩ rfl hl
    (fun j hj => C.inode_allocated hb hj) (fun j hj i => ?_)
  refine byte_congr (C.ptr_allocated hb (.data j _) hj) fun h0 => ?_
  rw [sector_allocated, if_neg]
  rintro rfl
  exact hb (C.owned.pointer_used (p := .data j _) hj h0).2

theorem setInode (hv : s.vnode? sv = some v)
    {f : SfsInode → SfsInode} (ht : (f v.svI).sfiType = v.svI.sfiType)
    (ho : Owned L H' s.nblocks (s.updateVnode sv (SfsVnode.setInode f)).ptr s.used) :
    Core L H' (s.updateVnode sv (SfsVnode.setInode f)) := by
  refine C.step ⟨rfl, rfl, rfl, rfl, rfl, rfl⟩ rfl (fun w _ => ?_) (fun w hw => ?_)
    (fun _ _ => Iff.rfl) (fun ino hl => ?_) ho (C.saved.vnodes _ _)
  · split <;> exact ⟨rfl, rfl⟩
  · have V := C.vnode w hw
    split
    · exact ⟨V.live, V.addr_lt, V.refcount_pos, V.ops, fun h => nomatch h⟩
    · exact ⟨V.live, V.addr_lt, V.refcount_pos, V.ops, V.clean⟩
  · rw [C.table.inode_setInode hv]
    split
    · next h =>
      rw [h, C.table.inode_of_vnode? hv]
      exact ht
    · rfl

theorem fileStep_setInode (hv : s.vnode? sv = some v)
    {f : SfsInode → SfsInode} (ht : (f v.svI).sfiType = v.svI.sfiType)
    (hc : (f v.svI).sfiLinkcount = v.svI.sfiLinkcount) :
    FileStep L v.svIno s (s.updateVnode sv (SfsVnode.setInode f)) := by
  have hin := C.table.inode_setInode hv f
  have hself := C.table.inode_of_vnode? hv
  obtain ⟨hmem, rfl⟩ := C.table.vnode?_iff.1 hv
  refine ⟨⟨rfl, rfl, rfl, rfl, rfl, rfl⟩, ⟨f v.svI, true, ?_⟩, fun j _ hne => ?_, fun j _ hne i => ?_, ?_, ?_⟩
  · refine List.map_congr_left fun w hw => ?_
    by_cases hwv : w = v
    · subst hwv
      simp [SfsVnode.setInode]
    · have ha : w.svAddr ≠ v.svAddr := fun he =>
        hwv (List.inj_on_of_nodup_map C.table.addr_nodup hw hmem he)
      have hi : w.svIno ≠ v.svIno := fun he =>
        hwv (List.inj_on_of_nodup_map C.table.ino_nodup hw hmem he)
      simp [ha, hi]
  · rw [hin, if_neg hne]
  · exact byte_congr (C.table.ptr_setInode_ne hv f (p := .data j _) hne) fun _ => rfl
  · rw [hin, if_pos rfl, hself, ht]
  · rw [hin, if_pos rfl, hself, hc]

/-! ### Writing an indirect block -/

section Indirect

variable {ino : Nat} (hl : L ino)
include hl

/-- The blocks behind the other pointers stay as they are. -/
theorem sector_writeIndirect (d : Block) {q : Ptr} (hq : L q.ino) (hne : q ≠ .indirect ino) (h0 : s.ptr q ≠ 0) :
    (s.writeSector (s.ptr (.indirect ino)) d).sector (s.ptr q) = s.sector (s.ptr q) := by
  rw [sector_writeSector, if_neg]
  exact fun he => hne (C.owned.pointer_inj hq hl h0 he)

variable (hid : s.ptr (.indirect ino) ≠ 0)
include hid

theorem inode_writeIndirect (d : Block) (hj : L j) :
    (s.writeSector (s.ptr (.indirect ino)) d).inode j = s.inode j := by
  refine inode_congr rfl ?_
  rw [sector_writeSector, if_neg]
  exact (C.owned.pointer_ne_inode (p := .indirect ino) hl hid hj).symm

theorem indirect_writeIndirect (d : Block) (hj : L j) :
    (s.writeSector (s.ptr (.indirect ino)) d).ptr (.indirect j) = s.ptr (.indirect j) :=
  congrArg (·.sfiIndirect.toNat) (C.inode_writeIndirect hl hid d hj)

theorem data_writeIndirect (w : Nat → Word) (hj : L j) (k : Nat) :
    (s.writeSector (s.ptr (.indirect ino)) (Block.ofWords w)).ptr (.data j k) =
      if j = ino ∧ sfsNdirect ≤ k ∧ k < sfsMaxblocks then (w (k - sfsNdirect)).toNat else s.ptr (.data j k) := by
  have hin := C.inode_writeIndirect hl hid (Block.ofWords w) hj
  have hind := C.indirect_writeIndirect hl hid (Block.ofWords w) hj
  by_cases hk : j = ino ∧ sfsNdirect ≤ k ∧ k < sfsMaxblocks
  · rw [if_pos hk]
    obtain ⟨rfl, hn, hm⟩ := hk
    rw [ptr_data_entry hn hm (by rwa [hind]), hind, sector_writeSector, if_pos rfl, Block.word_ofWords]
    unfold sfsMaxblocks sfsNdirect sfsDbperidb at *
    omega
  · rw [if_neg hk]
    by_cases hn : k < sfsNdirect
    · rw [ptr_data_direct hn, ptr_data_direct hn, hin]
    · by_cases hm : sfsMaxblocks ≤ k
      · rw [ptr_data_of_le hm, ptr_data_of_le hm]
      · refine ptr_congr hin (C.sector_writeIndirect hl _ (q := .indirect j) hj ?_)
        intro he
        exact hk ⟨Ptr.indirect.inj he, by omega, by omega⟩

theorem writeIndirect (w : Nat → Word)
    (ho : Owned L H' s.nblocks (s.writeSector (s.ptr (.indirect ino)) (Block.ofWords w)).ptr s.used) :
    Core L H' (s.writeSector (s.ptr (.indirect ino)) (Block.ofWords w)) := by
  refine C.step (g := id) ⟨rfl, rfl, rfl, rfl, rfl, rfl⟩ (List.map_id _).symm
    (fun v _ => ⟨rfl, rfl⟩) (fun v hv => ?_) (fun _ _ => Iff.rfl)
    (fun j hj => by rw [C.inode_writeIndirect hl hid _ hj]) ho
    (C.saved.writeSector (fun hr => (C.owned.reserved hr).2.2 (.indirect ino) hl hid rfl) _)
  have V := C.vnode v hv
  refine ⟨V.live, V.addr_lt, V.refcount_pos, V.ops, fun hd => ?_⟩
  rw [sector_writeSector, id, if_neg]
  · exact V.clean hd
  · exact (C.owned.pointer_ne_inode (p := .indirect ino) hl hid V.live).symm

theorem fileStep_writeIndirect (w : Nat → Word) :
    FileStep L ino s (s.writeSector (s.ptr (.indirect ino)) (Block.ofWords w)) := by
  have hin {j : Nat} (hj : L j) := C.inode_writeIndirect hl hid (Block.ofWords w) hj
  refine ⟨⟨rfl, rfl, rfl, rfl, rfl, rfl⟩, map_put_self C.table.ino_nodup _, fun j hj _ => hin hj,
    fun j hj hne i => ?_, by rw [hin hl], by rw [hin hl]⟩
  refine byte_congr ?_ (C.sector_writeIndirect hl _ (q := .data j _) hj (by simp))
  simp [C.data_writeIndirect hl hid w hj, hne]

end Indirect

end Core

end Os161.Sfs
