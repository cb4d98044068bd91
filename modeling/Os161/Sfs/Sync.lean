import Os161.Sfs.Unmount

/-!
# What a sync has written

`sfs_sync` on a device whose transfers may fail. The failures of the free map and of the
superblock are reported; those of the inodes are not, since the result of `VOP_FSYNC` is not looked
at. A sync that returns 0 has therefore written everything exactly when no inode failed to be
written and what was taken for clean was on the disk before.
-/
namespace Os161.Sfs

open Lib Kern SfsFs Prog

variable {s t u : SfsFs}

def SfsFs.Written (s : SfsFs) (v : SfsVnode) : Prop :=
  v.svDirty = false ∧ s.sector v.svIno = v.svI.encode

/-- The blocks of the free map are those of the bitmap in memory. -/
def SfsFs.MapOnDisk (s : SfsFs) : Prop :=
  ∀ j < sfsBitblocks s.nblocks, s.sector (sfsMapLocation + j) = mapBlock s.sfsFreemap.v j

def SfsFs.SuperOnDisk (s : SfsFs) : Prop := s.sector sfsSbLocation = s.sfsSuper.encode

/-- Nothing is dirty, and what is in memory is on the disk. -/
structure Flushed (s : SfsFs) : Prop where
  inodes : ∀ v ∈ s.sfsVnodes, s.Written v
  freemapclean : s.sfsFreemapdirty = false
  freemap : s.MapOnDisk
  superclean : s.sfsSuperdirty = false
  super : s.SuperOnDisk

/-- No two vnodes are for the same inode, and inodes and tables have blocks of their own on the
device. -/
structure Placed (s : SfsFs) : Prop where
  table : s.Table
  inode : ∀ v ∈ s.sfsVnodes, v.svIno < s.sfsDevice.dBlocks ∧ ¬ Reserved s.nblocks v.svIno
  fits : sfsMapLocation + sfsBitblocks s.nblocks ≤ s.sfsDevice.dBlocks

theorem Core.placed {L H : Nat → Prop} (C : Core L H s.calm) : Placed s := by
  have hdev : s.nblocks = s.sfsDevice.dBlocks := C.dBlocks
  refine ⟨⟨C.table.addr_nodup, C.table.ino_nodup⟩, fun v hv => ?_, hdev ▸ C.fits⟩
  have hlive := (C.vnode v hv).live
  exact ⟨hdev ▸ (C.owned.inode_used hlive).1, fun hr => (C.owned.reserved hr).2.1 _ hlive rfl⟩

def dirtyInodes (l : List SfsVnode) : Nat := l.countP (·.svDirty)

theorem dirtyInodes_cons (v : SfsVnode) (l : List SfsVnode) :
    dirtyInodes (v :: l) = dirtyInodes [v] + dirtyInodes l := by
  have happ : v :: l = [v] ++ l := rfl
  unfold dirtyInodes
  rw [happ, List.countP_append]

def SfsFs.mapWrites (s : SfsFs) : Nat := if s.sfsFreemapdirty = true then sfsBitblocks s.nblocks else 0

def SfsFs.superWrites (s : SfsFs) : Nat := if s.sfsSuperdirty = true then 1 else 0

/-- What is not dirty is on the disk. -/
structure CleanOnDisk (s : SfsFs) : Prop where
  inodes : ∀ v ∈ s.sfsVnodes, v.svDirty = false → s.Written v
  freemap : s.sfsFreemapdirty = false → s.MapOnDisk
  super : s.sfsSuperdirty = false → s.SuperOnDisk

/-! ## The loop over the vnodes -/

/-- Writing inodes has used up `n` of the failures ahead, and left the tables alone. -/
structure WroteInodes (s t : SfsFs) (n : Nat) : Prop where
  placed : Placed t
  super : t.sfsSuper = s.sfsSuper
  superdirty : t.sfsSuperdirty = s.sfsSuperdirty
  freemap : t.sfsFreemap = s.sfsFreemap
  freemapdirty : t.sfsFreemapdirty = s.sfsFreemapdirty
  ioFaults : t.ioFaults = s.ioFaults.drop n
  sector : ∀ b, Reserved s.nblocks b → t.sector b = s.sector b

theorem WroteInodes.nblocks {n : Nat} (h : WroteInodes s t n) : t.nblocks = s.nblocks := by
  unfold SfsFs.nblocks
  rw [h.super]

theorem WroteInodes.trans {m n : Nat} (h : WroteInodes s t m) (h' : WroteInodes t u n) :
    WroteInodes s u (m + n) where
  placed := h'.placed
  super := h'.super.trans h.super
  superdirty := h'.superdirty.trans h.superdirty
  freemap := h'.freemap.trans h.freemap
  freemapdirty := h'.freemapdirty.trans h.freemapdirty
  ioFaults := by rw [h'.ioFaults, h.ioFaults, List.drop_drop]
  sector b hb := (h'.sector b (h.nblocks.symm ▸ hb)).trans (h.sector b hb)

variable {pre suf : List SfsVnode} {v : SfsVnode}

/-- Syncing one vnode. It ends up written when it was clean and on the disk, or when it was dirty
and the transfer succeeds. -/
theorem sfsSyncInode_faulty (P : Placed s) (hs : s.sfsVnodes = pre ++ v :: suf) :
    Sat NoPanic (sfsSyncInode v.svAddr) s (fun _ t => ∃ w, t.sfsVnodes = pre ++ w :: suf ∧
      WroteInodes s t (dirtyInodes [v]) ∧
      (t.Written w ↔ (v.svDirty = false → s.Written v) ∧ true ∉ s.ioFaults.take (dirtyInodes [v])) ∧
      ∀ x ∈ pre ++ suf, t.Written x ↔ s.Written x) := by
  have hmem : v ∈ s.sfsVnodes := hs ▸ List.mem_append_right _ List.mem_cons_self
  obtain ⟨hdev, hres⟩ := P.inode v hmem
  simp only [sfsSyncInode, sat_bind, sat_vnode (P.table.vnode?_iff.2 ⟨hmem, rfl⟩), sat_when]
  by_cases hd : v.svDirty = true
  · have hcost : dirtyInodes [v] = 0 + 1 := by simp [dirtyInodes, hd]
    rw [if_pos hd, hcost, mem_take_succ_iff]
    simp only [sat_sfsWblock_faulty hdev]
    by_cases hf : (nextFault s.ioFaults).1 = true
    · rw [if_pos hf]
      refine ⟨v, hs, ⟨⟨⟨P.table.addr_nodup, P.table.ino_nodup⟩, P.inode, P.fits⟩, rfl, rfl, rfl, rfl,
        drop_nextFault _ 0, fun _ _ => rfl⟩, ?_, fun _ _ => Iff.rfl⟩
      simp [SfsFs.Written, hd, hf]
    · rw [if_neg hf]
      simp only [sat_modifyVnode]
      generalize hu : SfsFs.updateVnode _ v.svAddr _ = u
      have hvn : u.sfsVnodes = pre ++ { v with svDirty := false } :: suf := by
        have hkeys : ((pre ++ v :: suf).map (·.svAddr)).Nodup := hs ▸ P.table.addr_nodup
        rw [← hu]
        exact (congrArg (List.map _) hs).trans (map_key_update hkeys fun v => { v with svDirty := false })
      have hsec (b : Nat) : u.sector b = if b = v.svIno then v.svI.encode else s.sector b := by
        rw [← hu, sector_updateVnode]
        exact sector_writeSector ..
      have hnb : u.nblocks = s.nblocks := by rw [← hu]; rfl
      have haddr : u.sfsVnodes.map (·.svAddr) = s.sfsVnodes.map (·.svAddr) := by simp [hvn, hs]
      have hino : u.sfsVnodes.map (·.svIno) = s.sfsVnodes.map (·.svIno) := by simp [hvn, hs]
      have hfree : (u.sfsDevice.dBlocks = s.sfsDevice.dBlocks) := by rw [← hu]; rfl
      refine ⟨_, hvn, ⟨⟨⟨haddr ▸ P.table.addr_nodup, hino ▸ P.table.ino_nodup⟩, fun w hw => ?_, ?_⟩,
        by rw [← hu]; rfl, by rw [← hu]; rfl, by rw [← hu]; rfl, by rw [← hu]; rfl,
        by rw [← hu]; exact drop_nextFault _ 0, fun b hb => ?_⟩, ?_, fun x hx => ?_⟩
      · obtain ⟨x, hx, hxw⟩ : ∃ x ∈ s.sfsVnodes, x.svIno = w.svIno :=
          List.mem_map.1 (hino ▸ List.mem_map_of_mem hw)
        rw [hfree, hnb, ← hxw]
        exact P.inode x hx
      · rw [hfree, hnb]
        exact P.fits
      · rw [hsec, if_neg]
        intro h
        exact hres (h ▸ hb)
      · simp [SfsFs.Written, hsec, hd, hf]
      · have hkeys : ((pre ++ v :: suf).map (·.svIno)).Nodup := hs ▸ P.table.ino_nodup
        have hne : x.svIno ≠ v.svIno := key_ne_of_nodup (f := SfsVnode.svIno) hkeys hx
        rw [SfsFs.Written, hsec, if_neg hne]
        rfl
  · have hcost : dirtyInodes [v] = 0 := by simp [dirtyInodes, hd]
    rw [if_neg hd, hcost]
    refine ⟨v, hs, ⟨P, rfl, rfl, rfl, rfl, rfl, fun _ _ => rfl⟩, ?_, fun _ _ => trivial⟩
    simp [Bool.eq_false_of_not_eq_true hd]

/-- The loop returns 0 whatever happens. All vnodes are written after it exactly when those
before `suf` were, no clean one of `suf` differs from the disk, and no transfer fails. -/
theorem syncVnodes_faulty (pre suf : List SfsVnode) (P : Placed s) (hs : s.sfsVnodes = pre ++ suf) :
    Sat NoPanic (syncVnodes (suf.map (·.svAddr))) s (fun r t => r = .ok () ∧ WroteInodes s t (dirtyInodes suf) ∧
      ((∀ v ∈ t.sfsVnodes, t.Written v) ↔ (∀ v ∈ pre, s.Written v) ∧
        (∀ v ∈ suf, v.svDirty = false → s.Written v) ∧ true ∉ s.ioFaults.take (dirtyInodes suf))) := by
  induction suf generalizing s pre with
  | nil =>
    refine ⟨rfl, ⟨P, rfl, rfl, rfl, rfl, rfl, fun _ _ => rfl⟩, ?_⟩
    simp [hs, dirtyInodes]
  | cons v suf ih =>
    simp only [List.map_cons, syncVnodes, sat_bind, sat_attempt]
    refine (sfsSyncInode_faulty P hs).mono fun _ t ht => ?_
    obtain ⟨w, hvn, hwrote, hw, hrest⟩ := ht
    refine (ih (pre ++ [w]) hwrote.placed (by simpa using hvn)).mono fun r u hu => ?_
    obtain ⟨hr, hwrote', hall⟩ := hu
    refine ⟨hr, dirtyInodes_cons v suf ▸ hwrote.trans hwrote', hall.trans ?_⟩
    rw [dirtyInodes_cons, List.take_add, hwrote.ioFaults]
    simp only [List.mem_append, List.mem_cons, List.not_mem_nil, or_false, not_or] at hrest ⊢
    grind

/-! ## The tables -/

/-- The free map has been written, if it had to be. -/
structure WroteMap (s t : SfsFs) : Prop where
  placed : Placed t
  vnodes : t.sfsVnodes = s.sfsVnodes
  super : t.sfsSuper = s.sfsSuper
  superdirty : t.sfsSuperdirty = s.sfsSuperdirty
  freemapclean : t.sfsFreemapdirty = false
  ioFaults : t.ioFaults = s.ioFaults.drop s.mapWrites
  sector : ∀ b, (∀ j < sfsBitblocks s.nblocks, b ≠ sfsMapLocation + j) → t.sector b = s.sector b
  onDisk : t.MapOnDisk ↔ (s.sfsFreemapdirty = false → s.MapOnDisk)

/-- The superblock and the inodes are not in the blocks of the free map. -/
theorem WroteMap.sector_sb (h : WroteMap s t) : t.sector sfsSbLocation = s.sector sfsSbLocation :=
  h.sector _ fun j _ => by unfold sfsSbLocation sfsMapLocation; omega

theorem WroteMap.written (h : WroteMap s t) (P : Placed s) {v : SfsVnode} (hv : v ∈ s.sfsVnodes) :
    t.Written v ↔ s.Written v := by
  unfold SfsFs.Written
  rw [h.sector v.svIno fun j hj he => (P.inode v hv).2 (.inr ⟨j, hj, he⟩)]

/-- The free map's part of a sync fails when one of its transfers does. -/
theorem syncMap_faulty (P : Placed s) :
    Sat NoPanic (Prog.when (s.sfsFreemapdirty = true) do
        sfsMapio .write
        Prog.modify fun s => { s with sfsFreemapdirty := false }) s (fun r t =>
      (true ∈ s.ioFaults.take s.mapWrites ∧ r = .error .eio) ∨
      (true ∉ s.ioFaults.take s.mapWrites ∧ r = .ok () ∧ WroteMap s t)) := by
  rw [sat_when]
  unfold SfsFs.mapWrites
  by_cases hd : s.sfsFreemapdirty = true
  · rw [if_pos hd, if_pos hd]
    simp only [sfsMapio, sat_bind, sat_get]
    refine (mapioWrite_faulty 0 _ P.fits).mono fun r t ht => ?_
    rcases ht with ⟨hbad, rfl⟩ | ⟨hgood, rfl, sec, rfl, hsec⟩
    · exact .inl ⟨hbad, rfl⟩
    · simp only [Nat.add_zero] at hsec
      refine .inr ⟨hgood, rfl, ⟨⟨P.table.addr_nodup, P.table.ino_nodup⟩, P.inode, P.fits⟩, rfl, rfl, rfl, rfl, ?_,
        fun b hb => ?_, ?_⟩
      · rw [SfsFs.mapWrites, if_pos hd]
      · refine (hsec b).trans (if_neg fun hin => hb (b - sfsMapLocation) (by omega) (by omega))
      · refine iff_of_true (fun j hj => ?_) fun h => absurd h (by simp [hd])
        have hj' : j < sfsBitblocks s.nblocks := hj
        refine (hsec (sfsMapLocation + j)).trans ?_
        rw [if_pos (by omega), Nat.add_sub_cancel_left]
  · rw [if_neg hd, if_neg hd]
    have hclean := Bool.eq_false_of_not_eq_true hd
    refine .inr ⟨by simp, rfl, P, rfl, rfl, rfl, hclean, ?_, fun _ _ => rfl, ⟨fun h _ => h, fun h => h hclean⟩⟩
    rw [SfsFs.mapWrites, if_neg hd, List.drop_zero]

/-- The superblock's part of a sync, when everything else is decided. -/
theorem syncSuper_iff (P : Placed s) (hclean : s.sfsFreemapdirty = false) :
    Sat NoPanic (Prog.when (s.sfsSuperdirty = true) do
        sfsWblock s.sfsSuper.encode sfsSbLocation
        Prog.modify fun s => { s with sfsSuperdirty := false }) s (fun r t => r = .ok () → Flushed t) ↔
      true ∈ s.ioFaults.take s.superWrites ∨
        (∀ v ∈ s.sfsVnodes, s.Written v) ∧ s.MapOnDisk ∧ (s.sfsSuperdirty = false → s.SuperOnDisk) := by
  have hmap : sfsSbLocation < sfsMapLocation := by decide
  have hfits : sfsSbLocation < s.sfsDevice.dBlocks := hmap.trans_le ((Nat.le_add_right _ _).trans P.fits)
  rw [sat_when]
  unfold SfsFs.superWrites
  by_cases hd : s.sfsSuperdirty = true
  · rw [if_pos hd, if_pos hd, mem_take_succ_iff]
    simp only [sat_bind, sat_sfsWblock_faulty hfits, sat_modify]
    by_cases hf : (nextFault s.ioFaults).1 = true
    · simp [hf]
    · rw [if_neg hf]
      generalize hu : SfsFs.mk _ _ _ _ _ _ _ _ _ = u
      have hsec (b : Nat) : u.sector b = if b = sfsSbLocation then s.sfsSuper.encode else s.sector b := by
        rw [← hu]
        exact sector_writeSector ..
      have hvn : u.sfsVnodes = s.sfsVnodes := by rw [← hu]; rfl
      have hin (v : SfsVnode) (hv : v ∈ s.sfsVnodes) : u.Written v ↔ s.Written v := by
        unfold SfsFs.Written
        rw [hsec, if_neg fun h => (P.inode v hv).2 (.inl h)]
      have hmapped : u.MapOnDisk ↔ s.MapOnDisk := by
        have hnb : u.nblocks = s.nblocks := by rw [← hu]; rfl
        have hfm : u.sfsFreemap = s.sfsFreemap := by rw [← hu]; rfl
        unfold SfsFs.MapOnDisk
        rw [hnb, hfm]
        refine forall₂_congr fun j _ => ?_
        rw [hsec, if_neg (by omega)]
      have hsuper : u.SuperOnDisk := by
        unfold SfsFs.SuperOnDisk
        rw [hsec, if_pos rfl, ← hu]
        rfl
      simp only [hf, hd, List.take_zero, List.not_mem_nil, or_self, false_or, Bool.true_eq_false, Bool.false_eq_true,
        false_implies, and_true, forall_const]
      constructor
      · intro F
        exact ⟨fun v hv => (hin v hv).1 (F.inodes v (hvn ▸ hv)), hmapped.1 F.freemap⟩
      · rintro ⟨hw, hm⟩
        refine ⟨fun v hv => ?_, ?_, hmapped.2 hm, ?_, hsuper⟩
        · rw [hvn] at hv
          exact (hin v hv).2 (hw v hv)
        · rw [← hu]
          exact hclean
        · rw [← hu]
  · rw [if_neg hd, if_neg hd]
    have hclean' := Bool.eq_false_of_not_eq_true hd
    simp only [List.take_zero, List.not_mem_nil, false_or, hclean', forall_const]
    exact ⟨fun h => ⟨h.inodes, h.freemap, h.super⟩, fun h => ⟨h.1, hclean, h.2.1, hclean', h.2.2⟩⟩

/-- The tables are written after everything else, and their failures are reported. -/
theorem syncTables_iff (P : Placed s) : Sat NoPanic syncTables s (fun r t => r = .ok () → Flushed t) ↔
    true ∈ s.ioFaults.take (s.mapWrites + s.superWrites) ∨
      (∀ v ∈ s.sfsVnodes, s.Written v) ∧ (s.sfsFreemapdirty = false → s.MapOnDisk) ∧
        (s.sfsSuperdirty = false → s.SuperOnDisk) := by
  simp only [syncTables, sat_bind, sat_get]
  rw [List.take_add, List.mem_append]
  refine (syncMap_faulty P).iff_of_forall fun r t ht => ?_
  rcases ht with ⟨hbad, rfl⟩ | ⟨hgood, rfl, h⟩
  · simp [hbad]
  · have hsuper : t.superWrites = s.superWrites := by unfold SfsFs.superWrites; rw [h.superdirty]
    have hsb : t.SuperOnDisk ↔ s.SuperOnDisk := by unfold SfsFs.SuperOnDisk; rw [h.sector_sb, h.super]
    refine (syncSuper_iff h.placed h.freemapclean).trans ?_
    rw [h.ioFaults, hsuper, h.superdirty, h.onDisk, hsb, h.vnodes, or_iff_right hgood]
    refine or_congr_right (and_congr_left fun _ => ?_)
    exact forall₂_congr fun v hv => h.written P hv

/-! ## The whole sync -/

/-- When a sync that returns 0 has written everything: one of the transfers of the tables fails,
so that it does not return 0, or no transfer of an inode fails and what is clean is on the disk. -/
def SfsFs.SyncTells (s : SfsFs) : Prop :=
  true ∈ (s.ioFaults.drop (dirtyInodes s.sfsVnodes)).take (s.mapWrites + s.superWrites) ∨
    true ∉ s.ioFaults.take (dirtyInodes s.sfsVnodes) ∧ CleanOnDisk s

theorem sfsSync_flushes_iff (P : Placed s) :
    Prog.Sat NoPanic sfsSync s (fun r t => r = .ok () → Flushed t) ↔ s.SyncTells := by
  simp only [sfsSync, sat_bind, sat_get]
  refine (syncVnodes_faulty [] _ P rfl).iff_of_forall fun r t ht => ?_
  obtain ⟨rfl, h, hall⟩ := ht
  have hmap : t.mapWrites = s.mapWrites := by unfold SfsFs.mapWrites; rw [h.freemapdirty, h.nblocks]
  have hsuper : t.superWrites = s.superWrites := by unfold SfsFs.superWrites; rw [h.superdirty]
  have hfree : t.MapOnDisk ↔ s.MapOnDisk := by
    unfold SfsFs.MapOnDisk
    rw [h.nblocks, h.freemap]
    exact forall₂_congr fun j hj => by rw [h.sector _ (.inr ⟨j, hj, rfl⟩)]
  have hsb : t.SuperOnDisk ↔ s.SuperOnDisk := by
    unfold SfsFs.SuperOnDisk
    rw [h.sector _ (.inl rfl), h.super]
  refine (syncTables_iff h.placed).trans ?_
  rw [hall, hmap, hsuper, hfree, hsb, h.ioFaults, h.freemapdirty, h.superdirty]
  refine or_congr_right ?_
  constructor
  · rintro ⟨⟨_, hclean, hgood⟩, hm, hs⟩
    exact ⟨hgood, hclean, hm, hs⟩
  · rintro ⟨hgood, C⟩
    exact ⟨⟨by simp, C.inodes, hgood⟩, C.freemap, C.super⟩

/-- The sample volume with a new file, whose disk fails once. -/
def sampleFailing : SfsFs := { sampleFile with ioFaults := [true] }

theorem placed_sampleFailing : Placed sampleFailing := by
  have C := (consistent_of_run mounted_sampleVolume run_sampleFile).1.core
  unfold sampleFailing
  generalize sampleFile = s at C ⊢
  have hcalm : s.calm = s := calm_of_no_faults C.ioFaults C.memFaults
  rw [← hcalm] at C
  exact Core.placed (s := { s with ioFaults := [true] }) C

theorem sfsSync_flushes_sampleFailing : Placed sampleFailing ∧
    (Prog.Sat NoPanic sfsSync sampleFailing (fun r t => r = .ok () → Flushed t) ↔ sampleFailing.SyncTells) := by
  have P := placed_sampleFailing
  generalize sampleFailing = s at P ⊢
  exact ⟨P, sfsSync_flushes_iff P⟩

/-- The sync returns 0, and the inode of the directory is still dirty. -/
theorem sfsSync_hides_failure : ∃ t, sfsSync sampleFailing = .ok (.ok (), t) ∧ ∃ v ∈ t.sfsVnodes, v.svDirty = true := by
  have h : (sfsSync.value? sampleFailing).any (fun p => p.2.sfsVnodes.any (·.svDirty)) = true := by
    decide +kernel
  obtain ⟨⟨_, t⟩, ht, h⟩ := (Option.any_eq_true _ _).1 h
  exact ⟨t, Prog.value?_eq_some.1 ht, List.any_eq_true.1 h⟩

end Os161.Sfs
