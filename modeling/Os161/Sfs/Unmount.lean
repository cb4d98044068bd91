import Os161.Sfs.Contents

/-!
# Unmounting and mounting again

`sfs_sync` and `sfs_unmount`. A sync writes what is marked dirty and changes no file. Once the
last reference to every vnode is dropped, what an unmounted volume holds is on its disk: the
free map, the directory, and every file that has a name are found again when it is mounted.
-/
namespace Os161.Sfs

open Lib Kern SfsFs Prog

/-- The loop of `sfs_sync` over the loaded vnodes. Errors are not looked at. -/
def syncVnodes : List Nat → SfsM Unit
  | [] => pure ()
  | sv :: l => do
    let _ ← Prog.attempt (sfsSyncInode sv)
    syncVnodes l

/-- The rest of `sfs_sync`: the free map and the superblock. -/
def syncTables : SfsM Unit := do
  let s ← Prog.get
  Prog.when (s.sfsFreemapdirty = true) do
    sfsMapio .write
    Prog.modify fun s => { s with sfsFreemapdirty := false }
  let s ← Prog.get
  Prog.when (s.sfsSuperdirty = true) do
    sfsWblock s.sfsSuper.encode sfsSbLocation
    Prog.modify fun s => { s with sfsSuperdirty := false }

def sfsSync : SfsM Unit := do
  let s ← Prog.get
  syncVnodes (s.sfsVnodes.map (·.svAddr))
  syncTables

/-- `sfs_unmount` up to the release of the memory. -/
def sfsUnmount : SfsM Unit := do
  let s ← Prog.get
  if s.sfsVnodes ≠ [] then Prog.raise .ebusy
  else do
    Prog.check (s.sfsSuperdirty = false) .unmountSuperdirty
    Prog.check (s.sfsFreemapdirty = false) .unmountFreemapdirty

/-- What `vfs_unmount` does with the file system of a device. -/
def vfsUnmount : SfsM Unit := do
  sfsSync
  sfsUnmount

/-! ## Syncing -/

variable {L H : Nat → Prop} {s t u : SfsFs}

/-- Nothing that a reader of the files could notice changes. -/
structure Synced (L H : Nat → Prop) (s t : SfsFs) : Prop where
  core : Core L H t
  same : SameFiles L s t
  loaded : ∀ j, t.Loaded j ↔ s.Loaded j
  freemap : t.sfsFreemap = s.sfsFreemap
  opens : ∀ a, t.opens a = s.opens a

theorem Synced.trans (h : Synced L H s t) (h' : Synced L H t u) : Synced L H s u :=
  ⟨h'.core, h.same.trans h'.same, fun j => (h'.loaded j).trans (h.loaded j), h'.freemap.trans h.freemap,
    fun a => (h'.opens a).trans (h.opens a)⟩

theorem syncVnodes_spec (l : List Nat) (C : Core L H s) (hl : ∀ a ∈ l, ∃ v, s.vnode? a = some v) :
    Sat NoPanic (syncVnodes l) s (fun r t => r = .ok () ∧ Synced L H s t) := by
  induction l generalizing s with
  | nil => exact ⟨rfl, C, .refl L s, fun _ => Iff.rfl, rfl, fun _ => rfl⟩
  | cons a l ih =>
    obtain ⟨v, hv⟩ := hl a List.mem_cons_self
    simp only [syncVnodes, sat_bind, sat_attempt]
    refine (sfsSyncInode_spec C hv).mono ?_
    rintro _ t ⟨rfl, D, q, same, -, -, hmap⟩
    refine (ih D fun b hb => ?_).mono ?_
    · obtain ⟨w, hw⟩ := hl b (List.mem_cons_of_mem _ hb)
      obtain ⟨x, hx, -⟩ := q.keeps b w hw
      exact ⟨x, hx⟩
    · rintro _ u ⟨rfl, h⟩
      exact ⟨rfl, .trans ⟨D, same, q.loaded, hmap, q.counts.opens⟩ h⟩

theorem mem_take_succ_iff (l : List Bool) (n : Nat) :
    true ∈ l.take (n + 1) ↔ (nextFault l).1 = true ∨ true ∈ (nextFault l).2.take n := by
  cases l with
  | nil => simp [nextFault]
  | cons b l => simp [nextFault, eq_comm]

theorem drop_nextFault (l : List Bool) (n : Nat) : (nextFault l).2.drop n = l.drop (n + 1) := by
  cases l with
  | nil | cons b l => simp [nextFault]

/-- Writing `n` blocks of the free map fails when one of the `n` transfers does. -/
theorem mapioWrite_faulty (j n : Nat) (hn : sfsMapLocation + j + n ≤ s.sfsDevice.dBlocks) :
    Sat NoPanic (mapioWrite j n) s (fun r t => (true ∈ s.ioFaults.take n ∧ r = .error .eio) ∨
      (true ∉ s.ioFaults.take n ∧ r = .ok () ∧ ∃ sec : Nat → Block, t = { s with
            sfsDevice := { s.sfsDevice with sector := sec }, ioFaults := s.ioFaults.drop n } ∧
          ∀ b, sec b = if sfsMapLocation + j ≤ b ∧ b < sfsMapLocation + j + n then
            mapBlock s.sfsFreemap.v (b - sfsMapLocation) else s.sector b)) := by
  induction n generalizing j s with
  | zero => exact .inr ⟨by simp, rfl, s.sfsDevice.sector, rfl, fun b => by rw [if_neg (by omega)]; rfl⟩
  | succ n ih =>
    simp only [mapioWrite, sat_bind, sat_get, mem_take_succ_iff]
    refine (sat_sfsWblock_faulty (by omega) _).2 ?_
    by_cases hf : (nextFault s.ioFaults).1 = true
    · rw [if_pos hf]
      exact .inl ⟨.inl hf, rfl⟩
    rw [if_neg hf]
    refine (ih (s := SfsFs.writeSector _ (sfsMapLocation + j) (mapBlock s.sfsFreemap.v j)) (j + 1) ?_).mono ?_
    · change sfsMapLocation + (j + 1) + n ≤ s.sfsDevice.dBlocks
      omega
    · intro r t ht
      rcases ht with ⟨hbad, hr⟩ | ⟨hgood, hr, sec, ht, hsec⟩
      · exact .inl ⟨.inr hbad, hr⟩
      · refine .inr ⟨not_or.2 ⟨hf, hgood⟩, hr, sec, ?_, fun b => (hsec b).trans ?_⟩
        · rw [ht, ← drop_nextFault]
          rfl
        · rw [sector_writeSector]
          by_cases hb : b = sfsMapLocation + j
          · rw [if_neg (by omega), if_pos hb, if_pos (by omega), hb, Nat.add_sub_cancel_left]
          · rw [if_neg hb]
            exact if_congr (by omega) rfl rfl

theorem Core.fits (C : Core L H s) : sfsMapLocation + sfsBitblocks s.nblocks ≤ s.nblocks := by
  have hroot := (C.owned.inode_used C.root).1
  have hpos : 0 < sfsBitblocks s.nblocks := by
    have := nblocks_le_bitmapsize s.nblocks
    rw [sfsBitmapsize_eq] at this
    by_contra h0
    rw [Nat.eq_zero_of_not_pos h0] at this
    omega
  have hlast := (C.owned.sound (p := .freemap (sfsBitblocks s.nblocks - 1))
    (b := sfsMapLocation + (sfsBitblocks s.nblocks - 1)) ⟨by omega, rfl⟩).1
  omega

/-- The free map has been written: the blocks that changed are no part of a file. -/
theorem Core.writeMap (C : Core L H s) {sec : Nat → Block}
    (hsec : ∀ b, sec b = if sfsMapLocation ≤ b ∧ b < sfsMapLocation + sfsBitblocks s.nblocks then
      mapBlock s.sfsFreemap.v (b - sfsMapLocation) else s.sector b)
    (ht : t = { s with sfsDevice := { s.sfsDevice with sector := sec }, sfsFreemapdirty := false }) :
    Core L H t ∧ SameFiles L s t := by
  have htsec (b : Nat) : t.sector b = sec b := by rw [ht]; rfl
  have away {b : Nat} (hb : ¬ Reserved s.nblocks b) : t.sector b = s.sector b := by
    rw [htsec, hsec, if_neg]
    rintro ⟨h1, h2⟩
    exact hb (.inr ⟨b - sfsMapLocation, by omega, by omega⟩)
  have hfile {ino : Nat} (hl : L ino) : t.sector ino = s.sector ino :=
    away fun hr => (C.owned.reserved hr).2.1 ino hl rfl
  have hdata {p : Ptr} (hl : L p.ino) (h0 : s.ptr p ≠ 0) : t.sector (s.ptr p) = s.sector (s.ptr p) :=
    away fun hr => (C.owned.reserved hr).2.2 p hl h0 rfl
  have hin {j : Nat} (hj : L j) : t.inode j = s.inode j := inode_congr (by rw [ht]; rfl) (hfile hj)
  have hp (p : Ptr) (hl : L p.ino) : t.ptr p = s.ptr p :=
    ptr_congr (hin hl) (hdata (p := .indirect p.ino) hl)
  have hby (j : Nat) (hj : L j) (i : Nat) : t.byte j i = s.byte j i :=
    byte_congr (hp (.data j _) hj) (hdata (p := .data j _) hj)
  have hstat : Static s t := by rw [ht]; exact ⟨rfl, rfl, rfl, rfl, rfl, rfl⟩
  refine ⟨C.step (g := id) hstat ?_ (fun v _ => ⟨rfl, rfl⟩) (fun v hv => ?_) ?_
    (fun ino hl => by rw [hin hl]) (C.owned.congr hp ?_) ?_, hstat.super, fun _ => hin, hby⟩
  · rw [ht, List.map_id]
  · have V := C.vnode v hv
    refine ⟨V.live, by rw [ht]; exact V.addr_lt, V.refcount_pos, V.ops, fun hd => ?_⟩
    rw [id, hfile V.live]
    exact V.clean hd
  · intro b _
    rw [ht]
    exact Iff.rfl
  · intro b _
    rw [ht]
    exact Iff.rfl
  · refine ⟨by rw [ht]; exact C.saved.superclean, ?_, by rw [hstat.super]; exact C.saved.magic, fun _ i hi => ?_⟩
    · rw [hstat.super, htsec, hsec, if_neg (by unfold sfsSbLocation sfsMapLocation; omega)]
      exact C.saved.super
    · rw [hstat.nblocks] at hi
      have hmod : i % sfsBlocksize < 512 := Nat.mod_lt _ (by decide)
      rw [htsec, hsec, if_pos ⟨Nat.le_add_right _ _, Nat.add_lt_add_left hi _⟩, Nat.add_sub_cancel_left,
        mapBlock, Block.get_ofFn _ hmod, Nat.div_add_mod', ht]

theorem syncTables_spec (C : Core L H s) : Sat NoPanic syncTables s (fun r t => r = .ok () ∧ Synced L H s t ∧
    t.sfsFreemapdirty = false ∧ t.sfsSuperdirty = false) := by
  have hclean := C.saved.superclean
  simp only [syncTables, sat_bind, sat_get, sat_when]
  by_cases hd : s.sfsFreemapdirty = true
  · rw [if_pos hd]
    simp only [sfsMapio, sat_bind, sat_get]
    refine (mapioWrite_faulty 0 _ ?_).mono ?_
    · have := C.fits
      have := C.dBlocks
      omega
    · intro r t ht
      simp only [C.ioFaults, List.take_nil, List.not_mem_nil, false_and, false_or, not_false_eq_true,
        true_and, List.drop_nil] at ht
      obtain ⟨rfl, sec, rfl, hsec⟩ := ht
      simp only [Nat.add_zero] at hsec
      obtain ⟨D, same⟩ := C.writeMap hsec rfl
      rw [C.ioFaults] at D same
      simp only [sat_modify]
      rw [if_neg (Bool.not_eq_true _ ▸ hclean)]
      exact ⟨trivial, ⟨D, same, fun _ => Iff.rfl, rfl, fun _ => rfl⟩, trivial, hclean⟩
  · rw [if_neg hd, if_neg (Bool.not_eq_true _ ▸ hclean)]
    exact ⟨trivial, ⟨C, .refl L s, fun _ => Iff.rfl, rfl, fun _ => rfl⟩, Bool.eq_false_of_not_eq_true hd, hclean⟩

theorem sfsSync_spec (C : Core L H s) : Sat NoPanic sfsSync s (fun r t => r = .ok () ∧ Synced L H s t ∧
    t.sfsFreemapdirty = false ∧ t.sfsSuperdirty = false) := by
  simp only [sfsSync, sat_bind, sat_get]
  refine (syncVnodes_spec _ C fun a ha => ?_).mono ?_
  · obtain ⟨v, hv, rfl⟩ := List.mem_map.1 ha
    exact ⟨v, C.table.vnode?_iff.2 ⟨hv, rfl⟩⟩
  · rintro _ t ⟨rfl, h⟩
    refine (syncTables_spec h.core).mono ?_
    rintro _ u ⟨rfl, h', hclean⟩
    exact ⟨rfl, h.trans h', hclean⟩

/-! ## Unmounting -/

theorem vnodes_nil_iff : s.sfsVnodes = [] ↔ ∀ j, ¬ s.Loaded j := by
  rw [List.eq_nil_iff_forall_not_mem]
  exact ⟨fun h j ⟨v, hv, _⟩ => h v hv, fun h v hv => h v.svIno ⟨v, hv, rfl⟩⟩

/-- A volume is busy as long as a vnode of it is in memory. When there is none, the assertions of
`sfs_unmount` hold, and the disk has all there is to know about the volume. -/
theorem vfsUnmount_spec (C : Core L H s) : Sat NoPanic vfsUnmount s (fun r t => Synced L H s t ∧
    if s.sfsVnodes = [] then r = .ok () ∧ Volume t.sfsDevice t.sfsSuper t.sfsFreemap.v else r = .error .ebusy) := by
  simp only [vfsUnmount, sat_bind]
  refine (sfsSync_spec C).mono ?_
  rintro _ t ⟨rfl, h, hmapclean, hclean⟩
  have hempty : t.sfsVnodes = [] ↔ s.sfsVnodes = [] := by
    rw [vnodes_nil_iff, vnodes_nil_iff]
    exact forall_congr' fun j => not_congr (h.loaded j)
  simp only [sfsUnmount, sat_bind, sat_get, sat_ite, sat_raise, sat_check, ne_eq,
    ite_not, hempty, hclean, hmapclean, if_true]
  split
  · have D := h.core
    refine ⟨h, trivial, D.saved.super, D.saved.magic, D.dBlocks, ?_, fun i hi => ?_⟩
    · rw [← D.dBlocks]
      exact D.fits
    · rw [← D.dBlocks] at hi
      exact D.saved.map hmapclean i hi
  · exact ⟨h, trivial⟩

/-! ## Mounting again -/

section Remount

variable {v : Nat → Byte} (M : MountedOn s.sfsDevice s.sfsSuper v t) (hempty : s.sfsVnodes = [])
include M hempty

theorem MountedOn.sameFiles : SameFiles L s t := by
  have hsec (b : Nat) : t.sector b = s.sector b := by
    unfold SfsFs.sector
    rw [M.device]
  refine .of_inode M.super (fun j _ => inode_congr ?_ (hsec j)) hsec
  unfold loaded?
  rw [M.vnodes, hempty]

theorem MountedOn.core (C : Core L H s) (V : Volume s.sfsDevice s.sfsSuper v)
    (hv : v = s.sfsFreemap.v) : Core L H t := by
  have same : SameFiles L s t := M.sameFiles hempty
  have hnb : t.nblocks = s.nblocks := (M.nblocks_eq V).trans C.dBlocks.symm
  have hused (b : Nat) (hb : b < sfsBitmapsize s.nblocks) : t.used b ↔ s.used b := by
    rw [C.dBlocks] at hb
    rw [M.used_iff hb, hv]
    exact Iff.rfl
  have hsec (b : Nat) : t.sector b = s.sector b := by
    unfold SfsFs.sector
    rw [M.device]
  refine ⟨M.ioFaults, M.memFaults, hnb.trans (C.dBlocks.trans (congrArg _ M.device.symm)),
    M.nbits.trans (by rw [hnb, C.dBlocks]), fun b hb hlt => ?_, ⟨?_, ?_⟩, ?_, C.root, fun j hj => ?_, ?_,
    M.saved V⟩
  · rw [M.nbits, ← C.dBlocks] at hlt
    rw [hnb] at hb
    exact (hused b hlt).2 (C.padding b hb (C.nbits ▸ hlt))
  · simp [M.vnodes]
  · simp [M.vnodes]
  · simp [M.vnodes]
  · rw [same.inode j hj]
    exact C.type j hj
  · rw [hnb]
    refine C.owned.congr (fun p hp => ptr_congr (same.inode _ hp) fun _ => hsec _) fun b hb => ?_
    exact hused b (Nat.lt_of_lt_of_le hb (nblocks_le_bitmapsize _))

end Remount

/-- A volume without vnodes in memory can be unmounted and mounted again, and is what it was. -/
theorem remount_spec (C : Core L H s) (hempty : s.sfsVnodes = []) :
    ∃ u t, vfsUnmount s = .ok (.ok (), u) ∧ sfsDomount (u.sfsDevice.unmounted [] []) = .ok (.ok (), t) ∧
      Core L H t ∧ SameFiles L s t ∧ t.sfsVnodes = [] ∧ t.sfsFreemap.nbits = s.sfsFreemap.nbits ∧
      ∀ b < s.sfsFreemap.nbits, bitmapIsset t.sfsFreemap b = bitmapIsset s.sfsFreemap b := by
  obtain ⟨_, u, hu, h, hr⟩ := (vfsUnmount_spec C).exists_ok
  rw [if_pos hempty] at hr
  obtain ⟨rfl, V⟩ := hr
  obtain ⟨_, t, ht, rfl, M⟩ := (sfsDomount_spec V).exists_ok
  have huempty : u.sfsVnodes = [] :=
    vnodes_nil_iff.2 fun j hj => vnodes_nil_iff.1 hempty j ((h.loaded j).1 hj)
  have hn : u.sfsFreemap.nbits = sfsBitmapsize u.sfsDevice.dBlocks := by
    rw [h.core.nbits, h.core.dBlocks]
  refine ⟨u, t, hu, ht, M.core huempty h.core V rfl, h.same.trans (M.sameFiles huempty), M.vnodes, ?_, fun b hb => ?_⟩
  · rw [M.nbits, ← hn, h.freemap]
  · rw [← h.freemap] at hb ⊢
    rw [Bool.eq_iff_iff]
    exact M.used_iff (hn ▸ hb)

/-! ## Runs with syncs and remounts -/

inductive VolumeEvent where
  | call (e : SfsEvent)
  | sync
  | remount

/-- The calls on files, `FSOP_SYNC`, and an unmount that is followed by a mount. (An unmount that
fails because the volume is busy does what a sync does.) -/
def VolumeStep (s : SfsFs) (e : VolumeEvent) (t : SfsFs) : Prop :=
  match e with
  | .call e => SfsStep s e t
  | .sync => sfsSync s = .ok (.ok (), t)
  | .remount => ∃ u, vfsUnmount s = .ok (.ok (), u) ∧ sfsDomount (u.sfsDevice.unmounted [] []) = .ok (.ok (), t)

theorem VolumeStep.consistent {e : VolumeEvent} (step : VolumeStep s e t)
    (K : Consistent L rootLink s) (hopen : s.Unopened) : (∃ L', Consistent L' rootLink t) ∧ t.Unopened := by
  cases e with
  | call e =>
    obtain ⟨hc, hrun⟩ := step
    obtain ⟨K', ho⟩ := ((SfsCall.run_spec K (fun _ _ => hopen _) hc).of_ok hrun).consistent K hc
    exact ⟨K', fun a => (ho a).trans (hopen a)⟩
  | sync =>
    obtain ⟨-, h, -⟩ := (sfsSync_spec K.core).of_ok step
    exact ⟨⟨L, K.same h.core h.same fun j => (h.loaded j).2⟩, fun a => (h.opens a).trans (hopen a)⟩
  | remount =>
    obtain ⟨u, hu, ht⟩ := step
    have hempty : s.sfsVnodes = [] := by
      by_contra hne
      have h := ((vfsUnmount_spec K.core).of_ok hu).2
      rw [if_neg hne] at h
      exact nomatch h
    obtain ⟨u', t', hu', ht', C, same, hnil, -⟩ := remount_spec K.core hempty
    obtain ⟨-, rfl⟩ := Prod.mk.inj (Except.ok.inj (hu.symm.trans hu'))
    obtain ⟨-, rfl⟩ := Prod.mk.inj (Except.ok.inj (ht.symm.trans ht'))
    exact ⟨⟨L, K.same C same fun j hj => (vnodes_nil_iff.1 hempty j hj).elim⟩, unopened_of_vnodes hnil⟩

/-! ## The end of a run -/

def DropStep (s : SfsFs) (sv : Nat) (t : SfsFs) : Prop :=
  ∃ r, SfsStep s (.decref sv, r) t

/-- Dropping a reference takes at most a file without names away. -/
theorem DropStep.sameFiles {sv : Nat} (step : DropStep s sv t) (K : Consistent L rootLink s) (hopen : s.Unopened) :
    ∃ L', (∀ j, L' j → L j) ∧ Consistent L' rootLink t ∧ SameFiles L' s t ∧ t.Unopened := by
  obtain ⟨_, hc, hrun⟩ := step
  obtain ⟨v, hv⟩ := hc.vnodes sv (by simp [SfsCall.vnodes])
  have hdrop := vnodeDecref_spec K.core hv (fun _ => (opens_of_vnode? hv).symm.trans (hopen sv))
    fun h0 => (K.unlinked hv h0).1
  have hspec : Sat NoPanic (SfsCall.decref sv).run s (fun _ t => Dropped L (fun _ => False) v s t) :=
    sat_replyDone.2 (hdrop.mono fun _ _ h => h.2)
  have h := hspec.of_ok hrun
  exact ⟨LiveAfter L v, fun _ hj => hj.1, K.drop hv h, h.same, fun a => (h.counts.opens a).trans (hopen a)⟩

theorem dropRun_sameFiles {svs : List Nat} (K : Consistent L rootLink s) (hopen : s.Unopened)
    (h : Run DropStep s svs t) : ∃ L', Consistent L' rootLink t ∧ SameFiles L' s t := by
  obtain ⟨L', K', same, -⟩ := h.invariant (I := fun t => ∃ L', Consistent L' rootLink t ∧ SameFiles L' s t ∧ t.Unopened)
      ⟨L, K, .refl L s, hopen⟩ <| by
    intro t sv u ⟨L', K', same, hopen⟩ step
    obtain ⟨L'', hL', K'', same', hopen'⟩ := step.sameFiles K' hopen
    exact ⟨L'', K'', (same.mono hL').trans same', hopen'⟩
  exact ⟨L', K', same⟩

/-- When all references are dropped, the volume can be unmounted and mounted again. The free map is
the same again, and so are the directory and every file in it, as they were before. -/
theorem unmount_mount {s₀ s s' : SfsFs} {tr : List VolumeEvent} {svs : List Nat} (h₀ : Mounted s₀)
    (run : Run VolumeStep s₀ tr s) (drops : Run DropStep s svs s') (hempty : s'.sfsVnodes = []) :
    ∃ u t, vfsUnmount s' = .ok (.ok (), u) ∧ sfsDomount (u.sfsDevice.unmounted [] []) = .ok (.ok (), t) ∧
      (t.sfsFreemap.nbits = s'.sfsFreemap.nbits ∧
        ∀ b < s'.sfsFreemap.nbits, bitmapIsset t.sfsFreemap b = bitmapIsset s'.sfsFreemap b) ∧
      (t.slots = s.slots ∧ ∀ i < s.slots, t.slot i = s.slot i) ∧
      ∀ ino, ino = sfsRootLocation ∨ ino ≠ 0 ∧ 0 < s.links ino →
        t.inode ino = s.inode ino ∧ t.contents ino = s.contents ino := by
  obtain ⟨⟨L, K⟩, hopen⟩ := run.invariant (I := fun s => (∃ L, Consistent L rootLink s) ∧ s.Unopened)
    ⟨⟨_, h₀.consistent⟩, unopened_of_vnodes h₀.vnodes⟩
    fun ⟨⟨_, K⟩, hopen⟩ step => step.consistent K hopen
  obtain ⟨L', K', same⟩ := dropRun_sameFiles K hopen drops
  obtain ⟨u, t, hu, ht, -, same', -, hbits⟩ := remount_spec K'.core hempty
  have hall := same.trans same'
  have hdir : DirSame s t := hall.dirSame K'.core.root
  refine ⟨u, t, hu, ht, hbits, ⟨hdir.slots_eq, hdir.slot⟩, fun ino hino => ?_⟩
  have hlive : L' ino := by
    refine (K'.live_iff ino).2 (hino.imp_right fun h => .inr ⟨h.1, ?_⟩)
    rw [(same.dirSame K'.core.root).links]
    exact h.2
  have hin := hall.inode ino hlive
  exact ⟨hin, contents_congr (by rw [hin]) (hall.byte ino hlive)⟩

/-- The sample file and the root directory are dropped. -/
def sampleClosed : SfsFs := (SfsCall.decref 8).after sampleFile
def sampleDropped : SfsFs := (SfsCall.decref 5).after sampleClosed

theorem run_sampleDropped : Run DropStep sampleFile [5, 8] sampleDropped := by
  have drop {s : SfsFs} {sv : Nat} (hv : (s.vnode? sv).isSome = true) (hok : ((SfsCall.decref sv).run s).isOk = true) :
      DropStep s sv ((SfsCall.decref sv).after s) := by
    refine ⟨_, SfsCall.step_after ⟨fun a ha => ?_, trivial⟩ hok⟩
    obtain rfl : a = sv := by simpa [SfsCall.vnodes] using ha
    exact Option.isSome_iff_exists.1 hv
  refine .step (.step .start (drop ?_ ?_)) (drop ?_ ?_)
  all_goals decide +kernel

theorem unmount_mount_sampleFile : ∃ u t, vfsUnmount sampleDropped = .ok (.ok (), u) ∧
    sfsDomount (u.sfsDevice.unmounted [] []) = .ok (.ok (), t) ∧ (t.sfsFreemap.nbits = sampleDropped.sfsFreemap.nbits ∧
      ∀ b < sampleDropped.sfsFreemap.nbits, bitmapIsset t.sfsFreemap b = bitmapIsset sampleDropped.sfsFreemap b) ∧
    (t.slots = sampleFile.slots ∧ ∀ i < sampleFile.slots, t.slot i = sampleFile.slot i) ∧
    ∀ ino, ino = sfsRootLocation ∨ ino ≠ 0 ∧ 0 < sampleFile.links ino →
      t.inode ino = sampleFile.inode ino ∧ t.contents ino = sampleFile.contents ino :=
  unmount_mount mounted_sampleVolume (run_sampleFile.map VolumeEvent.call fun h => h) run_sampleDropped
    (by decide +kernel)

end Os161.Sfs
