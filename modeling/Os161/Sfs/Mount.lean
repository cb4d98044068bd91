import Os161.Sfs.Mksfs
import Os161.Sfs.Consistent

/-!
# Mounting a volume

`sfs_domount`: the superblock and the free map are read from the disk. A volume fresh from
`mksfs` is mounted into a consistent state, with the root directory as its only file; and as
long as only blocks that `sfs_balloc` gave out are given back, it never finds a block past the
end of the disk.
-/
namespace Os161.Sfs

open Lib Kern SfsFs Prog

/-- Put the contents of a block where block `j` of the free map is in memory. -/
def SfsFs.loadMap (s : SfsFs) (j : Nat) (b : Block) : SfsFs :=
  let v i := if i / sfsBlocksize = j then b.get (i % sfsBlocksize) else s.sfsFreemap.v i
  { s with sfsFreemap := { s.sfsFreemap with v := v } }

/-- Read the blocks `j, …` of the free map. -/
def mapioRead (j : Nat) : Nat → SfsM Unit
  | 0 => pure ()
  | n + 1 => do
    let b ← sfsRblock (sfsMapLocation + j)
    Prog.modify (·.loadMap j b)
    mapioRead (j + 1) n

def mapioWrite (j : Nat) : Nat → SfsM Unit
  | 0 => pure ()
  | n + 1 => do
    let s ← Prog.get
    sfsWblock (mapBlock s.sfsFreemap.v j) (sfsMapLocation + j)
    mapioWrite (j + 1) n

/-- Transfer the whole free map. -/
def sfsMapio (rw : UioRw) : SfsM Unit := do
  let s ← Prog.get
  match rw with
  | .read => mapioRead 0 (sfsBitblocks s.nblocks)
  | .write => mapioWrite 0 (sfsBitblocks s.nblocks)

/-- Create the bitmap for the free map, and read it. -/
def loadFreemap : SfsM Unit := do
  let _ ← kmalloc
  let _ ← kmalloc
  let s ← Prog.get
  match bitmapCreate (sfsBitmapsize s.nblocks) with
  | .error a => Prog.stop (.bitmap a)
  | .ok m => do
    Prog.modify fun s => { s with sfsFreemap := m }
    sfsMapio .read

/-- Read and check the superblock. -/
def loadSuper : SfsM Unit := do
  let b ← sfsRblock sfsSbLocation
  if (SfsSuper.decode b).spMagic ≠ sfsMagic then Prog.raise .einval
  else Prog.modify fun s => { s with sfsSuper := (SfsSuper.decode b).terminated }

/-- What `sfs_domount` does to the structure it allocates, whose device is set. -/
def sfsDomount : SfsM Unit := do
  let _ ← kmalloc
  -- the array of vnodes
  let _ ← kmalloc
  loadSuper
  loadFreemap
  Prog.modify fun s => { s with sfsSuperdirty := false, sfsFreemapdirty := false }

/-- The structure before the mount: no vnodes, and nothing that matters elsewhere. -/
def Device.unmounted (d : Device) (ioFaults memFaults : List Bool) : SfsFs where
  sfsSuper := SfsSuper.decode Block.zero
  sfsSuperdirty := false
  sfsDevice := d
  sfsVnodes := []
  sfsFreemap := ⟨0, fun _ => 0⟩
  sfsFreemapdirty := false
  nextAddr := 1
  ioFaults := ioFaults
  memFaults := memFaults

/-- `s` is the state right after mounting a volume that `mksfs` made, with no failures of the
device or of `kmalloc` then or later. -/
def Mounted (s : SfsFs) : Prop :=
  ∃ (f : DiskFile) (volname : CString) (d : Device), f.mksfs volname = .ok d ∧
    sfsDomount (d.unmounted [] []) = .ok (.ok (), s)

/-! ## What is mounted -/

section Mount

variable {s : SfsFs}

theorem bitmapCreate_of_dvd {nbits : Nat} (h : 8 ∣ nbits) : bitmapCreate nbits = .ok ⟨nbits, fun _ => 0⟩ := by
  obtain ⟨k, rfl⟩ := h
  unfold bitmapCreate divroundup bitsPerWord
  rw [if_neg (by omega)]

theorem mapioRead_spec (j n : Nat) (hio : s.ioFaults = []) (hn : sfsMapLocation + j + n ≤ s.sfsDevice.dBlocks) :
    Sat NoPanic (mapioRead j n) s (fun r t => r = .ok () ∧
      ∃ v : Nat → Byte, t = { s with sfsFreemap := { s.sfsFreemap with v := v } } ∧
        ∀ i, v i = if j ≤ i / sfsBlocksize ∧ i / sfsBlocksize < j + n then
          (s.sector (sfsMapLocation + i / sfsBlocksize)).get (i % sfsBlocksize) else s.sfsFreemap.v i) := by
  induction n generalizing j s with
  | zero => exact ⟨rfl, s.sfsFreemap.v, rfl, fun i => by rw [if_neg (by omega)]⟩
  | succ n ih =>
    simp only [mapioRead, sat_bind]
    refine (sat_sfsRblock hio (by omega)).2 ?_
    simp only [sat_modify]
    refine (ih (s := s.loadMap j (s.sector (sfsMapLocation + j))) (j + 1) hio ?_).mono ?_
    · have : (s.loadMap j (s.sector (sfsMapLocation + j))).sfsDevice = s.sfsDevice := rfl
      rw [this]
      omega
    rintro _ t ⟨rfl, v, rfl, hv⟩
    refine ⟨rfl, v, rfl, fun i => (hv i).trans ?_⟩
    have hload : (s.loadMap j (s.sector (sfsMapLocation + j))).sfsFreemap.v i =
      if i / sfsBlocksize = j then (s.sector (sfsMapLocation + j)).get (i % sfsBlocksize)
      else s.sfsFreemap.v i := rfl
    rw [hload]
    by_cases hi : i / sfsBlocksize = j
    · rw [if_neg (by omega), if_pos hi, if_pos (by omega), hi]
    · rw [if_neg hi]
      exact if_congr (by omega) rfl rfl

/-- A disk with a superblock `sp` and a free map whose bytes are `v`. -/
structure Volume (d : Device) (sp : SfsSuper) (v : Nat → Byte) : Prop where
  super : (SfsSuper.decode (d.sector sfsSbLocation)).terminated = sp
  magic : sp.spMagic = sfsMagic
  size : sp.spNblocks.toNat = d.dBlocks
  fits : sfsMapLocation + sfsBitblocks d.dBlocks ≤ d.dBlocks
  map : ∀ i, i / sfsBlocksize < sfsBitblocks d.dBlocks →
    (d.sector (sfsMapLocation + i / sfsBlocksize)).get (i % sfsBlocksize) = v i

/-- The state after mounting it. -/
structure MountedOn (d : Device) (sp : SfsSuper) (v : Nat → Byte) (s : SfsFs) : Prop where
  super : s.sfsSuper = sp
  superclean : s.sfsSuperdirty = false
  device : s.sfsDevice = d
  vnodes : s.sfsVnodes = []
  nbits : s.sfsFreemap.nbits = sfsBitmapsize d.dBlocks
  map : ∀ i, i / sfsBlocksize < sfsBitblocks d.dBlocks → s.sfsFreemap.v i = v i
  mapclean : s.sfsFreemapdirty = false
  ioFaults : s.ioFaults = []
  memFaults : s.memFaults = []

theorem sfsBitmapsize_eq (n : Nat) : sfsBitmapsize n = sfsBitblocks n * sfsBlockbits := by
  unfold sfsBitblocks sfsBitmapsize sfsRoundup sfsBlockbits sfsBlocksize
  omega

section Volume

variable {d : Device} {sp : SfsSuper} {v : Nat → Byte} (V : Volume d sp v)
include V

theorem loadFreemap_spec (hio : s.ioFaults = []) (hmem : s.memFaults = []) (hdev : s.sfsDevice = d)
    (hsuper : s.sfsSuper = sp) : Sat NoPanic loadFreemap s (fun r t => r = .ok () ∧ ∃ n w,
      t = { s with nextAddr := n, sfsFreemap := ⟨sfsBitmapsize d.dBlocks, w⟩ } ∧
      ∀ i, i / sfsBlocksize < sfsBitblocks d.dBlocks → w i = v i) := by
  have hdvd : 8 ∣ sfsBitmapsize d.dBlocks := by
    rw [sfsBitmapsize_eq]
    exact Nat.dvd_mul_left_of_dvd (by decide) _
  have hnb : s.sfsSuper.spNblocks.toNat = d.dBlocks := by rw [hsuper, V.size]
  simp only [loadFreemap, sat_bind]
  refine (sat_kmalloc hmem).2 ?_
  refine (sat_kmalloc (s := { s with nextAddr := s.nextAddr + 1 }) hmem).2 ?_
  simp only [sat_get, nblocks, hnb, bitmapCreate_of_dvd hdvd, sat_bind, sat_modify, sfsMapio]
  refine (mapioRead_spec 0 _ ?_ ?_).mono ?_
  · exact hio
  · show sfsMapLocation + 0 + _ ≤ s.sfsDevice.dBlocks
    rw [hdev, Nat.add_zero]
    exact V.fits
  · rintro _ t ⟨rfl, w, ht, hw⟩
    refine ⟨rfl, _, w, ht, fun i hi => ?_⟩
    rw [hw, if_pos ⟨Nat.zero_le _, by omega⟩, ← V.map i hi, ← hdev]
    rfl

theorem loadSuper_spec (hio : s.ioFaults = []) (hdev : s.sfsDevice = d) :
    Sat NoPanic loadSuper s (fun r t => r = .ok () ∧ t = { s with sfsSuper := sp }) := by
  have hpos : sfsSbLocation < s.sfsDevice.dBlocks := by
    have := V.fits
    rw [hdev]
    unfold sfsSbLocation
    unfold sfsMapLocation at this
    omega
  have hsec : s.sector sfsSbLocation = d.sector sfsSbLocation := by
    rw [← hdev]
    rfl
  have hmagic : (SfsSuper.decode (d.sector sfsSbLocation)).spMagic = sfsMagic := by
    rw [← V.magic, ← V.super]
    rfl
  simp only [loadSuper, sat_bind]
  refine (sat_sfsRblock hio hpos).2 ?_
  simp only [hsec, hmagic, ne_eq, not_true_eq_false, if_false, sat_modify, V.super]
  exact ⟨trivial, trivial⟩

theorem sfsDomount_spec : Sat NoPanic sfsDomount (d.unmounted [] []) (fun r s => r = .ok () ∧ MountedOn d sp v s) := by
  simp only [sfsDomount, sat_bind]
  refine (sat_kmalloc rfl).2 ((sat_kmalloc rfl).2 ?_)
  refine (loadSuper_spec V rfl rfl).mono ?_
  rintro _ t ⟨rfl, rfl⟩
  refine (loadFreemap_spec V ?_ ?_ ?_ ?_).mono ?_
  · rfl
  · rfl
  · rfl
  · rfl
  rintro _ t ⟨rfl, n, w, rfl, hw⟩
  simp only [sat_modify]
  exact ⟨trivial, rfl, rfl, rfl, rfl, rfl, hw, rfl, rfl, rfl⟩

end Volume

namespace MountedOn

variable {d : Device} {sp : SfsSuper} {v : Nat → Byte} (M : MountedOn d sp v s)
include M

theorem used_iff {b : Nat} (hb : b < sfsBitmapsize d.dBlocks) : s.used b ↔ bitTest v b = true := by
  have hlt : b / 8 / sfsBlocksize < sfsBitblocks d.dBlocks := by
    rw [sfsBitmapsize_eq] at hb
    unfold sfsBlockbits sfsBlocksize at hb
    unfold sfsBlocksize
    omega
  unfold SfsFs.used bitmapIsset bitTest
  rw [M.map _ hlt]

theorem nblocks_eq (V : Volume d sp v) : s.nblocks = d.dBlocks := by
  unfold SfsFs.nblocks
  rw [M.super, V.size]

theorem saved (V : Volume d sp v) : Saved s := by
  have hsec (b : Nat) : s.sector b = d.sector b := by
    unfold SfsFs.sector
    rw [M.device]
  refine ⟨M.superclean, ?_, ?_, fun _ i hi => ?_⟩
  · rw [hsec, V.super, M.super]
  · rw [M.super, V.magic]
  · rw [M.nblocks_eq V] at hi
    rw [hsec, V.map i hi, M.map i hi]

end MountedOn

/-! ## A fresh volume -/

section

variable {d : Device} {v : Nat → Byte} (F : Fresh d v)
include F

theorem Fresh.fits (hd : d.dBlocks ≠ 0) : sfsMapLocation + sfsBitblocks d.dBlocks ≤ d.dBlocks := by
  by_cases hlt : d.dBlocks < sfsBitmapsize d.dBlocks
  · exact F.room hlt
  · -- a volume that fills its free map has at least 4096 blocks
    rw [sfsBitmapsize_eq] at hlt
    have hle : d.dBlocks ≤ sfsBitblocks d.dBlocks * sfsBlockbits := by
      rw [← sfsBitmapsize_eq]
      unfold sfsBitmapsize sfsRoundup sfsBlockbits sfsBlocksize
      omega
    have h4096 : sfsBlockbits = 4096 := rfl
    have h2 : sfsMapLocation = 2 := rfl
    rw [h4096] at hlt hle
    omega

theorem Fresh.volume (hd : d.dBlocks ≠ 0) : ∃ sp, Volume d sp v := by
  obtain ⟨name, hsuper⟩ := F.super
  refine ⟨(newSuper name d.dBlocks).terminated, ?_, rfl, ?_, F.fits hd, fun i hi => ?_⟩
  · rw [hsuper, SfsSuper.decode_encode]
  · simp only [SfsSuper.terminated, newSuper, BitVec.toNat_ofNat]
    exact Nat.mod_eq_of_lt F.size
  · have hmod : i % sfsBlocksize < 512 := Nat.mod_lt _ (by decide)
    rw [F.map _ hi, mapBlock, Block.get_ofFn _ hmod, Nat.div_add_mod']

/-- On a fresh volume the first blocks and the padding are in use. -/
theorem Fresh.used_iff {sp : SfsSuper} (M : MountedOn d sp v s) {b : Nat} (hb : b < sfsBitmapsize d.dBlocks) :
    s.used b ↔ b < sfsMapLocation + sfsBitblocks d.dBlocks ∨ d.dBlocks ≤ b := by
  rw [M.used_iff hb, F.bit, decide_eq_true_eq]
  omega

end

/-- A volume with no file but an empty root directory. -/
theorem owned_root {n : Nat} {P : Ptr → Nat} {used : Nat → Prop}
    (hfit : sfsMapLocation + sfsBitblocks n ≤ n) (hP : ∀ p : Ptr, p.ino = sfsRootLocation → P p = 0)
    (hused : ∀ b < n, used b ↔ b < sfsMapLocation + sfsBitblocks n) :
    Owned (· = sfsRootLocation) (fun _ => False) n P used where
  sound {p b} h := by
    have hlt : b < sfsMapLocation + sfsBitblocks n := by
      unfold sfsMapLocation
      cases p with
      | super => exact (show b = 0 from h) ▸ by omega
      | freemap j => exact h.2 ▸ Nat.add_lt_add_left h.1 _
      | inode ino => exact h.2.trans h.1 ▸ by unfold sfsRootLocation; omega
      | pointer p => exact absurd (h.2.1.symm.trans (hP p h.1)) h.2.2
      | held c => exact h.1.elim
    have hb : b < n := by omega
    exact ⟨hb, (hused b hb).2 hlt⟩
  unique {p q b} hp hq := by
    have hP' (p : Ptr) : ¬ Refers (· = sfsRootLocation) (fun _ => False) n P (.pointer p) b :=
      fun h => h.2.2 (h.2.1.symm.trans (hP p h.1))
    cases p <;> cases q <;> simp only [Refers, sfsSbLocation, sfsRootLocation, sfsMapLocation] at * <;>
      grind
  complete {b} h := by
    have hb := (hused b h.1).1 h.2
    unfold sfsMapLocation at hb
    rcases b with _ | _ | b
    · exact ⟨.super, rfl⟩
    · exact ⟨.inode 1, rfl, rfl⟩
    · exact ⟨.freemap b, by omega, Nat.add_comm b 2⟩

/-- A fresh volume is consistent; its root directory is the only file, and it is empty. -/
theorem Fresh.consistent {d : Device} {sp : SfsSuper} {v : Nat → Byte} (F : Fresh d v)
    (V : Volume d sp v) (M : MountedOn d sp v s) : Consistent (· = sfsRootLocation) rootLink s := by
  have hroot : s.inode sfsRootLocation = rootInode := by
    unfold SfsFs.inode SfsFs.loaded?
    rw [M.vnodes, List.find?_nil]
    show SfsInode.decode (s.sfsDevice.sector sfsRootLocation) = _
    rw [M.device, F.root, SfsInode.decode_encode]
  have hind : s.ptr (.indirect sfsRootLocation) = 0 := by
    rw [ptr, hroot]
    rfl
  have hptr (p : Ptr) (hp : p.ino = sfsRootLocation) : s.ptr p = 0 := by
    cases p with
    | indirect ino =>
      obtain rfl : ino = sfsRootLocation := hp
      exact hind
    | data ino k =>
      obtain rfl : ino = sfsRootLocation := hp
      by_cases hk : k < sfsNdirect
      · rw [ptr_data_direct hk, hroot, SfsInode.direct, at0]
        split <;> rfl
      · exact ptr_data_none (Nat.le_of_not_lt hk) hind
  have hslots : s.slots = 0 := by
    rw [slots, SfsFs.size, hroot]
    rfl
  have hfit := V.fits
  have hnb := M.nblocks_eq V
  have hused (b : Nat) (hb : b < d.dBlocks) : s.used b ↔ b < sfsMapLocation + sfsBitblocks d.dBlocks := by
    have hle : d.dBlocks ≤ sfsBitmapsize d.dBlocks := by
      unfold sfsBitmapsize sfsRoundup sfsBlockbits sfsBlocksize
      omega
    rw [F.used_iff M (by omega)]
    omega
  refine ⟨⟨M.ioFaults, M.memFaults, hnb.trans (congrArg _ M.device.symm),
    M.nbits.trans (by rw [hnb]), fun b hb hlt => ?_, ⟨?_, ?_⟩, ?_, rfl, ?_, ?_, M.saved V⟩,
    ⟨?_, ?_, ?_, ?_⟩, ?_, ?_, ?_⟩
  · rw [M.nbits] at hlt
    rw [hnb] at hb
    exact (F.used_iff M hlt).2 (.inr hb)
  · simp [M.vnodes]
  · simp [M.vnodes]
  · simp [M.vnodes]
  · rintro _ rfl
    rw [hroot, if_pos rfl]
    rfl
  · rw [hnb]
    exact owned_root hfit hptr hused
  · rw [SfsFs.size, hroot]
    rfl
  · rw [SfsFs.size, hroot]
    exact Nat.zero_le _
  · exact fun i hi => absurd hi (by omega)
  · exact fun i hi => absurd hi (by omega)
  · exact fun i hi => absurd hi (by omega)
  · rintro _ rfl
    rw [hroot, links, hslots]
    rfl
  · exact fun _ h => .inl h

theorem Mounted.mountedOn (h : Mounted s) : ∃ d sp v, Fresh d v ∧ Volume d sp v ∧ MountedOn d sp v s := by
  obtain ⟨f, volname, d, hmk, hmount⟩ := h
  obtain ⟨-, v, F⟩ := mksfs_fresh hmk
  by_cases hd : d.dBlocks = 0
  · -- there is no superblock to read
    have hp : Sat (fun _ => True) sfsDomount (d.unmounted [] []) (fun _ _ => False) := by
      simp only [sfsDomount, sat_bind]
      refine (sat_kmalloc rfl).2 ((sat_kmalloc rfl).2 ?_)
      simp [loadSuper, sfsRblock, deviceIo, Device.unmounted, hd]
    exact (hp.of_ok hmount).elim
  · obtain ⟨sp, V⟩ := F.volume hd
    exact ⟨d, sp, v, F, V, ((sfsDomount_spec V).of_ok hmount).2⟩

/-- Mounting a volume that `mksfs` made gives a consistent state. -/
theorem Mounted.consistent (h : Mounted s) : Consistent (· = sfsRootLocation) rootLink s := by
  obtain ⟨_, _, _, F, V, M⟩ := h.mountedOn
  exact F.consistent V M

theorem Mounted.vnodes (h : Mounted s) : s.sfsVnodes = [] := by
  obtain ⟨_, _, _, -, -, M⟩ := h.mountedOn
  exact M.vnodes

end Mount

/-! ## A sample -/

def sampleDisk : DiskFile := ⟨⟨4096 * 512, by decide⟩, fun _ => Block.zero⟩

def sampleName : CString := ⟨[115, 102, 115], by decide⟩

def sampleVolume : SfsFs :=
  match sampleDisk.mksfs sampleName with
  | .ok d => match sfsDomount (d.unmounted [] []) with
    | .ok (_, s) => s
    | .error _ => d.unmounted [] []
  | .error _ => Device.unmounted ⟨0, fun _ => Block.zero⟩ [] []

theorem mounted_sampleVolume : Mounted sampleVolume := by
  obtain ⟨d, hd⟩ : ∃ d, sampleDisk.mksfs sampleName = .ok d := ⟨_, rfl⟩
  obtain ⟨hn, v, F⟩ := mksfs_fresh hd
  obtain ⟨sp, V⟩ := F.volume (hn ▸ by decide)
  have hs := sfsDomount_spec V
  refine ⟨sampleDisk, sampleName, d, hd, ?_⟩
  unfold sampleVolume
  rw [hd]
  cases hm : sfsDomount (d.unmounted [] []) with
  | error p => exact (hs.of_error hm).elim
  | ok a =>
    obtain ⟨r, s⟩ := a
    obtain ⟨rfl, -⟩ := hs.of_ok hm
    simp only [hm]

/-! ## Allocation on a fresh volume -/

/-- A volume in use, and the blocks that `sfs_balloc` has returned so far. -/
structure Space where
  fs : SfsFs
  got : List Nat

inductive SpaceOp where
  | balloc (r : Except Errno Nat)
  | bfree (diskblock : Nat)

/-- Blocks are allocated at will, and freed if they were allocated once. -/
inductive SpaceStep : Space → SpaceOp → Space → Prop
  | balloc {σ : Space} {b : Nat} {t : SfsFs} (h : sfsBalloc σ.fs = .ok (.ok b, t)) :
      SpaceStep σ (.balloc (.ok b)) ⟨t, b :: σ.got⟩
  | ballocFailed {σ : Space} {e : Errno} {t : SfsFs} (h : sfsBalloc σ.fs = .ok (.error e, t)) :
      SpaceStep σ (.balloc (.error e)) { σ with fs := t }
  | bfree {σ : Space} {b : Nat} {t : SfsFs} (hb : b ∈ σ.got) (h : sfsBfree b σ.fs = .ok (.ok (), t)) :
      SpaceStep σ (.bfree b) { σ with fs := t }

/-- The padding of the free map is in use, and what was returned is on the disk. -/
structure Padding (s : SfsFs) : Prop where
  size : s.nblocks = s.sfsDevice.dBlocks
  nbits : s.sfsFreemap.nbits = sfsBitmapsize s.nblocks
  used : ∀ b, s.nblocks ≤ b → b < sfsBitmapsize s.nblocks → s.used b

namespace Padding

variable {s : SfsFs}

/-- A change of one bit below the size of the volume, and of sectors. -/
theorem congr (P : Padding s) {t : SfsFs} (hsuper : t.sfsSuper = s.sfsSuper)
    (hdev : t.sfsDevice.dBlocks = s.sfsDevice.dBlocks) (hn : t.sfsFreemap.nbits = s.sfsFreemap.nbits)
    (hu : ∀ b, s.nblocks ≤ b → s.used b → t.used b) : Padding t := by
  have hnb : t.nblocks = s.nblocks := by
    unfold SfsFs.nblocks
    rw [hsuper]
  refine ⟨by rw [hnb, hdev, P.size], by rw [hn, hnb, P.nbits], fun b hb hlt => ?_⟩
  rw [hnb] at hb hlt
  exact hu b hb (P.used b hb hlt)

theorem padded (P : Padding s) : s.sfsFreemap.Padded := by
  intro i hn hw
  have h := P.nbits
  unfold Bitmap.words divroundup bitsPerWord at hw
  unfold sfsBitmapsize sfsRoundup sfsBlockbits sfsBlocksize at h
  omega

/-- `sfs_balloc` stops nowhere, whatever the device does. -/
theorem sfsBalloc_spec (P : Padding s) :
    Sat (fun _ => False) sfsBalloc s (fun r t => Padding t ∧ t.nblocks = s.nblocks ∧
      ∀ b, r = .ok b → b < s.nblocks) := by
  unfold sfsBalloc freemap
  simp only [sat_bind, sat_focus]
  refine (bitmapAlloc_spec s.sfsFreemap P.padded).mono ?_
  rintro (e | b) m h
  · obtain ⟨rfl, rfl, -⟩ := h
    exact ⟨P, rfl, by simp⟩
  · obtain ⟨hlt, hfree, -, rfl⟩ := h
    have hb : b < s.nblocks := by
      by_contra hge
      have hset : bitmapIsset s.sfsFreemap b = true := P.used b (Nat.le_of_not_lt hge) (P.nbits ▸ hlt)
      exact Bool.false_ne_true (hfree.symm.trans hset)
    have keep (d : Device) (l : List Bool) (hd : d.dBlocks = s.sfsDevice.dBlocks) :
        Padding { s.mark b with sfsDevice := d, ioFaults := l } :=
      P.congr rfl hd rfl fun c _ hc => (s.used_mark b c).2 (.inl hc)
    have hdev : b < s.sfsDevice.dBlocks := P.size ▸ hb
    simp only [sat_modify, sat_get, sat_check, sfsClearblock, sfsWblock, deviceIo,
      sat_bind, sat_ite, sat_raise, sat_pure]
    rw [if_pos (by exact hb), if_pos hdev]
    split
    · exact ⟨keep _ _ rfl, rfl, by simp⟩
    · refine ⟨keep _ _ rfl, rfl, ?_⟩
      rintro _ ⟨⟩
      exact hb

end Padding

theorem SpaceStep.padding {σ τ : Space} {op : SpaceOp} (step : SpaceStep σ op τ) (P : Padding σ.fs)
    (hgot : ∀ b ∈ σ.got, b < σ.fs.nblocks) : Padding τ.fs ∧ ∀ b ∈ τ.got, b < τ.fs.nblocks := by
  cases step with
  | balloc h =>
    obtain ⟨P', hn, hb⟩ := P.sfsBalloc_spec.of_ok h
    refine ⟨P', fun c hc => ?_⟩
    rw [hn]
    obtain rfl | hc := List.mem_cons.1 hc
    · exact hb c rfl
    · exact hgot c hc
  | ballocFailed h =>
    obtain ⟨P', hn, -⟩ := P.sfsBalloc_spec.of_ok h
    exact ⟨P', fun c hc => hn ▸ hgot c hc⟩
  | @bfree b t hb h =>
    have hlt := hgot b hb
    have hs : Sat (fun _ => True) (sfsBfree b) σ.fs (fun _ t => t = σ.fs.unmark b) := by
      simp only [sfsBfree, freemap, bitmapUnmark, sat_bind, sat_focus, sat_get, sat_check, sat_modify]
      split
      · split
        · rfl
        · trivial
      · trivial
    obtain rfl := hs.of_ok h
    refine ⟨P.congr rfl rfl rfl fun c hc hu => ?_, hgot⟩
    refine (SfsFs.used_unmark _ b c).2 ⟨hu, ?_⟩
    omega

/-- `mksfs` makes a volume of every disk that is large enough and not too large, and the volume is
mounted. Its free map has the blocks of its own structures and the padding in use, and nothing else.
From then on `sfs_balloc` always returns: it never finds a block past the end of the disk. -/
theorem mksfs_mounts {f : DiskFile} {volname : CString} (h : f.Accepted volname) :
    ∃ d s, f.mksfs volname = .ok d ∧ d.dBlocks = f.diskblocks ∧ sfsDomount (d.unmounted [] []) = .ok (.ok (), s) ∧
      s.sfsFreemap.nbits = sfsBitmapsize f.diskblocks ∧
      (∀ b < sfsBitmapsize f.diskblocks, bitmapIsset s.sfsFreemap b = true ↔ b = sfsSbLocation ∨ b = sfsRootLocation ∨
        (sfsMapLocation ≤ b ∧ b < sfsMapLocation + sfsBitblocks f.diskblocks) ∨ f.diskblocks ≤ b) ∧
      ∀ (ioFaults : List Bool) (tr : List SpaceOp) (σ : Space),
        Run SpaceStep ⟨{ s with ioFaults := ioFaults }, []⟩ tr σ → ∀ p, sfsBalloc σ.fs ≠ .error p := by
  obtain ⟨d, hd⟩ := mksfs_completes h
  obtain ⟨hn, v, F⟩ := mksfs_fresh hd
  have hfit := h.2.2
  rw [← hn] at hfit
  have hd0 : d.dBlocks ≠ 0 := by
    unfold sfsMapLocation at hfit
    omega
  obtain ⟨sp, V⟩ := F.volume hd0
  have hmount := sfsDomount_spec V
  cases hs : sfsDomount (d.unmounted [] []) with
  | error p => exact (hmount.of_error hs).elim
  | ok a =>
    obtain ⟨r, s⟩ := a
    obtain ⟨rfl, M⟩ := hmount.of_ok hs
    have hnb := M.nblocks_eq V
    have hused (b : Nat) (hb : b < sfsBitmapsize d.dBlocks) := F.used_iff M hb
    refine ⟨d, s, hd, hn, hs, hn ▸ M.nbits, fun b hb => ?_, ?_⟩
    · rw [← hn] at hb ⊢
      refine (hused b hb).trans ?_
      unfold sfsSbLocation sfsRootLocation sfsMapLocation
      omega
    · intro ioFaults tr σ run p hp
      have P : Padding { s with ioFaults := ioFaults } := by
        refine ⟨hnb.trans (congrArg _ M.device.symm), M.nbits.trans (congrArg _ hnb.symm), ?_⟩
        intro b hb hlt
        change s.nblocks ≤ b at hb
        change b < sfsBitmapsize s.nblocks at hlt
        rw [hnb] at hb hlt
        exact (hused b hlt).2 (.inr hb)
      obtain ⟨Q, -⟩ := run.invariant (I := fun σ => Padding σ.fs ∧ ∀ b ∈ σ.got, b < σ.fs.nblocks)
        ⟨P, nofun⟩ fun hI step => step.padding hI.1 hI.2
      exact Q.sfsBalloc_spec.of_error hp

/-- On the sample disk of 4096 blocks the first three are in use. -/
theorem mksfs_mounts_sampleDisk : sampleDisk.Accepted sampleName ∧ ∃ d s, sampleDisk.mksfs sampleName = .ok d ∧
    sfsDomount (d.unmounted [] []) = .ok (.ok (), s) ∧
    bitmapIsset s.sfsFreemap 2 = true ∧ ¬ bitmapIsset s.sfsFreemap 3 = true := by
  have h : sampleDisk.Accepted sampleName :=
    ⟨⟨sampleName.bytes, .inl rfl, by decide, by decide, by decide⟩, by decide, by decide⟩
  obtain ⟨d, s, hd, -, hs, -, hbits, -⟩ := mksfs_mounts h
  refine ⟨h, d, s, hd, hs, (hbits 2 (by decide)).2 ?_, fun h3 => ?_⟩
  · exact .inr (.inr (.inl ⟨le_rfl, by decide⟩))
  · exact absurd ((hbits 3 (by decide)).1 h3) (by decide)

end Os161.Sfs
