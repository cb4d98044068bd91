import Os161.Sfs.Fs

/-!
# Making a volume

`sbin/mksfs`. A disk is described by what `fstat` says of it, a size in bytes that is a
nonnegative `off_t`, and by its sectors. `mksfs` gives up only on a volume name or a size that
it does not accept; otherwise the disk holds a superblock, an empty root directory, and a free
map in which the blocks of these three and the padding are in use.
-/
namespace Os161.Sfs

open Lib Kern Prog

/-! ## mksfs -/

def maxbitblocks : Nat := 32

/-- The ways `mksfs` gives up, by `errx` or by the assertion in `doallocbit`. -/
inductive MkPanic where
  | illegalVolname | volnameTooLong | tooLarge | allocbitSet
  deriving DecidableEq, Repr

/-- A disk as `mksfs` opens it. -/
structure DiskFile where
  stSize : Fin (2 ^ 31)
  sector : Nat → Block

/-- The static buffer for the free map, and the disk. -/
structure MkState where
  bitbuf : Nat → Byte
  sector : Nat → Block

abbrev MkM := Prog MkPanic Empty MkState

def DiskFile.diskblocks (f : DiskFile) : Nat := f.stSize / 512

def diskwrite (data : Block) (block : Nat) : MkM Unit :=
  Prog.modify fun m => { m with sector := Function.update m.sector block data }

/-- The superblock for a volume: everything that is not set is zero. -/
def newSuper (volname : List Byte) (nblocks : Nat) : SfsSuper where
  spMagic := sfsMagic
  spNblocks := BitVec.ofNat 32 nblocks
  spVolname k := volname.getD k 0
  reserved _ := 0

def writesuper (volname : List Byte) (nblocks : Nat) : MkM Unit := do
  Prog.check (volname.length < sfsVolnameSize) .volnameTooLong
  diskwrite (newSuper volname nblocks).encode sfsSbLocation

def rootInode : SfsInode := { SfsInode.blank with sfiType := sfsTypeDir, sfiLinkcount := 1 }

def writerootdir : MkM Unit := diskwrite rootInode.encode sfsRootLocation

def doallocbit (bit : Nat) : MkM Unit := do
  let m ← Prog.get
  Prog.check (bitTest m.bitbuf bit = false) .allocbitSet
  Prog.modify fun m => { m with bitbuf := bitSet m.bitbuf bit }

/-- The loops of `writebitmap` over a range of bits. -/
def doallocbits (bit : Nat) : Nat → MkM Unit
  | 0 => pure ()
  | n + 1 => do
    doallocbit bit
    doallocbits (bit + 1) n

/-- Block `i` of a bitmap kept in bytes. -/
def mapBlock (v : Nat → Byte) (i : Nat) : Block := Block.ofFn fun k => v (i * sfsBlocksize + k)

def writemap (i : Nat) : Nat → MkM Unit
  | 0 => pure ()
  | n + 1 => do
    let m ← Prog.get
    diskwrite (mapBlock m.bitbuf i) (sfsMapLocation + i)
    writemap (i + 1) n

def writebitmap (fsblocks : Nat) : MkM Unit := do
  let nbits := sfsBitmapsize fsblocks
  let nblocks := sfsBitblocks fsblocks
  Prog.check (nblocks ≤ maxbitblocks) .tooLarge
  doallocbit sfsSbLocation
  doallocbit sfsRootLocation
  doallocbits sfsMapLocation nblocks
  doallocbits fsblocks (nbits - fsblocks)
  writemap 0 nblocks

/-- Cut one trailing colon off the volume name, and refuse slashes. -/
def checkVolname (volname : List Byte) : MkM (List Byte) := do
  let s := volname.dropWhile (· ≠ 58)
  Prog.check (s = [] ∨ s.length = 1) .illegalVolname
  let volname := volname.takeWhile (· ≠ 58)
  Prog.check (¬ volname.contains 47) .illegalVolname
  pure volname

def mksfs (f : DiskFile) (volname : CString) : MkM Unit := do
  let volname ← checkVolname volname.bytes
  writesuper volname f.diskblocks
  writerootdir
  writebitmap f.diskblocks

/-- The disk with the volume on it, unless `mksfs` gave up. The static buffer starts zeroed. -/
def DiskFile.mksfs (f : DiskFile) (volname : CString) : Except MkPanic Device :=
  match Sfs.mksfs f volname ⟨fun _ => 0, f.sector⟩ with
  | .ok (_, m) => .ok ⟨f.diskblocks, m.sector⟩
  | .error p => .error p

/-! ## What is on the disk -/

/-- A volume name that is accepted: a short name without slashes and colons, to which one colon
may be attached. -/
def AcceptedVolname (volname : List Byte) : Prop :=
  ∃ name, (volname = name ∨ volname = name ++ [58]) ∧ 58 ∉ name ∧ 47 ∉ name ∧
    name.length < sfsVolnameSize

/-- What `mksfs` can make a volume of. -/
def DiskFile.Accepted (f : DiskFile) (volname : CString) : Prop :=
  AcceptedVolname volname.bytes ∧ sfsBitblocks f.diskblocks ≤ maxbitblocks ∧
    sfsMapLocation + sfsBitblocks f.diskblocks ≤ f.diskblocks

theorem AcceptedVolname.checks {volname : List Byte} (h : AcceptedVolname volname) :
    (volname.dropWhile (· ≠ 58) = [] ∨ (volname.dropWhile (· ≠ 58)).length = 1) ∧
      47 ∉ volname.takeWhile (· ≠ 58) ∧ (volname.takeWhile (· ≠ 58)).length < sfsVolnameSize := by
  obtain ⟨name, hname, hcolon, hslash, hlen⟩ := h
  have hne : ∀ b ∈ name, decide (b ≠ 58) = true := by
    intro b hb
    simp only [ne_eq, decide_not, Bool.not_eq_eq_eq_not, Bool.not_true, decide_eq_false_iff_not]
    rintro rfl
    exact hcolon hb
  have hdrop (l : List Byte) : (name ++ l).dropWhile (· ≠ 58) = l.dropWhile (· ≠ 58) :=
    List.dropWhile_append_of_pos hne
  have htake (l : List Byte) : (name ++ l).takeWhile (· ≠ 58) = name ++ l.takeWhile (· ≠ 58) :=
    List.takeWhile_append_of_pos hne
  obtain rfl | rfl := hname
  · have hd := hdrop []
    have ht := htake []
    rw [List.append_nil] at hd ht
    rw [hd, ht]
    simpa using ⟨hslash, hlen⟩
  · rw [hdrop, htake]
    simpa using ⟨hslash, hlen⟩

section Mksfs

variable {K : MkPanic → Prop} {m : MkState}

/-- Allocating a range of bits fails only if one of them is in use. -/
theorem doallocbits_spec (bit n : Nat) :
    Sat (fun _ => ∃ i, bit ≤ i ∧ i < bit + n ∧ bitTest m.bitbuf i = true) (doallocbits bit n) m
      (fun _ t => t.sector = m.sector ∧
        (∀ i, bit ≤ i → i < bit + n → bitTest m.bitbuf i = false) ∧
        ∀ i, bitTest t.bitbuf i = (bitTest m.bitbuf i || decide (bit ≤ i ∧ i < bit + n))) := by
  induction n generalizing bit m with
  | zero => exact ⟨rfl, fun i h1 h2 => by omega, fun i => by simp⟩
  | succ n ih =>
    simp only [doallocbits, doallocbit, sat_bind, sat_get, sat_check, sat_modify]
    split
    · next hclear =>
      refine ((ih (m := { m with bitbuf := bitSet m.bitbuf bit }) (bit + 1)).weaken ?_).mono ?_
      · rintro p ⟨i, h1, h2, hset⟩
        have hne : i ≠ bit := by omega
        rw [bitTest_bitSet (by decide), decide_eq_false hne, Bool.false_or] at hset
        exact ⟨i, by omega, by omega, hset⟩
      rintro _ t ⟨hs, hc, hset⟩
      simp only [bitTest_bitSet (show 0 < 8 by decide)] at hc hset
      refine ⟨hs, fun i h1 h2 => ?_, fun i => ?_⟩
      · rcases Nat.eq_or_lt_of_le h1 with rfl | h1
        · exact hclear
        · have := hc i h1 (by omega)
          simp at this
          exact this.2
      · rw [hset]
        by_cases hi : i = bit
        · simp [hi]
        · simp only [hi, decide_false, Bool.false_or]
          congr 2
          exact propext (by omega)
    · next hset => exact ⟨bit, le_rfl, by omega, by simpa using hset⟩

theorem writemap_spec (i n : Nat) : Sat K (writemap i n) m (fun _ t => t.bitbuf = m.bitbuf ∧ ∀ b, t.sector b =
    if sfsMapLocation + i ≤ b ∧ b < sfsMapLocation + i + n then
      mapBlock m.bitbuf (b - sfsMapLocation) else m.sector b) := by
  induction n generalizing i m with
  | zero => exact ⟨rfl, fun b => by rw [if_neg (by omega)]⟩
  | succ n ih =>
    simp only [writemap, diskwrite, sat_bind, sat_get, sat_modify]
    refine (ih (i + 1)).mono ?_
    rintro _ t ⟨hb, hs⟩
    refine ⟨hb, fun b => (hs b).trans ?_⟩
    dsimp only
    by_cases hbi : b = sfsMapLocation + i
    · subst hbi
      rw [if_neg (by omega), if_pos (by omega), Function.update_self, Nat.add_sub_cancel_left]
    · rw [Function.update_of_ne hbi]
      exact if_congr (by omega) rfl rfl

/-- A disk as `mksfs` leaves it. `v` are the bytes of the free map. -/
structure Fresh (d : Device) (v : Nat → Byte) : Prop where
  size : d.dBlocks < 2 ^ 32
  room : d.dBlocks < sfsBitmapsize d.dBlocks → sfsMapLocation + sfsBitblocks d.dBlocks ≤ d.dBlocks
  super : ∃ name, d.sector sfsSbLocation = (newSuper name d.dBlocks).encode
  root : d.sector sfsRootLocation = rootInode.encode
  map : ∀ j < sfsBitblocks d.dBlocks, d.sector (sfsMapLocation + j) = mapBlock v j
  bit : ∀ i, bitTest v i = decide (i < sfsMapLocation + sfsBitblocks d.dBlocks ∨
    d.dBlocks ≤ i ∧ i < sfsBitmapsize d.dBlocks)

theorem writebitmap_spec (n : Nat) (h0 : ∀ i, bitTest m.bitbuf i = false) :
    Sat (fun _ => ¬ (sfsBitblocks n ≤ maxbitblocks ∧ sfsMapLocation + sfsBitblocks n ≤ n)) (writebitmap n) m (fun _ t =>
        (n < sfsBitmapsize n → sfsMapLocation + sfsBitblocks n ≤ n) ∧
        (∀ i, bitTest t.bitbuf i = decide (i < sfsMapLocation + sfsBitblocks n ∨ n ≤ i ∧ i < sfsBitmapsize n)) ∧
        ∀ b, t.sector b = if sfsMapLocation ≤ b ∧ b < sfsMapLocation + sfsBitblocks n then
          mapBlock t.bitbuf (b - sfsMapLocation) else m.sector b) := by
  have h1 : bitTest (bitSet m.bitbuf sfsSbLocation) sfsRootLocation = false := by
    rw [bitTest_bitSet (by decide), h0]
    decide
  simp only [writebitmap, doallocbit, sat_bind, sat_check, sat_get, sat_modify]
  by_cases hmax : sfsBitblocks n ≤ maxbitblocks; swap
  · rw [if_neg hmax]
    exact fun hs => hmax hs.1
  rw [if_pos hmax, if_pos (h0 _), if_pos h1]
  -- the blocks of the volume's own structures
  have hown (i : Nat) : bitTest (bitSet (bitSet m.bitbuf sfsSbLocation) sfsRootLocation) i =
      decide (i < sfsMapLocation) := by
    rw [bitTest_bitSet (by decide), bitTest_bitSet (by decide), h0, Bool.eq_iff_iff]
    simp only [Bool.or_eq_true, decide_eq_true_eq, Bool.false_eq_true, or_false]
    unfold sfsSbLocation sfsRootLocation sfsMapLocation
    omega
  refine ((doallocbits_spec _ _).weaken ?_).mono ?_
  · rintro p ⟨i, hi, -, hset⟩
    rw [hown, decide_eq_true_eq] at hset
    omega
  rintro (e | a) m1 ⟨hs1, -, hb1⟩
  · exact e.elim
  have hbit1 (i : Nat) : bitTest m1.bitbuf i = decide (i < sfsMapLocation + sfsBitblocks n) := by
    rw [hb1, hown, Bool.eq_iff_iff]
    simp only [Bool.or_eq_true, decide_eq_true_eq]
    omega
  refine ((doallocbits_spec _ _).weaken ?_).mono ?_
  · rintro p ⟨i, hi, -, hset⟩ ⟨-, hle⟩
    rw [hbit1, decide_eq_true_eq] at hset
    omega
  rintro (e | a) m2 ⟨hs2, hc2, hb2⟩
  · exact e.elim
  refine (writemap_spec 0 _).mono ?_
  rintro _ t ⟨hb, hs⟩
  refine ⟨fun hlt => ?_, fun i => ?_, fun b => ?_⟩
  · have := hc2 n le_rfl (by omega)
    rw [hbit1] at this
    simpa using this
  · rw [hb, hb2, hbit1, Bool.eq_iff_iff]
    simp only [Bool.or_eq_true, decide_eq_true_eq]
    omega
  · rw [hs, hb, hs2, hs1]
    simp

theorem mksfs_spec (f : DiskFile) (volname : CString) (sector : Nat → Block) :
    Sat (fun _ => ¬ f.Accepted volname) (Sfs.mksfs f volname) ⟨fun _ => 0, sector⟩ (fun _ t =>
      Fresh ⟨f.diskblocks, t.sector⟩ t.bitbuf) := by
  have hn : f.diskblocks < 2 ^ 32 := by
    have := f.stSize.isLt
    unfold DiskFile.diskblocks
    omega
  simp only [Sfs.mksfs, checkVolname, writesuper, writerootdir, diskwrite, sat_bind, sat_check, sat_pure, sat_modify]
  split; swap; · next h => exact fun ha => h ha.1.checks.1
  split; swap; · next h => exact fun ha => h (by simpa using ha.1.checks.2.1)
  split; swap; · next h => exact fun ha => h ha.1.checks.2.2
  refine ((writebitmap_spec f.diskblocks fun i => by simp [bitTest]).weaken fun _ h ha => h ha.2).mono ?_
  rintro _ t ⟨hroom, hbit, hs⟩
  refine ⟨hn, hroom, ⟨volname.bytes.takeWhile (· ≠ 58), (hs _).trans ?_⟩, (hs _).trans ?_,
    fun j hj => (hs _).trans ?_, hbit⟩
  · rfl
  · rfl
  · rw [if_pos (by dsimp only at hj; omega), Nat.add_sub_cancel_left]

theorem mksfs_fresh {f : DiskFile} {volname : CString} {d : Device}
    (h : f.mksfs volname = .ok d) : d.dBlocks = f.diskblocks ∧ ∃ v, Fresh d v := by
  have hs := mksfs_spec f volname f.sector
  unfold DiskFile.mksfs at h
  cases hm : Sfs.mksfs f volname ⟨fun _ => 0, f.sector⟩ with
  | error p =>
    rw [hm] at h
    exact nomatch h
  | ok a =>
    obtain ⟨r, m⟩ := a
    rw [hm] at h
    obtain rfl := Except.ok.inj h
    exact ⟨rfl, m.bitbuf, hs.of_ok hm⟩

theorem mksfs_completes {f : DiskFile} {volname : CString} (h : f.Accepted volname) : ∃ d, f.mksfs volname = .ok d := by
  unfold DiskFile.mksfs
  cases hm : Sfs.mksfs f volname ⟨fun _ => 0, f.sector⟩ with
  | error p => exact absurd h ((mksfs_spec f volname f.sector).of_error hm)
  | ok a => exact ⟨_, rfl⟩

end Mksfs

end Os161.Sfs
