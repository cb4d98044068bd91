import Os161.Sfs.Fs

/-!
# Block mapping and file I/O

`sfs_bmap`, `sfs_partialio`, `sfs_blockio`, `sfs_io` and `sfs_truncate` of `sfs_vnode.c`.
The functions that move data run on a pair of the file system and the caller's `Uio`, since
both keep their changes when a call fails halfway.
-/
namespace Os161.Sfs

open Lib Kern

/-! ## Block mapping -/

/-- The check before a mapped block is handed back. -/
def checkUsed (block : Nat) : SfsM Unit :=
  Prog.when (block ≠ 0) do
    let used ← sfsBused block
    Prog.check (used = true) .markedFree

/-- The part of `sfs_bmap` for blocks the inode points to itself. -/
def sfsBmapDirect (sv fileblock : Nat) (doalloc : Bool) : SfsM Nat := do
  let v ← vnode sv
  let block := (v.svI.direct fileblock).toNat
  let block ← if block = 0 ∧ doalloc = true then do
      let block ← sfsBalloc
      setInode sv (·.setDirect fileblock (BitVec.ofNat 32 block))
      pure block
    else pure block
  checkUsed block
  pure block

/-- Get hold of the indirect block, allocating it if there is none. -/
def sfsIdblock (sv : Nat) (idblock : Nat) : SfsM (Nat × (Nat → Word)) :=
  if idblock = 0 then do
    let idblock ← sfsBalloc
    setInode sv fun i => { i with sfiIndirect := BitVec.ofNat 32 idblock }
    pure (idblock, fun _ => 0)
  else do
    let b ← sfsRblock idblock
    pure (idblock, b.word)

/-- The part of `sfs_bmap` for blocks listed in the indirect block. -/
def sfsBmapIndirect (sv idoff : Nat) (doalloc : Bool) : SfsM Nat := do
  let v ← vnode sv
  let idblock := v.svI.sfiIndirect.toNat
  if idblock = 0 ∧ doalloc = false then pure 0
  else do
    let (idblock, idbuf) ← sfsIdblock sv idblock
    let block := (idbuf idoff).toNat
    let block ← if block = 0 ∧ doalloc = true then do
        let block ← sfsBalloc
        sfsWblock (Block.ofWords (Function.update idbuf idoff (BitVec.ofNat 32 block))) idblock
        pure block
      else pure block
    checkUsed block
    pure block

/-- The disk block behind block `fileblock` of a file; `0` when there is none. -/
def sfsBmap (sv fileblock : Nat) (doalloc : Bool) : SfsM Nat :=
  if fileblock < sfsNdirect then sfsBmapDirect sv fileblock doalloc
  else
    let fileblock := fileblock - sfsNdirect
    if 0 < fileblock / sfsDbperidb then Prog.raise .einval
    else sfsBmapIndirect sv (fileblock % sfsDbperidb) doalloc

/-! ## File I/O -/

abbrev SfsIoM := Prog SfsPanic Errno (SfsFs × Uio)

def onFs {α : Type} (m : SfsM α) : SfsIoM α :=
  Prog.focus Prod.fst (fun s p => (s, p.2)) id m

def onUio {α : Type} (m : Prog UioPanic Errno Uio α) : SfsIoM α :=
  Prog.focus Prod.snd (fun u p => (p.1, u)) .uio m

def getUio : SfsIoM Uio := onUio Prog.get

/-- The buffer `sfs_partialio` works on: the block as it is on disk, or zeros when a read
finds no block. -/
def sfsIobuf (diskblock : Nat) (rw : UioRw) : SfsM Block :=
  if diskblock = 0 then do
    Prog.check (rw = .read) .partialioNotRead
    pure Block.zero
  else sfsRblock diskblock

/-- I/O on a part of one block, through a buffer for the whole block. -/
def sfsPartialio (sv skipstart len : Nat) : SfsIoM Unit := do
  let u ← getUio
  Prog.check (skipstart + len ≤ sfsBlocksize) .partialioLen
  let diskblock ← onFs (sfsBmap sv (u.uioOffset / sfsBlocksize) (u.uioRw == .write))
  let iobuf ← onFs (sfsIobuf diskblock u.uioRw)
  let d ← onUio (uiomove (iobuf.slice skipstart (sfsBlocksize - skipstart)) len)
  Prog.when (u.uioRw = .write) (onFs (sfsWblock (iobuf.splice skipstart d) diskblock))

/-- One whole block between the device and the descriptor, whose offset is a disk address. The
device takes a block to write out of the descriptor before it starts the transfer. -/
def sfsRwblock : SfsIoM Unit := do
  let u ← getUio
  Prog.check (u.uioOffset % sfsBlocksize = 0 ∧ u.uioResid = sfsBlocksize) .dioEinval
  match u.uioRw with
  | .read => do
    let b ← onFs (sfsRblock (u.uioOffset / sfsBlocksize))
    let _ ← onUio (uiomove (b.slice 0 sfsBlocksize) sfsBlocksize)
    pure ()
  | .write => do
    let d ← onUio (uiomove (List.replicate sfsBlocksize 0) sfsBlocksize)
    onFs (sfsWblock (Block.ofFn fun k => d.getD k 0) (u.uioOffset / sfsBlocksize))

/-- I/O of one whole block, straight between the device and the descriptor. -/
def sfsBlockio (sv : Nat) : SfsIoM Unit := do
  let u ← getUio
  let diskblock ← onFs (sfsBmap sv (u.uioOffset / sfsBlocksize) (u.uioRw == .write))
  if diskblock = 0 then do
    Prog.check (u.uioRw = .read) .blockioNotRead
    onUio (uiomovezeros sfsBlocksize)
  else do
    let diskoff := diskblock * sfsBlocksize
    Prog.check (sfsBlocksize ≤ u.uioResid) .blockioResid
    onUio (Prog.modify fun u => { u with uioOffset := diskoff, uioResid := sfsBlocksize })
    let result ← Prog.attempt sfsRwblock
    onUio (Prog.modify fun w => { w with
      uioOffset := sub32 (w.uioOffset + u.uioOffset) diskoff
      uioResid := sub32 (w.uioResid + u.uioResid) sfsBlocksize })
    Prog.ofExcept result

def sfsIoBlocks (sv : Nat) : Nat → SfsIoM Unit
  | 0 => pure ()
  | n + 1 => do
    sfsBlockio sv
    sfsIoBlocks sv n

/-- The transfer from a block boundary on: whole blocks and a trailing partial block. -/
def sfsIoAligned (sv : Nat) : SfsIoM Unit := do
  let u ← getUio
  Prog.check (u.uioOffset % sfsBlocksize = 0) .ioAligned
  sfsIoBlocks sv (u.uioResid / sfsBlocksize)
  let u ← getUio
  Prog.check (u.uioResid < sfsBlocksize) .ioResid
  Prog.when (0 < u.uioResid) (sfsPartialio sv 0 u.uioResid)

/-- The transfer proper, which starts with a partial block if it does not start at a block
boundary. -/
def sfsIoBody (sv : Nat) : SfsIoM Unit := do
  let u ← getUio
  let blkoff := u.uioOffset % sfsBlocksize
  Prog.when (blkoff ≠ 0) (sfsPartialio sv blkoff (min (sfsBlocksize - blkoff) u.uioResid))
  let u ← getUio
  Prog.when (u.uioResid ≠ 0) (sfsIoAligned sv)

/-- The amount by which a read asks for more than the file holds, in 32-bit arithmetic. -/
def sfsExtraresid (size : Int) (u : Uio) : Nat :=
  let endpos := (BitVec.ofNat 32 (u.uioOffset + u.uioResid)).toInt
  if u.uioRw = .read ∧ size < endpos then (endpos - size).toNat else 0

/-- I/O of a whole region, whether or not it is block-aligned. -/
def sfsIo (sv : Nat) : SfsIoM Unit := do
  let u ← getUio
  let v ← onFs (vnode sv)
  let size := v.svI.sfiSize.toInt
  if u.uioRw = .read ∧ size ≤ u.uioOffset then pure ()
  else do
    let extraresid := sfsExtraresid size u
    Prog.check (extraresid = 0 ∨ extraresid < u.uioResid) .ioExtraresid
    onUio (Prog.modify fun u => { u with uioResid := u.uioResid - extraresid })
    let result ← Prog.attempt (sfsIoBody sv)
    let w ← getUio
    let v ← onFs (vnode sv)
    Prog.when (w.uioRw = .write ∧ v.svI.sfiSize.toInt < w.uioOffset)
      (onFs (setInode sv fun i => { i with sfiSize := BitVec.ofNat 32 w.uioOffset }))
    onUio (Prog.modify fun u => { u with uioResid := (u.uioResid + extraresid) % 2 ^ 32 })
    Prog.ofExcept result

/-- Run file I/O with a descriptor; the caller gets the descriptor back in every case. -/
def withUio {α : Type} (u : Uio) (m : SfsIoM α) : SfsM (Except Errno α × Uio) := fun s =>
  match m (s, u) with
  | .error p => .error p
  | .ok (r, t, w) => .ok (.ok (r, w), t)

@[simp] theorem sat_withUio {α : Type} {K : SfsPanic → Prop} {u : Uio} {m : SfsIoM α} {s : SfsFs}
    {Q : Except Errno (Except Errno α × Uio) → SfsFs → Prop} :
    Prog.Sat K (withUio u m) s Q ↔ Prog.Sat K m (s, u) (fun r p => Q (.ok (r, p.2)) p.1) := by
  unfold Prog.Sat withUio
  rcases m (s, u) with p | ⟨r, t, w⟩ <;> rfl

/-! ## Truncation -/

/-- Discard the direct blocks `i, i + 1, …` past the new length. -/
def truncDirect (sv blocklen i : Nat) : Nat → SfsM Unit
  | 0 => pure ()
  | n + 1 => do
    let v ← vnode sv
    let block := (v.svI.direct i).toNat
    Prog.when (blocklen ≤ i ∧ block ≠ 0) do
      sfsBfree block
      setInode sv (·.setDirect i 0)
    truncDirect sv blocklen (i + 1) n

/-- What the loop over the indirect block leaves behind. -/
structure IdScan where
  idbuf : Nat → Word
  hasnonzero : Bool
  iddirty : Bool

/-- Discard the blocks listed in entries `j, j + 1, …` of the indirect block. -/
def truncEntries (blocklen j : Nat) (r : IdScan) : Nat → SfsM IdScan
  | 0 => pure r
  | n + 1 =>
    if blocklen < sfsNdirect + j ∧ r.idbuf j ≠ 0 then do
      sfsBfree (r.idbuf j).toNat
      truncEntries blocklen (j + 1)
        { r with idbuf := Function.update r.idbuf j 0, iddirty := true } n
    else
      truncEntries blocklen (j + 1) { r with hasnonzero := r.hasnonzero || r.idbuf j != 0 } n

def truncIndirect (sv blocklen idblock : Nat) : SfsM Unit := do
  let b ← sfsRblock idblock
  let r ← truncEntries blocklen 0 ⟨b.word, false, false⟩ sfsDbperidb
  if r.hasnonzero = false then do
    sfsBfree idblock
    setInode sv fun i => { i with sfiIndirect := 0 }
  else Prog.when (r.iddirty = true) (sfsWblock (Block.ofWords r.idbuf) idblock)

/-- The length in blocks of a length in bytes, which is a signed `off_t`. -/
def truncBlocklen (len : Word) : Nat := (BitVec.sdiv (len + 512 - 1) 512).toNat

def sfsTruncate (sv : Nat) (len : Word) : SfsM Unit := do
  let blocklen := truncBlocklen len
  truncDirect sv blocklen 0 sfsNdirect
  let v ← vnode sv
  let idblock := v.svI.sfiIndirect.toNat
  let highblock := sfsNdirect + sfsDbperidb - 1
  Prog.when (blocklen < highblock ∧ idblock ≠ 0) (truncIndirect sv blocklen idblock)
  setInode sv fun i => { i with sfiSize := len }

end Os161.Sfs
