import Os161.Sfs.Layout
import Os161.Kern.Uio

/-!
# A mounted SFS: state, block access and space allocation

The state of a mounted file system (`struct sfs_fs`) together with the device under it, and
the functions of `sfs_io.c` and `sfs_vnode.c` that the rest of the file system is built on.
The vnode table holds the loaded vnodes in order; a vnode pointer is the address that
`kmalloc` returned for its structure.

Block transfers and allocations of memory may fail: `ioFaults` and `memFaults` say which of
the coming ones do, and an exhausted list stands for no further failure. A failed write
leaves the block as it was.
-/
namespace Os161.Sfs

open Lib Kern

/-- The panics and assertions of the file system. -/
inductive SfsPanic where
  | bitmap (a : BitmapAssert)
  | uio (p : UioPanic)
  | dioEinval
  | ballocInvalid | busedRange | markedFree
  | partialioLen | partialioNotRead | blockioNotRead | blockioResid
  | ioExtraresid | ioAligned | ioResid | readRw | writeRw
  | readdirShort | writedirShort | dirNotDir | dirInvalidSize | nameTwice | linkcountZero
  | inodeUnallocated | loadUnallocated | loadForcetype | loadTypeSet | loadInvalidType
  | reclaimRefcount | reclaimNotInPool | killRefcount | killOpencount | decrefRefcount
  | removeLinkcount | renameDirs | renameRoot | renameNotFile | renameLinkcount
  | renameCannotRecover | getrootLoad | gettypeInvalid | decopenOpencount
  | unmountSuperdirty | unmountFreemapdirty
  | arrayIndex | badPointer
  deriving DecidableEq, Repr

/-- Which table of vnode operations a vnode has. -/
inductive VnodeOps where
  | fileops | dirops
  deriving DecidableEq, Repr

structure SfsVnode where
  svAddr : Nat
  vnRefcount : Nat
  vnOpencount : Nat
  vnOps : VnodeOps
  svI : SfsInode
  svIno : Nat
  svDirty : Bool

structure Device where
  dBlocks : Nat
  sector : Nat → Block

structure SfsFs where
  sfsSuper : SfsSuper
  sfsSuperdirty : Bool
  sfsDevice : Device
  sfsVnodes : List SfsVnode
  sfsFreemap : Bitmap
  sfsFreemapdirty : Bool
  nextAddr : Nat
  ioFaults : List Bool
  memFaults : List Bool

abbrev SfsM := Prog SfsPanic Errno SfsFs

def SfsFs.nblocks (s : SfsFs) : Nat := s.sfsSuper.spNblocks.toNat

/-! ## Vnodes in memory -/

def SfsFs.vnode? (s : SfsFs) (sv : Nat) : Option SfsVnode :=
  s.sfsVnodes.find? (·.svAddr = sv)

def vnode (sv : Nat) : SfsM SfsVnode := do
  let s ← Prog.get
  match s.vnode? sv with
  | some v => pure v
  | none => Prog.stop .badPointer

def SfsFs.updateVnode (s : SfsFs) (sv : Nat) (f : SfsVnode → SfsVnode) : SfsFs :=
  { s with sfsVnodes := s.sfsVnodes.map fun v => if v.svAddr = sv then f v else v }

def modifyVnode (sv : Nat) (f : SfsVnode → SfsVnode) : SfsM Unit :=
  Prog.modify (·.updateVnode sv f)

def SfsVnode.setInode (f : SfsInode → SfsInode) (v : SfsVnode) : SfsVnode :=
  { v with svI := f v.svI, svDirty := true }

/-- Change the in-memory inode and mark it dirty. -/
def setInode (sv : Nat) (f : SfsInode → SfsInode) : SfsM Unit :=
  modifyVnode sv (SfsVnode.setInode f)

/-! ## Memory and block transfers -/

def nextFault : List Bool → Bool × List Bool
  | [] => (false, [])
  | b :: l => (b, l)

/-- The address of a fresh structure, or `ENOMEM`. -/
def kmalloc : SfsM Nat := do
  let s ← Prog.get
  Prog.modify fun s => { s with memFaults := (nextFault s.memFaults).2 }
  if (nextFault s.memFaults).1 then Prog.raise .enomem
  else
    Prog.modify fun s => { s with nextAddr := s.nextAddr + 1 }
    pure s.nextAddr

/-- One whole `sfs_rwblock` with its retries; blocks that are not on the disk are a panic. A fault
bit is its result: `EIO`, with nothing transferred. The driver's own write (`Dev.sfsWblock_spec`)
reports success after a refused first attempt; `Dev.Backs` relates the two where that attempt is
answered. -/
def deviceIo (block : Nat) : SfsM Unit := do
  let s ← Prog.get
  Prog.check (block < s.sfsDevice.dBlocks) .dioEinval
  Prog.modify fun s => { s with ioFaults := (nextFault s.ioFaults).2 }
  if (nextFault s.ioFaults).1 then Prog.raise .eio else pure ()

def sfsRblock (block : Nat) : SfsM Block := do
  deviceIo block
  let s ← Prog.get
  pure (s.sfsDevice.sector block)

def SfsFs.writeSector (s : SfsFs) (block : Nat) (data : Block) : SfsFs :=
  { s with sfsDevice :=
    { s.sfsDevice with sector := Function.update s.sfsDevice.sector block data } }

def sfsWblock (data : Block) (block : Nat) : SfsM Unit := do
  deviceIo block
  Prog.modify (·.writeSector block data)

/-! ## Space allocation -/

def sfsClearblock (block : Nat) : SfsM Unit := sfsWblock Block.zero block

/-- Write an in-memory inode back to its block. -/
def sfsSyncInode (sv : Nat) : SfsM Unit := do
  let v ← vnode sv
  Prog.when (v.svDirty = true) do
    sfsWblock v.svI.encode v.svIno
    modifyVnode sv fun v => { v with svDirty := false }

def freemap {α : Type} (m : Prog BitmapAssert Errno Bitmap α) : SfsM α :=
  Prog.focus (·.sfsFreemap) (fun b s => { s with sfsFreemap := b }) .bitmap m

def sfsBalloc : SfsM Nat := do
  let diskblock ← freemap bitmapAlloc
  Prog.modify fun s => { s with sfsFreemapdirty := true }
  let s ← Prog.get
  Prog.check (diskblock < s.nblocks) .ballocInvalid
  sfsClearblock diskblock
  pure diskblock

def sfsBfree (diskblock : Nat) : SfsM Unit := do
  freemap (bitmapUnmark diskblock)
  Prog.modify fun s => { s with sfsFreemapdirty := true }

def sfsBused (diskblock : Nat) : SfsM Bool := do
  let s ← Prog.get
  Prog.check (diskblock < s.nblocks) .busedRange
  pure (bitmapIsset s.sfsFreemap diskblock)

end Os161.Sfs
