import Os161.Sfs.File

/-!
# Directories and vnode operations

The rest of `sfs_vnode.c`: the directory routines, loading and reclaiming of vnodes, and
the operations the VFS layer calls through a vnode's table of operations. A call on a vnode
of the other kind ends in the table's `NOTDIR`, `ISDIR` entry. Reference counts are those of
`kern/fs/vfs/vnode.c`; operations run one at a time, so its count lock is left out.
-/
namespace Os161.Sfs

open Lib Kern

/-! ## Directory I/O -/

def sfsReaddir (sv slot : Nat) : SfsM SfsDir := do
  let (result, ku) ← withUio
    (mkKuio (List.replicate sizeofSfsDir 0) (slot * sizeofSfsDir) .read) (sfsIo sv)
  Prog.ofExcept result
  Prog.check (ku.uioResid = 0) .readdirShort
  pure (SfsDir.decode ku.moved)

def sfsWritedir (sv : Nat) (sd : SfsDir) (slot : Nat) : SfsM Unit := do
  let (result, ku) ← withUio (mkKuio sd.encode (slot * sizeofSfsDir) .write) (sfsIo sv)
  Prog.ofExcept result
  Prog.check (ku.uioResid = 0) .writedirShort

def sfsDirNentries (sv : Nat) : SfsM Nat := do
  let v ← vnode sv
  Prog.check (v.svI.sfiType = sfsTypeDir) .dirNotDir
  Prog.check (v.svI.sfiSize.toNat % sizeofSfsDir = 0) .dirInvalidSize
  pure (v.svI.sfiSize.toNat / sizeofSfsDir)

/-- What `sfs_dir_findname` hands back: the inode number and slot of the name, and the
last empty slot it passed. -/
structure Found where
  entry : Option (Nat × Nat)
  emptyslot : Option Nat

def sfsDirFindLoop (sv : Nat) (name : CString) (i : Nat) (f : Found) : Nat → SfsM Found
  | 0 => pure f
  | n + 1 => do
    let tsd ← sfsReaddir sv i
    if tsd.sfdIno = sfsNoino then
      sfsDirFindLoop sv name (i + 1) { f with emptyslot := some i } n
    else if tsd.name = name.bytes then do
      -- each name may appear only once
      Prog.check (f.entry = none) .nameTwice
      sfsDirFindLoop sv name (i + 1) { f with entry := some (tsd.sfdIno.toNat, i) } n
    else sfsDirFindLoop sv name (i + 1) f n

def sfsDirFindname (sv : Nat) (name : CString) : SfsM Found := do
  let nentries ← sfsDirNentries sv
  sfsDirFindLoop sv name 0 ⟨none, none⟩ nentries

/-- Enter a name for an inode in a directory, and return the slot used. -/
def sfsDirLink (sv : Nat) (name : CString) (ino : Nat) : SfsM Nat := do
  let f ← sfsDirFindname sv name
  if f.entry ≠ none then Prog.raise .eexist
  else if sfsNamelen < name.bytes.length + 1 then Prog.raise .enametoolong
  else do
    let slot ← match f.emptyslot with
      | some slot => pure slot
      | none => sfsDirNentries sv
    sfsWritedir sv (SfsDir.named (BitVec.ofNat 32 ino) name.bytes) slot
    pure slot

def sfsDirUnlink (sv slot : Nat) : SfsM Unit := sfsWritedir sv (SfsDir.named sfsNoino []) slot

/-! ## Reference counts and reclaiming -/

def vnodeIncref (sv : Nat) : SfsM Unit :=
  modifyVnode sv fun v => { v with vnRefcount := v.vnRefcount + 1 }

def vnodeKill (v : SfsVnode) : SfsM Unit := do
  Prog.check (v.vnRefcount = 1) .killRefcount
  Prog.check (v.vnOpencount = 0) .killOpencount

def vopTruncate (sv : Nat) (len : Word) : SfsM Unit := do
  let v ← vnode sv
  match v.vnOps with
  | .fileops => sfsTruncate sv len
  | .dirops => Prog.raise .eisdir

def SfsFs.dropVnode (s : SfsFs) (sv : Nat) : SfsFs :=
  { s with sfsVnodes := s.sfsVnodes.eraseP fun w => decide (w.svAddr = sv) }

def sfsReclaim (sv : Nat) : SfsM Unit := do
  let v ← vnode sv
  if v.vnRefcount ≠ 1 then do
    -- consume the reference VOP_DECREF gave us
    Prog.check (1 < v.vnRefcount) .reclaimRefcount
    modifyVnode sv fun v => { v with vnRefcount := v.vnRefcount - 1 }
    Prog.raise .ebusy
  else do
    Prog.when (v.svI.sfiLinkcount = 0) (vopTruncate sv 0)
    sfsSyncInode sv
    let v ← vnode sv
    Prog.when (v.svI.sfiLinkcount = 0) (sfsBfree v.svIno)
    let s ← Prog.get
    Prog.check ((s.sfsVnodes.any fun w => decide (w.svAddr = sv)) = true) .reclaimNotInPool
    Prog.modify (·.dropVnode sv)
    vnodeKill v

/-- Drop a reference. The last one reclaims the vnode; an error there is only reported. -/
def vnodeDecref (sv : Nat) : SfsM Unit := do
  let v ← vnode sv
  Prog.check (0 < v.vnRefcount) .decrefRefcount
  if 1 < v.vnRefcount then modifyVnode sv fun v => { v with vnRefcount := v.vnRefcount - 1 }
  else do
    let _ ← Prog.attempt (sfsReclaim sv)
    pure ()

/-! ## Loading vnodes -/

/-- The search of the vnode table in `sfs_loadvnode`. -/
def loadvnodeSearch (ino : Nat) : List SfsVnode → SfsM (Option Nat)
  | [] => pure none
  | v :: vs => do
    let used ← sfsBused v.svIno
    Prog.check (used = true) .inodeUnallocated
    if v.svIno = ino then pure (some v.svAddr) else loadvnodeSearch ino vs

/-- The operations for an inode type. -/
def vnodeOps (type : Half) : SfsM VnodeOps :=
  if type = sfsTypeFile then pure .fileops
  else if type = sfsTypeDir then pure .dirops
  else Prog.stop .loadInvalidType

/-- Make a vnode for an inode that is not in memory. -/
def loadvnodeFresh (ino : Nat) (forcetype : Half) : SfsM Nat := do
  let sv ← kmalloc
  let used ← sfsBused ino
  Prog.check (used = true) .loadUnallocated
  let b ← sfsRblock ino
  let i := SfsInode.decode b
  Prog.check (forcetype = sfsTypeInval ∨ i.sfiType = sfsTypeInval) .loadTypeSet
  let i := if forcetype = sfsTypeInval then i else { i with sfiType := forcetype }
  let ops ← vnodeOps i.sfiType
  -- VOP_INIT needs memory for the count lock, array_add for the table
  let _ ← kmalloc
  let _ ← kmalloc
  Prog.modify fun s => { s with sfsVnodes := s.sfsVnodes ++
    [{ svAddr := sv, vnRefcount := 1, vnOpencount := 0, vnOps := ops, svI := i, svIno := ino,
       svDirty := forcetype ≠ sfsTypeInval }] }
  pure sv

def sfsLoadvnode (ino : Nat) (forcetype : Half) : SfsM Nat := do
  let s ← Prog.get
  match ← loadvnodeSearch ino s.sfsVnodes with
  | some sv => do
    Prog.check (forcetype = sfsTypeInval) .loadForcetype
    vnodeIncref sv
    pure sv
  | none => loadvnodeFresh ino forcetype

def sfsGetroot : SfsM Nat := do
  match ← Prog.attempt (sfsLoadvnode sfsRootLocation sfsTypeInval) with
  | .ok sv => pure sv
  | .error _ => Prog.stop .getrootLoad

/-- Look a name up in a directory; the result is its vnode and its slot. -/
def sfsLookonce (sv : Nat) (name : CString) : SfsM (Nat × Nat) := do
  let f ← sfsDirFindname sv name
  match f.entry with
  | none => Prog.raise .enoent
  | some (ino, slot) => do
    let g ← sfsLoadvnode ino sfsTypeInval
    let v ← vnode g
    Prog.check (v.svI.sfiLinkcount ≠ 0) .linkcountZero
    pure (g, slot)

def sfsMakeobj (type : Half) : SfsM Nat := do
  let ino ← sfsBalloc
  sfsLoadvnode ino type

/-! ## Vnode operations -/

def sfsRead (sv : Nat) (u : Uio) : SfsM (Except Errno Unit × Uio) := do
  Prog.check (u.uioRw = .read) .readRw
  withUio u (sfsIo sv)

def sfsWrite (sv : Nat) (u : Uio) : SfsM (Except Errno Unit × Uio) := do
  Prog.check (u.uioRw = .write) .writeRw
  withUio u (sfsIo sv)

def sfsCreat (sv : Nat) (name : CString) (excl : Bool) : SfsM Nat := do
  let f ← sfsDirFindname sv name
  match f.entry with
  | some (ino, _) =>
    if excl = true then Prog.raise .eexist else sfsLoadvnode ino sfsTypeInval
  | none => do
    let newguy ← sfsMakeobj sfsTypeFile
    let v ← vnode newguy
    match ← Prog.attempt (sfsDirLink sv name v.svIno) with
    | .error e => do
      vnodeDecref newguy
      Prog.raise e
    | .ok _ => do
      setInode newguy fun i => { i with sfiLinkcount := i.sfiLinkcount + 1 }
      pure newguy

def sfsLink (sv : Nat) (name : CString) (file : Nat) : SfsM Unit := do
  let f ← vnode file
  let _ ← sfsDirLink sv name f.svIno
  setInode file fun i => { i with sfiLinkcount := i.sfiLinkcount + 1 }

def sfsRemove (sv : Nat) (name : CString) : SfsM Unit := do
  let (victim, slot) ← sfsLookonce sv name
  let result ← Prog.attempt do
    sfsDirUnlink sv slot
    let v ← vnode victim
    Prog.check (v.svI.sfiLinkcount ≠ 0) .removeLinkcount
    setInode victim fun i => { i with sfiLinkcount := i.sfiLinkcount - 1 }
  vnodeDecref victim
  Prog.ofExcept result

/-- The part of `sfs_rename` after the old name was found at `slot1` with vnode `g1`. -/
def renameBody (sv : Nat) (n2 : CString) (g1 slot1 : Nat) : SfsM Unit := do
  let v ← vnode g1
  Prog.check (v.svI.sfiType = sfsTypeFile) .renameNotFile
  let slot2 ← sfsDirLink sv n2 v.svIno
  setInode g1 fun i => { i with sfiLinkcount := i.sfiLinkcount + 1 }
  match ← Prog.attempt (sfsDirUnlink sv slot1) with
  | .ok _ => do
    let v ← vnode g1
    Prog.check (v.svI.sfiLinkcount ≠ 0) .renameLinkcount
    setInode g1 fun i => { i with sfiLinkcount := i.sfiLinkcount - 1 }
  | .error e => do
    -- puke_harder: try to undo what we already did
    match ← Prog.attempt (sfsDirUnlink sv slot2) with
    | .error _ => Prog.stop .renameCannotRecover
    | .ok _ => do
      modifyVnode g1 fun v => { v with
        svI := { v.svI with sfiLinkcount := v.svI.sfiLinkcount - 1 } }
      Prog.raise e

def sfsRename (d1 : Nat) (n1 : CString) (d2 : Nat) (n2 : CString) : SfsM Unit := do
  Prog.check (d1 = d2) .renameDirs
  let d ← vnode d1
  Prog.check (d.svIno = sfsRootLocation) .renameRoot
  let (g1, slot1) ← sfsLookonce d1 n1
  let result ← Prog.attempt (renameBody d1 n2 g1 slot1)
  vnodeDecref g1
  Prog.ofExcept result

def sfsLookup (sv : Nat) (path : CString) : SfsM Nat := do
  let v ← vnode sv
  if v.svI.sfiType ≠ sfsTypeDir then Prog.raise .enotdir
  else do
    let (final, _) ← sfsLookonce sv path
    pure final

/-! ## Calls through the tables of operations -/

/-- A call the VFS layer can make on a mounted SFS. -/
inductive SfsCall where
  | getroot
  | lookup (dir : Nat) (path : CString)
  | creat (dir : Nat) (name : CString) (excl : Bool)
  | link (dir : Nat) (name : CString) (file : Nat)
  | remove (dir : Nat) (name : CString)
  | rename (d1 : Nat) (n1 : CString) (d2 : Nat) (n2 : CString)
  | read (file : Nat) (u : Uio)
  | write (file : Nat) (u : Uio)
  | truncate (file : Nat) (len : Word)
  | fsync (file : Nat)
  | incref (file : Nat)
  | decref (file : Nat)

/-- What a call hands back: a vnode, a descriptor with its result, or nothing. -/
inductive SfsReply where
  | vnode (sv : Nat)
  | uio (r : Except Errno Unit) (u : Uio)
  | done

/-- Dispatch on the vnode's table of operations. -/
def dispatch {α : Type} (sv : Nat) (file dir : SfsM α) : SfsM α := do
  let v ← vnode sv
  match v.vnOps with
  | .fileops => file
  | .dirops => dir

def SfsM.replyVnode (m : SfsM Nat) : SfsM SfsReply := do
  let sv ← m
  pure (.vnode sv)

def SfsM.replyDone (m : SfsM Unit) : SfsM SfsReply := do
  m
  pure .done

def SfsM.replyUio (m : SfsM (Except Errno Unit × Uio)) : SfsM SfsReply := do
  let (r, u) ← m
  pure (.uio r u)

def SfsCall.run : SfsCall → SfsM SfsReply
  | .getroot => SfsM.replyVnode sfsGetroot
  | .lookup dir path => SfsM.replyVnode <|
      dispatch dir (Prog.raise .enotdir) (sfsLookup dir path)
  | .creat dir name excl => SfsM.replyVnode <|
      dispatch dir (Prog.raise .enotdir) (sfsCreat dir name excl)
  | .link dir name file => SfsM.replyDone <|
      dispatch dir (Prog.raise .enotdir) (sfsLink dir name file)
  | .remove dir name => SfsM.replyDone <|
      dispatch dir (Prog.raise .enotdir) (sfsRemove dir name)
  | .rename d1 n1 d2 n2 => SfsM.replyDone <|
      dispatch d1 (Prog.raise .enotdir) (sfsRename d1 n1 d2 n2)
  | .read file u => SfsM.replyUio <| dispatch file (sfsRead file u) (Prog.raise .eisdir)
  | .write file u => SfsM.replyUio <| dispatch file (sfsWrite file u) (Prog.raise .eisdir)
  | .truncate file len => SfsM.replyDone <| vopTruncate file len
  | .fsync file => SfsM.replyDone <| sfsSyncInode file
  | .incref file => SfsM.replyDone <| vnodeIncref file
  | .decref file => SfsM.replyDone <| vnodeDecref file

def SfsCall.vnodes : SfsCall → List Nat
  | .getroot => []
  | .lookup dir _ | .creat dir _ _ | .remove dir _ => [dir]
  | .link dir _ file => [dir, file]
  | .rename d1 _ d2 _ => [d1, d2]
  | .read file _ | .write file _ | .truncate file _ | .fsync file | .incref file
  | .decref file => [file]

end Os161.Sfs
