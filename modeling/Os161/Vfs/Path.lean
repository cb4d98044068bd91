import Os161.Sfs.Ops

/-!
# Path names and open files

`vfslookup.c`, `vfspath.c`, `vfscwd.c` and the counts of open files in `vnode.c`, on a machine whose
one file system is an SFS volume. Paths come in all four forms (`device:path`, `:path`, `/path` and
`path`); a device name is the name of the device the volume is mounted on or the name of the volume.
All vnodes belong to the volume, so no call is refused with `EXDEV`.
-/
namespace Os161.Vfs

open Lib Kern Sfs

structure VfsState where
  fs : SfsFs
  /-- The name of the device. -/
  kdName : CString
  /-- `curthread->t_cwd`. -/
  tCwd : Option Nat
  bootfsVnode : Option Nat

abbrev VfsM := Prog SfsPanic Errno VfsState

def onSfs {α : Type} (m : SfsM α) : VfsM α :=
  Prog.focus VfsState.fs (fun s x => { x with fs := s }) id m

/-! ## Operations of SFS that only the VFS layer calls -/

def oRdonly : Word := 0
def oWronly : Word := 1
def oRdwr : Word := 2
def oCreat : Word := 4
def oExcl : Word := 8
def oTrunc : Word := 16
def oAppend : Word := 32
def oAccmode : Word := 3

def nameMax : Nat := 255

def sfsOpen (openflags : Word) : SfsM Unit :=
  if openflags &&& oAppend ≠ 0 then Prog.raise .eunimp else pure ()

def sfsOpendir (openflags : Word) : SfsM Unit :=
  if openflags &&& oAccmode ≠ oRdonly then Prog.raise .eisdir
  else if openflags &&& oAppend ≠ 0 then Prog.raise .eisdir
  else pure ()

/-- `sfs_gettype`: is it a directory? -/
def sfsGettype (sv : Nat) : SfsM Bool := do
  let v ← vnode sv
  if v.svI.sfiType = sfsTypeFile then pure false
  else if v.svI.sfiType = sfsTypeDir then pure true
  else Prog.stop .gettypeInvalid

def sfsLookparent (sv : Nat) (path : CString) (buflen : Nat) : SfsM (Nat × CString) := do
  let v ← vnode sv
  if v.svI.sfiType ≠ sfsTypeDir then Prog.raise .enotdir
  else if buflen < path.bytes.length + 1 then Prog.raise .enametoolong
  else do
    vnodeIncref sv
    pure (sv, path)

/-! ## Counts of open files -/

def vnodeIncopen (sv : Nat) : SfsM Unit :=
  modifyVnode sv fun v => { v with vnOpencount := v.vnOpencount + 1 }

/-- The last close writes the inode back; an error there is only reported. -/
def vnodeDecopen (sv : Nat) : SfsM Unit := do
  let v ← vnode sv
  Prog.check (0 < v.vnOpencount) .decopenOpencount
  modifyVnode sv fun v => { v with vnOpencount := v.vnOpencount - 1 }
  Prog.when (v.vnOpencount - 1 = 0) do
    let _ ← Prog.attempt (sfsSyncInode sv)
    pure ()

/-! ## Path names -/

def colon : Byte := 58
def slash : Byte := 47

def skipSlashes (c : CString) : CString :=
  ⟨c.bytes.dropWhile (· = slash), fun b hb => c.noNul b ((List.dropWhile_suffix _).subset hb)⟩

def withColon (c : CString) : CString :=
  ⟨c.bytes ++ [colon], fun b hb => by
    rcases List.mem_append.1 hb with hb | hb
    · exact c.noNul b hb
    · rw [List.mem_singleton.1 hb]
      decide⟩

/-- Where the translation of a path starts. -/
inductive PathStart where
  | curdir
  | device (name : CString)
  | bootfs
  | curfs

/-- The part of `getdevice` that takes a path apart, at the first colon or slash. -/
def splitPath (path : CString) : PathStart × CString :=
  let i := path.bytes.findIdx fun c => c = colon ∨ c = slash
  match path.bytes[i]? with
  | none => (.curdir, path)
  | some c =>
    if c = colon then
      if 0 < i then (.device (path.take i), skipSlashes (path.drop (i + 1)))
      else (.curfs, skipSlashes (path.drop 1))
    else if i = 0 then (.bootfs, skipSlashes (path.drop 1))
    else (.curdir, path)

def vfsGetcurdir : VfsM Nat := do
  let x ← Prog.get
  match x.tCwd with
  | none => Prog.raise .enoent
  | some vn => do
    onSfs (vnodeIncref vn)
    pure vn

/-- The name names the volume or its device. -/
def VfsState.Named (x : VfsState) (devname : CString) : Prop :=
  x.kdName.bytes = devname.bytes ∨ cstr (List.ofFn x.fs.sfsSuper.spVolname) = devname.bytes

instance (x : VfsState) (devname : CString) : Decidable (x.Named devname) :=
  inferInstanceAs (Decidable (_ ∨ _))

/-- `vfs_getroot` when the volume is all that is mounted. -/
def vfsGetroot (devname : CString) : VfsM Nat := do
  let x ← Prog.get
  if x.Named devname then onSfs sfsGetroot else Prog.raise .enodev

def startVnode : PathStart → VfsM Nat
  | .curdir => vfsGetcurdir
  | .device name => vfsGetroot name
  | .bootfs => do
    let x ← Prog.get
    match x.bootfsVnode with
    | none => Prog.raise .enoent
    | some vn => do
      onSfs (vnodeIncref vn)
      pure vn
  | .curfs => do
    let vn ← vfsGetcurdir
    let root ← onSfs sfsGetroot
    onSfs (vnodeDecref vn)
    pure root

def getdevice (path : CString) : VfsM (CString × Nat) := do
  let startvn ← startVnode (splitPath path).1
  pure ((splitPath path).2, startvn)

/-- The directory a path leads to, and the last component of the path. -/
def vfsLookparent (path : CString) : VfsM (Nat × CString) := do
  let (subpath, startvn) ← getdevice path
  let result ← Prog.attempt <|
    if subpath.bytes = [] then Prog.raise .einval
    else onSfs (dispatch startvn (Prog.raise .enotdir) (sfsLookparent startvn subpath (nameMax + 1)))
  onSfs (vnodeDecref startvn)
  Prog.ofExcept result

def vfsLookup (path : CString) : VfsM Nat := do
  let (subpath, startvn) ← getdevice path
  if subpath.bytes = [] then pure startvn
  else do
    let result ← Prog.attempt <|
      onSfs (dispatch startvn (Prog.raise .enotdir) (sfsLookup startvn subpath))
    onSfs (vnodeDecref startvn)
    Prog.ofExcept result

/-! ## Opening and closing -/

def vfsClose (vn : Nat) : VfsM Unit := do
  onSfs (vnodeDecopen vn)
  onSfs (vnodeDecref vn)

/-- The vnode for `vfs_open`, which it creates if it is asked to. -/
def openVnode (path : CString) (openflags : Word) : VfsM Nat :=
  if openflags &&& oCreat ≠ 0 then do
    let (dir, name) ← vfsLookparent path
    let result ← Prog.attempt <|
      onSfs (dispatch dir (Prog.raise .enotdir) (sfsCreat dir name (openflags &&& oExcl ≠ 0)))
    onSfs (vnodeDecref dir)
    Prog.ofExcept result
  else vfsLookup path

def openTrunc (vn : Nat) (how : Word) : VfsM Unit := do
  let result ← Prog.attempt <| if how = oRdonly then Prog.raise .einval else onSfs (vopTruncate vn 0)
  match result with
  | .ok _ => pure ()
  | .error e => do
    vfsClose vn
    Prog.raise e

def vfsOpen (path : CString) (openflags : Word) : VfsM Nat :=
  let how := openflags &&& oAccmode
  if how ≠ oRdonly ∧ how ≠ oWronly ∧ how ≠ oRdwr then Prog.raise .einval
  else do
    let vn ← openVnode path openflags
    match ← Prog.attempt (onSfs (dispatch vn (sfsOpen openflags) (sfsOpendir openflags))) with
    | .error e => do
      onSfs (vnodeDecref vn)
      Prog.raise e
    | .ok _ => do
      onSfs (vnodeIncopen vn)
      Prog.when (openflags &&& oTrunc ≠ 0) (openTrunc vn how)
      pure vn

/-! ## Operations on names -/

def vfsRemove (path : CString) : VfsM Unit := do
  let (dir, name) ← vfsLookparent path
  let result ← Prog.attempt <| onSfs (dispatch dir (Prog.raise .enotdir) (sfsRemove dir name))
  onSfs (vnodeDecref dir)
  Prog.ofExcept result

def vfsRename (oldpath newpath : CString) : VfsM Unit := do
  let (olddir, oldname) ← vfsLookparent oldpath
  match ← Prog.attempt (vfsLookparent newpath) with
  | .error e => do
    onSfs (vnodeDecref olddir)
    Prog.raise e
  | .ok (newdir, newname) => do
    let result ← Prog.attempt <|
      onSfs (dispatch olddir (Prog.raise .enotdir) (sfsRename olddir oldname newdir newname))
    onSfs (vnodeDecref newdir)
    onSfs (vnodeDecref olddir)
    Prog.ofExcept result

def vfsLink (oldpath newpath : CString) : VfsM Unit := do
  let oldfile ← vfsLookup oldpath
  match ← Prog.attempt (vfsLookparent newpath) with
  | .error e => do
    onSfs (vnodeDecref oldfile)
    Prog.raise e
  | .ok (newdir, newname) => do
    let result ← Prog.attempt <|
      onSfs (dispatch newdir (Prog.raise .enotdir) (sfsLink newdir newname oldfile))
    onSfs (vnodeDecref newdir)
    onSfs (vnodeDecref oldfile)
    Prog.ofExcept result

/-! ## The current directory and the boot file system -/

/-- Let go of what was there before. -/
def decrefOld : Option Nat → VfsM Unit
  | none => pure ()
  | some old => onSfs (vnodeDecref old)

def vfsSetcurdir (dir : Nat) : VfsM Unit := do
  let isdir ← onSfs (sfsGettype dir)
  if isdir = false then Prog.raise .enotdir
  else do
    let x ← Prog.get
    Prog.modify fun x => { x with tCwd := some dir }
    decrefOld x.tCwd

def vfsClearcurdir : VfsM Unit := do
  let x ← Prog.get
  Prog.modify fun x => { x with tCwd := none }
  decrefOld x.tCwd

def vfsChdir (path : CString) : VfsM Unit := do
  let vn ← vfsLookup path
  match ← Prog.attempt (vfsSetcurdir vn) with
  | .ok _ => pure ()
  | .error e => do
    onSfs (vnodeDecref vn)
    Prog.raise e

def changeBootfs (newguy : Option Nat) : VfsM Unit := do
  let x ← Prog.get
  Prog.modify fun x => { x with bootfsVnode := newguy }
  decrefOld x.bootfsVnode

/-- A name with a colon in it is refused, wherever the colon is. -/
def vfsSetbootfs (fsname : CString) : VfsM Unit :=
  let tmp := fsname.take (nameMax - 1)
  if tmp.bytes.contains colon then Prog.raise .einval
  else do
    vfsChdir (withColon tmp)
    let newguy ← vfsGetcurdir
    changeBootfs (some newguy)

def vfsClearbootfs : VfsM Unit := changeBootfs none

/-! ## Calls -/

inductive VfsCall where
  | open (path : CString) (openflags : Word)
  | close (vn : Nat)
  | link (oldpath newpath : CString)
  | remove (path : CString)
  | rename (oldpath newpath : CString)
  | read (vn : Nat) (u : Uio)
  | write (vn : Nat) (u : Uio)
  | truncate (vn : Nat) (len : Word)
  | chdir (path : CString)
  | clearcurdir
  | setbootfs (fsname : CString)
  | clearbootfs

def VfsM.replyVnode (m : VfsM Nat) : VfsM SfsReply := do
  let sv ← m
  pure (.vnode sv)

def VfsM.replyDone (m : VfsM Unit) : VfsM SfsReply := do
  m
  pure .done

def VfsCall.run : VfsCall → VfsM SfsReply
  | .open path openflags => VfsM.replyVnode (vfsOpen path openflags)
  | .close vn => VfsM.replyDone (vfsClose vn)
  | .link oldpath newpath => VfsM.replyDone (vfsLink oldpath newpath)
  | .remove path => VfsM.replyDone (vfsRemove path)
  | .rename oldpath newpath => VfsM.replyDone (vfsRename oldpath newpath)
  | .read vn u => onSfs (SfsCall.read vn u).run
  | .write vn u => onSfs (SfsCall.write vn u).run
  | .truncate vn len => onSfs (SfsCall.truncate vn len).run
  | .chdir path => VfsM.replyDone (vfsChdir path)
  | .clearcurdir => VfsM.replyDone vfsClearcurdir
  | .setbootfs fsname => VfsM.replyDone (vfsSetbootfs fsname)
  | .clearbootfs => VfsM.replyDone vfsClearbootfs

/-! ## Sessions -/

/-- The state, and the vnodes the callers got from `vfs_open` and did not pass to `vfs_close`. -/
structure Session where
  vfs : VfsState
  files : List Nat

abbrev VfsEvent := VfsCall × Except Errno SfsReply

/-- The open files after a call. -/
def filesAfter (files : List Nat) : VfsEvent → List Nat
  | (.open _ _, .ok (.vnode vn)) => vn :: files
  | (.close vn, _) => files.erase vn
  | _ => files

/-- Only open files are closed, read, written and truncated, with descriptors that are in order. -/
def VfsCall.Valid (files : List Nat) : VfsCall → Prop
  | .close vn | .truncate vn _ => vn ∈ files
  | .read vn u => vn ∈ files ∧ u.Fits ∧ u.uioRw = .read
  | .write vn u => vn ∈ files ∧ u.Fits ∧ u.uioRw = .write
  | _ => True

def VfsStep (x : Session) (e : VfsEvent) (y : Session) : Prop :=
  e.1.Valid x.files ∧ e.1.run x.vfs = .ok (e.2, y.vfs) ∧ y.files = filesAfter x.files e

end Os161.Vfs
