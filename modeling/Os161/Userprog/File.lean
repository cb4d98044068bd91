import Os161.Kern.Uio
import Mathlib.Logic.Function.Basic

/-!
# The file calls of a process

`kern/userprog/file.c`, and `mips_syscall` as far as it calls it. The table of a process has
`MAX_OPEN_FILES` slots, each a pointer to an `openFile` in kernel memory. An access through a
pointer to anything but an `openFile` that is allocated has no meaning in C: it stops the model
(`wild`), and so does an access to the table outside its slots (`outside`).

Two local pointers of the source are used and never set, `file` in `sys_open` and `newFile` in
`sys_dup2`. What they hold is one of the things an `Env` chooses, together with the results of
`vfs_open`, of `kmalloc` and of the operations of the vnode. No other process shares these
structures, so a lock is free or held by the caller.
-/
namespace Os161.Userprog

open Lib Kern

def maxOpenFiles : Nat := 20

instance : NeZero maxOpenFiles := ⟨by decide⟩

structure OpenFile where
  fVnode : Nat
  fLock : Option Nat
  fMode : Int
  fRefCount : Int
  fOffset : Word
  deriving DecidableEq, Repr

/-- `tOpenfiles`; a slot that is `NULL` is `none`. -/
abbrev FileTable : Type := Fin maxOpenFiles → Option Nat

def FileTable.empty : FileTable := fun _ => none

/-- A file as a byte array; bytes at and after `size` are not part of it. -/
structure Contents where
  bytes : Nat → Byte
  size : Nat

structure Process where
  tFileTable : Option FileTable
  /-- The blocks of kernel memory that are allocated and hold an `openFile`. -/
  files : Nat → Option OpenFile
  /-- The locks that are allocated, and whether the caller holds them. -/
  locks : Nat → Option Bool
  /-- `vn_refcount`; a vnode without references is not in memory. -/
  vnRefcount : Nat → Nat
  vnOpencount : Nat → Nat
  contents : Nat → Contents
  /-- The memory of the user program. -/
  user : Nat → Byte

inductive FileStop where
  | wild | outside | nullLock | doubleDip | notOwner | decopenOpencount | decrefRefcount
  deriving DecidableEq, Repr

abbrev FileM := Prog FileStop Errno Process

/-- What a call of `file.c` finds in its environment. -/
structure Env where
  vfsOpen : Except Errno Nat := .error .enoent
  /-- The block `kmalloc` has for an `openFile`, with what is in it. -/
  block : Option (Nat × OpenFile) := none
  /-- The block `lock_create` gets. -/
  lock : Option Nat := none
  /-- What the local pointer that is never set holds. -/
  stray : Nat := 0
  /-- `VOP_RECLAIM` succeeds. -/
  reclaim : Bool := true
  /-- The block `kmalloc` has for the bytes of a transfer, with what is in it. -/
  buffer : Option (Nat → Byte) := none
  /-- The number of bytes after which `VOP_READ` or `VOP_WRITE` stops. -/
  reach : Nat := 0
  vopIo : Except Errno Unit := .ok ()
  /-- `VOP_STAT`, with `st_size`. -/
  vopStat : Except Errno Int := .ok 0
  vopTryseek : Except Errno Unit := .ok ()

/-! ## Kernel memory -/

def loadFile : Option Nat → FileM OpenFile
  | none => Prog.stop .wild
  | some p => do
    let s ← Prog.get
    match s.files p with
    | none => Prog.stop .wild
    | some f => pure f

def storeFile (p : Option Nat) (g : OpenFile → OpenFile) : FileM Unit := do
  let f ← loadFile p
  Prog.modify fun s => { s with files := Function.update s.files (p.getD 0) (some (g f)) }

/-- A block that is in use is not handed out. -/
def kmallocFile (block : Option (Nat × OpenFile)) : FileM (Option Nat) := do
  let s ← Prog.get
  match block with
  | none => pure none
  | some (p, f) =>
    if s.files p = none then do
      Prog.modify fun s => { s with files := Function.update s.files p (some f) }
      pure (some p)
    else pure none

def kfreeFile (p : Option Nat) : FileM Unit :=
  match p with
  | none => pure ()
  | some p => do
    let _ ← loadFile (some p)
    Prog.modify fun s => { s with files := Function.update s.files p none }

/-! ## Locks -/

def lockCreate (lock : Option Nat) : FileM (Option Nat) := do
  let s ← Prog.get
  match lock with
  | none => pure none
  | some l =>
    if s.locks l = none then do
      Prog.modify fun s => { s with locks := Function.update s.locks l (some false) }
      pure (some l)
    else pure none

/-- The lock behind a pointer, and whether the caller holds it. -/
def loadLock (lock : Option Nat) (null : FileStop) : FileM (Nat × Bool) :=
  match lock with
  | none => Prog.stop null
  | some l => do
    let s ← Prog.get
    match s.locks l with
    | none => Prog.stop .wild
    | some held => pure (l, held)

def lockDestroy (lock : Option Nat) : FileM Unit := do
  let (l, _) ← loadLock lock .wild
  Prog.modify fun s => { s with locks := Function.update s.locks l none }

def lockAcquire (lock : Option Nat) : FileM Unit := do
  let (l, held) ← loadLock lock .nullLock
  Prog.check (held = false) .doubleDip
  Prog.modify fun s => { s with locks := Function.update s.locks l (some true) }

def lockRelease (lock : Option Nat) : FileM Unit := do
  let (l, held) ← loadLock lock .nullLock
  Prog.check (held = true) .notOwner
  Prog.modify fun s => { s with locks := Function.update s.locks l (some false) }

/-! ## Vnodes -/

/-- The operations of a vnode need the vnode. -/
def vnodeCheck (vn : Nat) : FileM Unit := do
  let s ← Prog.get
  Prog.check (0 < s.vnRefcount vn) .wild

/-- What a successful `vfs_open` does to the counts of the vnode it returns. -/
def opened (vn : Nat) : FileM Unit :=
  Prog.modify fun s => { s with
    vnRefcount := Function.update s.vnRefcount vn (s.vnRefcount vn + 1)
    vnOpencount := Function.update s.vnOpencount vn (s.vnOpencount vn + 1) }

def vnodeDecopen (vn : Nat) : FileM Unit := do
  let s ← Prog.get
  Prog.check (0 < s.vnOpencount vn) .decopenOpencount
  Prog.modify fun s => { s with
    vnOpencount := Function.update s.vnOpencount vn (s.vnOpencount vn - 1) }

/-- The last reference goes only if the file system gives the vnode up. -/
def vnodeDecref (vn : Nat) (reclaim : Bool) : FileM Unit := do
  let s ← Prog.get
  Prog.check (0 < s.vnRefcount vn) .decrefRefcount
  Prog.when (1 < s.vnRefcount vn ∨ reclaim = true) <|
    Prog.modify fun s => { s with
      vnRefcount := Function.update s.vnRefcount vn (s.vnRefcount vn - 1) }

def vfsClose (vn : Nat) (reclaim : Bool) : FileM Unit := do
  vnodeDecopen vn
  vnodeDecref vn reclaim

/-- `kfree` of a vnode. -/
def kfreeVnode (vn : Nat) : FileM Unit :=
  Prog.modify fun s => { s with
    vnRefcount := Function.update s.vnRefcount vn 0
    vnOpencount := Function.update s.vnOpencount vn 0 }

/-! ## The table -/

/-- `curthread->t_fileTable`, which is about to be accessed. -/
def fileTable : FileM FileTable := do
  let s ← Prog.get
  match s.tFileTable with
  | none => Prog.stop .wild
  | some ft => pure ft

/-- The index of `tOpenfiles[fd]`. -/
def slot (fd : Int) : FileM (Fin maxOpenFiles) :=
  if h : 0 ≤ fd ∧ fd < maxOpenFiles then pure ⟨fd.toNat, by omega⟩
  else Prog.stop .outside

def setSlot (i : Fin maxOpenFiles) (p : Option Nat) : FileM Unit :=
  Prog.modify fun s => { s with tFileTable := s.tFileTable.map (Function.update · i p) }

/-- `check_valid` takes the descriptor as an `int *`. No pointer is below zero, so all that is left
of the check is the one for a table. -/
def checkValid : FileM Unit := do
  let s ← Prog.get
  if s.tFileTable = none then Prog.raise .ebadf else pure ()

/-! ## Calls -/

/-- One round of the search for room. It goes on after a slot is found. -/
def addRound (file : Nat) (ft : FileTable × Bool) (i : Fin maxOpenFiles) : FileTable × Bool :=
  if ft.1 i = none then (Function.update ft.1 i (some file), true) else ft

/-- The search for room in the table. -/
def addFile (ft : FileTable) (file : Nat) : FileTable × Bool :=
  (List.finRange maxOpenFiles).foldl (addRound file) (ft, false)

/-- `sys_open` from the point where it has a lock. -/
def placeFile (vn : Nat) (mode : Int) (e : Env) : FileM Int := do
  storeFile (some e.stray) fun f =>
    { f with fVnode := vn, fMode := mode, fRefCount := 1, fOffset := 0 }
  let ft ← fileTable
  let (ft, added) := addFile ft e.stray
  Prog.modify fun s => { s with tFileTable := some ft }
  if added then do
    let file ← loadFile (some e.stray)
    lockDestroy file.fLock
    kfreeFile (some e.stray)
    vfsClose vn e.reclaim
    pure 0
  else Prog.raise .emfile

/-- The path and the flags go to `vfs_open` only. -/
def sysOpen (mode : Int) (e : Env) : FileM Int := do
  let vn ← Prog.ofExcept e.vfsOpen
  opened vn
  let _ ← kmallocFile e.block
  let lock ← lockCreate e.lock
  storeFile (some e.stray) fun f => { f with fLock := lock }
  if lock = none then do
    vfsClose vn e.reclaim
    kfreeFile (some e.stray)
    Prog.raise .enomem
  else placeFile vn mode e

def sysClose (fd : Int) (e : Env) : FileM Int := do
  checkValid
  let ft ← fileTable
  let i ← slot fd
  let file ← loadFile (ft i)
  lockAcquire file.fLock
  vfsClose file.fVnode e.reclaim
  Prog.when (file.fRefCount = 0) do
    kfreeVnode file.fVnode
    kfreeFile (ft i)
  setSlot i none
  let file ← loadFile (ft i)
  lockRelease file.fLock
  pure 0

def sysDup2 (oldfd newfd : Int) (e : Env) : FileM Int := do
  checkValid
  let ft ← fileTable
  if newfd > maxOpenFiles then Prog.raise .ebadf
  else do
    let new ← slot newfd
    if ft new ≠ none then Prog.raise .ebadf
    else do
      let old ← slot oldfd
      let oldFile ← loadFile (ft old)
      lockAcquire oldFile.fLock
      storeFile (some e.stray) fun f => { f with
        fVnode := oldFile.fVnode, fOffset := oldFile.fOffset, fMode := oldFile.fMode
        fLock := oldFile.fLock }
      setSlot new (some e.stray)
      let oldFile ← loadFile (ft old)
      lockRelease oldFile.fLock
      pure newfd

/-! ### Transfers -/

def oRdonly : Int := 0
def oWronly : Int := 1

def Contents.write (c : Contents) (pos : Nat) (d : List Byte) : Contents where
  bytes i := if pos ≤ i ∧ i < pos + d.length then d.getD (i - pos) 0 else c.bytes i
  size := if d = [] then c.size else max c.size (pos + d.length)

def Contents.read (c : Contents) (pos n : Nat) : List Byte :=
  (List.range (min n (c.size - pos))).map fun i => c.bytes (pos + i)

def Env.received (e : Env) (c : Contents) (pos n : Nat) : Nat := min e.reach (min n (c.size - pos))

def Env.sent (e : Env) (n : Nat) : Nat := min e.reach n

/-- `VOP_READ` into the kernel's buffer. -/
def vopRead (vn : Nat) (u : Uio) (e : Env) : FileM Uio := do
  vnodeCheck vn
  let s ← Prog.get
  let d := (s.contents vn).read u.uioOffset (e.received (s.contents vn) u.uioOffset u.uioResid)
  Prog.check (e.buffer.isSome ∨ d = []) .wild
  pure (u.advance d)

/-- `VOP_WRITE` out of the kernel's buffer. -/
def vopWrite (vn : Nat) (u : Uio) (e : Env) : FileM Uio := do
  vnodeCheck vn
  let d := u.iov.take (e.sent u.uioResid)
  Prog.check (e.buffer.isSome ∨ d = []) .wild
  Prog.modify fun s => { s with
    contents := Function.update s.contents vn ((s.contents vn).write u.uioOffset d) }
  pure (u.advance d)

/-- The buffer that `kmalloc(nbytes)` returns, as it is. -/
def Env.kbuf (e : Env) (nbytes : Nat) : List Byte :=
  (List.range nbytes).map fun i => (e.buffer.getD fun _ => 0) i

/-- `sys_read` and `sys_write` up to the mode they refuse and the operation they call. The user's
buffer is not among the things they use. -/
def sysTransfer (fd : Int) (nbytes : Nat) (refused : Int) (rw : UioRw)
    (vop : Nat → Uio → Env → FileM Uio) (e : Env) : FileM Int := do
  checkValid
  let ft ← fileTable
  let i ← slot fd
  let file ← loadFile (ft i)
  if file.fMode = refused then Prog.raise .einval
  else do
    lockAcquire file.fLock
    let u ← vop file.fVnode (mkKuio (e.kbuf nbytes) file.fOffset.toNat rw) e
    storeFile (ft i) fun f => { f with fOffset := BitVec.ofNat 32 u.uioOffset }
    let file ← loadFile (ft i)
    lockRelease file.fLock
    let _ ← Prog.ofExcept e.vopIo
    pure 0

def sysRead (fd : Int) (_buf nbytes : Nat) (e : Env) : FileM Int :=
  sysTransfer fd nbytes oWronly .read vopRead e

def sysWrite (fd : Int) (_buf nbytes : Nat) (e : Env) : FileM Int :=
  sysTransfer fd nbytes oRdonly .write vopWrite e

def wrap (x : Int) : Int := x.bmod (2 ^ 32)

/-- The offset that the `switch` of `sys_lseek` computes; there is none for a `whence` that it does
not know. -/
def switched (file : OpenFile) (offset whence : Int) (e : Env) : Except Errno (Option Int) :=
  if whence = 0 then .ok (some offset)
  else if whence = 1 then .ok (some (wrap (file.fOffset.toInt + offset)))
  else if whence = 2 then e.vopStat.map fun size => some (wrap (size + offset))
  else .ok none

/-- `VOP_STAT` checks its vnode first. -/
def seekOffset (file : OpenFile) (offset whence : Int) (e : Env) : FileM (Option Int) := do
  Prog.when (whence = 2) (vnodeCheck file.fVnode)
  Prog.ofExcept (switched file offset whence e)

/-- `sys_lseek` from the point where it has an offset. -/
def finishSeek (file : OpenFile) (newOffset : Int) (e : Env) : FileM Int :=
  if newOffset < 0 then do
    lockRelease file.fLock
    Prog.raise .einval
  else do
    vnodeCheck file.fVnode
    lockRelease file.fLock
    let _ ← Prog.ofExcept e.vopTryseek
    pure newOffset

/-- `sys_lseek` returns the new offset and stores it nowhere. Where `VOP_STAT` fails it returns with
the lock held. -/
def sysLseek (fd offset whence : Int) (e : Env) : FileM Int := do
  checkValid
  let ft ← fileTable
  let i ← slot fd
  let file ← loadFile (ft i)
  lockAcquire file.fLock
  match ← seekOffset file offset whence e with
  | none => do
    lockRelease file.fLock
    Prog.raise .einval
  | some newOffset => finishSeek file newOffset e

/-! ## System calls -/

/-- The numbers of `kern/errno.h`. -/
def errnoCode : Errno → Int
  | .einval => 1 | .efault => 2 | .enametoolong => 3 | .enomem => 4 | .eio => 5 | .enoent => 6
  | .enotdir => 7 | .eisdir => 8 | .eexist => 9 | .exdev => 10 | .eagain => 11 | .eunimp => 13
  | .enxio => 14 | .enodev => 15 | .ebusy => 16 | .enospc => 20 | .emfile => 21 | .enfile => 22
  | .enosys => 23 | .enoexec => 24 | .ebadf => 26

/-- The `int` that a call returns. -/
def intResult : Except Errno Int → Int
  | .ok v => v
  | .error e => errnoCode e

structure Trapframe where
  tfV0 : Word
  tfA0 : Word
  tfA1 : Word
  tfA2 : Word
  tfA3 : Word
  tfEpc : Word
  deriving DecidableEq, Repr

/-- The call that a number stands for. The calls of other files have their result in `others`. -/
def dispatch (tf : Trapframe) (others : Word → Option Int) (e : Env) : FileM Int :=
  if tf.tfV0 = 4 then sysOpen tf.tfA2.toInt e
  else if tf.tfV0 = 5 then sysRead tf.tfA0.toInt tf.tfA1.toNat tf.tfA2.toNat e
  else if tf.tfV0 = 6 then sysWrite tf.tfA0.toInt tf.tfA1.toNat tf.tfA2.toNat e
  else if tf.tfV0 = 7 then sysClose tf.tfA0.toInt e
  else if tf.tfV0 = 13 then sysLseek tf.tfA0.toInt tf.tfA1.toInt tf.tfA2.toInt e
  else if tf.tfV0 = 26 then sysDup2 tf.tfA0.toInt tf.tfA1.toInt e
  else match others tf.tfV0 with
    | some v => pure v
    | none => Prog.raise .enosys

/-- What `mips_syscall` leaves in the registers. `retval` is still the zero it was set to. -/
def Trapframe.ret (tf : Trapframe) (err : Int) : Trapframe :=
  let retval : Word := 0
  if err ≠ 0 then { tf with tfV0 := BitVec.ofInt 32 err, tfA3 := 1, tfEpc := tf.tfEpc + 4 }
  else { tf with tfV0 := retval, tfA3 := 0, tfEpc := tf.tfEpc + 4 }

/-- `mips_syscall`. The `int` of every call becomes `err`. -/
def mipsSyscall (tf : Trapframe) (others : Word → Option Int) (e : Env) : FileM Trapframe := do
  let result ← Prog.attempt (dispatch tf others e)
  pure (tf.ret (intResult result))

end Os161.Userprog
