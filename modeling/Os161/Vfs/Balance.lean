import Mathlib.Algebra.Group.Int.Defs
import Mathlib.Algebra.Group.Pi.Lemmas
import Mathlib.Algebra.Order.Group.Int
import Mathlib.Tactic.Abel
import Os161.Vfs.Knowndevs

/-!
# What path operations do to the counts of vnodes

`vfslookup.c`, `vfspath.c`, `vfscwd.c` and `vnode.c` over arbitrary file systems and devices
(`Os161.Vfs.Path` has them on one SFS volume). What is below the VFS layer may answer anything; all
that is assumed is that a vnode is handed back with one new reference, and that nothing else below
changes a count.

Every function gives back what it takes, on all its exits, but for one thing: the last reference is
not taken off the count by `vnode_decref`. This is left to `VOP_RECLAIM`, and if the vnode cannot be
reclaimed the count stays at one although nobody holds the reference.
-/
namespace Os161.Balance

open Lib Kern Sfs Knowndevs Prog

/-! ## Vnodes and what is below them -/

/-- What a file system returns may depend on all that happened to it before. -/
abbrev Answer (σ α : Type) := σ → Except Errno α × σ

structure VnodeOps (σ : Type) where
  /-- Devices have none. -/
  vnFs : Nat → σ → Option Fs
  /-- There is no error to return: a file system that cannot find its root stops the machine. -/
  fsGetroot : Fs → σ → Option (Nat × σ)
  vopOpen : Nat → Word → Answer σ Unit
  vopClose : Nat → Answer σ Unit
  /-- Is the vnode gone? The error number is only printed. -/
  vopReclaim : Nat → σ → Bool × σ
  vopReadlink : Nat → Uio → σ → Except Errno Unit × Uio × σ
  vopGettype : Nat → Answer σ Word
  vopTruncate : Nat → Word → Answer σ Unit
  vopNamefile : Nat → Uio → σ → Except Errno Unit × Uio × σ
  vopCreat : Nat → CString → Bool → Answer σ Nat
  vopSymlink : Nat → CString → CString → Answer σ Unit
  vopMkdir : Nat → CString → Answer σ Unit
  vopLink : Nat → CString → Nat → Answer σ Unit
  vopRemove : Nat → CString → Answer σ Unit
  vopRmdir : Nat → CString → Answer σ Unit
  vopRename : Nat → CString → Nat → CString → Answer σ Unit
  vopLookup : Nat → CString → Answer σ Nat
  vopLookparent : Nat → CString → Nat → Answer σ (Nat × CString)

structure VfsState (σ : Type) where
  /-- `vn_refcount`, which is zero for a vnode that is not in memory. -/
  refs : Nat → Nat
  opens : Nat → Nat
  /-- `curthread->t_cwd`. -/
  tCwd : Option Nat
  bootfsVnode : Option Nat
  knowndevs : List Knowndev
  /-- The descriptor of the caller, for the calls that copy something to it. -/
  uio : Uio
  world : σ
  /-- How often `VOP_RECLAIM` was called on a vnode and the vnode stayed. Nothing reads it. -/
  kept : Nat → Nat

inductive VfsPanic where
  /-- From `vnode_check`. -/
  | zeroRefcount
  | decrefRefcount | decopenOpencount | killRefcount | killOpencount
  | getdeviceFs | getcwdRw | getcwdFs | getcwdName
  | getroot
  | dev (p : DevPanic)
  | uio (p : UioPanic)
  deriving DecidableEq

abbrev VfsM (σ : Type) := Prog VfsPanic Errno (VfsState σ)

variable {σ α β : Type}

def VfsState.setRefs (x : VfsState σ) (vn n : Nat) : VfsState σ :=
  { x with refs := Function.update x.refs vn n }

def VfsState.setOpens (x : VfsState σ) (vn n : Nat) : VfsState σ :=
  { x with opens := Function.update x.opens vn n }

def vnodeCheck (vn : Nat) : VfsM σ Unit := do
  let x ← Prog.get
  Prog.check (x.refs vn ≠ 0) .zeroRefcount

def answer (f : Answer σ α) : VfsM σ α := fun x =>
  .ok ((f x.world).1, { x with world := (f x.world).2 })

def vop (vn : Nat) (f : Answer σ α) : VfsM σ α := do
  vnodeCheck vn
  answer f

def vopUio (vn : Nat) (f : Uio → σ → Except Errno Unit × Uio × σ) : VfsM σ Unit := do
  vnodeCheck vn
  fun x =>
    let (r, u, w) := f x.uio x.world
    .ok (r, { x with uio := u, world := w })

def vnodeIncref (vn : Nat) : VfsM σ Unit :=
  Prog.modify fun x => x.setRefs vn (x.refs vn + 1)

/-- An operation that hands back a vnode takes a reference to it. -/
def vopVnode (vn : Nat) (f : Answer σ α) (res : α → Nat) : VfsM σ α := do
  let a ← vop vn f
  vnodeIncref (res a)
  pure a

def vnodeKill (vn : Nat) : VfsM σ Unit := do
  let x ← Prog.get
  Prog.check (x.refs vn = 1) .killRefcount
  Prog.check (x.opens vn = 0) .killOpencount
  Prog.modify (·.setRefs vn 0)

variable (ops : VnodeOps σ)

def reclaim (vn : Nat) : VfsM σ Unit := do
  let x ← Prog.get
  Prog.modify fun y => { y with world := (ops.vopReclaim vn x.world).2 }
  if (ops.vopReclaim vn x.world).1 then vnodeKill vn
  else Prog.modify fun y => { y with kept := Function.update y.kept vn (y.kept vn + 1) }

def vnodeDecref (vn : Nat) : VfsM σ Unit := do
  let x ← Prog.get
  Prog.check (0 < x.refs vn) .decrefRefcount
  if 1 < x.refs vn then Prog.modify fun x => x.setRefs vn (x.refs vn - 1)
  else reclaim ops vn

def vnodeIncopen (vn : Nat) : VfsM σ Unit :=
  Prog.modify fun x => x.setOpens vn (x.opens vn + 1)

def vnodeDecopen (vn : Nat) : VfsM σ Unit := do
  let x ← Prog.get
  Prog.check (0 < x.opens vn) .decopenOpencount
  Prog.modify fun x => x.setOpens vn (x.opens vn - 1)
  Prog.when (x.opens vn - 1 = 0) do
    let _ ← Prog.attempt (vop vn (ops.vopClose vn))
    pure ()

/-- `result = ...; VOP_DECREF(vn); return result;` -/
def releasing (vn : Nat) (m : VfsM σ α) : VfsM σ α := do
  let result ← Prog.attempt m
  vnodeDecref ops vn
  Prog.ofExcept result

/-! ## Translating names -/

def fsopGetroot (fs : Fs) : VfsM σ Nat := do
  let x ← Prog.get
  match ops.fsGetroot fs x.world with
  | none => Prog.stop .getroot
  | some (vn, w) => do
    Prog.modify fun x => { x with world := w }
    vnodeIncref vn
    pure vn

/-- The table says which root or device is meant. -/
def vfsGetroot (devname : CString) : VfsM σ Nat := do
  let x ← Prog.get
  match Knowndevs.vfsGetroot devname x.knowndevs with
  | .error p => Prog.stop (.dev p)
  | .ok (.error e) => Prog.raise e
  | .ok (.ok (.root fs)) => fsopGetroot ops fs
  | .ok (.ok (.device vnode)) => do
    vnodeIncref vnode
    pure vnode

def vfsGetdevname (fs : Fs) (knowndevs : List Knowndev) : Option CString :=
  (knowndevs.find? fun kd => kd.kdFs.map Fs.addr = some fs.addr).map Knowndev.kdName

def vfsGetcurdir : VfsM σ Nat := do
  let x ← Prog.get
  match x.tCwd with
  | none => Prog.raise .enoent
  | some vn => do
    vnodeIncref vn
    pure vn

def startVnode : Vfs.PathStart → VfsM σ Nat
  | .curdir => vfsGetcurdir
  | .device name => vfsGetroot ops name
  | .bootfs => do
    let x ← Prog.get
    match x.bootfsVnode with
    | none => Prog.raise .enoent
    | some vn => do
      vnodeIncref vn
      pure vn
  | .curfs => do
    let vn ← vfsGetcurdir
    let x ← Prog.get
    match ops.vnFs vn x.world with
    | none => Prog.stop .getdeviceFs
    | some fs => do
      let startvn ← fsopGetroot ops fs
      vnodeDecref ops vn
      pure startvn

def getdevice (path : CString) : VfsM σ (CString × Nat) := do
  let startvn ← startVnode ops (Vfs.splitPath path).1
  pure ((Vfs.splitPath path).2, startvn)

def vfsLookparent (path : CString) (buflen : Nat) : VfsM σ (Nat × CString) := do
  let (subpath, startvn) ← getdevice ops path
  releasing ops startvn <|
    if subpath.bytes = [] then Prog.raise .einval
    else vopVnode startvn (ops.vopLookparent startvn subpath buflen) Prod.fst

def vfsLookup (path : CString) : VfsM σ Nat := do
  let (subpath, startvn) ← getdevice ops path
  if subpath.bytes = [] then pure startvn
  else releasing ops startvn (vopVnode startvn (ops.vopLookup startvn subpath) id)

/-! ## Opening and closing -/

def vfsClose (vn : Nat) : VfsM σ Unit := do
  vnodeDecopen ops vn
  vnodeDecref ops vn

/-- The vnode for `vfs_open`, which it creates if it is asked to. -/
def openVnode (path : CString) (openflags : Word) : VfsM σ Nat :=
  if openflags &&& Vfs.oCreat ≠ 0 then do
    let (dir, name) ← vfsLookparent ops path (Vfs.nameMax + 1)
    releasing ops dir (vopVnode dir (ops.vopCreat dir name (openflags &&& Vfs.oExcl ≠ 0)) id)
  else vfsLookup ops path

def openTrunc (vn : Nat) (how : Word) : VfsM σ Unit := do
  let result ← Prog.attempt <|
    if how = Vfs.oRdonly then Prog.raise .einval else vop vn (ops.vopTruncate vn 0)
  match result with
  | .ok _ => pure ()
  | .error e => do
    vfsClose ops vn
    Prog.raise e

def vfsOpen (path : CString) (openflags : Word) : VfsM σ Nat :=
  let how := openflags &&& Vfs.oAccmode
  if how ≠ Vfs.oRdonly ∧ how ≠ Vfs.oWronly ∧ how ≠ Vfs.oRdwr then Prog.raise .einval
  else do
    let vn ← openVnode ops path openflags
    match ← Prog.attempt (vop vn (ops.vopOpen vn openflags)) with
    | .error e => do
      vnodeDecref ops vn
      Prog.raise e
    | .ok _ => do
      vnodeIncopen vn
      Prog.when (openflags &&& Vfs.oTrunc ≠ 0) (openTrunc ops vn how)
      pure vn

/-! ## Operations on names -/

/-- An operation on the last component of a path, in the directory it is in. -/
def onParent (path : CString) (f : Nat → CString → Answer σ Unit) : VfsM σ Unit := do
  let (dir, name) ← vfsLookparent ops path (Vfs.nameMax + 1)
  releasing ops dir (vop dir (f dir name))

def vfsRemove (path : CString) : VfsM σ Unit := onParent ops path ops.vopRemove

def vfsSymlink (contents path : CString) : VfsM σ Unit :=
  onParent ops path fun newdir newname => ops.vopSymlink newdir newname contents

def vfsMkdir (path : CString) : VfsM σ Unit := onParent ops path ops.vopMkdir

def vfsRmdir (path : CString) : VfsM σ Unit := onParent ops path ops.vopRmdir

/-- `vn->vn_fs` as a pointer. -/
def VnodeOps.fsAddr (vn : Nat) (w : σ) : Option Nat := (ops.vnFs vn w).map Fs.addr

/-- With a reference to `old`: an operation on it and the last component of a path, if both are on
one file system. All exits let go of `old`. -/
def withParent (old : Nat) (newpath : CString) (f : Nat → CString → VfsM σ Unit) : VfsM σ Unit :=
  releasing ops old do
    let (newdir, newname) ← vfsLookparent ops newpath (Vfs.nameMax + 1)
    releasing ops newdir do
      let x ← Prog.get
      if ops.fsAddr old x.world = none ∨ ops.fsAddr newdir x.world = none ∨
          ops.fsAddr old x.world ≠ ops.fsAddr newdir x.world then Prog.raise .exdev
      else f newdir newname

def vfsRename (oldpath newpath : CString) : VfsM σ Unit := do
  let (olddir, oldname) ← vfsLookparent ops oldpath (Vfs.nameMax + 1)
  withParent ops olddir newpath fun newdir newname =>
    vop olddir (ops.vopRename olddir oldname newdir newname)

def vfsLink (oldpath newpath : CString) : VfsM σ Unit := do
  let oldfile ← vfsLookup ops oldpath
  withParent ops oldfile newpath fun newdir newname => vop newdir (ops.vopLink newdir newname oldfile)

def vfsReadlink (path : CString) : VfsM σ Unit := do
  let vn ← vfsLookup ops path
  releasing ops vn (vopUio vn (ops.vopReadlink vn))

/-! ## The current directory -/

def sIfmt : Word := 0x7000
def sIfdir : Word := 0x2000

/-- Let go of what was there before. -/
def decrefOld : Option Nat → VfsM σ Unit
  | none => pure ()
  | some old => vnodeDecref ops old

def vfsSetcurdir (dir : Nat) : VfsM σ Unit := do
  let vtype ← vop dir (ops.vopGettype dir)
  if vtype &&& sIfmt ≠ sIfdir then Prog.raise .enotdir
  else do
    let x ← Prog.get
    Prog.modify fun x => { x with tCwd := some dir }
    decrefOld ops x.tCwd

def vfsChdir (path : CString) : VfsM σ Unit := do
  let vn ← vfsLookup ops path
  match ← Prog.attempt (vfsSetcurdir ops vn) with
  | .ok _ => pure ()
  | .error e => do
    vnodeDecref ops vn
    Prog.raise e

def onUio (m : Prog UioPanic Errno Uio α) : VfsM σ α :=
  Prog.focus VfsState.uio (fun u x => { x with uio := u }) .uio m

def vfsGetcwd : VfsM σ Unit := do
  let x ← Prog.get
  Prog.check (x.uio.uioRw = .read) .getcwdRw
  let cwd ← vfsGetcurdir
  let x ← Prog.get
  match ops.vnFs cwd x.world with
  | none => Prog.stop .getcwdFs
  | some fs =>
    match fs.volname.or (vfsGetdevname fs x.knowndevs) with
    | none => Prog.stop .getcwdName
    | some name =>
      releasing ops cwd do
        let _ ← onUio (uiomove name.bytes name.bytes.length)
        let _ ← onUio (uiomove [Vfs.colon] 1)
        vopUio cwd (ops.vopNamefile cwd)

/-! ## Calls -/

inductive VfsCall where
  | lookup (path : CString)
  | lookparent (path : CString) (buflen : Nat)
  | open (path : CString) (openflags : Word)
  | close (vn : Nat)
  | remove (path : CString)
  | rename (oldpath newpath : CString)
  | link (oldpath newpath : CString)
  | symlink (contents path : CString)
  | readlink (path : CString)
  | mkdir (path : CString)
  | rmdir (path : CString)
  | chdir (path : CString)
  | getcwd

inductive VfsReply where
  | done
  | vnode (vn : Nat)
  | parent (vn : Nat) (name : CString)

def VfsCall.run : VfsCall → VfsM σ VfsReply
  | .lookup path => do
    let vn ← vfsLookup ops path
    pure (.vnode vn)
  | .lookparent path buflen => do
    let (vn, name) ← vfsLookparent ops path buflen
    pure (.parent vn name)
  | .open path openflags => do
    let vn ← vfsOpen ops path openflags
    pure (.vnode vn)
  | .close vn => do vfsClose ops vn; pure .done
  | .remove path => do vfsRemove ops path; pure .done
  | .rename oldpath newpath => do vfsRename ops oldpath newpath; pure .done
  | .link oldpath newpath => do vfsLink ops oldpath newpath; pure .done
  | .symlink contents path => do vfsSymlink ops contents path; pure .done
  | .readlink path => do vfsReadlink ops path; pure .done
  | .mkdir path => do vfsMkdir ops path; pure .done
  | .rmdir path => do vfsRmdir ops path; pure .done
  | .chdir path => do vfsChdir ops path; pure .done
  | .getcwd => do vfsGetcwd ops; pure .done

/-! ## What is promised -/

def one (vn : Nat) : Nat → ℤ := Pi.single vn 1

/-- The counts of references change by `r` and those of opens by `o`. -/
structure Changes (x y : VfsState σ) (r o : Nat → ℤ) : Prop where
  refs : ∀ v, (y.refs v : ℤ) = x.refs v + r v
  opens : ∀ v, (y.opens v : ℤ) = x.opens v + o v

def oneOf : Option Nat → Nat → ℤ
  | none => 0
  | some vn => one vn

def VfsCall.Balances (x y : VfsState σ) : VfsCall → Except Errno VfsReply → Prop
  | .lookup _, .ok (.vnode vn) => Changes x y (one vn) 0
  | .lookparent _ _, .ok (.parent vn _) => Changes x y (one vn) 0
  | .open _ _, .ok (.vnode vn) => Changes x y (one vn) (one vn)
  | .close vn, _ => Changes x y (-one vn) (-one vn)
  | .chdir _, .ok _ => ∃ new, y.tCwd = some new ∧ Changes x y (one new - oneOf x.tCwd) 0
  | .chdir _, .error _ => y.tCwd = x.tCwd ∧ Changes x y 0 0
  | _, _ => Changes x y 0 0

/-- The references the caller says it has are counted. -/
def VfsCall.Valid (x : VfsState σ) : VfsCall → Prop
  | .close vn => 0 < x.refs vn ∧ 0 < x.opens vn
  | .chdir _ => ∀ old, x.tCwd = some old → 0 < x.refs old
  | _ => True

/-- The stops that come from a count that is too low. -/
def VfsPanic.Miscounts : VfsPanic → Prop
  | .zeroRefcount | .decrefRefcount | .decopenOpencount | .killRefcount => True
  | _ => False

/-! ## References that somebody holds -/

/-- The references that are counted, without those that `VOP_RECLAIM` left behind. -/
def VfsState.held (x : VfsState σ) : Nat → ℤ := fun v => (x.refs v : ℤ) - x.kept v

/-- From `x` to `y`, `r` references and `o` opens are taken. -/
structure Takes (x y : VfsState σ) (r o : Nat → ℤ) : Prop where
  held : y.held = x.held + r
  opens : ∀ v, (y.opens v : ℤ) = x.opens v + o v
  kept : ∀ v, x.kept v ≤ y.kept v
  cwd : y.tCwd = x.tCwd

section Takes

variable {x y z : VfsState σ} {r r' o o' : Nat → ℤ} {vn : Nat}

@[simp] theorem one_self (vn : Nat) : one vn vn = 1 := Pi.single_eq_same ..

theorem one_of_ne {v : Nat} (h : v ≠ vn) : one vn v = 0 := Pi.single_eq_of_ne h 1

theorem one_nonneg (vn : Nat) : 0 ≤ one vn := by
  intro v
  by_cases h : v = vn
  · subst h
    simp
  · exact (one_of_ne h).ge

theorem Takes.of_eq (hr : y.refs = x.refs) (ho : y.opens = x.opens) (hk : y.kept = x.kept)
    (hc : y.tCwd = x.tCwd) : Takes x y 0 0 := by
  refine ⟨?_, fun v => ?_, fun v => ?_, hc⟩
  · unfold VfsState.held
    rw [hr, hk, add_zero]
  · rw [ho]
    simp
  · rw [hk]

theorem Takes.refl (x : VfsState σ) : Takes x x 0 0 := .of_eq rfl rfl rfl rfl

section

variable (h : Takes x y r o)
include h

theorem Takes.trans (h' : Takes y z r' o') : Takes x z (r + r') (o + o') := by
  refine ⟨?_, fun v => ?_, fun v => (h.kept v).trans (h'.kept v), h'.cwd.trans h.cwd⟩
  · rw [h'.held, h.held, add_assoc]
  · rw [h'.opens, h.opens, add_assoc]
    rfl

theorem Takes.congr (hr : r = r') (ho : o = o') : Takes x y r' o' := by
  subst hr ho
  exact h

theorem Takes.still (h' : Takes y z 0 0) : Takes x z r o :=
  (h.trans h').congr (add_zero r) (add_zero o)

theorem Takes.refs_eq (v : Nat) : (y.refs v : ℤ) - y.kept v = x.refs v - x.kept v + r v :=
  congrFun h.held v

theorem Takes.refs_pos (hr : 0 < r vn) : 0 < y.refs vn := by
  have h1 := h.refs_eq vn
  have h2 := h.kept vn
  omega

end

theorem Takes.one_pos (h : Takes x y (one vn) o) : 0 < y.refs vn := h.refs_pos (by simp)

theorem Takes.refs_le (h : Takes x y r o) (hr : 0 ≤ r vn) : x.refs vn ≤ y.refs vn := by
  have h1 := h.refs_eq vn
  have h2 := h.kept vn
  omega

theorem Takes.opens_pos (h : Takes x y r o) (ho : 0 < o vn) : 0 < y.opens vn := by
  have h1 := h.opens vn
  omega

/-- The counts say what was taken exactly when no vnode was left behind. -/
theorem Takes.changes_iff (h : Takes x y r o) : Changes x y r o ↔ y.kept = x.kept := by
  constructor
  · intro hc
    funext v
    have h1 := h.refs_eq v
    have h2 := hc.refs v
    omega
  · intro hk
    refine ⟨fun v => ?_, h.opens⟩
    have h1 := h.refs_eq v
    rw [hk] at h1
    omega

end Takes

/-! ## The counts of one vnode -/

/-- As long as `V` holds, no count is too low. -/
def Fine (V : Prop) (p : VfsPanic) : Prop := V → ¬ p.Miscounts

section Counts

variable {x y : VfsState σ} {V : Prop} {K : VfsPanic → Prop} {vn n : Nat} {k : ℤ}

theorem takes_setRefs (h : (n : ℤ) = x.refs vn + k) : Takes x (x.setRefs vn n) (Pi.single vn k) 0 := by
  refine ⟨?_, fun v => (add_zero _).symm, fun v => le_rfl, rfl⟩
  funext v
  change ((Function.update x.refs vn n v : Nat) : ℤ) - x.kept v = x.refs v - x.kept v + _
  by_cases hv : v = vn
  · subst hv
    rw [Function.update_self, Pi.single_eq_same]
    omega
  · rw [Function.update_of_ne hv, Pi.single_eq_of_ne hv]
    omega

theorem takes_setOpens (h : (n : ℤ) = x.opens vn + k) : Takes x (x.setOpens vn n) 0 (Pi.single vn k) := by
  refine ⟨(add_zero _).symm, fun v => ?_, fun v => le_rfl, rfl⟩
  change ((Function.update x.opens vn n v : Nat) : ℤ) = x.opens v + _
  by_cases hv : v = vn
  · subst hv
    rw [Function.update_self, Pi.single_eq_same]
    omega
  · rw [Function.update_of_ne hv, Pi.single_eq_of_ne hv]
    omega

theorem neg_one_eq (vn : Nat) : Pi.single vn (-1) = -one vn := Pi.single_neg ..

/-- A reference that stays counted is given up all the same. -/
theorem takes_kept : Takes x { x with kept := Function.update x.kept vn (x.kept vn + 1) } (-one vn) 0 := by
  refine ⟨?_, fun v => (add_zero _).symm, fun v => ?_, rfl⟩
  · funext v
    change (x.refs v : ℤ) - (Function.update x.kept vn (x.kept vn + 1) v : Nat) =
      x.refs v - x.kept v + -one vn v
    by_cases hv : v = vn
    · subst hv
      rw [Function.update_self, one_self]
      omega
    · rw [Function.update_of_ne hv, one_of_ne hv]
      omega
  · change x.kept v ≤ Function.update x.kept vn (x.kept vn + 1) v
    by_cases hv : v = vn
    · subst hv
      rw [Function.update_self]
      omega
    · rw [Function.update_of_ne hv]

theorem vnodeIncref_spec : Returns K (vnodeIncref vn) x fun _ y => Takes x y (one vn) 0 :=
  takes_setRefs (by omega)

theorem vnodeIncopen_spec : Returns K (vnodeIncopen vn) x fun _ y => Takes x y 0 (one vn) :=
  takes_setOpens (by omega)

theorem reclaim_spec (h : x.refs vn = 1) : Returns (Fine V) (reclaim ops vn) x fun _ y => Takes x y (-one vn) 0 := by
  have hworld : Takes x { x with world := (ops.vopReclaim vn x.world).2 } 0 0 := .of_eq rfl rfl rfl rfl
  unfold reclaim
  simp only [returns_bind, returns_get, returns_modify, returns_ite]
  split
  · unfold vnodeKill
    simp only [returns_bind, returns_get, returns_check, returns_modify]
    rw [if_pos h]
    split
    · apply (hworld.trans (takes_setRefs (k := -1) ?_)).congr
      · rw [zero_add, neg_one_eq]
      · exact add_zero 0
      · simp [h]
    · exact fun _ => id
  · apply (hworld.trans takes_kept).congr
    · exact zero_add _
    · exact add_zero 0

/-- Whatever comes of it, the caller does not hold the reference any more. -/
theorem vnodeDecref_spec (hpos : V → 0 < x.refs vn) :
    Returns (Fine V) (vnodeDecref ops vn) x fun _ y => Takes x y (-one vn) 0 := by
  unfold vnodeDecref
  simp only [returns_bind, returns_get, returns_check, returns_modify, returns_ite]
  split
  · next h0 =>
    split
    · rw [← neg_one_eq]
      apply takes_setRefs
      omega
    · apply reclaim_spec
      omega
  · next h0 => exact fun hV _ => h0 (hpos hV)

theorem vnodeCheck_spec (hpos : V → 0 < x.refs vn) : Returns (Fine V) (vnodeCheck vn) x fun _ y => y = x := by
  unfold vnodeCheck
  simp only [returns_bind, returns_get, returns_check]
  split
  · trivial
  · next h0 =>
    intro hV
    have := hpos hV
    omega

end Counts

/-! ## Calls that give back what they take -/

/-- A call that began in `x` hands back `a` and keeps the references `r a` and the opens `o a` for
its caller, or it fails and keeps nothing. -/
def Gives (x : VfsState σ) (r o : α → Nat → ℤ) (q : Except Errno α) (y : VfsState σ) : Prop :=
  match q with
  | .ok a => Takes x y (r a) (o a)
  | .error _ => Takes x y 0 0

section Gives

variable {x y : VfsState σ} {V : Prop} {vn : Nat} {r o : α → Nat → ℤ} {r' o' : β → Nat → ℤ}

theorem gives_bind {m : VfsM σ α} {f : α → VfsM σ β} (hm : Sat (Fine V) m y (Gives x r o))
    (hf : ∀ a z, Takes x z (r a) (o a) → Sat (Fine V) (f a) z (Gives x r' o')) :
    Sat (Fine V) (m >>= f) y (Gives x r' o') :=
  hm.bind hf fun _ _ h => h

theorem vop_spec (hpos : V → 0 < x.refs vn) (f : Answer σ α) : Sat (Fine V) (vop vn f) x fun _ y => Takes x y 0 0 := by
  unfold vop
  apply (vnodeCheck_spec hpos).bind
  intro _ y hy
  subst hy
  exact .of_eq rfl rfl rfl rfl

theorem vopUio_spec (hpos : V → 0 < x.refs vn) (f : Uio → σ → Except Errno Unit × Uio × σ) :
    Sat (Fine V) (vopUio vn f) x fun _ y => Takes x y 0 0 := by
  unfold vopUio
  apply (vnodeCheck_spec hpos).bind
  intro _ y hy
  subst hy
  exact .of_eq rfl rfl rfl rfl

theorem vopVnode_spec (hpos : V → 0 < x.refs vn) (f : Answer σ α) (res : α → Nat) :
    Sat (Fine V) (vopVnode vn f res) x (Gives x (fun a => one (res a)) 0) := by
  unfold vopVnode
  apply (vop_spec hpos f).bind
  · intro a y hy
    apply vnodeIncref_spec.bind
    intro _ z hz
    apply (hy.trans hz).congr
    · exact zero_add _
    · exact add_zero 0
  · intro e y hy
    exact hy

theorem sat_gives_zero {m : VfsM σ Unit} (h : Sat (Fine V) m x fun _ y => Takes x y 0 0) :
    Sat (Fine V) m x (Gives x 0 0) := by
  apply h.mono
  intro q y hy
  cases q <;> exact hy

/-- A reference that was taken before, and more since: one can be given back. -/
theorem decref_taken {z : VfsState σ} {d : Nat → ℤ} (h0 : Takes x y (one vn) 0) (hd : 0 ≤ d) (hz : Takes y z d 0) :
    Returns (Fine V) (vnodeDecref ops vn) z fun _ t => Takes x t d 0 := by
  have h1 := h0.trans hz
  have hone : 0 < (one vn + d) vn := by
    have := hd vn
    simp only [Pi.add_apply, one_self, Pi.zero_apply] at this ⊢
    omega
  refine (vnodeDecref_spec ops fun _ => h1.refs_pos hone).mono fun _ t ht => ?_
  apply (h1.trans ht).congr
  · abel
  · simp

theorem releasing_spec {m : VfsM σ α} (h0 : Takes x y (one vn) 0) (hr : ∀ a, 0 ≤ r a)
    (hm : Sat (Fine V) m y (Gives y r 0)) : Sat (Fine V) (releasing ops vn m) y (Gives x r 0) := by
  unfold releasing
  refine (sat_bind _).2 (sat_attempt.2 (hm.mono ?_))
  intro q z hz
  cases q with
  | error e =>
    apply (decref_taken ops h0 le_rfl hz).bind
    intro _ t ht
    exact ht
  | ok a =>
    apply (decref_taken ops h0 (hr a) hz).bind
    intro _ t ht
    exact ht

end Gives

/-! ## The functions -/

section Functions

variable {x y : VfsState σ} {V : Prop} {vn : Nat}

theorem incref_gives : Sat (Fine V) (do vnodeIncref vn; pure vn) x (Gives x one 0) :=
  vnodeIncref_spec.bind fun _ _ h => h

theorem fsopGetroot_spec (fs : Fs) : Returns (Fine V) (fsopGetroot ops fs) x fun vn y => Takes x y (one vn) 0 := by
  unfold fsopGetroot
  simp only [returns_bind, returns_get]
  cases ops.fsGetroot fs x.world with
  | none => exact fun _ => id
  | some p =>
    simp only [returns_bind, returns_modify]
    refine vnodeIncref_spec.mono fun _ y hy => ?_
    exact ⟨hy.held, hy.opens, hy.kept, hy.cwd⟩

theorem vfsGetroot_spec (devname : CString) : Sat (Fine V) (vfsGetroot ops devname) x (Gives x one 0) := by
  unfold vfsGetroot
  simp only [sat_bind, sat_get]
  split
  · exact fun _ => id
  · exact .refl x
  · exact (fsopGetroot_spec ops _).sat fun _ _ h => h
  · exact incref_gives

theorem vfsGetcurdir_spec : Sat (Fine V) vfsGetcurdir x (Gives x one 0) := by
  unfold vfsGetcurdir
  simp only [sat_bind, sat_get]
  split
  · exact .refl x
  · exact incref_gives

theorem startVnode_spec (start : Vfs.PathStart) : Sat (Fine V) (startVnode ops start) x (Gives x one 0) := by
  cases start with
  | curdir => exact vfsGetcurdir_spec
  | device name => exact vfsGetroot_spec ops name
  | bootfs =>
    simp only [startVnode, sat_bind, sat_get]
    split
    · exact .refl x
    · exact incref_gives
  | curfs =>
    apply gives_bind vfsGetcurdir_spec
    intro vn y hy
    simp only [sat_bind, sat_get]
    split
    · exact fun _ => id
    · -- the root is taken before the current directory is given back
      refine (fsopGetroot_spec ops _).bind fun startvn z hz => ?_
      exact (decref_taken ops hy (one_nonneg startvn) hz).bind fun _ _ h => h

theorem getdevice_spec (path : CString) : Sat (Fine V) (getdevice ops path) x (Gives x (fun p => one p.2) 0) :=
  gives_bind (startVnode_spec ops _) fun _ _ h => h

theorem vfsLookparent_spec (path : CString) (buflen : Nat) :
    Sat (Fine V) (vfsLookparent ops path buflen) x (Gives x (fun p => one p.1) 0) := by
  apply gives_bind (getdevice_spec ops path)
  intro ⟨subpath, startvn⟩ y hy
  refine releasing_spec ops hy (fun _ => one_nonneg _) ?_
  split
  · exact .refl y
  · exact vopVnode_spec (fun _ => hy.one_pos) _ _

theorem vfsLookup_spec (path : CString) : Sat (Fine V) (vfsLookup ops path) x (Gives x one 0) := by
  apply gives_bind (getdevice_spec ops path)
  intro p y hy
  dsimp only
  split
  · exact hy
  · apply releasing_spec ops hy one_nonneg
    exact vopVnode_spec (fun _ => hy.one_pos) _ _

theorem vnodeDecopen_spec (hrefs : V → 0 < x.refs vn) (hopens : V → 0 < x.opens vn) :
    Returns (Fine V) (vnodeDecopen ops vn) x fun _ y => Takes x y 0 (-one vn) := by
  unfold vnodeDecopen
  simp only [returns_bind, returns_get, returns_check, returns_modify, returns_when]
  split
  · next h0 =>
    have h1 : Takes x (x.setOpens vn (x.opens vn - 1)) 0 (-one vn) := by
      rw [← neg_one_eq]
      apply takes_setOpens
      omega
    split
    · refine sat_attempt.2 ((vop_spec ?_ _).mono fun q y hy => ?_)
      · exact hrefs
      · exact h1.still hy
    · exact h1
  · next h0 => exact fun hV _ => h0 (hopens hV)

theorem vfsClose_spec (hrefs : V → 0 < x.refs vn) (hopens : V → 0 < x.opens vn) :
    Returns (Fine V) (vfsClose ops vn) x fun _ y => Takes x y (-one vn) (-one vn) := by
  unfold vfsClose
  refine (returns_bind _).2 ((vnodeDecopen_spec ops hrefs hopens).mono fun _ y hy => ?_)
  have hpos : V → 0 < y.refs vn := fun hV => (hrefs hV).trans_le (hy.refs_le le_rfl)
  refine (vnodeDecref_spec ops hpos).mono fun _ z hz => ?_
  exact (hy.trans hz).congr (zero_add _) (add_zero _)

theorem openVnode_spec (path : CString) (openflags : Word) :
    Sat (Fine V) (openVnode ops path openflags) x (Gives x one 0) := by
  unfold openVnode
  split
  · apply gives_bind (vfsLookparent_spec ops path _)
    intro p y hy
    apply releasing_spec ops hy one_nonneg
    exact vopVnode_spec (fun _ => hy.one_pos) _ _
  · exact vfsLookup_spec ops path

/-- A file that cannot be truncated is closed again. -/
theorem openTrunc_spec (h0 : Takes x y (one vn) (one vn)) (how : Word) : Sat (Fine V) (openTrunc ops vn how) y
    (Gives x (fun _ => one vn) fun _ => one vn) := by
  have hrefs : V → 0 < y.refs vn := fun _ => h0.one_pos
  unfold openTrunc
  refine (sat_bind _).2 (sat_attempt.2 ?_)
  have htrunc : Sat (Fine V) (if how = Vfs.oRdonly then Prog.raise .einval else vop vn (ops.vopTruncate vn 0)) y
      fun _ z => Takes y z 0 0 := by
    split
    · exact .refl y
    · exact vop_spec hrefs _
  refine htrunc.mono fun q z hz => ?_
  have h1 := h0.still hz
  cases q with
  | ok _ => exact h1
  | error e =>
    have hrefs' : V → 0 < z.refs vn := fun _ => h1.one_pos
    apply (vfsClose_spec ops hrefs' fun _ => h1.opens_pos (by simp)).bind
    intro _ t ht
    exact (h1.trans ht).congr (add_neg_cancel _) (add_neg_cancel _)

theorem vfsOpen_spec (path : CString) (openflags : Word) :
    Sat (Fine V) (vfsOpen ops path openflags) x (Gives x one one) := by
  unfold vfsOpen
  dsimp only
  split
  · exact .refl x
  · apply gives_bind (openVnode_spec ops path openflags)
    intro vn y hy
    have hpos : V → 0 < y.refs vn := fun _ => hy.one_pos
    refine (sat_bind _).2 (sat_attempt.2 ((vop_spec hpos _).mono fun q z hz => ?_))
    cases q with
    | error e => exact (decref_taken ops hy le_rfl hz).bind fun _ _ h => h
    | ok _ =>
      have h1 := hy.still hz
      apply vnodeIncopen_spec.bind
      intro _ t ht
      have h2 := (h1.trans ht).congr (add_zero _) (zero_add _)
      refine gives_bind (r := fun _ => one vn) (o := fun _ => one vn) ?_ fun _ _ h => h
      refine (sat_when _ _).2 ?_
      split
      · exact openTrunc_spec ops h2 _
      · exact h2

theorem onParent_spec (path : CString) (f : Nat → CString → Answer σ Unit) :
    Sat (Fine V) (onParent ops path f) x (Gives x 0 0) := by
  apply gives_bind (vfsLookparent_spec ops path _)
  intro p y hy
  apply releasing_spec ops hy fun _ => le_rfl
  exact sat_gives_zero (vop_spec (fun _ => hy.one_pos) _)

theorem withParent_spec (h0 : Takes x y (one vn) 0) (newpath : CString) {f : Nat → CString → VfsM σ Unit}
    (hf : ∀ newdir newname z, 0 < z.refs vn → 0 < z.refs newdir →
      Sat (Fine V) (f newdir newname) z fun _ t => Takes z t 0 0) :
    Sat (Fine V) (withParent ops vn newpath f) y (Gives x 0 0) := by
  apply releasing_spec ops h0 fun _ => le_rfl
  apply gives_bind (vfsLookparent_spec ops newpath _)
  intro p z hz
  apply releasing_spec ops hz fun _ => le_rfl
  apply sat_gives_zero
  simp only [sat_bind, sat_get]
  split
  · exact .refl z
  · apply hf
    · have h1 := one_nonneg p.1 vn
      exact (h0.trans hz).refs_pos (by simp at h1 ⊢; omega)
    · exact hz.one_pos

theorem vfsRename_spec (oldpath newpath : CString) : Sat (Fine V) (vfsRename ops oldpath newpath) x (Gives x 0 0) := by
  apply gives_bind (vfsLookparent_spec ops oldpath _)
  intro p y hy
  apply withParent_spec ops hy
  intro newdir newname z hold hnew
  exact vop_spec (fun _ => hold) _

theorem vfsLink_spec (oldpath newpath : CString) : Sat (Fine V) (vfsLink ops oldpath newpath) x (Gives x 0 0) := by
  apply gives_bind (vfsLookup_spec ops oldpath)
  intro oldfile y hy
  apply withParent_spec ops hy
  intro newdir newname z hold hnew
  exact vop_spec (fun _ => hnew) _

theorem vfsReadlink_spec (path : CString) : Sat (Fine V) (vfsReadlink ops path) x (Gives x 0 0) := by
  apply gives_bind (vfsLookup_spec ops path)
  intro vn y hy
  apply releasing_spec ops hy fun _ => le_rfl
  exact sat_gives_zero (vopUio_spec (fun _ => hy.one_pos) _)

theorem onUio_spec (m : Prog UioPanic Errno Uio α) : Sat (Fine V) (onUio m) x fun _ y => Takes x y 0 0 := by
  refine (sat_focus ..).2 ?_
  unfold Sat
  split
  · exact fun _ => id
  · exact .of_eq rfl rfl rfl rfl

theorem vfsGetcwd_spec : Sat (Fine V) (vfsGetcwd ops) x (Gives x 0 0) := by
  unfold vfsGetcwd
  refine (sat_bind _).2 (sat_get.2 ((sat_bind _).2 ((sat_check _ _).2 ?_)))
  split
  · apply gives_bind vfsGetcurdir_spec
    intro cwd y hy
    simp only [sat_bind, sat_get]
    split
    · exact fun _ => id
    · split
      · exact fun _ => id
      · apply releasing_spec ops hy fun _ => le_rfl
        have move (m : Prog UioPanic Errno Uio (List Byte)) {z : VfsState σ} (hz : Takes y z 0 0) :
            Sat (Fine V) (onUio m) z (Gives y 0 0) := by
          refine (onUio_spec m).mono fun q t ht => ?_
          cases q <;> exact hz.still ht
        apply gives_bind (move _ (.refl y))
        intro _ z hz
        apply gives_bind (move _ hz)
        intro _ t ht
        have hpos : 0 < t.refs cwd :=
          (hy.trans ht).refs_pos (by simp)
        refine (vopUio_spec (fun _ => hpos) _).mono fun q u hu => ?_
        cases q <;> exact ht.still hu
  · exact fun _ => id

theorem decrefOld_spec {old : Option Nat} (hpos : V → ∀ vn, old = some vn → 0 < x.refs vn) :
    Returns (Fine V) (decrefOld ops old) x fun _ y => Takes x y (-oneOf old) 0 := by
  cases old with
  | none =>
    refine (returns_pure _).2 ?_
    exact (Takes.refl x).congr neg_zero.symm rfl
  | some vn => exact vnodeDecref_spec ops fun hV => hpos hV vn rfl

/-- With a reference to the new directory taken before: it takes the place of the one to the old. -/
theorem vfsSetcurdir_spec (h0 : Takes x y (one vn) 0)
    (hold : V → ∀ old, x.tCwd = some old → 0 < x.refs old) :
    Sat (Fine V) (vfsSetcurdir ops vn) y fun q z => match q with
      | .ok _ => Takes { x with tCwd := some vn } z (one vn - oneOf x.tCwd) 0
      | .error _ => Takes y z 0 0 := by
  unfold vfsSetcurdir
  apply (vop_spec (fun _ => h0.one_pos) _).bind
  · intro vtype z hz
    split
    · exact hz
    · have h1 := h0.still hz
      simp only [sat_bind, sat_get, sat_modify]
      have hpos : V → ∀ old, z.tCwd = some old → 0 < z.refs old := by
        intro hV old hcwd
        have h2 := hold hV old (h1.cwd ▸ hcwd)
        exact h2.trans_le (h1.refs_le (one_nonneg vn old))
      refine (decrefOld_spec ops (x := { z with tCwd := some vn }) hpos).sat fun _ t ht => ?_
      have h2 : Takes { x with tCwd := some vn } { z with tCwd := some vn } (one vn) 0 :=
        ⟨h1.held, h1.opens, h1.kept, rfl⟩
      rw [h1.cwd] at ht
      exact (h2.trans ht).congr (sub_eq_add_neg _ _).symm (add_zero _)
  · intro e z hz
    exact hz

theorem vfsChdir_spec (hold : V → ∀ old, x.tCwd = some old → 0 < x.refs old) (path : CString) :
    Sat (Fine V) (vfsChdir ops path) x fun q y => match q with
      | .ok _ => ∃ new, Takes { x with tCwd := some new } y (one new - oneOf x.tCwd) 0
      | .error _ => Takes x y 0 0 := by
  unfold vfsChdir
  apply (vfsLookup_spec ops path).bind
  · intro vn y hy
    refine (sat_bind _).2 (sat_attempt.2 ((vfsSetcurdir_spec ops hy hold).mono ?_))
    intro q z hz
    cases q with
    | ok _ => exact ⟨vn, hz⟩
    | error e => exact (decref_taken ops hy le_rfl hz).bind fun _ _ h => h
  · intro e y hy
    exact hy

end Functions

/-! ## All calls -/

theorem done_spec {x : VfsState σ} {V : Prop} {m : VfsM σ Unit} (h : Sat (Fine V) m x (Gives x 0 0)) :
    Sat (Fine V) (do m; pure VfsReply.done) x fun _ y => Takes x y 0 0 :=
  h.bind (fun _ _ hy => hy) fun _ _ hy => hy

/-- Every call stops the machine, though not for a count that is too low, or it returns; and then
the counts are what they should be exactly when `VOP_RECLAIM` left no vnode behind. -/
theorem vfs_balances_iff (c : VfsCall) (x : VfsState σ) : (∃ p, c.run ops x = .error p ∧ (c.Valid x → ¬ p.Miscounts)) ∨
    ∃ q y, c.run ops x = .ok (q, y) ∧ (c.Balances x y q ↔ y.kept = x.kept) := by
  have h : Prog.Sat (Fine (c.Valid x)) (c.run ops) x fun q y => c.Balances x y q ↔ y.kept = x.kept := by
    cases c with
    | lookup path =>
      apply (vfsLookup_spec ops path).bind
      · exact fun vn y hy => hy.changes_iff
      · exact fun e y hy => hy.changes_iff
    | lookparent path buflen =>
      apply (vfsLookparent_spec ops path buflen).bind
      · exact fun p y hy => hy.changes_iff
      · exact fun e y hy => hy.changes_iff
    | «open» path openflags =>
      apply (vfsOpen_spec ops path openflags).bind
      · exact fun vn y hy => hy.changes_iff
      · exact fun e y hy => hy.changes_iff
    | close vn =>
      apply (vfsClose_spec ops And.left And.right).bind
      exact fun _ y hy => hy.changes_iff
    | chdir path =>
      apply (vfsChdir_spec ops id path).bind
      · intro _ y ⟨new, hy⟩
        refine ⟨fun ⟨new', hcwd, hc⟩ => ?_, fun hk => ⟨new, hy.cwd, ?_⟩⟩
        · obtain rfl : new = new' := Option.some.inj (hy.cwd.symm.trans hcwd)
          exact hy.changes_iff.1 ⟨hc.refs, hc.opens⟩
        · have hc := hy.changes_iff.2 hk
          exact ⟨hc.refs, hc.opens⟩
      · exact fun e y hy => (and_iff_right hy.cwd).trans hy.changes_iff
    | rename oldpath newpath => exact (done_spec (vfsRename_spec ops oldpath newpath)).mono fun q y hy => hy.changes_iff
    | link oldpath newpath => exact (done_spec (vfsLink_spec ops oldpath newpath)).mono fun q y hy => hy.changes_iff
    | readlink path => exact (done_spec (vfsReadlink_spec ops path)).mono fun q y hy => hy.changes_iff
    | getcwd => exact (done_spec (vfsGetcwd_spec ops)).mono fun q y hy => hy.changes_iff
    | remove path | mkdir path | rmdir path | symlink contents path =>
      exact (done_spec (onParent_spec ops path _)).mono fun q y hy => hy.changes_iff
  cases hrun : c.run ops x with
  | error p => exact .inl ⟨p, rfl, h.of_error hrun⟩
  | ok a => exact .inr ⟨a.1, a.2, rfl, h.of_ok hrun⟩

/-- A file system whose root is the vnode 5, and where everything succeeds but perhaps the
reclaiming of vnodes. -/
def sampleOps (gone : Bool) : VnodeOps Unit where
  vnFs _ _ := some ⟨3, none⟩
  fsGetroot _ w := some (5, w)
  vopOpen _ _ w := (.ok (), w)
  vopClose _ w := (.ok (), w)
  vopReclaim _ w := (gone, w)
  vopReadlink _ u w := (.ok (), u, w)
  vopGettype _ w := (.ok sIfdir, w)
  vopTruncate _ _ w := (.ok (), w)
  vopNamefile _ u w := (.ok (), u, w)
  vopCreat _ _ _ w := (.ok 6, w)
  vopSymlink _ _ _ w := (.ok (), w)
  vopMkdir _ _ w := (.ok (), w)
  vopLink _ _ _ w := (.ok (), w)
  vopRemove _ _ w := (.ok (), w)
  vopRmdir _ _ w := (.ok (), w)
  vopRename _ _ _ _ w := (.ok (), w)
  vopLookup _ _ w := (.ok 6, w)
  vopLookparent _ path _ w := (.ok (5, path), w)

/-- It is mounted on the device `d`, and nobody has a reference to anything. -/
def sampleVfs : VfsState Unit where
  refs _ := 0
  opens _ := 0
  tCwd := none
  bootfsVnode := none
  knowndevs := [⟨⟨[100], by decide⟩, some ⟨[100, 114, 97, 119], by decide⟩, some 1, 9, some ⟨3, none⟩⟩]
  uio := mkKuio [] 0 .read
  world := ()
  kept _ := 0

/-- The path `d:f`. -/
def samplePath : CString := ⟨[100, 58, 102], by decide⟩

theorem remove_balances_sampleVfs :
    ∃ y, (VfsCall.remove samplePath).run (sampleOps true) sampleVfs = .ok (.ok .done, y) ∧
      (VfsCall.remove samplePath).Balances sampleVfs y (.ok .done) := by
  obtain ⟨y, hrun, hk⟩ : ∃ y, (VfsCall.remove samplePath).run (sampleOps true) sampleVfs = .ok (.ok .done, y) ∧
        y.kept = sampleVfs.kept := ⟨_, rfl, rfl⟩
  obtain ⟨p, hp, -⟩ | ⟨q, z, hz, hiff⟩ := vfs_balances_iff (sampleOps true) (.remove samplePath) sampleVfs
  · exact nomatch hrun.symm.trans hp
  · cases hrun.symm.trans hz
    exact ⟨y, hrun, hiff.2 hk⟩

/-- The root is looked up for the call alone, and it cannot be reclaimed afterwards: it stays in
memory with one reference that nobody has. -/
theorem remove_keeps_root : sampleVfs.refs 5 = 0 ∧
    ∃ y, (VfsCall.remove samplePath).run (sampleOps false) sampleVfs = .ok (.ok .done, y) ∧
      y.refs 5 = 1 ∧ ¬ (VfsCall.remove samplePath).Balances sampleVfs y (.ok .done) := by
  refine ⟨rfl, _, rfl, rfl, fun h => ?_⟩
  have h5 := h.refs 5
  exact absurd h5 (by decide)

end Os161.Balance
