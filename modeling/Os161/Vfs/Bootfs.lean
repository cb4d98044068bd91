import Os161.Libc.Field
import Os161.Libc.Snprintf
import Os161.Vfs.Balance

/-!
# The boot file system

`vfs_setbootfs` of `vfslookup.c`, for any devices and any file systems behind them, on top of the
path operations of `Os161.Vfs.Balance`. A name is meant to be taken with or without a colon at its
end. But the code looks at the string from the colon on, which has the colon in it, and refuses the
name because that string is not empty.
-/
namespace Os161.Bootfs

open Lib Kern Sfs Knowndevs Balance Prog
open Vfs (colon nameMax splitPath withColon)

section Model

variable {σ : Type} (ops : VnodeOps σ)

def changeBootfs (newguy : Option Nat) : VfsM σ Unit := do
  let x ← Prog.get
  Prog.modify fun x => { x with bootfsVnode := newguy }
  decrefOld ops x.bootfsVnode

/-- What `snprintf` leaves in `tmp`. -/
def copyName (fsname : CString) : CString := fsname.take (nameMax - 1)

/-- The string that `strchr` points at when it finds a colon. -/
def fromColon (tmp : CString) : List Byte := tmp.bytes.dropWhile (· ≠ colon)

def vfsSetbootfs (fsname : CString) : VfsM σ Unit := do
  let tmp := copyName fsname
  let tmp ←
    if Libc.strchr tmp.bytes colon then
      if (fromColon tmp).length > 0 then Prog.raise .einval else pure tmp
    else pure (withColon tmp)
  vfsChdir ops tmp
  let newguy ← vfsGetcurdir
  changeBootfs ops (some newguy)

end Model

/-! ## The copy of the name -/

theorem printed_string (args : Nat → Word) (str : Word → List Byte) (harg : args 0 ≠ 0)
    (hlen : (str (args 0)).length < 2 ^ 31) : Libc.printed args str (Libc.bytes "%s") = str (args 0) := by
  have hrun : Libc.pfFormat Libc.record args str (Libc.bytes "%s") (Libc.pfInit []) =
      .ok (Libc.sendStr Libc.record args str (Libc.modified (Libc.pfInit []) [])) := rfl
  have htext := Libc.pfPrintstuff_record (Libc.modified (Libc.pfInit []) []).vaArg (w := 0) (by decide) rfl [] []
    (str (args 0)) (by simpa using hlen)
  have hs : (if args (Libc.modified (Libc.pfInit ([] : List Byte)) []).ap = 0 then Libc.bytes "(null)"
      else str (args (Libc.modified (Libc.pfInit ([] : List Byte)) []).ap)) = str (args 0) := if_neg harg
  rw [Libc.printed, Libc.vprintf, hrun]
  change (Libc.sendStr Libc.record args str (Libc.modified (Libc.pfInit []) [])).clientdata = _
  rw [Libc.sendStr, hs]
  refine htext.trans ?_
  simp [Libc.padded, Libc.modified, Libc.pfInit, Libc.PF.vaArg]

/-- `snprintf(tmp, sizeof(tmp)-1, "%s", fsname)`. -/
theorem vsnprintf_copyName (args : Nat → Word) (str : Word → List Byte) (harg : args 0 ≠ 0) (fsname : CString)
    (hlen : fsname.bytes.length < 2 ^ 31) (hname : str (args 0) = fsname.bytes) (mem : Word → Byte) (tmp : Word) :
    ∃ chars, Libc.vsnprintf args str mem tmp (BitVec.ofNat 32 nameMax) (Libc.bytes "%s") =
      .ok (storeCells mem tmp ((copyName fsname).bytes ++ [0]), chars) := by
  rw [Libc.vsnprintf_eq, printed_string args str harg (hname ▸ hlen), hname]
  exact ⟨_, rfl⟩

/-! ## Calls that never return an error -/

section Avoids

variable {σ α β : Type} {e : Errno}

/-- Whatever the state, the call does not return this error. -/
def Avoids (e : Errno) (m : VfsM σ α) : Prop := ∀ x, Sat (fun _ => True) m x fun r _ => r ≠ .error e

theorem Avoids.bind {m : VfsM σ α} {f : α → VfsM σ β} (hm : Avoids e m) (hf : ∀ a, Avoids e (f a)) :
    Avoids e (m >>= f) := by
  intro x
  refine (hm x).bind (fun a y _ => hf a y) fun e' y h he => h ?_
  rw [Except.error.inj he]

theorem avoids_pure (a : α) : Avoids e (pure a : VfsM σ α) := by
  intro x
  simp

theorem avoids_get : Avoids e (Prog.get : VfsM σ (VfsState σ)) := by
  intro x
  simp

theorem avoids_modify (f : VfsState σ → VfsState σ) : Avoids e (Prog.modify f : VfsM σ Unit) := by
  intro x
  simp

theorem avoids_stop (p : VfsPanic) : Avoids e (Prog.stop p : VfsM σ α) := fun _ => trivial

theorem avoids_check (c : Prop) [Decidable c] (p : VfsPanic) : Avoids e (Prog.check c p : VfsM σ Unit) := by
  intro x
  simp

theorem avoids_raise {e' : Errno} (h : e' ≠ e) : Avoids e (Prog.raise e' : VfsM σ α) :=
  fun _ he => h (Except.error.inj he)

variable (ops : VnodeOps σ) {vn : Nat}

theorem avoids_vop {f : Answer σ α} (hf : ∀ w, (f w).1 ≠ .error e) : Avoids e (vop vn f) :=
  (avoids_get.bind fun _ => avoids_check _ _).bind fun _ x => hf x.world

theorem avoids_incref : Avoids e (do vnodeIncref vn; pure vn : VfsM σ Nat) :=
  (avoids_modify _).bind fun _ => avoids_pure _

theorem avoids_decref : Avoids e (vnodeDecref ops vn) := by
  refine avoids_get.bind fun x => (avoids_check _ _).bind fun _ => ?_
  split
  · exact avoids_modify _
  · refine avoids_get.bind fun x => (avoids_modify _).bind fun _ => ?_
    split
    · exact avoids_get.bind fun _ => (avoids_check _ _).bind fun _ => (avoids_check _ _).bind fun _ =>
        avoids_modify _
    · exact avoids_modify _

theorem avoids_decrefOld (old : Option Nat) : Avoids e (decrefOld ops old) := by
  cases old with
  | none => exact avoids_pure _
  | some vn => exact avoids_decref ops

theorem avoids_fsopGetroot (fs : Fs) : Avoids e (fsopGetroot ops fs) := by
  refine avoids_get.bind fun x => ?_
  split
  · exact avoids_stop _
  · exact (avoids_modify _).bind fun _ => avoids_incref

end Avoids

/-! ## Which calls can return `EINVAL` -/

section Einval

variable {σ : Type} {ops : VnodeOps σ}

theorem vfsGetroot_ne_einval (devname : CString) (l : List Knowndev) :
    Knowndevs.vfsGetroot devname l ≠ .ok (.error .einval) := by
  have hkd : ∀ kd : Knowndev, kd.getroot devname ≠ some (.ok (.error .einval)) := by
    intro kd h
    unfold Knowndev.getroot at h
    grind
  intro h
  unfold Knowndevs.vfsGetroot at h
  cases hfind : l.findSome? (·.getroot devname) with
  | none =>
    rw [hfind] at h
    cases h
  | some r =>
    rw [hfind] at h
    obtain ⟨kd, -, hr⟩ := List.exists_of_findSome?_eq_some hfind
    exact hkd kd (hr.trans (congrArg some h))

theorem avoids_vfsGetcurdir : Avoids .einval (vfsGetcurdir : VfsM σ Nat) := by
  refine avoids_get.bind fun x => ?_
  split
  · exact avoids_raise (by decide)
  · exact avoids_incref

theorem avoids_startVnode (start : Vfs.PathStart) : Avoids .einval (startVnode ops start) := by
  cases start with
  | curdir => exact avoids_vfsGetcurdir
  | device name =>
    refine avoids_get.bind fun x => ?_
    split
    · exact avoids_stop _
    · next e he =>
      refine avoids_raise fun h => ?_
      subst h
      exact vfsGetroot_ne_einval name x.knowndevs he
    · exact avoids_fsopGetroot ops _
    · exact avoids_incref
  | bootfs =>
    refine avoids_get.bind fun x => ?_
    split
    · exact avoids_raise (by decide)
    · exact avoids_incref
  | curfs =>
    refine avoids_vfsGetcurdir.bind fun vn => avoids_get.bind fun x => ?_
    split
    · exact avoids_stop _
    · exact (avoids_fsopGetroot ops _).bind fun _ => (avoids_decref ops).bind fun _ => avoids_pure _

/-- The file systems and devices have other errors for a lookup and for the type of a vnode. -/
structure NoEinval (ops : VnodeOps σ) : Prop where
  lookup : ∀ vn path w, (ops.vopLookup vn path w).1 ≠ .error .einval
  gettype : ∀ vn w, (ops.vopGettype vn w).1 ≠ .error .einval

variable (h : NoEinval ops)
include h

theorem avoids_vfsLookup (path : CString) : Avoids .einval (vfsLookup ops path) := by
  refine ((avoids_startVnode _).bind fun _ => avoids_pure _).bind fun p => ?_
  dsimp only
  split
  · exact avoids_pure _
  · have hlookup : Avoids .einval (vopVnode p.2 (ops.vopLookup p.2 p.1) id) :=
      (avoids_vop fun w => h.lookup _ _ w).bind fun _ => avoids_incref
    intro x
    refine (sat_bind _).2 (sat_attempt.2 ((hlookup x).mono fun r y hr => ?_))
    refine ((avoids_decref ops).bind (f := fun _ => Prog.ofExcept r) fun _ z => ?_) y
    exact (sat_ofExcept r).2 hr

theorem avoids_vfsSetcurdir (dir : Nat) : Avoids .einval (vfsSetcurdir ops dir) := by
  refine (avoids_vop fun w => h.gettype _ w).bind fun vtype => ?_
  split
  · exact avoids_raise (by decide)
  · exact avoids_get.bind fun _ => (avoids_modify _).bind fun _ => avoids_decrefOld ops _

theorem avoids_vfsChdir (path : CString) : Avoids .einval (vfsChdir ops path) := by
  refine (avoids_vfsLookup h path).bind fun vn x => ?_
  refine (sat_bind _).2 (sat_attempt.2 ((avoids_vfsSetcurdir h vn x).mono fun r y hr => ?_))
  cases r with
  | ok _ => exact avoids_pure () y
  | error e =>
    refine ((avoids_decref ops).bind fun _ => avoids_raise fun he => hr ?_) y
    rw [he]

end Einval

/-! ## Names with and without a colon -/

section Names

variable {σ : Type} (ops : VnodeOps σ) (x : VfsState σ) {s : CString}

theorem strchr_colon (s : CString) : Libc.strchr s.bytes colon = true ↔ colon ∈ s.bytes :=
  Libc.strchr_iff s.noNul (by decide)

theorem vfsSetbootfs_colon (hcolon : colon ∈ (copyName s).bytes) : vfsSetbootfs ops s x = .ok (.error .einval, x) := by
  have hlen : (fromColon (copyName s)).length > 0 := by
    apply List.length_pos_iff.2
    intro hnil
    have hall := List.dropWhile_eq_nil_iff.1 hnil colon hcolon
    simp at hall
  unfold vfsSetbootfs
  rw [if_pos ((strchr_colon _).2 hcolon), if_pos hlen]
  rfl

/-- A name without a colon is not refused because of its form. -/
theorem avoids_vfsSetbootfs (h : NoEinval ops) (hcolon : colon ∉ (copyName s).bytes) :
    Avoids .einval (vfsSetbootfs ops s) := by
  unfold vfsSetbootfs
  rw [if_neg (mt (strchr_colon _).1 hcolon)]
  refine (avoids_pure _).bind fun tmp => (avoids_vfsChdir h tmp).bind fun _ => avoids_vfsGetcurdir.bind fun vn => ?_
  exact avoids_get.bind fun _ => (avoids_modify _).bind fun _ => avoids_decrefOld ops _

/-- Two calls with the same result, the same boot file system and the same current directory. -/
def SameOutcome (a b : Except VfsPanic (Except Errno Unit × VfsState σ)) : Prop :=
  ∃ r y z, a = .ok (r, y) ∧ b = .ok (r, z) ∧ y.bootfsVnode = z.bootfsVnode ∧ y.tCwd = z.tCwd

/-- A colon at the end always makes a difference: the name is refused with it, and never for the
same reason without it. A colon anywhere else is refused. -/
theorem vfsSetbootfs_colon_differs (h : NoEinval ops) : (∀ s : CString, colon ∉ s.bytes →
      s.bytes.length ≤ nameMax - 2 →
      ¬ SameOutcome (vfsSetbootfs ops s x) (vfsSetbootfs ops (withColon s) x)) ∧
    ∀ s : CString, s.bytes.length ≤ nameMax - 1 → (∃ l l', s.bytes = l ++ colon :: l' ∧ l' ≠ []) →
      vfsSetbootfs ops s x = .ok (.error .einval, x) := by
  have hcopy : ∀ s : CString, s.bytes.length ≤ nameMax - 1 → copyName s = s := fun s hs =>
    CString.ext (List.take_of_length_le hs)
  constructor
  · rintro s hcolon hlen ⟨r, y, z, hy, hz, -⟩
    have hs : copyName s = s := hcopy s (by omega)
    have hs' : copyName (withColon s) = withColon s := by
      apply hcopy
      simp only [withColon, List.length_append, List.length_singleton]
      simp only [nameMax] at hlen ⊢
      omega
    rw [vfsSetbootfs_colon ops x (by rw [hs']; simp [withColon])] at hz
    cases hz
    exact ((avoids_vfsSetbootfs ops h (by rwa [hs])) x).of_ok hy rfl
  · rintro s hlen ⟨l, l', hl, -⟩
    apply vfsSetbootfs_colon
    rw [hcopy s hlen, hl]
    simp

end Names

/-- A file system with a root directory, mounted on the device `a`. -/
def sampleFs : Fs := ⟨0, none⟩

/-- Its root is vnode 5, and there is nothing else on it. -/
def sampleOps : VnodeOps Unit where
  vnFs _ _ := some sampleFs
  fsGetroot _ w := some (5, w)
  vopOpen _ _ w := (.ok (), w)
  vopClose _ w := (.ok (), w)
  vopReclaim _ w := (true, w)
  vopReadlink _ u w := (.error .einval, u, w)
  vopGettype _ w := (.ok sIfdir, w)
  vopTruncate _ _ w := (.error .eisdir, w)
  vopNamefile _ u w := (.ok (), u, w)
  vopCreat _ _ _ w := (.error .enospc, w)
  vopSymlink _ _ _ w := (.error .eunimp, w)
  vopMkdir _ _ w := (.error .eunimp, w)
  vopLink _ _ _ w := (.error .eunimp, w)
  vopRemove _ _ w := (.error .enoent, w)
  vopRmdir _ _ w := (.error .eunimp, w)
  vopRename _ _ _ _ w := (.error .enoent, w)
  vopLookup _ _ w := (.error .enoent, w)
  vopLookparent _ _ _ w := (.error .enoent, w)

def sampleVfs : VfsState Unit where
  refs _ := 0
  opens _ := 0
  tCwd := none
  bootfsVnode := none
  knowndevs := [⟨nameA, some (mkrawname nameA), some 0, 10, some sampleFs⟩]
  uio := mkKuio [] 0 .read
  world := ()
  kept _ := 0

theorem vfsSetbootfs_colon_nameA :
    ¬ SameOutcome (vfsSetbootfs sampleOps nameA sampleVfs) (vfsSetbootfs sampleOps (withColon nameA) sampleVfs) ∧
    vfsSetbootfs sampleOps ⟨[97, 58, 98], by decide⟩ sampleVfs = .ok (.error .einval, sampleVfs) := by
  have h : NoEinval sampleOps := ⟨fun _ _ _ => by simp [sampleOps], fun _ _ => by simp [sampleOps]⟩
  exact ⟨(vfsSetbootfs_colon_differs sampleOps sampleVfs h).1 nameA (by decide) (by decide),
    (vfsSetbootfs_colon_differs sampleOps sampleVfs h).2 _ (by decide) ⟨[97], [98], rfl, by decide⟩⟩

/-- `vfs_setbootfs("a")` succeeds, and `vfs_setbootfs("a:")` is refused. -/
theorem vfsSetbootfs_refuses_colon : (∃ y, vfsSetbootfs sampleOps nameA sampleVfs = .ok (.ok (), y) ∧
      y.tCwd = some 5 ∧ y.bootfsVnode = some 5) ∧
    vfsSetbootfs sampleOps (withColon nameA) sampleVfs = .ok (.error .einval, sampleVfs) :=
  ⟨⟨_, rfl, rfl, rfl⟩, rfl⟩

end Os161.Bootfs
