import Os161.Userprog.Fdtable

/-!
# Reading and writing through a descriptor

`sys_read` and `sys_write` move bytes between the file and a buffer of the kernel that they allocate
and free. The user's buffer takes no part, and `mips_syscall` returns the zero that `retval` was set
to, whatever was moved.
-/
namespace Os161.Userprog

open Lib Kern Prog

/-- `fd` is open on `f`, which is at `p`; its lock is free and its vnode in memory. -/
structure Descriptor (s : Process) (fd : Int) (p : Nat) (f : OpenFile) : Prop where
  holds : s.Holds fd (some p)
  file : s.files p = some f
  lock : ∃ l, f.fLock = some l ∧ s.locks l = some false
  vnode : 0 < s.vnRefcount f.fVnode

variable {s t : Process} {fd : Int} {p : Nat} {f : OpenFile} {e : Env} {K : FileStop → Prop}

/-! ## What the calls do -/

theorem sat_slot {Q : Except Errno (Fin maxOpenFiles) → Process → Prop} (i : Fin maxOpenFiles)
    (h : (i : Int) = fd) : Sat K (slot fd) s Q ↔ Q (.ok i) s := by
  have hi : 0 ≤ fd ∧ fd < maxOpenFiles := by omega
  have hfd : (⟨fd.toNat, by omega⟩ : Fin maxOpenFiles) = i := Fin.ext (by simp [← h])
  simp only [slot, hi, and_self, dite_true, hfd]
  exact sat_pure i

theorem sat_lockAcquire {Q : Except Errno Unit → Process → Prop} {l : Nat} (h : s.locks l = some false) :
    Sat K (lockAcquire (some l)) s Q ↔ Q (.ok ()) { s with locks := Function.update s.locks l (some true) } := by
  simp [lockAcquire, loadLock, h]

theorem sat_lockRelease {Q : Except Errno Unit → Process → Prop} {l : Nat} (h : s.locks l = some true) :
    Sat K (lockRelease (some l)) s Q ↔ Q (.ok ()) { s with locks := Function.update s.locks l (some false) } := by
  simp [lockRelease, loadLock, h]

/-- How every call gets at the file of a descriptor. -/
theorem Descriptor.sat_open (D : Descriptor s fd p f) : ∃ ft i, ft i = some p ∧
    ∀ {α : Type} (k : FileTable → Fin maxOpenFiles → OpenFile → FileM α) (Q : Except Errno α → Process → Prop),
      Sat K (do
        checkValid
        let ft ← fileTable
        let i ← slot fd
        let file ← loadFile (ft i)
        k ft i file) s Q ↔ Sat K (k ft i f) s Q := by
  obtain ⟨ft, hft, i, hi, hp⟩ := D.holds
  have hvalid : checkValid s = .ok (.ok (), s) := checkValid_ok hft
  have htable : fileTable s = .ok (.ok ft, s) := by
    simp [fileTable, Prog.bind_apply, Prog.get, hft]
    rfl
  refine ⟨ft, i, hp, fun k Q => ?_⟩
  simp only [sat_bind, sat_of_ok hvalid, sat_of_ok htable]
  rw [sat_slot i hi]
  dsimp only
  rw [hp, sat_loadFile D.file]

def OpenFile.skip (f : OpenFile) (n : Nat) : OpenFile := { f with fOffset := f.fOffset + BitVec.ofNat 32 n }

def Process.moved (s : Process) (p : Nat) (f : OpenFile) (n : Nat) (c : Nat → Contents) : Process :=
  { s with contents := c, files := Function.update s.files p (some (f.skip n)) }

/-- A transfer, given what its operation does. The lock is free again afterwards, and the offset is
behind the bytes that were moved. -/
theorem sysTransfer_spec {nbytes : Nat} {refused : Int} {rw : UioRw} {vop : Nat → Uio → Env → FileM Uio}
    {d : List Byte} {c : Nat → Contents} (D : Descriptor s fd p f) (hmode : f.fMode ≠ refused)
    (hvop : ∀ t, t.vnRefcount = s.vnRefcount → t.contents = s.contents →
      Sat K (vop f.fVnode (mkKuio (e.kbuf nbytes) f.fOffset.toNat rw) e) t fun r t' =>
        r = .ok ((mkKuio (e.kbuf nbytes) f.fOffset.toNat rw).advance d) ∧ t' = { t with contents := c }) :
    Sat K (sysTransfer fd nbytes refused rw vop e) s fun r t =>
      r = e.vopIo.map (fun _ => 0) ∧ t = s.moved p f d.length c := by
  obtain ⟨ft, i, hp, hopen⟩ := D.sat_open (K := K)
  obtain ⟨l, hl, hfree⟩ := D.lock
  refine (hopen _ _).2 ?_
  simp only [hmode, if_false, sat_bind, hl, hp]
  refine (sat_lockAcquire hfree).2 ((hvop _ (by rfl) (by rfl)).mono ?_)
  rintro r t ⟨hr, ht⟩
  subst hr ht
  refine (sat_storeFile (by exact D.file)).2 ((sat_loadFile (by exact Function.update_self ..)).2 ?_)
  dsimp only
  rw [hl]
  refine (sat_lockRelease (by exact Function.update_self ..)).2 ?_
  dsimp only
  rw [sat_ofExcept]
  have hunlocked : Function.update (Function.update s.locks l (some true)) l (some false) = s.locks := by
    rw [Function.update_idem, ← hfree, Function.update_eq_self]
  have hoff : BitVec.ofNat 32 ((mkKuio (e.kbuf nbytes) f.fOffset.toNat rw).advance d).uioOffset =
      f.fOffset + BitVec.ofNat 32 d.length := by
    refine BitVec.eq_of_toNat_eq ?_
    simp [mkKuio]
  rw [hoff]
  cases e.vopIo with
  | ok _ | error err => exact ⟨rfl, by simp [Process.moved, OpenFile.skip, hunlocked, hl]⟩

/-- The kernel has no buffer for bytes that are moved. -/
def Env.Faults (e : Env) (n : Nat) : Prop := e.buffer = none ∧ n ≠ 0

theorem length_kbuf (n : Nat) : (e.kbuf n).length = n := by simp [Env.kbuf]

theorem sat_vnodeCheck {Q : Except Errno Unit → Process → Prop} {vn : Nat} (h : 0 < s.vnRefcount vn) :
    Sat K (vnodeCheck vn) s Q ↔ Q (.ok ()) s := by
  simp [vnodeCheck, h]

theorem sat_checkBuffer {Q : Except Errno Unit → Process → Prop} {d : List Byte} {n : Nat} (hn : d.length = n)
    (h : Q (.ok ()) s) : Sat (fun _ => e.Faults n) (Prog.check (e.buffer.isSome ∨ d = []) .wild : FileM Unit) s Q := by
  subst hn
  rw [sat_check]
  split
  · exact h
  · next hno =>
    rw [not_or] at hno
    exact ⟨by simpa using hno.1, by simpa using hno.2⟩

theorem length_received (c : Contents) (pos n : Nat) :
    (c.read pos (e.received c pos n)).length = e.received c pos n := by
  simp only [Contents.read, Env.received, List.length_map, List.length_range]
  omega

/-- `sys_read` leaves the user's memory alone. -/
theorem sysRead_spec (buf nbytes : Nat) (D : Descriptor s fd p f) (hmode : f.fMode ≠ oWronly) :
    Sat (fun _ => e.Faults (e.received (s.contents f.fVnode) f.fOffset.toNat nbytes)) (sysRead fd buf nbytes e) s
      fun r t => r = e.vopIo.map (fun _ => 0) ∧
        t = s.moved p f (e.received (s.contents f.fVnode) f.fOffset.toNat nbytes) s.contents := by
  rw [← length_received]
  refine sysTransfer_spec D hmode ?_
  intro t hrefs hcontents
  have hvn : 0 < t.vnRefcount f.fVnode := hrefs ▸ D.vnode
  have hresid : (mkKuio (e.kbuf nbytes) f.fOffset.toNat .read).uioResid = nbytes := length_kbuf nbytes
  simp only [vopRead, sat_bind, sat_vnodeCheck hvn, sat_get]
  refine sat_checkBuffer (by rw [hcontents, hresid]; rfl) ⟨?_, by rw [← hcontents]⟩
  rw [hcontents, hresid]
  rfl

/-- `sys_write` stores what was in the kernel's buffer before. -/
theorem sysWrite_spec (buf nbytes : Nat) (D : Descriptor s fd p f) (hmode : f.fMode ≠ oRdonly) :
    Sat (fun _ => e.Faults (e.sent nbytes)) (sysWrite fd buf nbytes e) s fun r t =>
      r = e.vopIo.map (fun _ => 0) ∧ t = s.moved p f (e.sent nbytes) (Function.update s.contents f.fVnode
        ((s.contents f.fVnode).write f.fOffset.toNat ((e.kbuf nbytes).take (e.sent nbytes)))) := by
  have hlen : ((e.kbuf nbytes).take (e.sent nbytes)).length = e.sent nbytes := by
    rw [List.length_take, length_kbuf]
    unfold Env.sent
    omega
  rw [← hlen]
  refine sysTransfer_spec D hmode ?_
  intro t hrefs hcontents
  have hvn : 0 < t.vnRefcount f.fVnode := hrefs ▸ D.vnode
  have hresid : (mkKuio (e.kbuf nbytes) f.fOffset.toNat .write).uioResid = nbytes := length_kbuf nbytes
  simp only [vopWrite, sat_bind, sat_vnodeCheck hvn]
  refine sat_checkBuffer (by rw [hresid]; rfl) ⟨?_, ?_⟩
  · rw [hresid]
    rfl
  · rw [← hcontents, hlen, hresid]
    rfl

/-! ## What the user sees -/

/-- What a successful write of `k` bytes owes: they are the bytes of the user's buffer. -/
structure WriteDone (s t : Process) (p : Nat) (f : OpenFile) (buf k : Nat) (tf : Trapframe) : Prop where
  stored : ∀ j < k, (t.contents f.fVnode).bytes (f.fOffset.toNat + j) = s.user (buf + j)
  elsewhere : ∀ i, i < f.fOffset.toNat ∨ f.fOffset.toNat + k ≤ i → (t.contents f.fVnode).bytes i = (s.contents f.fVnode).bytes i
  offset : t.files p = some (f.skip k)
  tfA3 : tf.tfA3 = 0
  tfV0 : tf.tfV0 = BitVec.ofNat 32 k

/-- What a successful read of `k` bytes owes: they are in the user's buffer. -/
structure ReadDone (s t : Process) (p : Nat) (f : OpenFile) (buf nbytes k : Nat) (tf : Trapframe) : Prop where
  stored : ∀ j < k, t.user (buf + j) = (s.contents f.fVnode).bytes (f.fOffset.toNat + j)
  bound : k ≤ nbytes
  elsewhere : ∀ a, a < buf ∨ buf + k ≤ a → t.user a = s.user a
  offset : t.files p = some (f.skip k)
  tfA3 : tf.tfA3 = 0
  tfV0 : tf.tfV0 = BitVec.ofNat 32 k

theorem errnoCode_ne_zero (err : Errno) : errnoCode err ≠ 0 := by
  cases err <;> decide

theorem ret_success {tf : Trapframe} {r : Except Errno Unit} (h : (tf.ret (intResult (r.map fun _ => 0))).tfA3 = 0) :
    (tf.ret (intResult (r.map fun _ => 0))).tfV0 = 0 := by
  cases r with
  | ok _ => rfl
  | error err =>
    have hne : intResult (Except.map (fun _ => (0 : Int)) (.error err : Except Errno Unit)) ≠ 0 := errnoCode_ne_zero err
    simp [Trapframe.ret, hne] at h

theorem eq_zero_of_word {k n : Nat} {w : Word} (hw : w = 0) (hk : k ≤ n) (hn : n < 2 ^ 32) (h : w = BitVec.ofNat 32 k) :
    k = 0 := by
  have hmod : k % 2 ^ 32 = 0 := by simpa [hw] using (congrArg BitVec.toNat h).symm
  omega

/-- A system call returns in the registers what the function it calls returned. -/
theorem mipsSyscall_inv {tf tf' : Trapframe} {others : Word → Option Int}
    (h : mipsSyscall tf others e s = .ok (.ok tf', t)) :
    ∃ r, dispatch tf others e s = .ok (r, t) ∧ tf' = tf.ret (intResult r) := by
  unfold mipsSyscall at h
  rw [Prog.bind_apply] at h
  unfold Prog.attempt at h
  cases hd : dispatch tf others e s with
  | error q => simp [hd] at h
  | ok x =>
    obtain ⟨r, u⟩ := x
    rw [hd] at h
    cases h
    exact ⟨r, rfl, rfl⟩

/-- A successful read or write through an open descriptor of a suitable mode does what it owes
exactly if it moves no byte. -/
theorem transfer_done_iff {tf tf' : Trapframe} {others : Word → Option Int} (D : Descriptor s tf.tfA0.toInt p f)
    (hrun : mipsSyscall tf others e s = .ok (.ok tf', t)) (hok : tf'.tfA3 = 0) : (tf.tfV0 = 6 → f.fMode ≠ oRdonly →
      (WriteDone s t p f tf.tfA1.toNat (e.sent tf.tfA2.toNat) tf' ↔ e.sent tf.tfA2.toNat = 0)) ∧
    (tf.tfV0 = 5 → f.fMode ≠ oWronly →
      (ReadDone s t p f tf.tfA1.toNat tf.tfA2.toNat (e.received (s.contents f.fVnode) f.fOffset.toNat tf.tfA2.toNat) tf' ↔
        e.received (s.contents f.fVnode) f.fOffset.toNat tf.tfA2.toNat = 0)) := by
  obtain ⟨r, hcall, htf⟩ := mipsSyscall_inv hrun
  have hn := tf.tfA2.isLt
  constructor
  · intro hno hmode
    have hd : dispatch tf others e = sysWrite tf.tfA0.toInt tf.tfA1.toNat tf.tfA2.toNat e := by simp [dispatch, hno]
    obtain ⟨rfl, rfl⟩ := (sysWrite_spec tf.tfA1.toNat tf.tfA2.toNat D hmode).of_ok (hd ▸ hcall)
    have hv0 : tf'.tfV0 = 0 := htf ▸ ret_success (htf ▸ hok)
    constructor
    · intro W
      exact eq_zero_of_word hv0 (Nat.min_le_right ..) hn W.tfV0
    · intro hk
      rw [hk]
      refine ⟨nofun, ?_, by simp [Process.moved], hok, hv0⟩
      intro i _
      have hout : ¬ (f.fOffset.toNat ≤ i ∧ i < f.fOffset.toNat) := by omega
      simp [Process.moved, Contents.write, hout]
  · intro hno hmode
    have hd : dispatch tf others e = sysRead tf.tfA0.toInt tf.tfA1.toNat tf.tfA2.toNat e := by simp [dispatch, hno]
    obtain ⟨rfl, rfl⟩ := (sysRead_spec tf.tfA1.toNat tf.tfA2.toNat D hmode).of_ok (hd ▸ hcall)
    have hv0 : tf'.tfV0 = 0 := htf ▸ ret_success (htf ▸ hok)
    constructor
    · intro R
      exact eq_zero_of_word hv0 R.bound hn R.tfV0
    · intro hk
      rw [hk]
      exact ⟨nofun, Nat.zero_le _, fun _ _ => rfl, by simp [Process.moved], hok, hv0⟩

/-! ### A round trip -/

/-- Descriptor 0 is open for reading and writing, at the start of an empty file. The user has an `A`
at address 100. -/
def openProcess : Process :=
  { freshProcess with
    tFileTable := some fun i => if i = 0 then some 1 else none
    files := fun p => if p = 1 then some ⟨7, some 2, 2, 1, 0⟩ else none
    locks := fun l => if l = 2 then some false else none
    vnRefcount := fun vn => if vn = 7 then 1 else 0
    vnOpencount := fun vn => if vn = 7 then 1 else 0
    user := fun a => if a = 100 then 65 else 0 }

def transferEnv : Env := { buffer := some fun _ => 0, reach := 4 }

def callFrame (callno a0 a1 a2 : Word) : Trapframe := ⟨callno, a0, a1, a2, 0, 0x400000⟩

/-- A write of one byte, a seek to the start and a read of one byte, to address 200. All three
succeed and all return zero; the file has a byte that the user never wrote, and the user's memory is
as it was. -/
theorem write_seek_read : ∃ tf₁ tf₂ tf₃ t₁ t₂ t₃,
    mipsSyscall (callFrame 6 0 100 1) (fun _ => none) transferEnv openProcess = .ok (.ok tf₁, t₁) ∧
    mipsSyscall (callFrame 13 0 0 0) (fun _ => none) transferEnv t₁ = .ok (.ok tf₂, t₂) ∧
    mipsSyscall (callFrame 5 0 200 1) (fun _ => none) transferEnv t₂ = .ok (.ok tf₃, t₃) ∧
    (tf₁.tfA3 = 0 ∧ tf₁.tfV0 = 0) ∧ (tf₂.tfA3 = 0 ∧ tf₂.tfV0 = 0) ∧ (tf₃.tfA3 = 0 ∧ tf₃.tfV0 = 0) ∧
    openProcess.user 100 = 65 ∧ (t₁.contents 7).size = 1 ∧ (t₁.contents 7).bytes 0 = 0 ∧ t₃.user 200 = 0 :=
  ⟨_, _, _, _, _, _, rfl, rfl, rfl, ⟨rfl, rfl⟩, ⟨rfl, rfl⟩, ⟨rfl, rfl⟩, rfl, rfl, rfl, rfl⟩

theorem openProcess_descriptor : Descriptor openProcess 0 1 ⟨7, some 2, 2, 1, 0⟩ :=
  ⟨⟨_, rfl, 0, rfl, rfl⟩, rfl, ⟨2, rfl, rfl⟩, by decide⟩

/-- A write of no bytes. -/
theorem empty_write_done : ∃ tf t,
    mipsSyscall (callFrame 6 0 100 0) (fun _ => none) transferEnv openProcess = .ok (.ok tf, t) ∧
    WriteDone openProcess t 1 ⟨7, some 2, 2, 1, 0⟩ 100 0 tf := by
  obtain ⟨tf, t, hrun, hok⟩ : ∃ tf t,
      mipsSyscall (callFrame 6 0 100 0) (fun _ => none) transferEnv openProcess = .ok (.ok tf, t) ∧ tf.tfA3 = 0 :=
    ⟨_, _, rfl, rfl⟩
  have D : Descriptor openProcess (callFrame 6 0 100 0).tfA0.toInt 1 ⟨7, some 2, 2, 1, 0⟩ := openProcess_descriptor
  have hdone := (transfer_done_iff D hrun hok).1 rfl (by decide)
  exact ⟨tf, t, hrun, hdone.2 rfl⟩

end Os161.Userprog
