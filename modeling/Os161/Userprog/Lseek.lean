import Os161.Userprog.Transfer

/-!
# Seeking

`sys_lseek` computes the new offset and returns it, but does not store it in the file.
`mips_syscall` takes the number for an error code, as it does with every result that is not zero.
What `lseek` owes (`Seeks`) is there only if nothing was asked for: the file is at its start, and is
to stay there.
-/
namespace Os161.Userprog

open Lib Kern Prog

/-- Where a seek is to lead, by its arguments and what the vnode says; or the error it is to report.
-/
def seekTarget (f : OpenFile) (offset whence : Int) (e : Env) : Except Errno Int := do
  let base ←
    if whence = 0 then pure 0
    else if whence = 1 then pure f.fOffset.toInt
    else if whence = 2 then e.vopStat
    else throw .einval
  if 0 ≤ base + offset ∧ base + offset < 2 ^ 31 then do
    e.vopTryseek
    pure (base + offset)
  else throw .einval

/-- What a seek owes to the file and to the registers. -/
def Seeks (f f' : OpenFile) (tf : Trapframe) : Except Errno Int → Prop
  | .ok target => f'.fOffset.toInt = target ∧ tf.tfV0 = BitVec.ofInt 32 target ∧ tf.tfA3 = 0
  | .error err => f'.fOffset = f.fOffset ∧ tf.tfV0 = BitVec.ofInt 32 (errnoCode err) ∧ tf.tfA3 = 1

/-- The offsets are those of an `off_t`. -/
structure Env.Offsets (e : Env) (f : OpenFile) : Prop where
  current : 0 ≤ f.fOffset.toInt
  size : ∀ n, e.vopStat = .ok n → 0 ≤ n ∧ n < 2 ^ 31

variable {s t : Process} {fd : Int} {p l : Nat} {f : OpenFile} {e : Env} {K : FileStop → Prop} {offset whence : Int}

theorem wrap_nonneg_iff {base : Int} (hbase : 0 ≤ base ∧ base < 2 ^ 31) (hoffset : -2 ^ 31 ≤ offset ∧ offset < 2 ^ 31) :
    (wrap (base + offset) < 0 ↔ ¬(0 ≤ base + offset ∧ base + offset < 2 ^ 31)) ∧
      (0 ≤ base + offset ∧ base + offset < 2 ^ 31 → wrap (base + offset) = base + offset) := by
  unfold wrap
  rw [Int.bmod_def]
  constructor
  · split <;> omega
  · intro h
    split <;> omega

section Locks

variable {Q : Except Errno Unit → Process → Prop} {lock : Option Nat}

theorem sat_lockAcquire_of (hlock : lock = some l) (h : s.locks l = some false) :
    Sat K (lockAcquire lock) s Q ↔ Q (.ok ()) { s with locks := Function.update s.locks l (some true) } :=
  hlock ▸ sat_lockAcquire h

theorem sat_lockRelease_of (hlock : lock = some l) (h : s.locks l = some true) :
    Sat K (lockRelease lock) s Q ↔ Q (.ok ()) { s with locks := Function.update s.locks l (some false) } :=
  hlock ▸ sat_lockRelease h

end Locks

theorem sat_finishSeek {Q : Except Errno Int → Process → Prop} {newOffset : Int} (hlock : f.fLock = some l)
    (hheld : s.locks l = some true) (hvn : 0 < s.vnRefcount f.fVnode) : Sat K (finishSeek f newOffset e) s Q ↔
      Q (if newOffset < 0 then .error .einval else e.vopTryseek.map fun _ => newOffset)
        { s with locks := Function.update s.locks l (some false) } := by
  unfold finishSeek
  split
  · rw [sat_bind, sat_lockRelease_of hlock hheld]
    rfl
  · rw [sat_bind, sat_vnodeCheck hvn]
    dsimp only
    rw [sat_bind, sat_lockRelease_of hlock hheld]
    cases e.vopTryseek <;> rfl

theorem target_eq {base : Int} (hbase : 0 ≤ base ∧ base < 2 ^ 31) (hoffset : -2 ^ 31 ≤ offset ∧ offset < 2 ^ 31) :
    (if wrap (base + offset) < 0 then .error .einval else e.vopTryseek.map fun _ => wrap (base + offset)) =
      if 0 ≤ base + offset ∧ base + offset < 2 ^ 31 then (do e.vopTryseek; pure (base + offset))
      else (throw .einval : Except Errno Int) := by
  obtain ⟨hneg, hval⟩ := wrap_nonneg_iff hbase hoffset
  by_cases h : 0 ≤ base + offset ∧ base + offset < 2 ^ 31
  · rw [if_neg (fun hn => hneg.1 hn h), if_pos h, hval h]
    cases e.vopTryseek <;> rfl
  · rw [if_pos (hneg.2 h), if_neg h]
    rfl

theorem sat_seekOffset {Q : Except Errno (Option Int) → Process → Prop} (hvn : 0 < s.vnRefcount f.fVnode) :
    Sat K (seekOffset f offset whence e) s Q ↔ Q (switched f offset whence e) s := by
  unfold seekOffset
  rw [sat_bind, sat_when]
  split
  · rw [sat_vnodeCheck hvn]
    exact sat_ofExcept _
  · exact sat_ofExcept _

/-- The outcome for an offset that was computed is the target. -/
theorem seekTarget_eq (hoffsets : e.Offsets f) (hoffset : -2 ^ 31 ≤ offset ∧ offset < 2 ^ 31) :
    seekTarget f offset whence e = (switched f offset whence e).bind fun o => match o with
      | none => .error .einval
      | some newOffset => if newOffset < 0 then .error .einval else e.vopTryseek.map fun _ => newOffset := by
  unfold seekTarget switched
  split_ifs with hset hcur hend
  · have hzero : wrap (0 + offset) = offset := by
      unfold wrap
      rw [Int.zero_add, Int.bmod_def]
      split <;> omega
    have hbase : (0 : Int) ≤ 0 ∧ (0 : Int) < 2 ^ 31 := by decide
    have htarget := target_eq (e := e) hbase hoffset
    rw [hzero] at htarget
    exact htarget.symm
  · exact (target_eq ⟨hoffsets.current, BitVec.toInt_lt⟩ hoffset).symm
  · cases hstat : e.vopStat with
    | error err => rfl
    | ok n => exact (target_eq (hoffsets.size n hstat) hoffset).symm
  · rfl

/-- The result is what was asked for. The file stays as it was. -/
theorem sysLseek_spec (D : Descriptor s fd p f) (hoffsets : e.Offsets f)
    (hoffset : -2 ^ 31 ≤ offset ∧ offset < 2 ^ 31) :
    Sat K (sysLseek fd offset whence e) s fun r t => r = seekTarget f offset whence e ∧ t.files = s.files := by
  obtain ⟨ft, i, hp, hopen⟩ := D.sat_open (K := K)
  obtain ⟨l, hl, hfree⟩ := D.lock
  refine (hopen _ _).2 ?_
  rw [sat_bind, sat_lockAcquire_of hl hfree]
  dsimp only
  generalize hu : { s with locks := Function.update s.locks l (some true) } = u
  have hfiles : u.files = s.files := by rw [← hu]
  have hheld : u.locks l = some true := by
    rw [← hu]
    exact Function.update_self ..
  have hvn : 0 < u.vnRefcount f.fVnode := by
    rw [← hu]
    exact D.vnode
  rw [sat_bind, sat_seekOffset hvn, seekTarget_eq hoffsets hoffset]
  cases switched f offset whence e with
  | error err => exact ⟨rfl, hfiles⟩
  | ok o =>
    cases o with
    | none =>
      dsimp only
      rw [sat_bind, sat_lockRelease_of hl hheld]
      exact ⟨rfl, hfiles⟩
    | some newOffset => exact (sat_finishSeek hl hheld hvn).2 ⟨rfl, hfiles⟩

/-- A seek is carried out and reported only if it fails, or if it is a seek to the start of a file
that is there. -/
theorem lseek_effective_iff {tf : Trapframe} (others : Word → Option Int) (D : Descriptor s tf.tfA0.toInt p f)
    (hno : tf.tfV0 = 13) (hoffsets : e.Offsets f) :
    ∃ tf' t f', mipsSyscall tf others e s = .ok (.ok tf', t) ∧ t.files p = some f' ∧
      (Seeks f f' tf' (seekTarget f tf.tfA1.toInt tf.tfA2.toInt e) ↔
        ∀ target, seekTarget f tf.tfA1.toInt tf.tfA2.toInt e = .ok target → target = 0 ∧ f.fOffset = 0) := by
  have hoffset : -2 ^ 31 ≤ tf.tfA1.toInt ∧ tf.tfA1.toInt < 2 ^ 31 :=
    ⟨BitVec.le_toInt tf.tfA1, BitVec.toInt_lt⟩
  obtain ⟨r, t, hcall, hr, hfiles⟩ : ∃ r t, sysLseek tf.tfA0.toInt tf.tfA1.toInt tf.tfA2.toInt e s = .ok (r, t) ∧
      r = seekTarget f tf.tfA1.toInt tf.tfA2.toInt e ∧ t.files = s.files :=
    (sysLseek_spec D hoffsets hoffset).exists_ok
  have hd : dispatch tf others e = sysLseek tf.tfA0.toInt tf.tfA1.toInt tf.tfA2.toInt e := by simp [dispatch, hno]
  have hrun : mipsSyscall tf others e s = .ok (.ok (tf.ret (intResult r)), t) := by
    simp only [mipsSyscall, Prog.bind_apply, Prog.attempt, hd, hcall]
    rfl
  refine ⟨_, t, f, hrun, by rw [hfiles, D.file], ?_⟩
  rw [← hr]
  cases r with
  | error err =>
    have hne := errnoCode_ne_zero err
    simp [Seeks, Trapframe.ret, intResult, hne]
  | ok target =>
    by_cases hzero : target = 0
    · subst hzero
      have hstart : f.fOffset.toInt = 0 ↔ f.fOffset = 0 := BitVec.toInt_inj (y := 0)
      simp [Seeks, Trapframe.ret, intResult, hstart]
    · have hreported : (tf.ret target).tfA3 = 1 := by simp [Trapframe.ret, hzero]
      constructor
      · intro h
        exact absurd (h.2.2.symm.trans hreported) (by decide)
      · intro h
        exact absurd (h target rfl).1 hzero

/-- A seek to the start, where the file is. -/
theorem lseek_sampleStart : ∃ tf' t f',
    mipsSyscall (callFrame 13 0 0 0) (fun _ => none) transferEnv openProcess = .ok (.ok tf', t) ∧
    t.files 1 = some f' ∧ Seeks ⟨7, some 2, 2, 1, 0⟩ f' tf' (.ok 0) := by
  have D : Descriptor openProcess (callFrame 13 0 0 0).tfA0.toInt 1 ⟨7, some 2, 2, 1, 0⟩ := openProcess_descriptor
  have hoffsets : transferEnv.Offsets ⟨7, some 2, 2, 1, 0⟩ :=
    ⟨by decide, fun n hn => by rw [← Except.ok.inj hn]; decide⟩
  obtain ⟨tf', t, f', hrun, hfile, hiff⟩ := lseek_effective_iff (fun _ => none) D rfl hoffsets
  exact ⟨tf', t, f', hrun, hfile, hiff.2 fun target htarget => ⟨(Except.ok.inj htarget).symm, rfl⟩⟩

/-- A seek to position 3 reports the error number 3, and the file stays at its start. -/
theorem lseek_not_stored : ∃ tf' t, seekTarget ⟨7, some 2, 2, 1, 0⟩ 3 0 transferEnv = .ok 3 ∧
    mipsSyscall (callFrame 13 0 3 0) (fun _ => none) transferEnv openProcess = .ok (.ok tf', t) ∧
    tf'.tfA3 = 1 ∧ tf'.tfV0 = 3 ∧ t.files 1 = some ⟨7, some 2, 2, 1, 0⟩ :=
  ⟨_, _, rfl, rfl, rfl, rfl, rfl⟩

end Os161.Userprog
