import Os161.Userprog.Lseek

/-!
# The lock of a file

Every call through a descriptor takes the lock of the file and has to give it back on whichever way
it returns. A second `lock_acquire` by the thread that has the lock is a panic, so one call that
keeps a lock is enough to stop the machine in a later one. The only return that keeps it is that of
`sys_lseek` where `VOP_STAT` fails.
-/
namespace Os161.Userprog

open Lib Kern Prog

/-- The calls that take the lock of a file. -/
inductive LockCall where
  | read (fd : Int) (buf nbytes : Nat)
  | write (fd : Int) (buf nbytes : Nat)
  | lseek (fd offset whence : Int)
  | close (fd : Int)
  | dup2 (oldfd newfd : Int)

def LockCall.run : LockCall → Env → FileM Int
  | .read fd buf nbytes => sysRead fd buf nbytes
  | .write fd buf nbytes => sysWrite fd buf nbytes
  | .lseek fd offset whence => sysLseek fd offset whence
  | .close fd => sysClose fd
  | .dup2 oldfd newfd => sysDup2 oldfd newfd

abbrev LockEvent := LockCall × Env

def lockNext (s : Process) (x : LockEvent) : Option Process :=
  match x.1.run x.2 s with
  | .ok (_, t) => some t
  | .error _ => none

/-- When the call returns, the caller holds no lock that it did not hold before. -/
def Releases (s : Process) (x : LockEvent) : Prop :=
  ∀ r t, x.1.run x.2 s = .ok (r, t) → ∀ l, t.locks l = some true → s.locks l = some true

/-- `lock_acquire` does not find that the caller has the lock. -/
def NoDip (s : Process) (x : LockEvent) : Prop := x.1.run x.2 s ≠ .error .doubleDip

/-- A seek from the end through an open descriptor gets the size of the file. -/
def StatWorks (s : Process) (x : LockEvent) : Prop :=
  ∀ fd offset, x.1 = .lseek fd offset 2 → (∃ p f, Descriptor s fd p f) → ∃ n, x.2.vopStat = .ok n

def NoneHeld (s : Process) : Prop := ∀ l, s.locks l ≠ some true

/-- A call may stop the machine, but on account of a lock it has only if it had one before. -/
def Dips (s : Process) (stop : FileStop) : Prop := stop = .doubleDip → ∃ l, s.locks l = some true

/-- Since `s` the lock `l` was taken, and no other was taken or given back. -/
structure Taken (s : Process) (l : Nat) (t : Process) : Prop where
  free : s.locks l = some false
  locks : t.locks = Function.update s.locks l (some true)

variable {s t u : Process} {fd : Int} {l : Nat} {e : Env} {K : FileStop → Prop} {offset whence : Int}

/-! ## Calls in any state -/

section Rules

variable {α : Type} {Q : Except Errno α → Process → Prop}

theorem sat_table {k : FileTable → FileM α} (hnone : Q (.error .ebadf) s)
    (h : ∀ ft, s.tFileTable = some ft → Sat K (k ft) s Q) : Sat K (do checkValid; let ft ← fileTable; k ft) s Q := by
  cases hft : s.tFileTable with
  | none => simpa [checkValid, hft] using hnone
  | some ft => simpa [checkValid, fileTable, hft] using h ft hft

theorem sat_slot_bind {k : Fin maxOpenFiles → FileM α} (hout : K .outside)
    (h : ∀ i : Fin maxOpenFiles, (i : Int) = fd → Sat K (k i) s Q) : Sat K (slot fd >>= k) s Q := by
  rw [sat_bind]
  unfold slot
  split
  · next hfd => exact h _ (Int.toNat_of_nonneg hfd.1)
  · exact hout

theorem sat_loadFile_bind {p : Option Nat} {k : OpenFile → FileM α} (hwild : K .wild)
    (h : ∀ a f, p = some a → s.files a = some f → Sat K (k f) s Q) : Sat K (loadFile p >>= k) s Q := by
  cases p with
  | none => exact hwild
  | some a =>
    cases hf : s.files a with
    | none => simpa [loadFile, hf] using hwild
    | some f =>
      rw [sat_bind, sat_loadFile hf]
      exact h a f rfl hf

theorem sat_lockAcquire_bind {lock : Option Nat} {k : Unit → FileM α}
    (h : ∀ l t, lock = some l → Taken s l t → t = { s with locks := t.locks } → Sat (Dips s) (k ()) t Q) :
    Sat (Dips s) (lockAcquire lock >>= k) s Q := by
  cases lock with
  | none => exact nofun
  | some l =>
    cases hl : s.locks l with
    | none =>
      have hwild : Dips s .wild := nofun
      simpa [lockAcquire, loadLock, hl] using hwild
    | some held =>
      cases held with
      | false =>
        rw [sat_bind, sat_lockAcquire hl]
        exact h l _ rfl ⟨hl, rfl⟩ rfl
      | true =>
        have hdip : Dips s .doubleDip := fun _ => ⟨l, hl⟩
        simpa [lockAcquire, loadLock, hl] using hdip

theorem Taken.release {lock : Option Nat} {k : Unit → FileM α} (h : Taken s l t) (hu : u.locks = t.locks)
    (hlock : lock = some l) (hk : ∀ u, u.locks = s.locks → Sat K (k ()) u Q) : Sat K (lockRelease lock >>= k) u Q := by
  rw [h.locks] at hu
  have hheld : u.locks l = some true := by rw [hu, Function.update_self]
  rw [sat_bind, sat_lockRelease_of hlock hheld]
  apply hk
  dsimp only
  rw [hu, Function.update_idem, ← h.free, Function.update_eq_self]

end Rules

/-! ## The calls -/

/-- The call leaves the files and the locks alone, unless it stops. -/
def Spares {α : Type} (s : Process) (m : FileM α) : Prop :=
  ∀ t, Returns (Dips s) m t fun _ t' => t'.files = t.files ∧ t'.locks = t.locks

variable {vn : Nat}

theorem spares_vopRead {w : Uio} : Spares s (vopRead vn w e) := by
  intro t
  simp [vopRead, vnodeCheck, Dips]

theorem spares_vopWrite {w : Uio} : Spares s (vopWrite vn w e) := by
  intro t
  simp [vopWrite, vnodeCheck, Dips]

theorem spares_vfsClose {reclaim : Bool} : Spares s (vfsClose vn reclaim) := by
  intro t
  simp [vfsClose, vnodeDecopen, vnodeDecref, Dips]

theorem sysTransfer_locks {nbytes : Nat} {refused : Int} {rw : UioRw} {vop : Nat → Uio → Env → FileM Uio}
    (hvop : ∀ vn w, Spares s (vop vn w e)) :
    Sat (Dips s) (sysTransfer fd nbytes refused rw vop e) s fun _ t => t.locks = s.locks := by
  refine sat_table rfl fun ft _ => sat_slot_bind nofun fun i _ => sat_loadFile_bind nofun fun a f hp hf => ?_
  rw [sat_ite]
  split
  · exact rfl
  · refine sat_lockAcquire_bind fun l t hl T ht => (hvop _ _ t).bind fun w t' hvop => ?_
    have hfile : t'.files a = some f := by rw [hvop.1, ht, hf]
    rw [hp, sat_bind, sat_storeFile hfile]
    refine sat_loadFile_bind nofun fun b g hb hg => ?_
    obtain rfl := Option.some.inj hb
    obtain rfl : _ = g := by simpa using hg
    refine T.release (by exact hvop.2) hl fun u hu => ?_
    cases e.vopIo <;> exact hu

/-- A file that was freed has no lock to be released. -/
theorem sysClose_locks : Sat (Dips s) (sysClose fd e) s fun _ t => t.locks = s.locks := by
  refine sat_table rfl fun ft _ => sat_slot_bind nofun fun i _ => sat_loadFile_bind nofun fun a f hp hf => ?_
  refine sat_lockAcquire_bind fun l t hl T ht => (spares_vfsClose t).bind fun _ t' hclose => ?_
  have hfile : t'.files a = some f := by rw [hclose.1, ht, hf]
  rw [hp, sat_bind, sat_when, sat_bind]
  split
  · -- the pointer is stale
    rw [kfreeVnode, sat_modify]
    dsimp only
    refine (sat_kfreeFile (by exact hfile)).2 ?_
    rw [sat_bind, setSlot, sat_modify]
    refine sat_loadFile_bind nofun fun b g hb hg => ?_
    obtain rfl := Option.some.inj hb
    simp at hg
  · rw [sat_bind, setSlot, sat_modify]
    refine sat_loadFile_bind nofun fun b g hb hg => ?_
    obtain rfl := Option.some.inj hb
    obtain rfl := Option.some.inj (hfile.symm.trans hg)
    exact T.release (by exact hclose.2) hl fun u hu => hu

theorem sysDup2_locks {oldfd newfd : Int} : Sat (Dips s) (sysDup2 oldfd newfd e) s fun _ t => t.locks = s.locks := by
  refine sat_table rfl fun ft _ => ?_
  rw [sat_ite]
  split
  · exact rfl
  · refine sat_slot_bind nofun fun new _ => ?_
    rw [sat_ite]
    split
    · exact rfl
    · refine sat_slot_bind nofun fun old _ => sat_loadFile_bind nofun fun a f hp hf => ?_
      refine sat_lockAcquire_bind fun l t hl T ht => ?_
      have hfile : t.files a = some f := by rw [ht, hf]
      rw [hp, sat_bind]
      cases hstray : t.files e.stray with
      | none =>
        rw [sat_storeFile_wild hstray]
        exact nofun
      | some g =>
        rw [sat_storeFile hstray]
        dsimp only
        rw [sat_bind, setSlot, sat_modify]
        refine sat_loadFile_bind nofun fun b k hb hk => ?_
        obtain rfl := Option.some.inj hb
        -- the stray pointer may be that of the old file
        have hlock : k.fLock = f.fLock := by
          dsimp only at hk
          by_cases hsame : a = e.stray
          · subst hsame
            rw [Function.update_self] at hk
            rw [← Option.some.inj hk]
          · rw [Function.update_of_ne hsame, hfile] at hk
            rw [← Option.some.inj hk]
        exact T.release rfl (hlock.trans hl) fun u hu => hu

section Lseek

variable {α : Type} {f : OpenFile} {Q : Except Errno α → Process → Prop}

theorem sat_vnodeCheck_bind {k : Unit → FileM α} (hwild : K .wild)
    (h : 0 < s.vnRefcount vn → Sat K (k ()) s Q) : Sat K (vnodeCheck vn >>= k) s Q := by
  by_cases hvn : 0 < s.vnRefcount vn
  · rw [sat_bind, sat_vnodeCheck hvn]
    exact h hvn
  · simpa [vnodeCheck, hvn] using hwild

theorem sat_seekOffset_bind {k : Option Int → FileM α} (hwild : K .wild) (hok : ∀ o, Sat K (k o) s Q)
    (herr : ∀ err, whence = 2 → e.vopStat = .error err → 0 < s.vnRefcount f.fVnode → Q (.error err) s) :
    Sat K (seekOffset f offset whence e >>= k) s Q := by
  unfold seekOffset Prog.when
  rw [Prog.bind_assoc]
  split
  · next hend =>
    have hsw : switched f offset whence e = e.vopStat.map fun size => some (wrap (size + offset)) := by
      subst hend
      rfl
    refine sat_vnodeCheck_bind hwild fun hvn => ?_
    rw [hsw]
    cases hstat : e.vopStat with
    | error err => exact herr err hend hstat hvn
    | ok n => exact hok _
  · next hend =>
    obtain ⟨o, ho⟩ : ∃ o, switched f offset whence e = .ok o := by
      unfold switched
      split_ifs <;> exact ⟨_, rfl⟩
    rw [ho]
    exact hok o

/-- Every way on from the offset goes past the release. -/
theorem Taken.finishSeek {newOffset : Int} (T : Taken s l t) (hl : f.fLock = some l) :
    Sat (Dips s) (Userprog.finishSeek f newOffset e) t fun _ t => t.locks = s.locks := by
  unfold Userprog.finishSeek
  split
  · exact T.release rfl hl fun u hu => hu
  · refine sat_vnodeCheck_bind nofun fun _ => T.release rfl hl fun u hu => ?_
    cases e.vopTryseek <;> exact hu

end Lseek

/-- A seek keeps the lock only where `VOP_STAT` fails. -/
theorem sysLseek_locks : Sat (Dips s) (sysLseek fd offset whence e) s fun _ t => t.locks = s.locks ∨
    whence = 2 ∧ (∃ err, e.vopStat = .error err) ∧ ∃ p f, Descriptor s fd p f := by
  refine sat_table (.inl rfl) fun ft hft => sat_slot_bind nofun fun i hi => sat_loadFile_bind nofun fun a f hp hf => ?_
  refine sat_lockAcquire_bind fun l t hl T ht => sat_seekOffset_bind nofun (fun o => ?_) ?_
  · cases o with
    | none => exact T.release rfl hl fun u hu => .inl hu
    | some newOffset => exact (T.finishSeek hl).mono fun _ _ h => .inl h
  · intro err hend hstat hvn
    rw [ht] at hvn
    exact .inr ⟨hend, ⟨err, hstat⟩, a, f, ⟨ft, hft, i, hi, hp⟩, hf, ⟨l, hl, T.free⟩, hvn⟩

theorem sysLseek_keeps (offset : Int) {p : Nat} {f : OpenFile} {err : Errno} (D : Descriptor s fd p f)
    (hstat : e.vopStat = .error err) : ∃ l t, s.locks l = some false ∧ t.locks l = some true ∧
      sysLseek fd offset 2 e s = .ok (.error err, t) := by
  obtain ⟨l, hl, hfree⟩ := D.lock
  have hkeep : Sat (fun _ => False) (sysLseek fd offset 2 e) s fun r t => r = .error err ∧ t.locks l = some true := by
    obtain ⟨ft, i, hp, hopen⟩ := D.sat_open (K := fun _ => False)
    refine (hopen _ _).2 ?_
    rw [sat_bind, sat_lockAcquire_of hl hfree]
    dsimp only
    rw [sat_bind, sat_seekOffset (by exact D.vnode)]
    simp [switched, hstat, Except.map]
  obtain ⟨r, t, hrun, rfl, hheld⟩ := hkeep.exists_ok
  exact ⟨l, t, hfree, hheld, hrun⟩

variable {x : LockEvent}

theorem call_locks (hx : StatWorks s x) :
    Sat (Dips s) (x.1.run x.2) s fun _ t => t.locks = s.locks := by
  obtain ⟨c, e⟩ := x
  cases c with
  | read fd buf nbytes => exact sysTransfer_locks fun _ _ => spares_vopRead
  | write fd buf nbytes => exact sysTransfer_locks fun _ _ => spares_vopWrite
  | lseek fd offset whence =>
    refine sysLseek_locks.mono fun r t h => h.resolve_right ?_
    intro ⟨hend, ⟨err, herr⟩, hopen⟩
    obtain ⟨n, hn⟩ := hx fd offset (hend ▸ rfl) hopen
    exact nomatch herr.symm.trans hn
  | close fd => exact sysClose_locks
  | dup2 oldfd newfd => exact sysDup2_locks

theorem releases_iff : Releases s x ↔ StatWorks s x := by
  constructor
  · intro h fd offset hx ⟨p, f, D⟩
    cases hstat : x.2.vopStat with
    | ok n => exact ⟨n, rfl⟩
    | error err =>
      obtain ⟨l, t, hfree, hheld, hrun⟩ := sysLseek_keeps offset D hstat
      have hcall : x.1.run x.2 s = .ok (.error err, t) := by rw [hx]; exact hrun
      exact nomatch hfree.symm.trans (h _ t hcall l hheld)
  · intro h r t hrun l hl
    rwa [(call_locks h).of_ok hrun] at hl

theorem StatWorks.noDip (hs : NoneHeld s) (h : StatWorks s x) : NoDip s x := by
  intro hstop
  obtain ⟨l, hl⟩ := (call_locks h).of_error hstop rfl
  exact hs l hl

theorem StatWorks.noneHeld (hs : NoneHeld s) (h : StatWorks s x) (ht : lockNext s x = some t) :
    NoneHeld t := by
  unfold lockNext at ht
  split at ht
  · next r t' hrun =>
    cases ht
    intro l
    rw [(call_locks h).of_ok hrun]
    exact hs l
  · exact nomatch ht

/-- A call gives back the locks it takes unless it is a seek from the end of a file whose size
`VOP_STAT` does not tell. Where a thread starts without locks, this says which sequences of calls
never find it in a lock of its own. -/
theorem filelock_iff (s : Process) : (∀ x, Releases s x ↔ StatWorks s x) ∧ (NoneHeld s → ∀ xs : List LockEvent,
    (Along lockNext (fun s x => Releases s x ∧ NoDip s x) s xs ↔ Along lockNext StatWorks s xs)) := by
  refine ⟨fun x => releases_iff, fun hs xs => ?_⟩
  refine along_iff (I := NoneHeld) hs (fun hs hx ht => hx.noneHeld hs ht) (fun hs => ?_) xs
  rw [releases_iff]
  exact and_iff_left_of_imp fun h => h.noDip hs

theorem noneHeld_openProcess : NoneHeld openProcess := by
  intro l
  simp only [openProcess]
  split <;> simp

/-- A seek from the end whose `VOP_STAT` fails, and a seek to the start: the first returns with the
lock, the second stops the machine. -/
theorem lseek_keeps_lock : ∃ t,
    LockCall.run (.lseek 0 0 2) { vopStat := .error .eio } openProcess = .ok (.error .eio, t) ∧
    NoneHeld openProcess ∧ t.locks 2 = some true ∧ LockCall.run (.lseek 0 0 0) {} t = .error .doubleDip :=
  ⟨_, rfl, noneHeld_openProcess, rfl, rfl⟩

/-- A read, a seek to the start and one from the end. -/
def sampleCalls : List LockEvent :=
  [(.read 0 200 1, transferEnv), (.lseek 0 0 0, transferEnv), (.lseek 0 0 2, transferEnv)]

theorem filelock_sampleCalls : NoneHeld openProcess ∧
    Along lockNext (fun s x => Releases s x ∧ NoDip s x) openProcess sampleCalls := by
  refine ⟨noneHeld_openProcess, ((filelock_iff openProcess).2 noneHeld_openProcess sampleCalls).2 ?_⟩
  have hstat : ∀ s c, StatWorks s (c, transferEnv) := fun _ _ _ _ _ _ => ⟨0, rfl⟩
  exact ⟨hstat _ _, fun _ _ => ⟨hstat _ _, fun _ _ => ⟨hstat _ _, fun _ _ => trivial⟩⟩⟩

end Os161.Userprog
