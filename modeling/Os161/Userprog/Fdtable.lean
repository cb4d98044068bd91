import Mathlib.Order.Fin.Basic
import Os161.Lib.Run
import Os161.Userprog.File

/-!
# Descriptors of a process

What `sys_open`, `sys_dup2` and `sys_close` owe to the table of a process, call by call
(`Kept`), and to the counts of the vnodes behind it (`Balanced`). A `sys_open` that gets past its
allocations puts its file into every slot that is free and then frees it, so a sequence of calls
meets either of them only as long as no call gets that far.
-/
namespace Os161.Userprog

open Lib Kern Prog

inductive FileCall where
  | open (mode : Int)
  | dup2 (oldfd newfd : Int)
  | close (fd : Int)

def FileCall.run : FileCall → Env → FileM Int
  | .open mode => sysOpen mode
  | .dup2 oldfd newfd => sysDup2 oldfd newfd
  | .close fd => sysClose fd

abbrev FileEvent := FileCall × Env

def fileNext (s : Process) (x : FileEvent) : Option Process :=
  match x.1.run x.2 s with
  | .ok (_, t) => some t
  | .error _ => none

/-- `fd` is a descriptor, and `p` is in its slot. -/
def Process.Holds (s : Process) (fd : Int) (p : Option Nat) : Prop :=
  ∃ ft, s.tFileTable = some ft ∧ ∃ i : Fin maxOpenFiles, (i : Int) = fd ∧ ft i = p

/-- No slot but that of `fd` differs. -/
def SameBut (fd : Int) (s t : Process) : Prop := ∀ fd', fd' ≠ fd → ∀ p, t.Holds fd' p ↔ s.Holds fd' p

/-- `kmalloc` and `lock_create` have what they are asked for. -/
def Env.Allocates (e : Env) (s : Process) : Prop :=
  (∃ p f, e.block = some (p, f) ∧ s.files p = none) ∧ ∃ l, e.lock = some l ∧ s.locks l = none

/-- What a call owes to the table. -/
structure Kept (s : Process) (c : FileCall) (e : Env) (r : Except Errno Int) (t : Process) : Prop where
  /-- A successful `sys_open` fills one slot, with a new file. -/
  opened : ∀ mode v, c = .open mode → r = .ok v → ∃ fd p, s.Holds fd none ∧ t.Holds fd (some p) ∧
    s.files p = none ∧ t.files p ≠ none ∧ SameBut fd s t
  full : ∀ mode vn, c = .open mode → e.vfsOpen = .ok vn → e.Allocates s →
    (r = .error .emfile ↔ ¬ ∃ fd, s.Holds fd none)
  duped : ∀ oldfd newfd v, c = .dup2 oldfd newfd → r = .ok v → SameBut newfd s t
  closed : ∀ fd v, c = .close fd → r = .ok v → SameBut fd s t
  badDup : ∀ oldfd newfd, c = .dup2 oldfd newfd → (∀ p, ¬ s.Holds oldfd (some p)) ∨ ¬ s.Holds newfd none →
    r = .error .ebadf
  badClose : ∀ fd, c = .close fd → (∀ p, ¬ s.Holds fd (some p)) → r = .error .ebadf
  failed : ∀ err, r = .error err → t.tFileTable = s.tFileTable
  /-- A file that is in the table has not been freed. -/
  live : ∀ fd p, t.Holds fd (some p) → t.files p ≠ none

/-- The call returns, so that it made no access outside the table, and keeps the table in order. -/
def Integrity (s : Process) (x : FileEvent) : Prop :=
  ∃ r t, x.1.run x.2 s = .ok (r, t) ∧ Kept s x.1 x.2 r t

/-- After `kmalloc` the pointer that is never set points to an `openFile` all the same. -/
def Env.Lucky (e : Env) (s : Process) : Prop :=
  s.files e.stray ≠ none ∨ ∃ f, e.block = some (e.stray, f)

def Env.NoLock (e : Env) (s : Process) : Prop := ∀ l, e.lock = some l → s.locks l ≠ none

/-- The calls that do no harm to an empty table. -/
def Calm (s : Process) (x : FileEvent) : Prop :=
  match x.1 with
  | .open _ => ∀ vn, x.2.vfsOpen = .ok vn → x.2.NoLock s ∧ x.2.Lucky s
  | .dup2 _ newfd => maxOpenFiles < newfd
  | .close _ => False

/-! ## The search for room -/

theorem addRound_slot (file : Nat) (ft : FileTable × Bool) (i j : Fin maxOpenFiles) :
    (addRound file ft j).1 i = if i = j ∧ ft.1 i = none then some file else ft.1 i := by
  unfold addRound
  by_cases hij : i = j
  · subst hij
    by_cases hi : ft.1 i = none <;> simp [hi]
  · by_cases hj : ft.1 j = none <;> simp [hj, hij]

theorem foldl_addRound (file : Nat) (l : List (Fin maxOpenFiles)) (ft : FileTable × Bool) (i : Fin maxOpenFiles) :
    (l.foldl (addRound file) ft).1 i = if i ∈ l ∧ ft.1 i = none then some file else ft.1 i := by
  induction l generalizing ft with
  | nil => simp
  | cons j l ih =>
    rw [List.foldl_cons, ih, addRound_slot]
    by_cases hij : i = j
    · subst hij
      by_cases hi : ft.1 i = none <;> simp [hi]
    · simp [hij]

theorem addFile_slot (ft : FileTable) (file : Nat) (i : Fin maxOpenFiles) :
    (addFile ft file).1 i = if ft i = none then some file else ft i := by
  simp [addFile, foldl_addRound]

theorem addRound_added (file : Nat) (ft : FileTable × Bool) (j : Fin maxOpenFiles) :
    (addRound file ft j).2 = (ft.2 || decide (ft.1 j = none)) := by
  unfold addRound
  by_cases hj : ft.1 j = none <;> simp [hj]

theorem foldl_addRound_added (file : Nat) (l : List (Fin maxOpenFiles)) (ft : FileTable × Bool) :
    (l.foldl (addRound file) ft).2 = true ↔ ft.2 = true ∨ ∃ i ∈ l, ft.1 i = none := by
  induction l generalizing ft with
  | nil => simp
  | cons j l ih =>
    rw [List.foldl_cons, ih, addRound_added]
    simp only [addRound_slot]
    grind

theorem addFile_added (ft : FileTable) (file : Nat) : (addFile ft file).2 = true ↔ ∃ i, ft i = none := by
  simp [addFile, foldl_addRound_added]

/-! ## What the calls do -/

variable {ft : FileTable}

section Specs

variable {s : Process} {K : FileStop → Prop} {p : Nat} {f : OpenFile} {vn : Nat} {e : Env}

theorem sat_loadFile {Q : Except Errno OpenFile → Process → Prop} (h : s.files p = some f) :
    Sat K (loadFile (some p)) s Q ↔ Q (.ok f) s := by
  simp only [loadFile, sat_bind, sat_get, h]
  rfl

theorem sat_storeFile {g : OpenFile → OpenFile} {Q : Except Errno Unit → Process → Prop}
    (h : s.files p = some f) : Sat K (storeFile (some p) g) s Q ↔
      Q (.ok ()) { s with files := Function.update s.files p (some (g f)) } := by
  simp only [storeFile, sat_bind, sat_loadFile h]
  rfl

theorem sat_storeFile_wild {g : OpenFile → OpenFile} {Q : Except Errno Unit → Process → Prop}
    (h : s.files p = none) : Sat K (storeFile (some p) g) s Q ↔ K .wild := by
  simp only [storeFile, loadFile, sat_bind, sat_get, h]
  rfl

theorem sat_kfreeFile {Q : Except Errno Unit → Process → Prop} (h : s.files p = some f) :
    Sat K (kfreeFile (some p)) s Q ↔ Q (.ok ()) { s with files := Function.update s.files p none } := by
  simp only [kfreeFile, sat_bind, sat_loadFile h]
  rfl

def Env.blocks (e : Env) (files : Nat → Option OpenFile) : Nat → Option OpenFile :=
  match e.block with
  | none => files
  | some (p, f) => if files p = none then Function.update files p (some f) else files

theorem Env.lucky_iff : e.Lucky s ↔ e.blocks s.files e.stray ≠ none := by
  unfold Env.Lucky Env.blocks
  rcases e.block with _ | ⟨p, f⟩
  · simp
  · by_cases hp : s.files p = none <;> by_cases he : p = e.stray
    · subst he
      simp [hp]
    · simp [hp, he, Function.update_of_ne (Ne.symm he)]
    · subst he
      simp [hp]
    · simp [hp, he]

theorem sat_kmallocFile {Q : Except Errno (Option Nat) → Process → Prop}
    (h : ∀ r, Q (.ok r) { s with files := e.blocks s.files }) : Sat K (kmallocFile e.block) s Q := by
  unfold Env.blocks at h
  simp only [kmallocFile, sat_bind, sat_get]
  rcases hb : e.block with _ | ⟨p, f⟩
  · simp only [hb] at h
    exact h none
  · by_cases hp : s.files p = none
    · simp only [hb, hp, if_true] at h ⊢
      exact h (some p)
    · simp only [hb, hp, if_false] at h ⊢
      exact h none

theorem sat_lockCreate_none {Q : Except Errno (Option Nat) → Process → Prop} (h : e.NoLock s) :
    Sat K (lockCreate e.lock) s Q ↔ Q (.ok none) s := by
  simp only [lockCreate, sat_bind, sat_get]
  rcases hl : e.lock with _ | l
  · rfl
  · simp [h l hl]

theorem sat_lockCreate_some {Q : Except Errno (Option Nat) → Process → Prop} {l : Nat}
    (hl : e.lock = some l) (h : s.locks l = none) : Sat K (lockCreate e.lock) s Q ↔
      Q (.ok (some l)) { s with locks := Function.update s.locks l (some false) } := by
  simp [lockCreate, hl, h]

def Env.counts (e : Env) (s : Process) (vn : Nat) : Nat → Nat :=
  if 0 < s.vnRefcount vn ∨ e.reclaim = true then s.vnRefcount
  else Function.update s.vnRefcount vn 1

/-- `vfs_close` undoes `vfs_open`, if the vnode can go. -/
theorem sat_vfsClose {t : Process} {Q : Except Errno Unit → Process → Prop}
    (hr : t.vnRefcount = Function.update s.vnRefcount vn (s.vnRefcount vn + 1))
    (ho : t.vnOpencount = Function.update s.vnOpencount vn (s.vnOpencount vn + 1))
    (h : Q (.ok ()) { t with vnRefcount := e.counts s vn, vnOpencount := s.vnOpencount }) :
    Sat K (vfsClose vn e.reclaim) t Q := by
  unfold Env.counts at h
  by_cases hc : 0 < s.vnRefcount vn ∨ e.reclaim = true
  · have hback : Function.update t.vnRefcount vn (t.vnRefcount vn - 1) = s.vnRefcount := by simp [hr]
    rw [if_pos hc] at h
    simpa [vfsClose, vnodeDecopen, vnodeDecref, hr, ho, hc] using h
  · rw [if_neg hc] at h
    have hzero : s.vnRefcount vn = 0 := by omega
    simp [vfsClose, vnodeDecopen, vnodeDecref, hr, ho, hc] 
    simpa [hzero, ← hr] using h

/-- What `sys_open` leaves behind, whether it finds a slot or has no lock: nothing of its file, and
the block that `kmalloc` returned unless `file` happens to point to it. -/
def Env.after (e : Env) (s : Process) (vn : Nat) : Process :=
  { s with files := Function.update (e.blocks s.files) e.stray none, vnRefcount := e.counts s vn }

/-- The state in which `sys_open` has a block and a lock. -/
def Env.midway (e : Env) (s : Process) (vn : Nat) (locks : Nat → Option Bool) (f : OpenFile) : Process :=
  { s with
    files := Function.update (e.blocks s.files) e.stray (some f), locks := locks
    vnRefcount := Function.update s.vnRefcount vn (s.vnRefcount vn + 1)
    vnOpencount := Function.update s.vnOpencount vn (s.vnOpencount vn + 1) }

theorem placeFile_spec {mode : Int} {l : Nat} (hft : s.tFileTable = some ft)
    (hroom : ∃ i, ft i = none) (hl : s.locks l = none) (hf : f.fLock = some l) :
    Sat K (placeFile vn mode e) (e.midway s vn (Function.update s.locks l (some false)) f)
      fun r t => r = .ok 0 ∧ t = { e.after s vn with tFileTable := some (addFile ft e.stray).1 } := by
  have hadded := (addFile_added ft e.stray).2 hroom
  simp only [placeFile, Env.midway, sat_bind]
  refine (sat_storeFile (by exact Function.update_self ..)).2 ?_
  simp only [fileTable, sat_bind, sat_get, hft, sat_pure, sat_modify, hadded, if_true]
  refine (sat_loadFile (by exact Function.update_self ..)).2 ?_
  simp only [lockDestroy, loadLock, hf, sat_bind, sat_get, Function.update_self, sat_pure, sat_modify]
  refine (sat_kfreeFile (by exact Function.update_self ..)).2 ?_
  apply sat_vfsClose (s := s) rfl rfl
  simp [Env.after, ← hl]

theorem sysOpen_spec (mode : Int) (hft : s.tFileTable = some ft) (hvn : e.vfsOpen = .ok vn)
    (hroom : ∃ i, ft i = none) : Sat (fun _ => ¬ e.Lucky s) (sysOpen mode e) s fun r t => e.Lucky s ∧
      (e.NoLock s → r = .error .enomem ∧ t = e.after s vn) ∧ (¬ e.NoLock s → r = .ok 0 ∧
        t = { e.after s vn with tFileTable := some (addFile ft e.stray).1 }) := by
  simp only [sysOpen, hvn, sat_bind, sat_ofExcept, opened, sat_modify]
  apply sat_kmallocFile
  intro _
  dsimp only
  rw [Env.lucky_iff]
  cases hf : e.blocks s.files e.stray with
  | none =>
    -- the first store through `file`, whatever `lock_create` returned
    by_cases hlock : e.NoLock s
    · exact (sat_lockCreate_none (by exact hlock)).2 ((sat_storeFile_wild hf).2 (by simp))
    · obtain ⟨l, hl, hfree⟩ : ∃ l, e.lock = some l ∧ s.locks l = none := by
        simpa [Env.NoLock] using hlock
      exact (sat_lockCreate_some hl (by exact hfree)).2 ((sat_storeFile_wild hf).2 (by simp))
  | some f =>
    by_cases hlock : e.NoLock s
    · refine (sat_lockCreate_none (by exact hlock)).2 ((sat_storeFile hf).2 ?_)
      simp only [if_true, sat_bind]
      apply sat_vfsClose (s := s) rfl rfl
      refine (sat_kfreeFile (by exact Function.update_self ..)).2 ?_
      simp [hlock, Env.after]
    · obtain ⟨l, hl, hfree⟩ : ∃ l, e.lock = some l ∧ s.locks l = none := by
        simpa [Env.NoLock] using hlock
      refine (sat_lockCreate_some hl (by exact hfree)).2 ((sat_storeFile hf).2 ?_)
      refine Sat.mono (placeFile_spec (f := { f with fLock := some l }) hft hroom hfree rfl) ?_
      rintro r t ⟨hr, ht⟩
      simp [hlock, hr, ht]

theorem sysOpen_fails {mode : Int} {err : Errno} (h : e.vfsOpen = .error err) :
    sysOpen mode e s = .ok (.error err, s) := by
  rw [sysOpen, h]
  rfl

theorem checkValid_ok (hft : s.tFileTable = some ft) : checkValid s = .ok (.ok (), s) := by
  simp [checkValid, Prog.bind_apply, Prog.get, hft]
  rfl

/-- With an empty table there is nothing to close. -/
theorem sysClose_stops (hft : s.tFileTable = some .empty) (fd : Int) : ∃ p, sysClose fd e s = .error p := by
  by_cases h : 0 ≤ fd ∧ fd < maxOpenFiles
  · refine ⟨.wild, ?_⟩
    simp [sysClose, Prog.bind_apply, checkValid_ok hft, fileTable, Prog.get, hft, slot, h, loadFile]
    rfl
  · refine ⟨.outside, ?_⟩
    simp [sysClose, Prog.bind_apply, checkValid_ok hft, fileTable, Prog.get, hft, slot, h]
    rfl

theorem sysDup2_refuses {newfd : Int} (hft : s.tFileTable = some ft) (oldfd : Int)
    (h : maxOpenFiles < newfd) : sysDup2 oldfd newfd e s = .ok (.error .ebadf, s) := by
  simp [sysDup2, Prog.bind_apply, checkValid_ok hft, fileTable, Prog.get, hft, h]
  rfl

theorem sysDup2_stops {newfd : Int} (hft : s.tFileTable = some .empty) (oldfd : Int) (h : newfd ≤ maxOpenFiles) :
    ∃ p, sysDup2 oldfd newfd e s = .error p := by
  have h : ¬ maxOpenFiles < newfd := by omega
  by_cases hn : 0 ≤ newfd ∧ newfd < maxOpenFiles
  · by_cases ho : 0 ≤ oldfd ∧ oldfd < maxOpenFiles
    · refine ⟨.wild, ?_⟩
      simp [sysDup2, Prog.bind_apply, checkValid_ok hft, fileTable, Prog.get, hft, h, slot, hn, ho, loadFile]
      rfl
    · refine ⟨.outside, ?_⟩
      simp [sysDup2, Prog.bind_apply, checkValid_ok hft, fileTable, Prog.get, hft, h, slot, hn, ho]
      rfl
  · refine ⟨.outside, ?_⟩
    simp [sysDup2, Prog.bind_apply, checkValid_ok hft, fileTable, Prog.get, hft, h, slot, hn]
    rfl

end Specs

/-! ## The table -/

section Integrity

variable {s t : Process} {x : FileEvent} {c : FileCall} {e : Env}

theorem not_holds_empty (hft : s.tFileTable = some .empty) (fd : Int) (p : Nat) : ¬ s.Holds fd (some p) := by
  rintro ⟨ft, h, i, -, hp⟩
  cases hft.symm.trans h
  exact nomatch hp

theorem holds_addFile {p : Nat} (hft : s.tFileTable = some ft) (h : ft = (addFile .empty p).1) :
    s.Holds 0 (some p) := by
  refine ⟨ft, hft, 0, rfl, ?_⟩
  rw [h, addFile_slot]
  simp [FileTable.empty]

section

variable (hs : s.tFileTable = some .empty)
include hs

/-- A call that fails and leaves an empty table empty is in order, if `EBADF` and `EMFILE` are. -/
theorem Kept.of_error {err : Errno} (ht : t.tFileTable = some .empty)
    (hopen : ∀ mode vn, c = .open mode → e.vfsOpen = .ok vn → ¬ e.Allocates s)
    (hbad : (∀ mode, c ≠ .open mode) → err = .ebadf) : Kept s c e (.error err) t where
  opened _ _ _ h := nomatch h
  full mode vn hc hvn hal := (hopen mode vn hc hvn hal).elim
  duped _ _ _ _ h := nomatch h
  closed _ _ _ h := nomatch h
  badDup _ _ hc _ := by rw [hbad (by simp [hc])]
  badClose _ hc _ := by rw [hbad (by simp [hc])]
  failed _ _ := ht.trans hs.symm
  live fd p h := (not_holds_empty ht fd p h).elim

theorem run_of_calm (hc : Calm s x) : ∃ err t, x.1.run x.2 s = .ok (.error err, t) ∧ t.tFileTable = some .empty ∧
    ((∀ mode, x.1 ≠ .open mode) → err = .ebadf) := by
  obtain ⟨c, e⟩ := x
  cases c with
  | close fd => exact hc.elim
  | dup2 oldfd newfd => exact ⟨.ebadf, s, sysDup2_refuses hs oldfd hc, hs, fun _ => rfl⟩
  | «open» mode =>
    cases hvn : e.vfsOpen with
    | error err => exact ⟨err, s, sysOpen_fails hvn, hs, fun h => (h mode rfl).elim⟩
    | ok vn =>
      obtain ⟨hlock, hlucky⟩ := hc vn hvn
      obtain ⟨r, t, hrun, -, hno, -⟩ :=
        ((sysOpen_spec mode hs hvn ⟨0, rfl⟩).weaken fun _ h => h hlucky : Sat (fun _ => False) _ _ _).exists_ok
      obtain ⟨rfl, rfl⟩ := hno hlock
      exact ⟨_, _, hrun, hs, fun h => (h mode rfl).elim⟩

/-- On an empty table the calls that do no harm are the ones that keep their promises. -/
theorem integrity_iff : Integrity s x ↔ Calm s x := by
  constructor
  · rintro ⟨r, t, hrun, K⟩
    obtain ⟨c, e⟩ := x
    cases c with
    | close fd =>
      obtain ⟨p, hp⟩ := sysClose_stops (e := e) hs fd
      exact nomatch hp.symm.trans hrun
    | dup2 oldfd newfd =>
      by_contra h
      obtain ⟨p, hp⟩ := sysDup2_stops (e := e) hs oldfd (Int.not_lt.1 h)
      exact nomatch hp.symm.trans hrun
    | «open» mode =>
      intro vn hvn
      obtain ⟨hlucky, -, hfill⟩ := (sysOpen_spec mode hs hvn ⟨0, rfl⟩).of_ok hrun
      refine ⟨?_, hlucky⟩
      by_contra hlock
      obtain ⟨-, rfl⟩ := hfill hlock
      -- slot 0 holds the file that was just freed
      exact K.live 0 e.stray (holds_addFile rfl rfl) (by simp [Env.after])
  · intro hc
    obtain ⟨err, t, hrun, ht, hbad⟩ := run_of_calm hs hc
    refine ⟨_, t, hrun, .of_error hs ht ?_ hbad⟩
    intro mode vn hopen hvn ⟨_, l, hl, hfree⟩
    unfold Calm at hc
    rw [hopen] at hc
    exact (hc vn hvn).1 l hl hfree

theorem calm_keeps_empty (hc : Calm s x) (hn : fileNext s x = some t) : t.tFileTable = some .empty := by
  obtain ⟨err, u, hrun, hu, -⟩ := run_of_calm hs hc
  have htu : u = t := by simpa [fileNext, hrun] using hn
  exact htu ▸ hu

end

end Integrity

/-- In a sequence of calls by a process with an empty table every call keeps its promises exactly as
long as no `sys_open` gets a lock, no call closes a descriptor and no call duplicates one to
`MAX_OPEN_FILES` or below. -/
theorem integrity_iff_calm {s : Process} (hs : s.tFileTable = some .empty) (xs : List FileEvent) :
    Along fileNext Integrity s xs ↔ Along fileNext Calm s xs :=
  along_iff (I := fun s => s.tFileTable = some .empty) hs calm_keeps_empty integrity_iff xs

/-- A process that has opened nothing yet. -/
def freshProcess : Process where
  tFileTable := some .empty
  files _ := none
  locks _ := none
  vnRefcount _ := 0
  vnOpencount _ := 0
  contents _ := ⟨fun _ => 0, 0⟩
  user _ := 0

/-- Everything `sys_open` asks for is there, and `file` happens to point to the block that `kmalloc`
returns. -/
def luckyEnv : Env where
  vfsOpen := .ok 7
  block := some (1, ⟨0, none, 0, 0, 0⟩)
  lock := some 2
  stray := 1

theorem luckyEnv_opens (mode : Int) : sysOpen mode luckyEnv freshProcess =
    .ok (.ok 0, { luckyEnv.after freshProcess 7 with tFileTable := some (addFile .empty 1).1 }) := by
  have hlucky : luckyEnv.Lucky freshProcess := .inr ⟨_, rfl⟩
  have hlock : ¬ luckyEnv.NoLock freshProcess := fun h => h 2 rfl rfl
  obtain ⟨r, t, hrun, -, -, h⟩ := ((sysOpen_spec mode (s := freshProcess) (e := luckyEnv) rfl rfl ⟨0, rfl⟩).weaken
    fun _ h => h hlucky : Sat (fun _ => False) _ _ _).exists_ok
  obtain ⟨rfl, rfl⟩ := h hlock
  exact hrun

/-- The first `sys_open` fills all slots with one file and frees it. A descriptor that is not open
stops `sys_close`, and `MAX_OPEN_FILES` makes `sys_dup2` read beyond the table. -/
theorem open_fills_table : (∃ t, sysOpen 0 luckyEnv freshProcess = .ok (.ok 0, t) ∧
      (∀ ft, t.tFileTable = some ft → ∀ i, ft i = some 1) ∧ t.files 1 = none) ∧
    sysClose 0 {} freshProcess = .error .wild ∧ sysClose (-1) {} freshProcess = .error .outside ∧
    sysDup2 0 20 {} freshProcess = .error .outside := by
  refine ⟨⟨_, luckyEnv_opens 0, ?_, rfl⟩, rfl, rfl, rfl⟩
  intro ft hft i
  cases hft
  rw [addFile_slot]
  rfl

/-- A failing `vfs_open`, a descriptor beyond the table, and a `sys_open` that gets no lock. -/
def calmCalls : List FileEvent :=
  [(.open 0, {}), (.dup2 0 21, {}), (.open 0, { luckyEnv with lock := none })]

theorem calmCalls_keep_table : freshProcess.tFileTable = some .empty ∧ Along fileNext Integrity freshProcess calmCalls := by
  refine ⟨rfl, (integrity_iff_calm rfl calmCalls).2 ⟨nofun, ?_⟩⟩
  intro t ht
  cases ht
  refine ⟨show ((maxOpenFiles : Nat) : Int) < 21 by decide, ?_⟩
  intro t ht
  cases ht
  exact ⟨fun _ _ => ⟨nofun, .inr ⟨_, rfl⟩⟩, fun _ _ => trivial⟩

/-! ## The counts -/

def Process.Refers (s : Process) (vn : Nat) : Prop :=
  ∃ fd p f, s.Holds fd (some p) ∧ s.files p = some f ∧ f.fVnode = vn

def Process.UsesLock (s : Process) (l : Nat) : Prop :=
  ∃ fd p f, s.Holds fd (some p) ∧ s.files p = some f ∧ f.fLock = some l

/-- The state `t` that calls have reached from `b`: whatever a descriptor refers to is still open,
and everything else is as it was before the calls. -/
structure Balanced (b t : Process) : Prop where
  file : ∀ fd p, t.Holds fd (some p) → ∃ f, t.files p = some f
  vnode : ∀ vn, t.Refers vn → 1 ≤ t.vnOpencount vn ∧ 1 ≤ t.vnRefcount vn
  refcount : ∀ vn, ¬ t.Refers vn → t.vnRefcount vn = b.vnRefcount vn
  opencount : ∀ vn, ¬ t.Refers vn → t.vnOpencount vn = b.vnOpencount vn
  files : ∀ p, (∀ fd, ¬ t.Holds fd (some p)) → t.files p = b.files p
  locks : ∀ l, ¬ t.UsesLock l → t.locks l = b.locks l

/-- The descriptors of the call are valid. -/
def ValidFds (s : Process) (x : FileEvent) : Prop :=
  match x.1 with
  | .open _ => True
  | .dup2 oldfd newfd => (∃ p, s.Holds oldfd (some p)) ∧ s.Holds newfd none
  | .close fd => ∃ p, s.Holds fd (some p)

/-- The call returns, so that no assertion fired and nothing was freed twice, and all is balanced.
-/
def Balances (b s : Process) (x : FileEvent) : Prop :=
  ∃ r t, x.1.run x.2 s = .ok (r, t) ∧ Balanced b t

/-- `vfs_open` fails; or there is no lock, and `file` happens to point to the block that `kmalloc`
has just returned, and the vnode goes if it was not in memory before. -/
def Undone (s : Process) (x : FileEvent) : Prop :=
  ∀ vn, x.2.vfsOpen = .ok vn → x.2.NoLock s ∧ (∃ f, x.2.block = some (x.2.stray, f) ∧ s.files x.2.stray = none) ∧
    (0 < s.vnRefcount vn ∨ x.2.reclaim = true)

section Balance

variable {b s t : Process} {x : FileEvent} {e : Env} {vn : Nat}

theorem not_refers_empty (hft : s.tFileTable = some .empty) (vn : Nat) : ¬ s.Refers vn := by
  rintro ⟨fd, p, f, h, -⟩
  exact not_holds_empty hft fd p h

theorem Balanced.refl (hb : b.tFileTable = some .empty) : Balanced b b where
  file fd p h := (not_holds_empty hb fd p h).elim
  vnode vn h := (not_refers_empty hb vn h).elim
  refcount _ _ := rfl
  opencount _ _ := rfl
  files _ _ := rfl
  locks _ _ := rfl

/-- What is left of a `sys_open` without a lock. -/
theorem after_eq_iff (hlucky : e.Lucky s) : (e.after s vn).files = s.files ∧ (e.after s vn).vnRefcount = s.vnRefcount ↔
    (∃ f, e.block = some (e.stray, f) ∧ s.files e.stray = none) ∧ (0 < s.vnRefcount vn ∨ e.reclaim = true) := by
  apply and_congr
  · constructor
    · intro h
      have hnone : s.files e.stray = none := (congrFun h e.stray).symm.trans (Function.update_self ..)
      obtain ⟨f, hf⟩ := hlucky.resolve_left (not_not.2 hnone)
      exact ⟨f, hf, hnone⟩
    · rintro ⟨f, hf, hnone⟩
      simp [Env.after, Env.blocks, hf, hnone]
  · unfold Env.after Env.counts
    by_cases h : 0 < s.vnRefcount vn ∨ e.reclaim = true
    · simp [h]
    · simp only [h, if_false, iff_false]
      intro heq
      have := congrFun heq vn
      simp only [Function.update_self] at this
      omega

theorem after_eq_self (h : (e.after s vn).files = s.files ∧ (e.after s vn).vnRefcount = s.vnRefcount) :
    e.after s vn = s := by
  obtain ⟨hfiles, hcounts⟩ := h
  simp only [Env.after] at hfiles hcounts ⊢
  rw [hfiles, hcounts]

section

variable (hb : b.tFileTable = some .empty) (hv : ValidFds b x)
include hb hv

theorem isOpen_of_empty : ∃ mode, x.1 = .open mode := by
  obtain ⟨c, e⟩ := x
  cases c with
  | close fd =>
    obtain ⟨p, hp⟩ := hv
    exact (not_holds_empty hb fd p hp).elim
  | dup2 oldfd newfd =>
    obtain ⟨⟨p, hp⟩, -⟩ := hv
    exact (not_holds_empty hb oldfd p hp).elim
  | «open» mode => exact ⟨mode, rfl⟩

/-- A `sys_open` that undoes what it did leaves nothing behind. -/
theorem run_of_undone (hu : Undone b x) : ∃ r, x.1.run x.2 b = .ok (r, b) := by
  obtain ⟨mode, hopen⟩ := isOpen_of_empty hb hv
  rw [hopen]
  obtain ⟨c, e⟩ := x
  cases hvn : e.vfsOpen with
  | error err => exact ⟨_, sysOpen_fails hvn⟩
  | ok vn =>
    obtain ⟨hlock, hfresh, hgoes⟩ := hu vn hvn
    have hlucky : e.Lucky b := .inr ⟨hfresh.choose, hfresh.choose_spec.1⟩
    obtain ⟨r, t, hrun, -, hno, -⟩ :=
      ((sysOpen_spec mode hb hvn ⟨0, rfl⟩).weaken fun _ h => h hlucky : Sat (fun _ => False) _ _ _).exists_ok
    obtain ⟨-, rfl⟩ := hno hlock
    have hback := after_eq_self ((after_eq_iff hlucky).2 ⟨hfresh, hgoes⟩)
    rw [hback] at hrun
    exact ⟨r, hrun⟩

theorem balances_iff : Balances b b x ↔ Undone b x := by
  constructor
  · rintro ⟨r, t, hrun, B⟩ vn hvn
    obtain ⟨mode, hopen⟩ := isOpen_of_empty hb hv
    rw [hopen] at hrun
    obtain ⟨c, e⟩ := x
    obtain ⟨hlucky, hno, hfill⟩ := (sysOpen_spec mode hb hvn ⟨0, rfl⟩).of_ok hrun
    by_cases hlock : e.NoLock b
    · obtain ⟨-, rfl⟩ := hno hlock
      have hfiles : (e.after b vn).files = b.files :=
        funext fun p => B.files p fun fd => not_holds_empty (s := e.after b vn) hb fd p
      have hcounts : (e.after b vn).vnRefcount = b.vnRefcount :=
        funext fun a => B.refcount a (not_refers_empty (s := e.after b vn) hb a)
      exact ⟨hlock, (after_eq_iff hlucky).1 ⟨hfiles, hcounts⟩⟩
    · obtain ⟨-, rfl⟩ := hfill hlock
      obtain ⟨f, hf⟩ := B.file 0 e.stray (holds_addFile rfl rfl)
      simp [Env.after] at hf
  · intro hu
    obtain ⟨r, hrun⟩ := run_of_undone hb hv hu
    exact ⟨r, b, hrun, .refl hb⟩

theorem undone_keeps (hu : Undone b x) (hn : fileNext b x = some t) : t = b := by
  obtain ⟨r, hrun⟩ := run_of_undone hb hv hu
  simpa [fileNext, hrun, eq_comm] using hn

end

end Balance

/-- A sequence of calls on valid descriptors by a process with an empty table keeps opens and closes
in balance exactly as long as every `sys_open` in it fails and undoes what it did. -/
theorem balanced_iff_undone {b : Process} (hb : b.tFileTable = some .empty) {xs : List FileEvent}
    (hv : Along fileNext ValidFds b xs) : Along fileNext (Balances b) b xs ↔ Along fileNext Undone b xs := by
  have hboth : Along fileNext (fun s x => ValidFds s x ∧ Balances b s x) b xs ↔
      Along fileNext (fun s x => ValidFds s x ∧ Undone s x) b xs := by
    refine along_iff (I := (· = b)) rfl ?_ ?_ xs
    · rintro s x t rfl ⟨hv, hu⟩ hn
      exact undone_keeps hb hv hu hn
    · rintro s x rfl
      exact and_congr_right fun hv => balances_iff hb hv
  simpa only [along_and, hv, true_and] using hboth

/-- A vnode has lost both its counts while every slot still has the file that was opened on it, and
the file has been freed: the first `sys_close` uses it. -/
theorem open_closes_vnode :
    (∃ t, sysOpen 0 luckyEnv freshProcess = .ok (.ok 0, t) ∧ t.Holds 0 (some 1) ∧ t.files 1 = none ∧
      t.vnRefcount 7 = 0 ∧ t.vnOpencount 7 = 0 ∧ sysClose 0 {} t = .error .wild) ∧
    ¬ Along fileNext (Balances freshProcess) freshProcess [(.open 0, luckyEnv)] := by
  refine ⟨⟨_, luckyEnv_opens 0, holds_addFile rfl rfl, rfl, rfl, rfl, rfl⟩, ?_⟩
  rintro ⟨⟨r, t, hrun, B⟩, -⟩
  cases (luckyEnv_opens 0).symm.trans hrun
  obtain ⟨f, hf⟩ := B.file 0 1 (holds_addFile rfl rfl)
  cases hf

/-- Two calls that fail, one of them for want of a lock. -/
theorem failed_opens_balance : Along fileNext ValidFds freshProcess [(.open 0, {}), (.open 0, { luckyEnv with lock := none })] ∧
    Along fileNext (Balances freshProcess) freshProcess [(.open 0, {}), (.open 0, { luckyEnv with lock := none })] := by
  have hv : Along fileNext ValidFds freshProcess [(.open 0, {}), (.open 0, { luckyEnv with lock := none })] :=
    ⟨trivial, fun _ _ => ⟨trivial, fun _ _ => trivial⟩⟩
  refine ⟨hv, (balanced_iff_undone rfl hv).2 ⟨nofun, ?_⟩⟩
  intro t ht
  cases ht
  exact ⟨fun _ _ => ⟨nofun, ⟨_, rfl, rfl⟩, .inr rfl⟩, fun _ _ => trivial⟩

end Os161.Userprog
