import Mathlib.Algebra.GroupWithZero.Nat
import Os161.Lib.Prog
import Os161.Lib.Run
import Mathlib.Data.Fintype.Card
import Mathlib.Logic.Function.Basic

/-!
# Process ids

`kern/thread/pid_factory.c`, and `sys_waitpid` and `sys_exit` of `kern/userprog/process.c`, read as
they were designed: `available_pids[i]` is an `int`, all pids are available after `pid_init`, and
`mypid` and `mypidinfo` in `pid_create` are the same pointer. The info block that `pid_create` fills
is not put into the table `pidinfo`, so the table is left out of the first part.

The calls of the first part are made one after another, each by some thread. A call that needs a
lock which another thread still holds from an earlier call waits for ever (`blocked`).
-/
namespace Os161.Userprog

open Lib Prog

def maxPids : Nat := 50

instance : NeZero maxPids := ⟨by decide⟩

inductive PidLock where
  | pidLock | freePidLock | pidCountLock
  deriving DecidableEq, Repr

structure PidFactory where
  pidCount : Int
  availablePids : Fin maxPids → Int
  /-- The thread that holds a lock. -/
  holder : PidLock → Option Nat

inductive PidStop where
  | doubleDip | notOwner | blocked
  deriving DecidableEq, Repr

/-- The ways in which `pid_create` fails; as a `pid_t` the first is 0 and the second is 4. -/
inductive PidError where
  | maxReached | enomem
  deriving DecidableEq, Repr

abbrev PidM := Prog PidStop PidError PidFactory

def pidInit : PidFactory := ⟨0, fun _ => 1, fun _ => none⟩

def pidLockAcquire (me : Nat) (l : PidLock) : PidM Unit := do
  let s ← Prog.get
  match s.holder l with
  | none => Prog.modify fun s => { s with holder := Function.update s.holder l (some me) }
  | some h => Prog.stop (if h = me then .doubleDip else .blocked)

def pidLockRelease (me : Nat) (l : PidLock) : PidM Unit := do
  let s ← Prog.get
  Prog.check (s.holder l = some me) .notOwner
  Prog.modify fun s => { s with holder := Function.update s.holder l none }

/-- The search in `get_available_pid`. -/
def firstAvailable (a : Fin maxPids → Int) : Option (Fin maxPids) :=
  (List.finRange maxPids).find? fun i => a i ≠ 0

/-- `get_available_pid` releases its lock only where it finds nothing. -/
def getAvailablePid (me : Nat) : PidM (Option (Fin maxPids)) := do
  pidLockAcquire me .freePidLock
  let s ← Prog.get
  match firstAvailable s.availablePids with
  | some i => pure (some i)
  | none => do
    pidLockRelease me .freePidLock
    pure none

/-- `memory` tells whether `kmalloc` succeeds. A search that found nothing is reported and otherwise
ignored; its `NULL` is the pid 0. -/
def pidCreate (me : Nat) (memory : Bool) : PidM (Fin maxPids) := do
  pidLockAcquire me .pidCountLock
  let s ← Prog.get
  if s.pidCount ≥ maxPids then do
    pidLockRelease me .pidCountLock
    Prog.raise .maxReached
  else do
    pidLockRelease me .pidCountLock
    if memory = false then Prog.raise .enomem
    else do
      let found ← getAvailablePid me
      let newPid := found.getD 0
      pidLockAcquire me .pidCountLock
      Prog.modify fun s => { s with pidCount := s.pidCount + 1 }
      pidLockRelease me .pidCountLock
      pure newPid

def pidDestroy (me : Nat) (pid : Fin maxPids) : PidM Unit := do
  pidLockAcquire me .pidCountLock
  Prog.modify fun s => { s with pidCount := s.pidCount - 1 }
  pidLockRelease me .pidCountLock
  pidLockAcquire me .freePidLock
  Prog.modify fun s => { s with availablePids := Function.update s.availablePids pid 0 }
  pidLockRelease me .freePidLock

/-! ## Sequences of calls -/

/-- The factory, and the pids of the processes that exist. -/
structure Pids where
  factory : PidFactory
  live : List (Fin maxPids)

/-- A call by the thread `me`, with enough memory. -/
inductive PidCall where
  | create (me : Nat)
  | destroy (me : Nat) (pid : Fin maxPids)

/-- How a call ends: a pid is created or refused, or one is destroyed. -/
inductive PidReply where
  | created (pid : Fin maxPids) | refused | destroyed
  deriving DecidableEq, Repr

def PidCall.run (x : Pids) : PidCall → Except PidStop (PidReply × Pids)
  | .create me => match pidCreate me true x.factory with
    | .error p => .error p
    | .ok (.ok pid, t) => .ok (.created pid, ⟨t, pid :: x.live⟩)
    | .ok (.error _, t) => .ok (.refused, ⟨t, x.live⟩)
  | .destroy me pid => match pidDestroy me pid x.factory with
    | .error p => .error p
    | .ok (_, t) => .ok (.destroyed, ⟨t, x.live.erase pid⟩)

def pidNext (x : Pids) (c : PidCall) : Option Pids :=
  match c.run x with
  | .error _ => none
  | .ok (_, y) => some y

/-- Only live pids are destroyed. -/
def PidCall.Valid (x : Pids) : PidCall → Prop
  | .create _ => True
  | .destroy _ pid => pid ∈ x.live

/-- Live pids are distinct, the map is right about the others, the count is their number, and no
lock is held. -/
structure Accounted (x : Pids) : Prop where
  nodup : x.live.Nodup
  available : ∀ i, x.factory.availablePids i = 1 ↔ i ∉ x.live
  count : x.factory.pidCount = x.live.length
  unlocked : ∀ l, x.factory.holder l = none

/-- The call returns, leaves everything accounted for, and refuses a pid exactly if there is none,
without a change. -/
def PidCall.Honoured (x : Pids) (c : PidCall) : Prop :=
  ∃ r y, c.run x = .ok (r, y) ∧ Accounted y ∧ (r = .refused → y = x) ∧
    ∀ me, c = .create me → (r = .refused ↔ x.live.length = maxPids)

/-- A `pid_create` that finds all pids in use. -/
def PidCall.TooMany (x : Pids) (c : PidCall) : Prop := (∃ me, c = .create me) ∧ x.live.length = maxPids

section Specs

variable {x y : Pids} {c : PidCall} {s : PidFactory} {K : PidStop → Prop} {me : Nat} {l : PidLock}

theorem sat_pidLockAcquire {Q : Except PidError Unit → PidFactory → Prop} (h : s.holder l = none) :
    Sat K (pidLockAcquire me l) s Q ↔ Q (.ok ()) { s with holder := Function.update s.holder l (some me) } := by
  simp [pidLockAcquire, h]

theorem sat_pidLockRelease {Q : Except PidError Unit → PidFactory → Prop} (h : s.holder l = some me) :
    Sat K (pidLockRelease me l) s Q ↔ Q (.ok ()) { s with holder := Function.update s.holder l none } := by
  simp [pidLockRelease, h]

theorem update_update_holder (h : s.holder l = none) :
    Function.update (Function.update s.holder l (some me)) l none = s.holder := by
  rw [Function.update_idem, ← h, Function.update_eq_self]

theorem pidCreate_refuses (me : Nat) (hcount : s.pidCount = maxPids) (hfree : s.holder .pidCountLock = none) :
    Sat K (pidCreate me true) s fun r t => r = .error .maxReached ∧ t = s := by
  have hfull : s.pidCount ≥ maxPids := hcount.ge
  simp only [pidCreate, sat_bind]
  refine (sat_pidLockAcquire hfree).2 ?_
  simp only [sat_get, hfull, if_true, sat_bind]
  refine (sat_pidLockRelease (by simp)).2 ?_
  simp [update_update_holder hfree]

/-- A `pid_create` that finds a pid returns with the lock of the map held. -/
theorem pidCreate_holds {i : Fin maxPids} (me : Nat) (hcount : s.pidCount < maxPids) (hfree : ∀ l, s.holder l = none)
    (hfound : firstAvailable s.availablePids = some i) :
    Sat K (pidCreate me true) s fun r t => r = .ok i ∧ t.holder .freePidLock = some me ∧
      t.availablePids = s.availablePids := by
  have hroom : ¬ s.pidCount ≥ maxPids := not_le.2 hcount
  simp only [pidCreate, sat_bind]
  refine (sat_pidLockAcquire (hfree _)).2 ?_
  simp only [sat_get, hroom, if_false, sat_bind]
  refine (sat_pidLockRelease (by simp)).2 ?_
  simp only [Bool.true_eq_false, if_false, getAvailablePid, sat_bind, update_update_holder (hfree _)]
  refine (sat_pidLockAcquire (by exact hfree _)).2 ?_
  simp only [sat_get, hfound, sat_pure]
  refine (sat_pidLockAcquire (by simp [hfree])).2 ?_
  simp only [sat_modify]
  refine (sat_pidLockRelease (by simp)).2 ?_
  simp

theorem pidDestroy_spec (me : Nat) (pid : Fin maxPids) (hfree : ∀ l, s.holder l = none) :
    Sat K (pidDestroy me pid) s fun r t => r = .ok () ∧ t.availablePids pid = 0 := by
  simp only [pidDestroy, sat_bind]
  refine (sat_pidLockAcquire (hfree _)).2 ?_
  simp only [sat_modify]
  refine (sat_pidLockRelease (by simp)).2 ?_
  refine (sat_pidLockAcquire (by simp [hfree])).2 ?_
  refine (sat_pidLockRelease (by simp)).2 ?_
  simp

end Specs

section Accounting

variable {x y : Pids} {c : PidCall}

theorem Accounted.length_le (A : Accounted x) : x.live.length ≤ maxPids := by
  simpa using A.nodup.length_le_card

/-- While there are fewer than `MAX_PIDS` live pids the search finds one. -/
theorem Accounted.exists_first (A : Accounted x) (h : x.live.length < maxPids) :
    ∃ i, firstAvailable x.factory.availablePids = some i := by
  obtain ⟨i, hi⟩ : ∃ i, i ∉ x.live := by
    by_contra hall
    have hsub : List.finRange maxPids ⊆ x.live := by
      intro i _
      by_contra hi
      exact hall ⟨i, hi⟩
    have := (List.nodup_finRange maxPids).length_le_of_subset hsub
    simp at this
    omega
  have hone : x.factory.availablePids i = 1 := (A.available i).2 hi
  have hsome : (firstAvailable x.factory.availablePids).isSome := by
    rw [firstAvailable, List.find?_isSome]
    exact ⟨i, List.mem_finRange i, by simp [hone]⟩
  exact Option.isSome_iff_exists.1 hsome

/-- The only call that leaves everything accounted for is one that is refused. -/
theorem honoured_iff (A : Accounted x) (hv : c.Valid x) : c.Honoured x ↔ c.TooMany x := by
  cases c with
  | create me =>
    by_cases hfull : x.live.length = maxPids
    · have hcount : x.factory.pidCount = maxPids := by rw [A.count, hfull]
      obtain ⟨r, t, hrun, rfl, rfl⟩ := (pidCreate_refuses me hcount (A.unlocked _)).exists_ok
      refine iff_of_true ⟨.refused, x, ?_, A, fun _ => rfl, fun _ _ => by simp [hfull]⟩ ⟨⟨me, rfl⟩, hfull⟩
      simp [PidCall.run, hrun]
    · have hlt := lt_of_le_of_ne A.length_le hfull
      have hcount : x.factory.pidCount < maxPids := by
        rw [A.count]
        exact_mod_cast hlt
      obtain ⟨i, hi⟩ := A.exists_first hlt
      obtain ⟨r, t, hrun, rfl, hheld, -⟩ := (pidCreate_holds me hcount A.unlocked hi).exists_ok
      refine iff_of_false ?_ fun h => hfull h.2
      rintro ⟨r, y, hcall, A', -⟩
      simp only [PidCall.run, hrun, Except.ok.injEq, Prod.mk.injEq] at hcall
      obtain ⟨-, rfl⟩ := hcall
      exact nomatch hheld.symm.trans (A'.unlocked .freePidLock)
  | destroy me pid =>
    obtain ⟨r, t, hrun, rfl, hzero⟩ := (pidDestroy_spec me pid A.unlocked).exists_ok
    refine iff_of_false ?_ fun h => nomatch h.1
    rintro ⟨r, y, hcall, A', -⟩
    simp only [PidCall.run, hrun, Except.ok.injEq, Prod.mk.injEq] at hcall
    obtain ⟨-, rfl⟩ := hcall
    -- the pid is not live any more, and the map says that it is not available
    have hone := (A'.available pid).2 A.nodup.not_mem_erase
    exact absurd (hzero.symm.trans hone) (by decide)

theorem tooMany_keeps (A : Accounted x) (hc : c.TooMany x) (hn : pidNext x c = some y) : y = x := by
  obtain ⟨⟨me, rfl⟩, hfull⟩ := hc
  have hcount : x.factory.pidCount = maxPids := by rw [A.count, hfull]
  obtain ⟨r, t, hrun, rfl, rfl⟩ := (pidCreate_refuses me hcount (A.unlocked _)).exists_ok
  simpa [pidNext, PidCall.run, hrun] using hn.symm

end Accounting

/-- From a state in which all pids are accounted for, a sequence of calls keeps them so exactly if
all its calls are `pid_create`s that are made while all pids are in use. -/
theorem accounted_iff_tooMany {x : Pids} (A : Accounted x) {cs : List PidCall}
    (hv : Along pidNext (fun x c => c.Valid x) x cs) :
    Along pidNext (fun x c => c.Honoured x) x cs ↔ Along pidNext (fun x c => c.TooMany x) x cs := by
  have hboth : Along pidNext (fun x c => c.Valid x ∧ c.Honoured x) x cs ↔
      Along pidNext (fun x c => c.Valid x ∧ c.TooMany x) x cs := by
    refine along_iff (I := Accounted) A ?_ ?_ cs
    · intro x c y A hc hn
      exact tooMany_keeps A hc.2 hn ▸ A
    · intro x c A
      exact and_congr_right (honoured_iff A)
  simpa only [along_and, hv, true_and] using hboth

/-- The first `pid_create` returns with a lock held and its pid still available. The next one panics
if it is made by the same thread, and waits for ever if it is made by another. -/
theorem pid_create_keeps_lock : ∃ y, (PidCall.create 1).run ⟨pidInit, []⟩ = .ok (.created 0, y) ∧
    y.factory.holder .freePidLock = some 1 ∧ y.factory.availablePids 0 = 1 ∧
    (PidCall.create 1).run y = .error .doubleDip ∧ (PidCall.create 2).run y = .error .blocked :=
  ⟨_, rfl, rfl, rfl, rfl, rfl⟩

/-- All pids are in use. -/
def allLive : Pids := ⟨⟨50, fun _ => 0, fun _ => none⟩, List.finRange maxPids⟩

theorem create_refused : Accounted allLive ∧ Along pidNext (fun x c => c.Honoured x) allLive [.create 1] := by
  have A : Accounted allLive :=
    ⟨List.nodup_finRange _, fun i => by simp [allLive], rfl, fun _ => rfl⟩
  have hfull : (PidCall.create 1).TooMany allLive := ⟨⟨1, rfl⟩, by simp [allLive]⟩
  have hv : Along pidNext (fun x c => c.Valid x) allLive [.create 1] := ⟨trivial, fun _ _ => trivial⟩
  exact ⟨A, (accounted_iff_tooMany A hv).2 ⟨hfull, fun _ _ => trivial⟩⟩

/-! ## Exit and wait -/

structure PidInfo where
  myPid : Int
  dadPid : Int
  exited : Int
  exitStatus : Int
  deriving DecidableEq, Repr

/-- What has become of a process; the status is the one it exited with. -/
inductive Life where
  | unused | running | exited (status : Int)
  deriving DecidableEq, Repr

/-- The table `pidinfo`, and the processes. -/
structure Procs where
  pidinfo : Fin maxPids → Option PidInfo
  life : Fin maxPids → Life

inductive WaitStop where
  | threadPanic | wild
  deriving DecidableEq, Repr

def getPidinfo (pidinfo : Fin maxPids → Option PidInfo) (pid : Fin maxPids) : Except WaitStop PidInfo :=
  match pidinfo pid with
  | none => .error .wild
  | some info => .ok info

def sysWaitpid (pidinfo : Fin maxPids → Option PidInfo) (wpid : Int) : Except WaitStop Int :=
  if h : 0 ≤ wpid ∧ wpid < maxPids then
    match getPidinfo pidinfo ⟨wpid.toNat, by omega⟩ with
    | .error p => .error p
    | .ok info => .ok (if info.exited ≠ 0 then info.exitStatus else -1)
  else .error .threadPanic

/-- `sys_exit` takes no status; it stores a zero. `exited` is not set. -/
def sysExit (pidinfo : Fin maxPids → Option PidInfo) (pid : Fin maxPids) : Except WaitStop (Fin maxPids → Option PidInfo) :=
  match getPidinfo pidinfo pid with
  | .error p => .error p
  | .ok info => .ok (Function.update pidinfo pid (some { info with exitStatus := 0 }))

inductive ProcEvent where
  /-- The process exits with a status. -/
  | exit (p : Fin maxPids) (status : Int)
  /-- `p` waits for `q`, which is a process that exists. -/
  | wait (p q : Fin maxPids) (result : Int)
  /-- The pid of a process that has exited is destroyed. -/
  | destroy (p q : Fin maxPids)

/-- The process that makes the call. -/
def ProcEvent.caller : ProcEvent → Fin maxPids
  | .exit p _ | .wait p _ _ | .destroy p _ => p

inductive ProcStep : Procs → ProcEvent → Procs → Prop
  | exit {x : Procs} {p : Fin maxPids} {status : Int} {table : Fin maxPids → Option PidInfo} :
      x.life p = .running → sysExit x.pidinfo p = .ok table →
      ProcStep x (.exit p status) ⟨table, Function.update x.life p (.exited status)⟩
  | wait {x : Procs} {p q : Fin maxPids} {result : Int} :
      x.life p = .running → x.life q ≠ .unused → sysWaitpid x.pidinfo q = .ok result →
      ProcStep x (.wait p q result) x
  | destroy {x : Procs} {p q : Fin maxPids} {status : Int} :
      x.life p = .running → x.life q = .exited status →
      ProcStep x (.destroy p q) { x with life := Function.update x.life q .unused }

/-- What a wait for `p` gives. -/
def Procs.Seen (x : Procs) (p : Fin maxPids) : Prop :=
  match x.life p with
  | .unused => True
  | .running => sysWaitpid x.pidinfo p = .ok (-1)
  | .exited status => (∃ info, x.pidinfo p = some info ∧ info.exited ≠ 0) ∧ sysWaitpid x.pidinfo p = .ok status

/-- A step after which every wait gives what it should, and which left the entries of other
processes alone. -/
def SeenStep (x : Procs) (e : ProcEvent) (y : Procs) : Prop :=
  ProcStep x e y ∧ (∀ p, y.Seen p) ∧ ∀ q, q ≠ e.caller → y.pidinfo q = x.pidinfo q

/-- Every process has its entry, and none has exited. -/
def Procs.Fresh (x : Procs) : Prop :=
  ∀ p, x.life p = .unused ∨ x.life p = .running ∧ ∃ info, x.pidinfo p = some info ∧ info.exited = 0

def ProcEvent.IsExit : ProcEvent → Prop
  | .exit _ _ => True
  | _ => False

section Waiting

variable {x y : Procs} {e : ProcEvent} {p : Fin maxPids}

theorem sysWaitpid_eq {info : PidInfo} (h : x.pidinfo p = some info) :
    sysWaitpid x.pidinfo p = .ok (if info.exited ≠ 0 then info.exitStatus else -1) := by
  have hp : (0 : Int) ≤ (p : Nat) ∧ ((p : Nat) : Int) < maxPids := by omega
  simp [sysWaitpid, hp, getPidinfo, h]

theorem Procs.Fresh.seen (F : x.Fresh) (p : Fin maxPids) : x.Seen p := by
  unfold Procs.Seen
  rcases F p with h | ⟨h, info, hinfo, hno⟩
  · simp only [h]
  · simp only [h, sysWaitpid_eq hinfo, hno, ne_eq, not_true_eq_false, if_false]

/-- While no process has exited, the steps that are seen are those of processes that do not exit. -/
theorem seenStep_iff (F : x.Fresh) : SeenStep x e y ↔ ProcStep x e y ∧ ¬ e.IsExit := by
  constructor
  · rintro ⟨hstep, hseen, -⟩
    refine ⟨hstep, ?_⟩
    cases hstep with
    | wait hp hq hw | destroy hp hq => exact not_false
    | @exit p status table hp hexit =>
      intro _
      -- the entry of `p` still says that it has not exited
      obtain ⟨info, hinfo, hno⟩ : ∃ info, x.pidinfo p = some info ∧ info.exited = 0 :=
        (F p).elim (fun h => nomatch hp.symm.trans h) And.right
      simp only [sysExit, getPidinfo, hinfo, Except.ok.injEq] at hexit
      subst hexit
      have h := hseen p
      simp only [Procs.Seen, Function.update_self] at h
      obtain ⟨⟨info', hinfo', hyes⟩, -⟩ := h
      cases hinfo'
      exact hyes hno
  · rintro ⟨hstep, hno⟩
    refine ⟨hstep, ?_⟩
    cases hstep with
    | exit hp hexit => exact (hno trivial).elim
    | wait hp hq hw => exact ⟨F.seen, fun _ _ => rfl⟩
    | @destroy p q status hp hq =>
      exfalso
      rcases F q with h | ⟨h, -⟩
      · exact nomatch hq.symm.trans h
      · exact nomatch hq.symm.trans h

theorem fresh_of_step (F : x.Fresh) (h : ProcStep x e y ∧ ¬ e.IsExit) : y.Fresh := by
  obtain ⟨hstep, hno⟩ := h
  cases hstep with
  | exit hp hexit => exact (hno trivial).elim
  | wait hp hq hw => exact F
  | @destroy p q status hp hq =>
    intro a
    by_cases ha : a = q
    · exact .inl (by simp [ha])
    · simpa [Function.update_of_ne ha] using F a

end Waiting

/-- In the runs of processes that have entries of their own, waits give what they should exactly as
long as no process exits. -/
theorem exits_seen_iff {x y : Procs} (F : x.Fresh) {tr : List ProcEvent} :
    Run SeenStep x tr y ↔ Run (fun x e y => ProcStep x e y ∧ ¬ e.IsExit) x tr y :=
  Run.iff_of_invariant (I := Procs.Fresh) F fresh_of_step seenStep_iff

def twoProcs : Procs where
  pidinfo p := if p = 1 ∨ p = 2 then some ⟨p, 0, 0, 0⟩ else none
  life p := if p = 1 ∨ p = 2 then .running else .unused

theorem fresh_twoProcs : twoProcs.Fresh := by
  intro p
  by_cases h : p = 1 ∨ p = 2
  · exact .inr ⟨if_pos h, _, if_pos h, rfl⟩
  · exact .inl (if_neg h)

/-- Process 1 exits with status 3, and a wait for it still says that it has not exited. -/
theorem exit_not_seen : ∃ y, ProcStep twoProcs (.exit 1 3) y ∧ y.life 1 = .exited 3 ∧
    sysWaitpid y.pidinfo 1 = .ok (-1) :=
  ⟨_, .exit rfl rfl, rfl, rfl⟩

theorem wait_seen : Run SeenStep twoProcs [.wait 2 1 (-1)] twoProcs :=
  (exits_seen_iff fresh_twoProcs).2 (.step .start ⟨.wait rfl (by decide) rfl, not_false⟩)

end Os161.Userprog
