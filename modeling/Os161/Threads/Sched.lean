import Os161.Threads.System

/-!
# The places of threads

What the thread system does, without the ring and the blocks of memory: who runs, who is ready, who
sleeps and who is dead, and the capacities of the three containers. Each call of the thread system
takes such a view to the next, and a call can only stop the machine when a container that has to
grow finds no memory.
-/
namespace Os161.Threads

open Lib Kern Prog

variable {A : Type}

structure Sched (A : Type) where
  thread : Nat → Thread A
  cur : Option Nat
  ready : List Nat
  asleep : List Nat
  dead : List Nat
  numthreads : Nat
  queueSize : Nat
  sleepersMax : Nat
  zombiesMax : Nat

def ThreadSys.sched (s : ThreadSys A) : Sched A where
  thread := s.thread
  cur := s.curthread
  ready := s.runqueue.elems
  asleep := s.sleepers.elems
  dead := s.zombies.elems
  numthreads := s.numthreads
  queueSize := s.runqueue.size
  sleepersMax := s.sleepers.max
  zombiesMax := s.zombies.max

structure ThreadSys.Valid (s : ThreadSys A) : Prop where
  runqueue : s.runqueue.Valid s.runqueue.elems
  sleepers : s.sleepers.Valid
  zombies : s.zombies.Valid

/-- Few enough threads that the containers can grow. Every thread but the first has a stack of 4096
bytes, so that an address space of 32 bits has room for fewer than `2 ^ 20` of them. -/
structure Sched.Small (v : Sched A) : Prop where
  runnable : v.ready.length + v.asleep.length ≤ 2 ^ 20
  dead : v.dead.length ≤ 2 ^ 20
  numthreads : v.numthreads ≤ 2 ^ 20
  queueSize : v.queueSize ≤ 2 ^ 22
  sleepersMax : v.sleepersMax ≤ 2 ^ 22
  zombiesMax : v.zombiesMax ≤ 2 ^ 22

/-- The capacity `m'` of a container of capacity `m` that took an element after `n` others. -/
structure Grows (n m m' : Nat) : Prop where
  le : m ≤ m'
  bound : m' ≤ max m (2 * (n + 1))
  keeps : n < m → m' = m

variable {s : ThreadSys A} {v : Sched A} {t : Nat}

/-! ## Containers -/

section Containers

variable {p : CArray Nat × Supply Nat} {n : Nat}

theorem CArray.fits_of_le {a : CArray Nat} (hm : a.max ≤ 2 ^ 22) (hn : n ≤ 2 ^ 23) : a.Fits n := by
  have := grownMax_le (n := n) (m := a.max)
  unfold CArray.Fits
  omega

theorem Queue.doubles_of_le {q : Queue Nat} (hm : q.size ≤ 2 ^ 22) (hn : n ≤ 2 ^ 23) : q.Doubles n := by
  have := grownSize_le (n := q.size) (t := n)
  unfold Queue.Doubles
  omega

/-- An array takes an element as it is when it has room, and grows otherwise. -/
theorem arrayAdd_grows (h : p.1.Valid) (hm : p.1.max ≤ 2 ^ 22) : Sat NoFault (arrayAdd t) p fun r p' => p'.1.Valid ∧
    ((r = .error .enomem ∧ p'.1 = p.1 ∧ p.1.elems.length = p.1.max) ∨
      (r = .ok () ∧ p'.1.elems = p.1.elems ++ [t] ∧ Grows p.1.elems.length p.1.max p'.1.max)) := by
  have hnum := h.num_le
  have hle := le_grownMax (a := p.1) (n := p.1.num + 1)
  have hbound := grownMax_le (n := p.1.num + 1) (m := p.1.max)
  rw [h.length_elems]
  refine (arrayAdd_spec h (CArray.fits_of_le hm (by omega))).mono ?_
  rintro r p' (⟨rfl, hp, hfull, -⟩ | ⟨rfl, hv, helems, -, hgrow, hkeep⟩)
  · exact ⟨hp ▸ h, .inl ⟨rfl, hp, hfull⟩⟩
  · refine ⟨hv, .inr ⟨rfl, helems, ?_⟩⟩
    by_cases hlt : p.1.num < p.1.max
    · have := (hkeep hlt).1
      exact ⟨by omega, by omega, fun _ => this⟩
    · have := hgrow (by omega)
      exact ⟨by omega, by omega, by omega⟩

theorem arrayPreallocate_grows (h : p.1.Valid) (hm : p.1.max ≤ 2 ^ 22) (hn : n ≤ 2 ^ 23) :
    Sat NoFault (arrayPreallocate n) p fun r p' =>
      p'.1.Valid ∧ p'.1.elems = p.1.elems ∧ p.1.max ≤ p'.1.max ∧ p'.1.max ≤ max p.1.max (2 * n) ∧
        ((r = .error .enomem) ∨ (r = .ok () ∧ n ≤ p'.1.max ∧ p'.1.max = grownMax n p.1.max)) := by
  have hfit : p.1.Fits n := CArray.fits_of_le hm hn
  have hle := le_grownMax (a := p.1) (n := n)
  have hbound := grownMax_le (n := n) (m := p.1.max)
  have htarget := target_le_grownMax hfit
  refine (arrayPreallocate_spec h n hfit).mono ?_
  rintro r p' (⟨rfl, hp, -⟩ | ⟨rfl, hv, helems, -, hmax⟩)
  · rw [hp]
    exact ⟨h, rfl, Nat.le_refl _, Nat.le_max_left _ _, .inl rfl⟩
  · rw [Int.toNat_natCast] at hmax
    exact ⟨hv, helems, by omega, by omega, .inr ⟨rfl, by omega, hmax⟩⟩

end Containers

namespace Sched

def addReady (v : Sched A) (t q : Nat) : Sched A := { v with ready := v.ready ++ [t], queueSize := q }
def addAsleep (v : Sched A) (t m : Nat) : Sched A :=
  { v with asleep := v.asleep ++ [t], sleepersMax := m }
def addDead (v : Sched A) (t m : Nat) : Sched A := { v with dead := v.dead ++ [t], zombiesMax := m }
def setThread (v : Sched A) (t : Nat) (th : Thread A) : Sched A :=
  { v with thread := Function.update v.thread t th }
def setPcb (v : Sched A) (t : Nat) (pcb : Pcb) : Sched A :=
  v.setThread t { v.thread t with tPcb := pcb }
def setSleepaddr (v : Sched A) (t : Nat) (addr : Option A) : Sched A :=
  v.setThread t { v.thread t with tSleepaddr := addr }
def setOwn (v : Sched A) (t : Nat) (vmspace cwd : Option Nat) : Sched A :=
  v.setThread t { v.thread t with tVmspace := vmspace, tCwd := cwd }


def leave (v : Sched A) (t : Nat) (pcb : Pcb) : Sched A := { v with cur := none }.setPcb t pcb

/-- What `exorcise` leaves: the block of more than 16 slots is given back. -/
def exorcised (v : Sched A) : Sched A :=
  { v with dead := [], zombiesMax := if 16 < v.zombiesMax then 0 else v.zombiesMax }

/-- Unless it is new, a thread that comes to run disposes of the dead ones. -/
def switchedIn (v : Sched A) (t : Nat) : Pcb → Sched A
  | .threadstart => v
  | .sleep => v.exorcised.setSleepaddr t none
  | _ => v.exorcised

def resumed (v : Sched A) (t : Nat) (rest : List Nat) : Sched A :=
  { v with cur := some t, ready := rest }.switchedIn t (v.thread t).tPcb

/-- The sleepers that stay and those that wake up, when the threads that `f` selects are taken out.
With `one`, the sleeper after one that was taken out is passed over. -/
def scan (f : Nat → Bool) (one : Bool) : Bool → List Nat → List Nat × List Nat
  | _, [] => ([], [])
  | true, t :: l => (t :: (scan f one false l).1, (scan f one false l).2)
  | false, t :: l =>
    if f t then ((scan f one one l).1, t :: (scan f one one l).2)
    else (t :: (scan f one false l).1, (scan f one false l).2)

variable [DecidableEq A]

def sleepsOn (v : Sched A) (addr : A) (t : Nat) : Bool := (v.thread t).tSleepaddr = some addr

/-- The sleepers on an address are woken: all of them, or with `one` not the one after each. -/
def woken (v : Sched A) (addr : A) (one : Bool) : List Nat × List Nat :=
  scan (v.sleepsOn addr) one false v.asleep

def wake (v : Sched A) (addr : A) (one : Bool) (q : Nat) : Sched A :=
  { v with asleep := (v.woken addr one).1, ready := v.ready ++ (v.woken addr one).2, queueSize := q }

end Sched

namespace ThreadSys.Valid

section

variable (h : s.Valid)
include h

theorem putRunqueue {p : Queue Nat × Supply Nat} {l : List Nat} (hp : p.1.Valid l) :
    (ThreadSys.putRunqueue p s).Valid ∧
      (ThreadSys.putRunqueue p s).sched = { s.sched with ready := l, queueSize := p.1.size } := by
  have hl : p.1.elems = l := hp.elems_eq
  subst hl
  exact ⟨⟨hp, h.sleepers, h.zombies⟩, rfl⟩

theorem putSleepers {p : CArray Nat × Supply Nat} (hp : p.1.Valid) :
    (ThreadSys.putSleepers p s).Valid ∧ (ThreadSys.putSleepers p s).sched =
      { s.sched with asleep := p.1.elems, sleepersMax := p.1.max } :=
  ⟨⟨h.runqueue, hp, h.zombies⟩, rfl⟩

theorem putZombies {p : CArray Nat × Supply Nat} (hp : p.1.Valid) :
    (ThreadSys.putZombies p s).Valid ∧ (ThreadSys.putZombies p s).sched =
      { s.sched with dead := p.1.elems, zombiesMax := p.1.max } :=
  ⟨⟨h.runqueue, h.sleepers, hp⟩, rfl⟩

theorem asleep_length : s.sched.asleep.length = s.sleepers.num :=
  h.sleepers.length_elems

theorem dead_length : s.sched.dead.length = s.zombies.num := h.zombies.length_elems

theorem setThread {th : Thread A} : (s.setThread t th).Valid :=
  ⟨h.runqueue, h.sleepers, h.zombies⟩

theorem setNumthreads {n : Nat} : (s.setNumthreads n).Valid :=
  ⟨h.runqueue, h.sleepers, h.zombies⟩

end

end ThreadSys.Valid

section Small

variable {K : ThreadPanic → Prop} (h : s.Valid) (hs : s.sched.Small)
include h hs

theorem makeRunnable_spec : Sat K (makeRunnable t) s fun r s' => s'.Valid ∧
      ((r = .error .enomem ∧ s'.sched = s.sched ∧ s.sched.ready.length + 1 = s.sched.queueSize) ∨
        ∃ q, r = .ok () ∧ s'.sched = s.sched.addReady t q ∧ Grows (s.sched.ready.length + 1) s.sched.queueSize q) := by
  have hsize : s.runqueue.size ≤ 2 ^ 22 := hs.queueSize
  have hfit : s.runqueue.Doubles (s.runqueue.size + 1) := Queue.doubles_of_le hsize (by omega)
  simp only [makeRunnable, onRunqueue, sat_focus]
  refine ((qAddtail_spec h.runqueue fun _ => hfit).weaken fun _ => False.elim).mono ?_
  rintro r ⟨q, m⟩ (⟨rfl, rfl, hfull⟩ | ⟨rfl, hv, hle, hbound, hkeeps⟩)
  · exact ⟨⟨h.runqueue, h.sleepers, h.zombies⟩, .inl ⟨rfl, rfl, hfull⟩⟩
  · obtain ⟨hvalid, hsched⟩ := h.putRunqueue (p := (q, m)) hv
    refine ⟨hvalid, .inr ⟨q.size, rfl, hsched, hle, ?_, fun hlt => (hkeeps hlt).1⟩⟩
    exact Nat.le_trans hbound (by simp only [ThreadSys.sched]; omega)

theorem addSleeper_spec : Sat K (onSleepers (arrayAdd t)) s fun r s' => s'.Valid ∧
      ((r = .error .enomem ∧ s'.sched = s.sched ∧ s.sched.asleep.length = s.sched.sleepersMax) ∨
        ∃ m, r = .ok () ∧ s'.sched = s.sched.addAsleep t m ∧ Grows s.sched.asleep.length s.sched.sleepersMax m) := by
  simp only [onSleepers, sat_focus]
  refine ((arrayAdd_grows h.sleepers hs.sleepersMax).weaken fun _ => False.elim).mono ?_
  rintro r ⟨a, m⟩ ⟨hv, ⟨rfl, rfl, hfull⟩ | ⟨rfl, helems, hgrows⟩⟩
  · exact ⟨⟨h.runqueue, h.sleepers, h.zombies⟩, .inl ⟨rfl, rfl, hfull⟩⟩
  · obtain ⟨hvalid, hsched⟩ := h.putSleepers (p := (a, m)) hv
    exact ⟨hvalid, .inr ⟨a.max, rfl, by rw [hsched, helems]; rfl, hgrows⟩⟩

theorem addZombie_spec : Sat K (onZombies (arrayAdd t)) s fun r s' => s'.Valid ∧
      ((r = .error .enomem ∧ s'.sched = s.sched ∧ s.sched.dead.length = s.sched.zombiesMax) ∨
        ∃ m, r = .ok () ∧ s'.sched = s.sched.addDead t m ∧ Grows s.sched.dead.length s.sched.zombiesMax m) := by
  simp only [onZombies, sat_focus]
  refine ((arrayAdd_grows h.zombies hs.zombiesMax).weaken fun _ => False.elim).mono ?_
  rintro r ⟨a, m⟩ ⟨hv, ⟨rfl, rfl, hfull⟩ | ⟨rfl, helems, hgrows⟩⟩
  · exact ⟨⟨h.runqueue, h.sleepers, h.zombies⟩, .inl ⟨rfl, rfl, hfull⟩⟩
  · obtain ⟨hvalid, hsched⟩ := h.putZombies (p := (a, m)) hv
    exact ⟨hvalid, .inr ⟨a.max, rfl, by rw [hsched, helems]; rfl, hgrows⟩⟩

omit h hs in
theorem sat_assertZero {m : ThreadM A Unit} {p : ThreadPanic}
    {Q : Except Errno Unit → ThreadSys A → Prop} :
    Sat K (assertZero m p) s Q ↔ Sat K m s fun r s' => match r with
      | .ok _ => Q (.ok ()) s'
      | .error _ => K p := by
  unfold assertZero
  simp only [sat_bind, sat_attempt]
  refine ⟨fun h => h.mono ?_, fun h => h.mono ?_⟩
  all_goals
    rintro (e | a) s' hr
    all_goals exact hr

/-! ## Giving up the processor -/

omit h hs in
theorem threadYield_none (hcur : s.curthread = none) :
    Sat K threadYield s fun r s' => r = .ok () ∧ s' = s := by
  simp only [threadYield, miSwitch, sat_bind, sat_get, hcur]
  exact ⟨rfl, rfl⟩

section

variable {cur : Nat} (hcur : s.curthread = some cur)
include hcur

theorem threadYield_spec : Sat (fun p => p = .switchReady ∧ s.sched.ready.length + 1 = s.sched.queueSize)
    threadYield s fun r s' => r = .ok () ∧ s'.Valid ∧ ∃ q, Grows (s.sched.ready.length + 1) s.sched.queueSize q ∧
        s'.sched = (s.sched.leave cur .yield).addReady cur q := by
  simp only [threadYield, miSwitch, sat_bind, sat_get, hcur, sat_modify, stash, sat_assertZero]
  refine (makeRunnable_spec (s := (s.setCurthread none).setPcb cur .yield)
    ⟨h.runqueue, h.sleepers, h.zombies⟩ ⟨hs.1, hs.2, hs.3, hs.4, hs.5, hs.6⟩).mono ?_
  rintro r s' ⟨hv, ⟨rfl, -, hfull⟩ | ⟨q, rfl, hsched, hgrows⟩⟩
  · exact ⟨trivial, hfull⟩
  · exact ⟨trivial, hv, q, hgrows, hsched⟩

theorem threadSleep_spec {addr : A} : Sat (fun p => p = .switchSleep ∧ s.sched.asleep.length = s.sched.sleepersMax)
    (threadSleep addr) s fun r s' => r = .ok () ∧ s'.Valid ∧ ∃ m, Grows s.sched.asleep.length s.sched.sleepersMax m ∧
        s'.sched = ((s.sched.setSleepaddr cur (some addr)).leave cur .sleep).addAsleep cur m := by
  have hcur' : (s.setSleepaddr cur (some addr)).curthread = some cur := hcur
  simp only [threadSleep, theCurthread, miSwitch, sat_bind, sat_get, hcur, hcur',
    sat_pure, sat_modify, stash, sat_assertZero]
  refine (addSleeper_spec (s := ((s.setSleepaddr cur (some addr)).setCurthread none).setPcb cur .sleep)
    ⟨h.runqueue, h.sleepers, h.zombies⟩ ⟨hs.1, hs.2, hs.3, hs.4, hs.5, hs.6⟩).mono ?_
  rintro r s' ⟨hv, ⟨rfl, -, hfull⟩ | ⟨m, rfl, hsched, hgrows⟩⟩
  · exact ⟨trivial, hfull⟩
  · exact ⟨trivial, hv, m, hgrows, hsched⟩

theorem threadExit_spec (hnum : 0 < s.numthreads) :
    Sat (fun p => p = .switchZomb ∧ s.sched.dead.length = s.sched.zombiesMax)
      threadExit s fun r s' => r = .ok () ∧ s'.Valid ∧ ∃ m, Grows s.sched.dead.length s.sched.zombiesMax m ∧
          s'.sched = ({ s.sched.setOwn cur none none with numthreads := s.numthreads - 1 }.leave cur
            .exit).addDead cur m := by
  have hnum' : 0 < (s.setOwn cur none none).numthreads := hnum
  have hcur' : ((s.setOwn cur none none).setNumthreads
      ((s.setOwn cur none none).numthreads - 1)).curthread = some cur := hcur
  simp only [threadExit, theCurthread, miSwitch, sat_bind, sat_get, hcur, hcur',
    sat_pure, sat_modify, sat_check, if_pos hnum', stash, sat_assertZero]
  refine (addZombie_spec (s := (((s.setOwn cur none none).setNumthreads
      ((s.setOwn cur none none).numthreads - 1)).setCurthread none).setPcb cur .exit)
    ⟨h.runqueue, h.sleepers, h.zombies⟩
    ⟨hs.1, hs.2, Nat.le_trans (Nat.sub_le _ _) hs.3, hs.4, hs.5, hs.6⟩).mono ?_
  rintro r s' ⟨hv, ⟨rfl, -, hfull⟩ | ⟨m, rfl, hsched, hgrows⟩⟩
  · exact ⟨trivial, hfull⟩
  · exact ⟨trivial, hv, m, hgrows, hsched⟩

end

end Small

/-! ## Disposing of the dead -/

/-- The assertions of `exorcise` and `thread_destroy`. -/
def Sched.Disposable (v : Sched A) (z : Nat) : Prop :=
  v.cur ≠ some z ∧ (v.thread z).tVmspace = none ∧ (v.thread z).tCwd = none

section Small

variable {K : ThreadPanic → Prop} (h : s.Valid) (hs : s.sched.Small)

include h in
theorem destroyFrom_spec (hd : ∀ z ∈ s.sched.dead, s.sched.Disposable z) {n i : Nat} (hn : i + n ≤ s.zombies.num) :
    Sat K (destroyFrom n i) s fun r s' => r = .ok () ∧ s' = s := by
  induction n generalizing i with
  | zero => exact ⟨rfl, rfl⟩
  | succ n ih =>
    unfold destroyFrom
    simp only [onZombies, sat_bind, sat_focus]
    refine ((arrayGetguy_spec (i := i) h.zombies (by simp only; omega)).weaken fun _ => False.elim).mono ?_
    rintro r p ⟨z, rfl, hz, rfl⟩
    obtain ⟨hne, hvm, hcwd⟩ := hd z (List.mem_of_getElem? hz)
    have hput : ThreadSys.putZombies (s.zombies, s.memory) s = s := rfl
    simp only [hput, threadDestroy, sat_bind, sat_get, sat_check]
    simp only [ThreadSys.sched] at hne hvm hcwd
    rw [if_pos hne, if_pos hne, if_pos hvm, if_pos hcwd]
    exact ih (by omega)

include h hs

theorem exorcise_spec (hd : ∀ z ∈ s.sched.dead, s.sched.Disposable z) :
    Sat K exorcise s fun r s' => r = .ok () ∧ s'.Valid ∧ s'.sched = s.sched.exorcised := by
  simp only [exorcise, sat_bind, sat_get]
  refine (destroyFrom_spec h hd (by omega)).mono ?_
  rintro r s' ⟨rfl, hs'⟩
  simp only [hs', sat_assertZero, onZombies, sat_focus]
  refine ((arraySetsize_spec h.zombies (CArray.fits_of_le hs.zombiesMax (by omega))).weaken fun _ => False.elim).mono ?_
  rintro r ⟨a, m⟩ (⟨rfl, -, hlt, -⟩ | ⟨rfl, hv, hsized, -, -, hmax, -⟩)
  · exact absurd hlt (Nat.not_lt_zero _)
  · obtain ⟨hvalid, hsched⟩ := h.putZombies (p := (a, m)) hv
    have hnil : a.elems = [] := by
      obtain ⟨-, e⟩ | ⟨ext, e, hlen⟩ := hsized
      · exact e
      · exact List.length_eq_zero_iff.1 hlen
    have hmax' : a.max = if 16 < s.zombies.max then 0 else s.zombies.max := hmax rfl
    refine ⟨trivial, hvalid, ?_⟩
    rw [hsched, hnil]
    simp only [hmax']
    rfl

theorem switchIn_spec {pcb : Pcb}
    (hpcb : pcb ≠ .exit) (hd : ∀ z ∈ s.sched.dead, s.sched.Disposable z) : Sat K (switchIn t pcb) s fun r s' =>
      r = .ok () ∧ s'.Valid ∧ s'.sched = s.sched.switchedIn t pcb := by
  cases pcb with
  | threadstart => exact ⟨rfl, h, rfl⟩
  | yield => exact exorcise_spec h hs hd
  | sleep =>
    simp only [switchIn, sat_bind]
    refine (exorcise_spec h hs hd).mono ?_
    rintro r s' ⟨rfl, hv, hsched⟩
    simp only [sat_modify]
    refine ⟨trivial, hv.setThread, ?_⟩
    rw [Sched.switchedIn, ← hsched]
    rfl
  | exit => exact absurd rfl hpcb

theorem resume_spec {rest : List Nat}
    (hready : s.sched.ready = t :: rest) (hpcb : (s.thread t).tPcb ≠ .exit)
    (hd : ∀ z ∈ s.sched.dead, { s.sched with cur := some t }.Disposable z) : Sat K resume s fun r s' =>
      r = .ok () ∧ s'.Valid ∧ s'.sched = s.sched.resumed t rest := by
  have hq : s.runqueue.Valid (t :: rest) := hready ▸ h.runqueue
  simp only [resume, scheduler, onRunqueue, sat_bind, sat_focus]
  refine ((qRemhead_spec hq).weaken fun _ => False.elim).mono ?_
  rintro r ⟨q, m⟩ ⟨rfl, hv, hsize, -⟩
  have hsize' : q.size = s.sched.queueSize := hsize
  have helems : q.elems = rest := hv.elems_eq
  simp only [sat_modify, sat_get]
  have hu : ((ThreadSys.putRunqueue (q, m) s).setCurthread (some t)).sched =
      { s.sched with cur := some t, ready := rest } := by
    simp only [← helems, ← hsize']
    rfl
  have hlen := hs.runnable
  rw [hready, List.length_cons] at hlen
  have hin := switchIn_spec (K := K) (s := (ThreadSys.putRunqueue (q, m) s).setCurthread (some t))
    (t := t) ⟨helems.symm ▸ hv, h.sleepers, h.zombies⟩
    (hu ▸ ⟨by simp only; omega, hs.2, hs.3, hs.4, hs.5, hs.6⟩) hpcb (hu ▸ hd)
  rw [hu] at hin
  exact hin

end Small

/-! ## New threads -/

/-- The same threads in containers that are no smaller. -/
structure Sched.Enlarged (v w : Sched A) : Prop where
  eq : w = { v with
    queueSize := w.queueSize, sleepersMax := w.sleepersMax, zombiesMax := w.zombiesMax }
  queueSize : v.queueSize ≤ w.queueSize
  sleepersMax : v.sleepersMax ≤ w.sleepersMax
  zombiesMax : v.zombiesMax ≤ w.zombiesMax
  small : w.Small

/-- The room that `thread_fork` makes sure of. -/
structure Sched.Preallocated (v : Sched A) (n : Nat) (w : Sched A) : Prop where
  queueSize : n ≤ w.queueSize
  sleepersMax : n ≤ w.sleepersMax
  zombiesMax : w.zombiesMax = grownMax n v.zombiesMax

def Sched.newThread (v : Sched A) (newguy cur : Nat) : Sched A :=
  v.setThread newguy ⟨.threadstart, none, none, (v.thread cur).tCwd⟩

section Small

variable {K : ThreadPanic → Prop} {n : Nat} (h : s.Valid) (hs : s.sched.Small)
include h hs

theorem preallocateSleepers_spec (hn : n ≤ 2 ^ 20 + 1) :
    Sat K (onSleepers (arrayPreallocate n)) s fun r s' => s'.Valid ∧ s.sched.Enlarged s'.sched ∧
      (r = .error .enomem ∨
        (r = .ok () ∧ n ≤ s'.sched.sleepersMax ∧ s'.sched.zombiesMax = s.sched.zombiesMax)) := by
  simp only [onSleepers, sat_focus]
  refine ((arrayPreallocate_grows (n := n) h.sleepers hs.sleepersMax (by omega)).weaken fun _ => False.elim).mono ?_
  rintro r ⟨a, m⟩ ⟨hv, helems, hle, hbound, hr⟩
  obtain ⟨hvalid, hsched⟩ := h.putSleepers (p := (a, m)) hv
  have hsmall := hs.sleepersMax
  simp only [ThreadSys.sched] at hsmall
  refine ⟨hvalid, ?_, hr.imp_right fun hok => ⟨hok.1, hok.2.1, rfl⟩⟩
  rw [hsched, helems]
  exact ⟨rfl, Nat.le_refl _, hle, Nat.le_refl _, hs.1, hs.2, hs.3, hs.4, by simp only at hbound ⊢; omega, hs.6⟩

theorem preallocateZombies_spec (hn : n ≤ 2 ^ 20 + 1) :
    Sat K (onZombies (arrayPreallocate n)) s fun r s' => s'.Valid ∧ s.sched.Enlarged s'.sched ∧
      (r = .error .enomem ∨
        (r = .ok () ∧ s'.sched.zombiesMax = grownMax n s.sched.zombiesMax)) := by
  simp only [onZombies, sat_focus]
  refine ((arrayPreallocate_grows (n := n) h.zombies hs.zombiesMax (by omega)).weaken fun _ => False.elim).mono ?_
  rintro r ⟨a, m⟩ ⟨hv, helems, hle, hbound, hr⟩
  obtain ⟨hvalid, hsched⟩ := h.putZombies (p := (a, m)) hv
  have hsmall := hs.zombiesMax
  simp only [ThreadSys.sched] at hsmall
  refine ⟨hvalid, ?_, hr.imp_right fun hok => ⟨hok.1, hok.2.2⟩⟩
  rw [hsched, helems]
  exact ⟨rfl, Nat.le_refl _, Nat.le_refl _, hle, hs.1, hs.2, hs.3, hs.4, hs.5, by simp only at hbound ⊢; omega⟩

theorem schedulerPreallocate_spec (hn : n ≤ 2 ^ 20 + 1) :
    Sat K (schedulerPreallocate n) s fun r s' => s'.Valid ∧ s.sched.Enlarged s'.sched ∧
      (r = .error .enomem ∨
        (r = .ok () ∧ n ≤ s'.sched.queueSize ∧ s'.sched.zombiesMax = s.sched.zombiesMax)) := by
  have hsize : s.runqueue.size ≤ 2 ^ 22 := hs.queueSize
  simp only [schedulerPreallocate, onRunqueue, sat_focus]
  refine ((qPreallocate_spec h.runqueue n fun _ => Queue.doubles_of_le hsize (by omega)).weaken
    fun _ => False.elim).mono ?_
  rintro r ⟨q, m⟩ (⟨rfl, rfl⟩ | ⟨rfl, hv, hn', hle, hbound⟩)
  · exact ⟨⟨h.runqueue, h.sleepers, h.zombies⟩, ⟨rfl, Nat.le_refl _, Nat.le_refl _, Nat.le_refl _, hs⟩, .inl rfl⟩
  · obtain ⟨hvalid, hsched⟩ := h.putRunqueue (p := (q, m)) hv
    rw [Int.toNat_natCast] at hbound
    simp only at hn' hbound
    refine ⟨hvalid, ?_, .inr ⟨rfl, by rw [hsched]; simp only; omega, by rw [hsched]⟩⟩
    rw [hsched]
    exact ⟨rfl, hle, Nat.le_refl _, Nat.le_refl _, hs.1, hs.2, hs.3, by simp only; omega, hs.5, hs.6⟩

omit h hs in
theorem Sched.Enlarged.trans {u w : Sched A} (h : v.Enlarged w) (h' : w.Enlarged u) : v.Enlarged u where
  eq := by rw [h'.eq, h.eq]
  queueSize := Nat.le_trans h.queueSize h'.queueSize
  sleepersMax := Nat.le_trans h.sleepersMax h'.sleepersMax
  zombiesMax := Nat.le_trans h.zombiesMax h'.zombiesMax
  small := h'.small

theorem threadFork_spec {newguy cur : Nat}
    (hcur : s.curthread = some cur) (hnum : s.numthreads + 1 ≤ 2 ^ 20)
    (hrun : s.sched.ready.length + s.sched.asleep.length + 1 ≤ 2 ^ 20) :
    Sat K (threadFork (some newguy)) s fun r s' => s'.Valid ∧
      ((r = .error .enomem ∧ (s.sched.newThread newguy cur).Enlarged s'.sched) ∨
        (r = .ok () ∧ s.sched.Preallocated (s.numthreads + 1) s'.sched ∧ { s.sched.newThread newguy cur with
            ready := s.sched.ready ++ [newguy], numthreads := s.numthreads + 1 }.Enlarged s'.sched)) := by
  have hu : (s.setThread newguy ⟨.threadstart, none, none, (s.thread cur).tCwd⟩).sched =
    s.sched.newThread newguy cur := rfl
  have hsu : (s.sched.newThread newguy cur).Small := ⟨hs.1, hs.2, hs.3, hs.4, hs.5, hs.6⟩
  simp only [threadFork, theCurthread, sat_bind, sat_get, hcur, sat_pure, sat_modify]
  refine (preallocateSleepers_spec h.setThread (hu ▸ hsu) (Nat.le_succ_of_le hnum)).mono ?_
  rintro r s₁ ⟨hv₁, he₁, rfl | ⟨rfl, hn₁, hz₁⟩⟩
  · exact ⟨hv₁, .inl ⟨rfl, he₁⟩⟩
  refine (preallocateZombies_spec hv₁ he₁.small (Nat.le_succ_of_le hnum)).mono ?_
  rintro r s₂ ⟨hv₂, he₂, rfl | ⟨rfl, hz₂⟩⟩
  · exact ⟨hv₂, .inl ⟨rfl, he₁.trans he₂⟩⟩
  refine (schedulerPreallocate_spec hv₂ he₂.small (Nat.le_succ_of_le hnum)).mono ?_
  rintro r s₃ ⟨hv₃, he₃, rfl | ⟨rfl, hn₃, hz₃⟩⟩
  · exact ⟨hv₃, .inl ⟨rfl, (he₁.trans he₂).trans he₃⟩⟩
  have he := (he₁.trans he₂).trans he₃
  refine (makeRunnable_spec hv₃ he.small).mono ?_
  rintro r s₄ ⟨hv₄, ⟨rfl, hs₄, -⟩ | ⟨q, rfl, hs₄, hq⟩⟩
  · exact ⟨hv₄, .inl ⟨rfl, hs₄ ▸ he⟩⟩
  have hadded : (s₄.setNumthreads (s₄.numthreads + 1)).sched =
      { s₄.sched with numthreads := s₄.sched.numthreads + 1 } := rfl
  have hready : s₃.sched.ready = s.sched.ready := by rw [he.eq]; rfl
  have hbound := hq.bound
  refine ⟨hv₄.setNumthreads, .inr ⟨trivial, ?_, ?_⟩⟩
  · rw [hadded, hs₄]
    refine ⟨Nat.le_trans hn₃ hq.le, Nat.le_trans hn₁ (he₂.trans he₃).sleepersMax, ?_⟩
    rw [hz₁] at hz₂
    exact hz₃.trans hz₂
  · rw [hadded, hs₄]
    rw [hready] at hbound
    have hsmall : q ≤ 2 ^ 22 := by
      have := he.small.queueSize
      omega
    refine ⟨?_, Nat.le_trans he.queueSize hq.le, he.sleepersMax, he.zombiesMax, ?_⟩
    · rw [he.eq]
      rfl
    · rw [he.eq]
      refine ⟨?_, hs.2, hnum, hsmall, he.small.5, he.small.6⟩
      simp only [Sched.addReady, List.length_append, List.length_singleton]
      exact Nat.le_trans (Nat.le_of_eq (Nat.add_right_comm _ _ _)) hrun

end Small

/-! ## Waking up -/

theorem Grows.refl (n m : Nat) : Grows n m m :=
  ⟨Nat.le_refl m, Nat.le_max_left _ _, fun _ => rfl⟩

theorem Grows.trans {n k m m₁ m₂ : Nat} (h : Grows n m m₁) (h' : Grows k m₁ m₂) (hk : n ≤ k) : Grows k m m₂ := by
  obtain ⟨hle, hbound, hkeeps⟩ := h
  obtain ⟨hle', hbound', hkeeps'⟩ := h'
  exact ⟨by omega, by omega, fun hlt => by
    have := hkeeps (by omega)
    rw [this] at hkeeps'
    exact hkeeps' hlt⟩

theorem scan_false (f : Nat → Bool) (l : List Nat) :
    Sched.scan f false false l = (l.filter fun t => !f t, l.filter f) := by
  induction l with
  | nil => rfl
  | cons t l ih => cases hf : f t <;> simp [Sched.scan, hf, ih]

theorem scan_perm (f : Nat → Bool) (one skip : Bool) (l : List Nat) :
    ((Sched.scan f one skip l).2 ++ (Sched.scan f one skip l).1).Perm l := by
  induction l generalizing skip with
  | nil => simp [Sched.scan]
  | cons t l ih =>
    have hstay (skip : Bool) : ((Sched.scan f one skip l).2 ++ t :: (Sched.scan f one skip l).1).Perm
        (t :: l) := List.perm_middle.trans ((ih skip).cons t)
    cases skip with
    | true => exact hstay false
    | false =>
      unfold Sched.scan
      split
      · exact (ih one).cons t
      · exact hstay false

/-- Only the sleepers and the run queue may differ. -/
def ThreadSys.Moves (s s' : ThreadSys A) : Prop :=
  s' = { s with sleepers := s'.sleepers, runqueue := s'.runqueue, memory := s'.memory }

theorem ThreadSys.Moves.trans {s₁ s₂ : ThreadSys A} (h : s.Moves s₁) (h' : s₁.Moves s₂) : s.Moves s₂ := by
  unfold ThreadSys.Moves at *
  rw [h', h]

theorem ThreadSys.Moves.sched_eq {s' : ThreadSys A} (h : s.Moves s') : s'.sched = { s.sched with
    asleep := s'.sleepers.elems, ready := s'.runqueue.elems
    queueSize := s'.runqueue.size, sleepersMax := s'.sleepers.max } := by
  unfold ThreadSys.Moves at h
  rw [h]
  rfl

section Sleepers

variable {K : ThreadPanic → Prop} {i : Nat}

theorem sleepers_getguy (h : s.sleepers.Valid) (hi : i < s.sleepers.num) :
    Sat K (onSleepers (arrayGetguy i)) s fun r s' => ∃ t, r = .ok t ∧ s.sleepers.elems[i]? = some t ∧ s' = s := by
  simp only [onSleepers, sat_focus]
  refine ((arrayGetguy_spec h hi).weaken fun _ => False.elim).mono ?_
  rintro r p ⟨z, rfl, hz, rfl⟩
  exact ⟨z, rfl, hz, rfl⟩

theorem sleepers_remove (h : s.sleepers.Valid) (hi : i < s.sleepers.num) :
    Sat K (onSleepers (arrayRemove i)) s fun r s' => r = .ok () ∧ s'.sleepers.Valid ∧
      s'.sleepers.elems = s.sleepers.elems.eraseIdx i ∧ s'.sleepers.max = s.sleepers.max ∧
      s'.runqueue = s.runqueue ∧ s.Moves s' := by
  simp only [onSleepers, sat_focus]
  refine ((arrayRemove_spec h hi).weaken fun _ => False.elim).mono ?_
  rintro r ⟨a, m⟩ ⟨rfl, hv, helems, -, hmax, -⟩
  exact ⟨rfl, hv, helems, hmax, rfl, rfl⟩

end Sleepers

/-- The run queue holds the list, and grew from `m` at most as that needs. -/
def ValidGrown (m : Nat) (l : List Nat) (q : Queue Nat) : Prop := q.Valid l ∧ Grows l.length m q.size

theorem ValidGrown.add {K : ThreadPanic → Prop} {m : Nat} {l : List Nat}
    (h : ValidGrown m l s.runqueue) (hm : m ≤ 2 ^ 22) (hl : l.length + 1 ≤ 2 ^ 20) (hK : m ≤ l.length + 1 → K .wakeup) :
    Sat K (assertZero (makeRunnable t) .wakeup) s fun r s' => r = .ok () ∧
      ValidGrown m (l ++ [t]) s'.runqueue ∧ s'.sleepers = s.sleepers ∧ s.Moves s' := by
  obtain ⟨hv, hg⟩ := h
  have hle := hg.le
  have hbound := hg.bound
  have hfit : s.runqueue.Doubles (s.runqueue.size + 1) := Queue.doubles_of_le (by omega) (by omega)
  simp only [sat_assertZero, makeRunnable, onRunqueue, sat_focus]
  refine ((qAddtail_spec hv fun _ => hfit).weaken fun _ => False.elim).mono ?_
  rintro r ⟨q, mem⟩ (⟨rfl, -, hfull⟩ | ⟨rfl, hv', hle', hbound', hkeeps⟩)
  · simp only at hfull
    exact hK (by omega)
  · simp only at hv' hle' hbound' hkeeps
    have hgrows : Grows (l.length + 1) s.runqueue.size q.size :=
      ⟨hle', by omega, fun hlt => (hkeeps hlt).1⟩
    refine ⟨trivial, ⟨hv', ?_⟩, rfl, rfl⟩
    rw [List.length_append, List.length_singleton]
    exact hg.trans hgrows (Nat.le_succ _)

section Wakeup

variable [DecidableEq A] {addr : A}

/-- What the loop leaves when the run queue took the threads that make it `all`, and `kept` sleep
on. -/
structure Woke (J : List Nat → Queue Nat → Prop) (s : ThreadSys A) (all kept : List Nat)
    (s' : ThreadSys A) : Prop where
  runqueue : J all s'.runqueue
  sleepers : s'.sleepers.Valid
  asleep : s'.sleepers.elems = kept
  max : s'.sleepers.max = s.sleepers.max
  moves : s.Moves s'

/-- The loop over the sleepers, for whatever `J` is known of the run queue with its list. The run
queue takes the threads that wake up one by one; those of `rest` are still to be looked at, after
the first one if `skip`. -/
theorem wakeupFrom_rule {K : ThreadPanic → Prop} {J : List Nat → Queue Nat → Prop} {all : List Nat}
    {one : Bool} {after : Nat → Nat} (hafter : ∀ i, after i = i + one.toNat)
    (hadd : ∀ (u : ThreadSys A) (l : List Nat) (t : Nat), J l u.runqueue → l ++ [t] <+: all →
      Sat K (assertZero (makeRunnable t) .wakeup) u fun r u' => r = .ok () ∧
        J (l ++ [t]) u'.runqueue ∧ u'.sleepers = u.sleepers ∧ u.Moves u')
    (n : Nat) (skip : Bool) (done rest l : List Nat) (hq : J l s.runqueue) (h : s.sleepers.Valid)
    (hl : s.sleepers.elems = done ++ rest)
    (hall : l ++ (Sched.scan (s.sched.sleepsOn addr) one skip rest).2 = all) (hn : rest.length < n) :
    Sat K (wakeupFrom addr after n (done.length + skip.toNat)) s fun r s' => r = .ok () ∧
      Woke J s all (done ++ (Sched.scan (s.sched.sleepsOn addr) one skip rest).1) s' ∧
      ((Sched.scan (s.sched.sleepsOn addr) one skip rest).2 = [] → s' = s) := by
  induction n generalizing s skip done rest l with
  | zero => exact absurd hn (Nat.not_lt_zero _)
  | succ n ih =>
    have hnum := h.length_elems
    have finish (skip : Bool) {done : List Nat} (hl : s.sleepers.elems = done) (hall : l = all) :
        Sat K (wakeupFrom addr after (n + 1) (done.length + skip.toNat)) s fun r s' =>
          r = .ok () ∧ Woke J s all done s' ∧ s' = s := by
      unfold wakeupFrom
      simp only [sat_bind, sat_get]
      rw [if_neg (by rw [← hnum, hl]; omega)]
      exact ⟨rfl, ⟨hall ▸ hq, h, hl, rfl, rfl⟩, rfl⟩
    have look (done rest : List Nat) (hl : s.sleepers.elems = done ++ rest)
        (hall : l ++ (Sched.scan (s.sched.sleepsOn addr) one false rest).2 = all)
        (hn : rest.length < n + 1) :
        Sat K (wakeupFrom addr after (n + 1) done.length) s fun r s' => r = .ok () ∧
          Woke J s all (done ++ (Sched.scan (s.sched.sleepsOn addr) one false rest).1) s' ∧
          ((Sched.scan (s.sched.sleepsOn addr) one false rest).2 = [] → s' = s) := by
      cases rest with
      | nil => simpa [Sched.scan] using finish false (by simpa using hl) (by simpa [Sched.scan] using hall)
      | cons t rest =>
        rw [List.length_cons] at hn
        have hlen : s.sleepers.elems.length = done.length + (rest.length + 1) := by
          rw [hl, List.length_append, List.length_cons]
        unfold wakeupFrom
        simp only [sat_bind, sat_get]
        rw [if_pos (by omega)]
        simp only [sat_bind]
        refine (sleepers_getguy (i := done.length) h (by omega)).mono ?_
        rintro r s₁ ⟨u, rfl, hu, hs₁⟩
        have hut : u = t := by simpa [hl] using hu.symm
        simp only [hut, hs₁, sat_ite]
        split
        · next hf =>
          have hf' : s.sched.sleepsOn addr t = true := decide_eq_true hf
          have hscan : Sched.scan (s.sched.sleepsOn addr) one false (t :: rest) =
              ((Sched.scan (s.sched.sleepsOn addr) one one rest).1,
                t :: (Sched.scan (s.sched.sleepsOn addr) one one rest).2) := by
            simp only [Sched.scan, hf', if_true]
          rw [hscan] at hall ⊢
          simp only [sat_bind]
          refine (sleepers_remove (i := done.length) h (by omega)).mono ?_
          rintro r s₁ ⟨rfl, hv₁, helems₁, hmax₁, hq₁, hm₁⟩
          have hrest : s₁.sleepers.elems = done ++ rest := by
            rw [helems₁, hl, List.eraseIdx_append_of_length_le (Nat.le_refl _), Nat.sub_self, List.eraseIdx_cons_zero]
          have htail : l ++ [t] ++ (Sched.scan (s.sched.sleepsOn addr) one one rest).2 = all := by
            simpa using hall
          refine (hadd s₁ l t (hq₁ ▸ hq) ⟨_, htail⟩).mono ?_
          rintro r s₂ ⟨rfl, hq₂, hs₂, hm₂⟩
          have hm := hm₁.trans hm₂
          have hsame : s₂.sched.sleepsOn addr = s.sched.sleepsOn addr := by rw [hm]; rfl
          simp only [hafter]
          refine (ih one done rest (l ++ [t]) hq₂ (hs₂ ▸ hv₁) (hs₂ ▸ hrest) (hsame ▸ htail) (by omega)).mono ?_
          rintro r s₃ ⟨rfl, hw, -⟩
          refine ⟨rfl, ⟨hw.runqueue, hw.sleepers, hsame ▸ hw.asleep, ?_, hm.trans hw.moves⟩, by simp⟩
          rw [hw.max, hs₂, hmax₁]
        · next hf =>
          have hf' : s.sched.sleepsOn addr t = false := decide_eq_false hf
          have hrest := ih false (done ++ [t]) rest l hq h (by simpa using hl)
            (by simpa [Sched.scan, hf'] using hall) (by omega)
          simpa [Sched.scan, hf'] using hrest
    cases skip with
    | false => exact look done rest hl hall hn
    | true =>
      cases rest with
      | nil => simpa [Sched.scan] using finish true (by simpa using hl) (by simpa [Sched.scan] using hall)
      | cons u rest =>
        rw [List.length_cons] at hn
        have hrest := look (done ++ [u]) rest (by simpa using hl) (by simpa [Sched.scan] using hall) (by omega)
        simpa [Sched.scan] using hrest

/-- `m` wakes the sleepers on `addr`, unless the run queue cannot take them. -/
def ThreadSys.Wakes (s : ThreadSys A) (addr : A) (one : Bool) (m : ThreadM A Unit) : Prop :=
  Sat (fun p => p = .wakeup ∧ s.sched.queueSize ≤ s.sched.ready.length + (s.sched.woken addr one).2.length) m s
    fun r s' => r = .ok () ∧ s'.Valid ∧
      ∃ q, Grows (s.sched.ready.length + (s.sched.woken addr one).2.length) s.sched.queueSize q ∧
        s'.sched = s.sched.wake addr one q

variable (h : s.Valid) (hs : s.sched.Small)
include h hs

theorem wakeupFrom_spec {one : Bool} {after : Nat → Nat} (hafter : ∀ i, after i = i + one.toNat) :
    s.Wakes addr one (wakeupFrom addr after (s.sleepers.num + 1) 0) := by
  have hlen := (scan_perm (s.sched.sleepsOn addr) one false s.sched.asleep).length_eq
  have hrun := hs.runnable
  rw [List.length_append] at hlen
  rw [ThreadSys.Wakes, ← List.length_append]
  have hall : (s.sched.ready ++ (s.sched.woken addr one).2).length ≤ 2 ^ 20 := by
    rw [List.length_append, Sched.woken]
    omega
  have hadd (u : ThreadSys A) (l : List Nat) (t : Nat) (hu : ValidGrown s.sched.queueSize l u.runqueue)
      (hp : l ++ [t] <+: s.sched.ready ++ (s.sched.woken addr one).2) :
      Sat (fun p => p = .wakeup ∧
          s.sched.queueSize ≤ (s.sched.ready ++ (s.sched.woken addr one).2).length)
        (assertZero (makeRunnable t) .wakeup) u fun r u' => r = .ok () ∧
          ValidGrown s.sched.queueSize (l ++ [t]) u'.runqueue ∧ u'.sleepers = u.sleepers ∧ u.Moves u' := by
    have hle := hp.length_le
    rw [List.length_append, List.length_singleton] at hle
    exact hu.add hs.queueSize (Nat.le_trans hle hall) fun hm => ⟨rfl, Nat.le_trans hm hle⟩
  refine (wakeupFrom_rule hafter hadd (s.sleepers.num + 1) false [] s.sched.asleep s.sched.ready
    ⟨h.runqueue, Grows.refl _ _⟩ h.sleepers rfl rfl (by rw [h.asleep_length]; omega)).mono ?_
  rintro r s' ⟨rfl, hw, -⟩
  obtain ⟨hv, hg⟩ := hw.runqueue
  have helems : s'.sleepers.elems = (s.sched.woken addr one).1 := hw.asleep
  refine ⟨rfl, ⟨hv.elems_eq.symm ▸ hv, hw.sleepers, ?_⟩, s'.runqueue.size, hg, ?_⟩
  · rw [hw.moves]
    exact h.zombies
  · rw [hw.moves.sched_eq, helems, hv.elems_eq, hw.max]
    rfl

theorem threadWakeup_spec : s.Wakes addr false (threadWakeup addr) := by
  simp only [ThreadSys.Wakes, threadWakeup, sat_bind, sat_get]
  exact wakeupFrom_spec h hs fun i => rfl

theorem threadWakeupOne_spec : s.Wakes addr true (threadWakeupOne addr) := by
  simp only [ThreadSys.Wakes, threadWakeupOne, sat_bind, sat_get]
  exact wakeupFrom_spec h hs fun i => rfl

end Wakeup

end Os161.Threads
