import Os161.Kern.Array
import Os161.Kern.Queue

/-!
# The thread system

`kern/thread/thread.c` and `kern/thread/scheduler.c`. A thread is known by the address of its
structure. The current thread, the run queue and the sleepers are the places of live threads; a
thread that exited stays among the zombies until a resumed thread disposes of it. The queue and
the arrays are those of `queue.c` and `array.c`, with the answers of `kmalloc` to come beside
them, so that every call may find memory exhausted where the source may.

All functions run with interrupts off. `mi_switch` is cut where it gives up the processor:
`miSwitch` puts the current thread on its list, and `resume` is what follows when the scheduler has
chosen a thread, in that thread. In between there is no current thread, and an interrupt handler may
wake threads up.

Left out are names, stacks with their magic numbers, and the activation of address spaces.
-/
namespace Os161.Threads

open Lib Kern

inductive Pcb where
  | threadstart | yield | sleep | exit
  deriving DecidableEq, Repr

structure Thread (A : Type) where
  tPcb : Pcb
  tSleepaddr : Option A
  tVmspace : Option Nat
  tCwd : Option Nat

structure ThreadSys (A : Type) where
  thread : Nat → Thread A
  curthread : Option Nat
  runqueue : Queue Nat
  sleepers : CArray Nat
  zombies : CArray Nat
  numthreads : Nat
  memory : Supply Nat

/-- Assertions and panics of the two files, and the stops of the queue and the arrays. -/
inductive ThreadPanic where
  | queue (p : QueuePanic)
  | array (p : ArrayPanic)
  | nullCurthread | numthreads
  | switchReady | switchSleep | switchZomb | wakeup
  | exorciseCurthread | exorciseSetsize
  | destroyCurthread | destroyVmspace | destroyCwd
  | backFromTheDead | endless
  deriving DecidableEq, Repr

variable {A : Type}

abbrev ThreadM (A : Type) := Prog ThreadPanic Errno (ThreadSys A)

namespace ThreadSys

def setThread (s : ThreadSys A) (t : Nat) (th : Thread A) : ThreadSys A :=
  { s with thread := Function.update s.thread t th }

def setPcb (s : ThreadSys A) (t : Nat) (pcb : Pcb) : ThreadSys A :=
  s.setThread t { s.thread t with tPcb := pcb }

def setSleepaddr (s : ThreadSys A) (t : Nat) (addr : Option A) : ThreadSys A :=
  s.setThread t { s.thread t with tSleepaddr := addr }

/-- A thread's own address space and current directory. -/
def setOwn (s : ThreadSys A) (t : Nat) (vmspace cwd : Option Nat) : ThreadSys A :=
  s.setThread t { s.thread t with tVmspace := vmspace, tCwd := cwd }

def setCurthread (s : ThreadSys A) (t : Option Nat) : ThreadSys A := { s with curthread := t }

def setNumthreads (s : ThreadSys A) (n : Nat) : ThreadSys A := { s with numthreads := n }

def putRunqueue (p : Queue Nat × Supply Nat) (s : ThreadSys A) : ThreadSys A :=
  { s with runqueue := p.1, memory := p.2 }

def putSleepers (p : CArray Nat × Supply Nat) (s : ThreadSys A) : ThreadSys A :=
  { s with sleepers := p.1, memory := p.2 }

def putZombies (p : CArray Nat × Supply Nat) (s : ThreadSys A) : ThreadSys A :=
  { s with zombies := p.1, memory := p.2 }

end ThreadSys

open ThreadSys

def onRunqueue {β : Type} (m : QueueM Nat β) : ThreadM A β :=
  Prog.focus (fun s => (s.runqueue, s.memory)) putRunqueue .queue m

def onSleepers {β : Type} (m : ArrayM Nat β) : ThreadM A β :=
  Prog.focus (fun s => (s.sleepers, s.memory)) putSleepers .array m

def onZombies {β : Type} (m : ArrayM Nat β) : ThreadM A β :=
  Prog.focus (fun s => (s.zombies, s.memory)) putZombies .array m

/-- `assert(result==0)` after a call. -/
def assertZero (m : ThreadM A Unit) (p : ThreadPanic) : ThreadM A Unit := do
  let result ← Prog.attempt m
  match result with
  | .ok _ => pure ()
  | .error _ => Prog.stop p

/-- The current thread, where the source uses it without a check. -/
def theCurthread : ThreadM A Nat := do
  let s ← Prog.get
  match s.curthread with
  | none => Prog.stop .nullCurthread
  | some cur => pure cur

/-! ## scheduler.c -/

def schedulerPreallocate (nthreads : Int) : ThreadM A Unit := onRunqueue (qPreallocate nthreads)

def makeRunnable (t : Nat) : ThreadM A Unit := onRunqueue (qAddtail t)

/-- The scheduler once its loop found the run queue nonempty. -/
def scheduler : ThreadM A Nat := onRunqueue qRemhead

/-! ## thread.c -/

def threadDestroy (thread : Nat) : ThreadM A Unit := do
  let s ← Prog.get
  Prog.check (s.curthread ≠ some thread) .destroyCurthread
  Prog.check ((s.thread thread).tVmspace = none) .destroyVmspace
  Prog.check ((s.thread thread).tCwd = none) .destroyCwd

/-- Destroy `n` zombies from index `i` on. -/
def destroyFrom : Nat → Nat → ThreadM A Unit
  | 0, _ => pure ()
  | n + 1, i => do
    let z ← onZombies (arrayGetguy i)
    let s ← Prog.get
    Prog.check (s.curthread ≠ some z) .exorciseCurthread
    threadDestroy z
    destroyFrom n (i + 1)

def exorcise : ThreadM A Unit := do
  let s ← Prog.get
  destroyFrom s.zombies.num 0
  assertZero (onZombies (arraySetsize 0)) .exorciseSetsize

/-- `thread_fork`, given the new thread's structure and stack if `kmalloc` had them. -/
def threadFork (newguy? : Option Nat) : ThreadM A Unit := do
  match newguy? with
  | none => Prog.raise .enomem
  | some newguy =>
    let cur ← theCurthread
    Prog.modify fun s => s.setThread newguy ⟨.threadstart, none, none, (s.thread cur).tCwd⟩
    let s ← Prog.get
    onSleepers (arrayPreallocate (s.numthreads + 1 : Nat))
    onZombies (arrayPreallocate (s.numthreads + 1 : Nat))
    schedulerPreallocate (s.numthreads + 1 : Nat)
    makeRunnable newguy
    Prog.modify fun s => s.setNumthreads (s.numthreads + 1)

inductive ThreadState where
  | ready | sleep | zomb
  deriving DecidableEq, Repr

/-- The list that a thread goes on, and where it will go on itself. -/
def stash (cur : Nat) : ThreadState → ThreadM A Unit
  | .ready => do
    Prog.modify fun s => s.setPcb cur .yield
    assertZero (makeRunnable cur) .switchReady
  | .sleep => do
    Prog.modify fun s => s.setPcb cur .sleep
    assertZero (onSleepers (arrayAdd cur)) .switchSleep
  | .zomb => do
    Prog.modify fun s => s.setPcb cur .exit
    assertZero (onZombies (arrayAdd cur)) .switchZomb

def miSwitch (nextstate : ThreadState) : ThreadM A Unit := do
  let s ← Prog.get
  match s.curthread with
  | none => pure ()
  | some cur =>
    Prog.modify fun s => s.setCurthread none
    stash cur nextstate

/-- What follows the switch in the thread that now runs: a new one starts, any other one returns
inside `mi_switch`. -/
def switchIn (next : Nat) : Pcb → ThreadM A Unit
  | .threadstart => pure ()
  | .yield => exorcise
  | .sleep => do
    exorcise
    Prog.modify fun s => s.setSleepaddr next none
  | .exit => do
    exorcise
    Prog.stop .backFromTheDead

def resume : ThreadM A Unit := do
  let next ← scheduler
  Prog.modify fun s => s.setCurthread (some next)
  let s ← Prog.get
  switchIn next (s.thread next).tPcb

def threadExit : ThreadM A Unit := do
  let cur ← theCurthread
  Prog.modify fun s => s.setOwn cur none none
  let s ← Prog.get
  Prog.check (0 < s.numthreads) .numthreads
  Prog.modify fun s => s.setNumthreads (s.numthreads - 1)
  miSwitch .zomb

def threadYield : ThreadM A Unit := miSwitch .ready

def threadSleep (addr : A) : ThreadM A Unit := do
  let cur ← theCurthread
  Prog.modify fun s => s.setSleepaddr cur (some addr)
  miSwitch .sleep

variable [DecidableEq A]

/-- The loop over the sleepers from index `i` on, for at most `n` rounds; after a thread is taken
out at index `i`, it goes on at index `after i`. -/
def wakeupFrom (addr : A) (after : Nat → Nat) : Nat → Nat → ThreadM A Unit
  | 0, _ => Prog.stop .endless
  | n + 1, i => do
    let s ← Prog.get
    if i < s.sleepers.num then do
      let t ← onSleepers (arrayGetguy i)
      if (s.thread t).tSleepaddr = some addr then do
        onSleepers (arrayRemove i)
        assertZero (makeRunnable t) .wakeup
        wakeupFrom addr after n (after i)
      else wakeupFrom addr after n (i + 1)
    else pure ()

def threadWakeup (addr : A) : ThreadM A Unit := do
  let s ← Prog.get
  -- the index is decremented after a removal, to look at the same slot again
  wakeupFrom addr (fun i => i) (s.sleepers.num + 1) 0

def threadWakeupOne (addr : A) : ThreadM A Unit := do
  let s ← Prog.get
  -- no decrement here, and no end after the first thread either
  wakeupFrom addr (fun i => i + 1) (s.sleepers.num + 1) 0

/-- The boot thread, with the run queue of `scheduler_bootstrap`. -/
def threadBootstrap (me : Nat) (runqueue : Queue Nat) (m : Supply Nat) : ThreadSys A where
  thread := fun _ => ⟨.threadstart, none, none, none⟩
  curthread := some me
  runqueue := runqueue
  sleepers := ⟨0, 0, none⟩
  zombies := ⟨0, 0, none⟩
  numthreads := 1
  memory := m

end Os161.Threads
