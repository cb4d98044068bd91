import Mathlib.Algebra.Ring.Int.Defs
import Os161.Threads.Conservation

/-!
# Semaphores, locks and condition variables

`kern/thread/synch.c` over the thread system. A call runs with interrupts off, except between the
calls inside `cv_wait`; it is cut where `thread_sleep` gives up the processor. So every thread has a
place in these calls: in its own code, at the test of a loop, or at one of the cuts of `cv_wait`. A
thread whose interrupts are on may be switched away from by the timer, and an interrupt handler may
then call `V` or wake up sleepers on objects of its own, as it may while the scheduler idles.

Threads are forked and exit at any time; one that exits with a lock leaves it to the thread that has
its structure next.
-/
namespace Os161.Threads

open Lib Kern

/-- What a thread sleeps on: a semaphore, a lock, a condition variable, or something else. -/
inductive WaitObj where
  | sem (i : Nat)
  | lock (i : Nat)
  | cv (i : Nat)
  | other (i : Nat)
  deriving DecidableEq, Repr

structure Lock where
  isHeld : Bool
  holder : Option Nat
  deriving DecidableEq, Repr

inductive Place where
  /-- in its own code, with interrupts on -/
  | client
  /-- at the test of the loop in `P` -/
  | semTest (sem : Nat)
  /-- at the test of the loop in `lock_acquire` -/
  | lockTest (lock : Nat)
  /-- in `cv_wait` after `lock_release` returned, with interrupts on -/
  | cvWindow (cv lock : Nat)
  /-- in `cv_wait` inside `thread_sleep` -/
  | cvSleep (cv lock : Nat)
  /-- in `cv_wait` before `lock_acquire`, with interrupts on -/
  | cvReturn (lock : Nat)
  deriving DecidableEq, Repr

def Place.Interruptible : Place → Prop
  | .client => True
  | .cvWindow _ _ => True
  | .cvReturn _ => True
  | _ => False

instance : DecidablePred Place.Interruptible
  | .client => inferInstanceAs (Decidable True)
  | .cvWindow _ _ => inferInstanceAs (Decidable True)
  | .cvReturn _ => inferInstanceAs (Decidable True)
  | .semTest _ => inferInstanceAs (Decidable False)
  | .lockTest _ => inferInstanceAs (Decidable False)
  | .cvSleep _ _ => inferInstanceAs (Decidable False)

structure Synch where
  sys : ThreadSys WaitObj
  count : Nat → Int
  lock : Nat → Lock
  place : Nat → Place

inductive SynchPanic where
  | sys (p : ThreadPanic)
  | semCount | semOverflow
  | acquireTwice | releaseNotOwner
  | signalNotOwner | broadcastNotOwner
  deriving DecidableEq, Repr

/-- What a step did. -/
inductive SynchEvent where
  | sys (e : ThreadEvent WaitObj)
  | pDone (t sem : Nat)
  | pSleeps (t sem : Nat)
  | v (cur : Option Nat) (sem : Nat)
  | acquired (t lock : Nat)
  | acquireSleeps (t lock : Nat)
  | released (t lock : Nat)
  | cvReleased (t cv lock : Nat)
  | cvSleeps (t cv lock : Nat)
  | cvReturned (t lock : Nat)
  | signal (t cv lock : Nat)
  | broadcast (t cv lock : Nat)
  deriving DecidableEq

abbrev SynchM := Prog SynchPanic Errno Synch

namespace Synch

def setPlace (s : Synch) (t : Nat) (p : Place) : Synch := { s with place := Function.update s.place t p }

def setCount (s : Synch) (sem : Nat) (n : Int) : Synch :=
  { s with count := Function.update s.count sem n }

def setLock (s : Synch) (lock : Nat) (l : Lock) : Synch :=
  { s with lock := Function.update s.lock lock l }

def putSys (sys : ThreadSys WaitObj) (s : Synch) : Synch := { s with sys := sys }

end Synch

def onSys {β : Type} (m : ThreadM WaitObj β) : SynchM β :=
  Prog.focus Synch.sys Synch.putSys .sys m

/-- Arithmetic of `int`. -/
def wrapInt (n : Int) : Int := if n < 2 ^ 31 then n else n - 2 ^ 32

/-- One round of the loop in `P`, and what follows it. -/
def semTest (t sem : Nat) : SynchM SynchEvent := do
  let s ← Prog.get
  if s.count sem = 0 then do
    Prog.modify fun s => s.setPlace t (.semTest sem)
    onSys (threadSleep (.sem sem))
    pure (.pSleeps t sem)
  else do
    Prog.check (0 < s.count sem) .semCount
    Prog.modify fun s => (s.setCount sem (s.count sem - 1)).setPlace t .client
    pure (.pDone t sem)

def semV (cur : Option Nat) (sem : Nat) : SynchM SynchEvent := do
  Prog.modify fun s => s.setCount sem (wrapInt (s.count sem + 1))
  let s ← Prog.get
  Prog.check (0 < s.count sem) .semOverflow
  onSys (threadWakeup (.sem sem))
  pure (.v cur sem)

def lockDoIHold (s : Synch) (lock : Nat) : Prop := (s.lock lock).holder = s.sys.curthread

instance (s : Synch) (lock : Nat) : Decidable (lockDoIHold s lock) :=
  inferInstanceAs (Decidable (_ = _))

/-- One round of the loop in `lock_acquire`, and what follows it. -/
def lockTest (t lock : Nat) : SynchM SynchEvent := do
  let s ← Prog.get
  if (s.lock lock).isHeld then do
    Prog.modify fun s => s.setPlace t (.lockTest lock)
    onSys (threadSleep (.lock lock))
    pure (.acquireSleeps t lock)
  else do
    Prog.modify fun s => (s.setLock lock ⟨true, s.sys.curthread⟩).setPlace t .client
    pure (.acquired t lock)

def lockAcquire (t lock : Nat) : SynchM SynchEvent := do
  let s ← Prog.get
  Prog.check (¬ lockDoIHold s lock) .acquireTwice
  lockTest t lock

def lockRelease (lock : Nat) : SynchM Unit := do
  let s ← Prog.get
  Prog.check (lockDoIHold s lock) .releaseNotOwner
  Prog.modify fun s => s.setLock lock ⟨false, none⟩
  onSys (threadWakeup (.lock lock))

/-- `cv_wait` up to the return of `lock_release`. -/
def cvWait (t cv lock : Nat) : SynchM SynchEvent := do
  lockRelease lock
  Prog.modify fun s => s.setPlace t (.cvWindow cv lock)
  pure (.cvReleased t cv lock)

/-- `cv_wait` from `splhigh` on. -/
def cvEnter (t cv lock : Nat) : SynchM SynchEvent := do
  Prog.modify fun s => s.setPlace t (.cvSleep cv lock)
  onSys (threadSleep (.cv cv))
  pure (.cvSleeps t cv lock)

def cvSignal (t cv lock : Nat) : SynchM SynchEvent := do
  let s ← Prog.get
  Prog.check (lockDoIHold s lock) .signalNotOwner
  onSys (threadWakeupOne (.cv cv))
  pure (.signal t cv lock)

def cvBroadcast (t cv lock : Nat) : SynchM SynchEvent := do
  let s ← Prog.get
  Prog.check (lockDoIHold s lock) .broadcastNotOwner
  onSys (threadWakeup (.cv cv))
  pure (.broadcast t cv lock)

/-! ## Steps -/

/-- What the current thread `t` does: the calls, and how it goes on after a cut. -/
inductive SynchOp where
  | sys (op : ThreadOp WaitObj)
  | p (t sem : Nat)
  | pAgain (t sem : Nat)
  | v (cur : Option Nat) (sem : Nat)
  | acquire (t lock : Nat)
  | acquireAgain (t lock : Nat)
  | release (t lock : Nat)
  | cvWait (t cv lock : Nat)
  | cvEnter (t cv lock : Nat)
  | cvWoken (t cv lock : Nat)
  | cvAcquire (t lock : Nat)
  | signal (t cv lock : Nat)
  | broadcast (t cv lock : Nat)

/-- A new thread starts in its own code. -/
def ThreadEvent.places (e : ThreadEvent WaitObj) (place : Nat → Place) : Nat → Place :=
  match e with
  | ⟨_, .fork (some newguy), .ok _⟩ => Function.update place newguy .client
  | _ => place

def sysCall (op : ThreadOp WaitObj) : SynchM SynchEvent := do
  let s ← Prog.get
  let r ← Prog.attempt (onSys op.call)
  let e : ThreadEvent WaitObj := ⟨s.sys.curthread, op, r⟩
  Prog.modify fun s => { s with place := e.places s.place }
  pure (.sys e)

def SynchOp.call : SynchOp → SynchM SynchEvent
  | .sys op => sysCall op
  | .p t sem => semTest t sem
  | .pAgain t sem => semTest t sem
  | .v cur sem => semV cur sem
  | .acquire t lock => lockAcquire t lock
  | .acquireAgain t lock => lockTest t lock
  | .release t lock => do
    lockRelease lock
    pure (.released t lock)
  | .cvWait t cv lock => Threads.cvWait t cv lock
  | .cvEnter t cv lock => Threads.cvEnter t cv lock
  | .cvWoken t _ lock => do
    Prog.modify fun s => s.setPlace t (.cvReturn lock)
    pure (.cvReturned t lock)
  | .cvAcquire t lock => lockAcquire t lock
  | .signal t cv lock => cvSignal t cv lock
  | .broadcast t cv lock => cvBroadcast t cv lock

def Synch.At (s : Synch) (t : Nat) (p : Place) : Prop := s.sys.curthread = some t ∧ s.place t = p

/-- There is no current thread, or its interrupts are on. -/
def Synch.Calm (s : Synch) : Prop := ∀ t ∈ s.sys.curthread, (s.place t).Interruptible

/-- The current thread, if any, runs its own code. -/
def Synch.Client (s : Synch) : Prop := ∀ t ∈ s.sys.curthread, s.place t = .client

instance (s : Synch) (t : Nat) (p : Place) : Decidable (s.At t p) := inferInstanceAs (Decidable (_ ∧ _))
instance (s : Synch) : Decidable s.Calm := inferInstanceAs (Decidable (∀ t ∈ _, _))
instance (s : Synch) : Decidable s.Client := inferInstanceAs (Decidable (∀ t ∈ _, _))

/-- Threads sleep and wake up by themselves only on other objects. -/
def ThreadOp.Foreign : ThreadOp WaitObj → Bool
  | .sleep (.other _) => true
  | .sleep _ => false
  | .wakeup (.other _) => true
  | .wakeup _ => false
  | .wakeupOne (.other _) => true
  | .wakeupOne _ => false
  | _ => true

/-- The calls that handlers make too. -/
def ThreadOp.Interrupts : ThreadOp WaitObj → Bool
  | .yield => true
  | .wakeup _ => true
  | .wakeupOne _ => true
  | .run => true
  | _ => false

def SynchOp.Enabled (s : Synch) : SynchOp → Prop
  | .sys op => op.Enabled s.sys ∧ op.Foreign = true ∧ if op.Interrupts = true then s.Calm else s.Client
  | .p t _ => s.At t .client
  | .pAgain t sem => s.At t (.semTest sem)
  | .v cur _ => cur = s.sys.curthread ∧ s.Calm
  | .acquire t _ => s.At t .client
  | .acquireAgain t lock => s.At t (.lockTest lock)
  | .release t _ => s.At t .client
  | .cvWait t _ _ => s.At t .client
  | .cvEnter t cv lock => s.At t (.cvWindow cv lock)
  | .cvWoken t cv lock => s.At t (.cvSleep cv lock)
  | .cvAcquire t lock => s.At t (.cvReturn lock)
  | .signal t _ _ => s.At t .client
  | .broadcast t _ _ => s.At t .client

instance (s : Synch) : DecidablePred (SynchOp.Enabled s)
  | .sys op => inferInstanceAs (Decidable (_ ∧ _ ∧ if op.Interrupts = true then s.Calm else s.Client))
  | .p t _ => inferInstanceAs (Decidable (s.At t .client))
  | .pAgain t sem => inferInstanceAs (Decidable (s.At t (.semTest sem)))
  | .v _ _ => inferInstanceAs (Decidable (_ ∧ s.Calm))
  | .acquire t _ => inferInstanceAs (Decidable (s.At t .client))
  | .acquireAgain t lock => inferInstanceAs (Decidable (s.At t (.lockTest lock)))
  | .release t _ => inferInstanceAs (Decidable (s.At t .client))
  | .cvWait t _ _ => inferInstanceAs (Decidable (s.At t .client))
  | .cvEnter t cv lock => inferInstanceAs (Decidable (s.At t (.cvWindow cv lock)))
  | .cvWoken t cv lock => inferInstanceAs (Decidable (s.At t (.cvSleep cv lock)))
  | .cvAcquire t lock => inferInstanceAs (Decidable (s.At t (.cvReturn lock)))
  | .signal t _ _ => inferInstanceAs (Decidable (s.At t .client))
  | .broadcast t _ _ => inferInstanceAs (Decidable (s.At t .client))

def SynchOp.step (s : Synch) (op : SynchOp) : Option (SynchEvent × Synch) :=
  if op.Enabled s then
    match op.call s with
    | .ok (.ok e, s') => some (e, s')
    | _ => none
  else none

def SynchStep (s : Synch) (e : SynchEvent) (s' : Synch) : Prop :=
  ∃ op : SynchOp, op.Enabled s ∧ op.call s = .ok (.ok e, s')

theorem SynchOp.step_sound {s : Synch} {op : SynchOp} {e : SynchEvent} {s' : Synch}
    (h : op.step s = some (e, s')) : SynchStep s e s' := by
  unfold SynchOp.step at h
  split at h
  · next hop =>
    split at h
    · next hcall =>
      simp only [Option.some.injEq, Prod.mk.injEq] at h
      obtain ⟨rfl, rfl⟩ := h
      exact ⟨op, hop, hcall⟩
    · exact nomatch h
  · exact nomatch h

/-- All semaphores with their first counts, all locks free, and one thread. -/
def synchBoot (sys : ThreadSys WaitObj) (count : Nat → Int) : Synch where
  sys := sys
  count := count
  lock := fun _ => ⟨false, none⟩
  place := fun _ => .client

end Os161.Threads
