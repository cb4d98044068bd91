import Os161.Asst1.Catsem

/-!
# Cats and mice with locks and condition variables

`catlock` and `mouselock` of `kern/asst1/catlock.c`, over the locks and condition variables of
`kern/thread/synch.c`. The code of an animal is a tree, and every node is a step. `lock->holder` is
kept with the threads: each has the list of the locks it holds.

`cats_waiting` and `mice_waiting` are declared as pointers. They start out as null, counting moves
them by four bytes, and the tests compare an address with zero, so they are numbers modulo `2 ^ 32`
here.

No animal holds `cats_queue_mutex` or `mice_queue_mutex` when it calls a `cv` function, and no
animal gives its bowl back.
-/
namespace Os161.Catlock

open Lib
open Catsem (Species)

inductive LockName where
  | kitchen | bowl | catsQueue | catsWait | miceQueue | miceWait | currentTurn
  deriving DecidableEq, Repr

inductive CvName where
  | cats | mice
  deriving DecidableEq, Repr

inductive Turn where
  | any | cats | mices
  deriving DecidableEq, Repr

inductive CatPanic where
  | noBowls | magicalBowls
  | acquireTwice | releaseNotOwner | signalNotOwner | broadcastNotOwner
  deriving DecidableEq, Repr

def nFoodbowls : Nat := 2

/-- An assignment to a variable; a step of `bowl_count--` is `take` below. -/
inductive Update where
  | catsWaitingInc | catsWaitingDec | miceWaitingInc | miceWaitingDec
  | turn (t : Turn)
  deriving DecidableEq, Repr

inductive Test where
  | bowls (n : Nat)
  | turn (t : Turn)
  | catsWaiting | miceWaiting
  deriving DecidableEq, Repr

inductive Code where
  | acquire (l : LockName) (next : Code)
  | release (l : LockName) (next : Code)
  | wait (v : CvName) (l : LockName) (next : Code)
  /-- in `cv_wait`, after `lock_release` -/
  | sleep (v : CvName) (l : LockName) (next : Code)
  /-- in `cv_wait`, asleep since the given number of wakeups of the variable -/
  | asleep (v : CvName) (since : Nat) (l : LockName) (next : Code)
  | signal (v : CvName) (l : LockName) (next : Code)
  | broadcast (v : CvName) (l : LockName) (next : Code)
  | set (u : Update) (next : Code)
  | take (next : Code)
  | clocksleep (next : Code)
  | test (b : Test) (yes no : Code)
  | panic (p : CatPanic)
  | ret
  deriving DecidableEq, Repr

/-! ## The animals -/

def takeBowl (next : Code) : Code := .acquire .bowl (.take (.release .bowl next))

def setTurn (t : Turn) (next : Code) : Code :=
  .acquire .currentTurn (.set (.turn t) (.release .currentTurn next))

def catOneBowl : Code :=
  takeBowl <| .acquire .miceWait <| .test .miceWaiting
    (setTurn .mices <| .clocksleep <| .release .kitchen <| .broadcast .mice .miceQueue <|
      .release .miceWait .ret)
    (setTurn .any <| .clocksleep <| .release .kitchen <| .broadcast .cats .catsQueue <|
      .release .miceWait .ret)

def catTwoBowls : Code :=
  takeBowl <| .acquire .catsWait <| .test .catsWaiting
    (setTurn .cats <| .release .kitchen <| .signal .cats .catsQueue <| .clocksleep <|
      .release .catsWait .ret)
    (setTurn .any <| .clocksleep <| .release .kitchen <| .broadcast .mice .miceQueue <|
      .release .catsWait .ret)

def catKitchen : Code :=
  .acquire .kitchen <| .acquire .catsWait <| .set .catsWaitingDec <| .release .catsWait <|
    .test (.bowls 0) (.panic .noBowls) <| .test (.bowls 1) catOneBowl <|
      .test (.bowls 2) catTwoBowls (.panic .magicalBowls)

def catWait : Code :=
  .acquire .catsWait <| .set .catsWaitingInc <| .release .catsWait <| .wait .cats .catsQueue catKitchen

def catlock : Code := .test (.bowls 0) catWait <| .test (.turn .mices) catWait catKitchen

def mouseOneBowl : Code :=
  takeBowl <| setTurn .cats <| .clocksleep <| .broadcast .cats .catsQueue <| .release .kitchen .ret

def mouseTwoBowls : Code :=
  takeBowl <| setTurn .cats <| .signal .mice .miceQueue <| .clocksleep <| .broadcast .mice .miceQueue <|
    .release .kitchen .ret

def mouseKitchen : Code :=
  .acquire .kitchen <| .acquire .miceWait <| .set .miceWaitingDec <| .release .miceWait <|
    .test (.bowls 0) (.panic .noBowls) <| .test (.bowls 1) mouseOneBowl <|
      .test (.bowls 2) mouseTwoBowls (.panic .magicalBowls)

def mouseWait : Code :=
  .acquire .miceWait <| .set .miceWaitingInc <| .release .miceWait <| .wait .mice .miceQueue mouseKitchen

def mouselock : Code := .test (.bowls 0) mouseWait <| .test (.turn .cats) mouseWait mouseKitchen

/-! ## Steps -/

/-- `wakeups` counts the calls that wake the sleepers of a condition variable. -/
structure Kitchen where
  isHeld : LockName → Bool
  bowlCount : Int
  catsWaiting : Nat
  miceWaiting : Nat
  currentTurn : Turn
  wakeups : CvName → Nat
  panicked : Option CatPanic

/-- An animal eats from the moment it has taken a bowl until `clocksleep` returns. -/
structure Animal where
  me : Species
  holds : List LockName
  eating : Bool
  code : Code
  deriving DecidableEq, Repr

def ptrInc (p : Nat) : Nat := (p + 4) % 2 ^ 32

def ptrDec (p : Nat) : Nat := (p + 2 ^ 32 - 4) % 2 ^ 32

def Kitchen.setCatsWaiting (s : Kitchen) (p : Nat) : Kitchen := { s with catsWaiting := p }

def Kitchen.setMiceWaiting (s : Kitchen) (p : Nat) : Kitchen := { s with miceWaiting := p }

def Kitchen.setTurn (s : Kitchen) (t : Turn) : Kitchen := { s with currentTurn := t }

def Kitchen.update (s : Kitchen) : Update → Kitchen
  | .catsWaitingInc => s.setCatsWaiting (ptrInc s.catsWaiting)
  | .catsWaitingDec => s.setCatsWaiting (ptrDec s.catsWaiting)
  | .miceWaitingInc => s.setMiceWaiting (ptrInc s.miceWaiting)
  | .miceWaitingDec => s.setMiceWaiting (ptrDec s.miceWaiting)
  | .turn t => s.setTurn t

def Kitchen.test (s : Kitchen) : Test → Bool
  | .bowls n => s.bowlCount = n
  | .turn t => s.currentTurn = t
  | .catsWaiting => s.catsWaiting ≠ 0
  | .miceWaiting => s.miceWaiting ≠ 0

def Kitchen.panic (s : Kitchen) (p : CatPanic) : Kitchen := { s with panicked := some p }

def Kitchen.wakeup (s : Kitchen) (v : CvName) : Kitchen :=
  { s with wakeups := Function.update s.wakeups v (s.wakeups v + 1) }

def Kitchen.setHeld (s : Kitchen) (l : LockName) (b : Bool) : Kitchen :=
  { s with isHeld := Function.update s.isHeld l b }

/-- The condition variable functions assert that the caller holds the lock. `cv_wait` releases it
before it sleeps, and a wakeup in between is lost. `cv_signal` lets any sleeper go on, since
`thread_wakeup_one` may wake several; one that it does not wake is one that takes no step. -/
def Animal.step (s : Kitchen) (a : Animal) : Option (Kitchen × Animal) :=
  match a.code with
  | .acquire l next =>
    if l ∈ a.holds then some (s.panic .acquireTwice, { a with code := .ret })
    else if s.isHeld l then none
    else some (s.setHeld l true, { a with holds := l :: a.holds, code := next })
  | .release l next =>
    if l ∈ a.holds then some (s.setHeld l false, { a with holds := a.holds.erase l, code := next })
    else some (s.panic .releaseNotOwner, { a with code := .ret })
  | .wait v l next =>
    if l ∈ a.holds then
      some (s.setHeld l false, { a with holds := a.holds.erase l, code := .sleep v l next })
    else some (s.panic .releaseNotOwner, { a with code := .ret })
  | .sleep v l next => some (s, { a with code := .asleep v (s.wakeups v) l next })
  | .asleep v since l next =>
    if since < s.wakeups v then some (s, { a with code := .acquire l next }) else none
  | .signal v l next =>
    if l ∈ a.holds then some (s.wakeup v, { a with code := next })
    else some (s.panic .signalNotOwner, { a with code := .ret })
  | .broadcast v l next =>
    if l ∈ a.holds then some (s.wakeup v, { a with code := next })
    else some (s.panic .broadcastNotOwner, { a with code := .ret })
  | .set u next => some (s.update u, { a with code := next })
  | .take next => some ({ s with bowlCount := s.bowlCount - 1 }, { a with eating := true, code := next })
  | .clocksleep next => some (s, { a with eating := false, code := next })
  | .test b yes no => some (s, { a with code := if s.test b then yes else no })
  | .panic p => some (s.panic p, { a with code := .ret })
  | .ret => none

def start : Species → Code
  | .cat => catlock
  | .mouse => mouselock

def animalEnter (s : Kitchen) (a : Animal) : Option Kitchen :=
  if a = ⟨a.me, [], false, start a.me⟩ then some s else none

def kitchenSys : CrewSys Kitchen Animal Unit Empty := ⟨fun s a _ => a.step s, fun _ e => e.elim, animalEnter⟩

def lockInit : Crew Kitchen Animal :=
  ⟨⟨fun _ => false, nFoodbowls, 0, 0, .any, fun _ => 0, none⟩, []⟩

/-! ## A cat that is alone -/

/-- A cat that is alone reaches the assertion of `cv_signal`. -/
theorem catlock_panics : ∃ tr c, Run kitchenSys.Step lockInit tr c ∧ c.shared.panicked = some .signalNotOwner := by
  obtain ⟨tr, c, hrun, hc⟩ := kitchenSys.exists_run (fun _ _ => True)
    (fun c => c.shared.panicked = some .signalNotOwner) lockInit
    (.enter ⟨.cat, [], false, catlock⟩ :: turns 19 0) (by decide +kernel)
  exact ⟨tr, c, hrun.mono And.left, hc⟩

end Os161.Catlock
