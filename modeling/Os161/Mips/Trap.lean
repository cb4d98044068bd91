import Mathlib.Algebra.GroupWithZero.Nat
import Mathlib.Logic.Function.Basic
import Os161.Lib.Run

/-!
# Interrupts and context switches

`curspl`, the interrupt enable flag and `in_interrupt` on one processor with several threads: `splx`
of `arch/mips/mips/spl.c`, `mips_trap`, `mips_interrupt` and `md_switch`, `mi_switch`, the scheduler
with its idle loop, and the functions of `kern/thread` that change the level or may lose the
processor.

Every thread has a stack of frames. A step is a piece of code that an interrupt does not see the
inside of: it comes between two steps, if the flag is set. Frames of type `code` stand for all other
code of the kernel, that of interrupt handlers and system calls included, and may call anything at
any time.
-/
namespace Os161.Mips

open Lib

/-- The values of `curspl`: `splx` is never given others. -/
inductive Spl where
  | spl0 | splHigh
  deriving DecidableEq, Repr

/-- `iec` is bit `CST_IEc` of the status register. -/
@[ext]
structure Ctx where
  curspl : Spl
  iec : Bool
  inInterrupt : Nat
  deriving DecidableEq, Repr

/-- Calls that other code makes. In `threadFork`, `t` is the new thread, and there is no memory for
one if `t` has a stack already. -/
inductive Call (A : Type) where
  | threadYield
  | threadSleep (addr : A)
  | p (sem : A)
  | v (sem : A)
  | lockAcquire (lock : A)
  | lockRelease (lock : A)
  | threadFork (t : Nat)
  | threadExit
  deriving DecidableEq, Repr

inductive ThreadState where
  | ready | sleep | zomb
  deriving DecidableEq, Repr

inductive Cause where
  | irq | sys | fault
  deriving DecidableEq, Repr

/-- What a frame executes, with the local variables that are set on entry. `iep` is the interrupt
enable flag that the processor has saved. -/
inductive Fn (A : Type) where
  | code
  | user
  | miThreadstart
  | splx (newspl : Spl)
  | call (f : Call A)
  | miSwitch (nextstate : ThreadState)
  | mipsTrap (cause : Cause) (savespl : Spl) (iep : Bool)
  | mipsInterrupt (oldIn : Nat)
  deriving DecidableEq, Repr

/-- Where a frame is: `set` is in `splx` once the flag is set, `saving` is in the `splhigh` that a
call starts with and `leave` before the `splx` that it ends with, `sched` and `idle` are in the
scheduler, and `restore` is at the end of `mips_trap`. -/
inductive Pc where
  | start | set | saving | body | loop | sched | idle | leave | done | restore
  deriving DecidableEq, Repr

/-- `spl` is the local variable of that name. `entry` is not in the source: it is what the function
found. -/
structure Frame (A : Type) where
  fn : Fn A
  pc : Pc
  spl : Spl
  entry : Ctx
  deriving DecidableEq, Repr

inductive TrapPanic where
  | mayNotBlock | interruptsOn | nullCurthread | doubleDip | notOwner | countOverflow | fromTheDead | syscallSpl
  deriving DecidableEq, Repr

/-- `onCpu` is the thread on whose stack the processor is. `pcb` holds `pcb_ininterrupt`. -/
structure Cpu (A : Type) extends Ctx where
  onCpu : Nat
  curthread : Option Nat
  stack : Nat → List (Frame A)
  pcb : Nat → Nat
  runqueue : List Nat
  sleepers : List Nat
  zombies : List Nat
  sleepaddr : Nat → Option A
  count : A → Nat
  isHeld : A → Bool
  holder : A → Option Nat
  panicked : Option TrapPanic

variable {A : Type} [DecidableEq A]

def Frame.at (f : Frame A) (pc : Pc) : Frame A := { f with pc := pc }

/-- The value of `splhigh` goes to the variable `spl` of a frame that waits for it. -/
def Frame.resume (f : Frame A) (oldspl : Spl) : Frame A :=
  if f.pc = .saving then { f with pc := .body, spl := oldspl } else f

def resumeTop (oldspl : Spl) : List (Frame A) → List (Frame A)
  | [] => []
  | f :: rest => f.resume oldspl :: rest

namespace Cpu

def setStack (s : Cpu A) (st : List (Frame A)) : Cpu A :=
  { s with stack := Function.update s.stack s.onCpu st }

/-- Call a function from the frame `f`. -/
def enter (s : Cpu A) (fn : Fn A) (f : Frame A) (rest : List (Frame A)) : Cpu A :=
  s.setStack (⟨fn, .start, .spl0, s.toCtx⟩ :: f :: rest)

def panic (s : Cpu A) (p : TrapPanic) : Cpu A := { s with panicked := some p }

def setCtx (s : Cpu A) (c : Ctx) : Cpu A := { s with toCtx := c }

def setCurspl (s : Cpu A) (l : Spl) : Cpu A := { s with curspl := l }

def setIec (s : Cpu A) (b : Bool) : Cpu A := { s with iec := b }

def setInInterrupt (s : Cpu A) (n : Nat) : Cpu A := { s with inInterrupt := n }

def setSleepaddr (s : Cpu A) (t : Nat) (addr : Option A) : Cpu A :=
  { s with sleepaddr := Function.update s.sleepaddr t addr }

def threadWakeup (s : Cpu A) (addr : A) : Cpu A :=
  { s with
    sleepers := s.sleepers.filter fun t => s.sleepaddr t ≠ some addr
    runqueue := s.runqueue ++ s.sleepers.filter fun t => s.sleepaddr t = some addr }

/-- The lists of `mi_switch`. -/
def stash (s : Cpu A) (cur : Nat) : ThreadState → Cpu A
  | .ready => { s with runqueue := s.runqueue ++ [cur] }
  | .sleep => { s with sleepers := s.sleepers ++ [cur] }
  | .zomb => { s with zombies := s.zombies ++ [cur] }

/-- `md_switch` from the thread on whose stack `mi_switch` runs. -/
def mdSwitch (s : Cpu A) (next : Nat) : Cpu A :=
  if next = s.onCpu then s
  else { s with
    pcb := Function.update s.pcb s.onCpu s.inInterrupt
    inInterrupt := s.pcb next
    onCpu := next }

/-- `mips_threadstart` is where a new thread begins, and `pcb_ininterrupt` is 0. -/
def newThread (s : Cpu A) (t : Nat) : Cpu A :=
  { s with
    stack := Function.update s.stack t [⟨.miThreadstart, .start, .spl0, ⟨.splHigh, false, 0⟩⟩]
    pcb := Function.update s.pcb t 0
    runqueue := s.runqueue ++ [t] }

end Cpu

/-! ## The functions -/

section Functions

variable (s : Cpu A) (f : Frame A) (rest : List (Frame A))

/-- The flag is set first. -/
def goSplx (newspl : Spl) : Option (Cpu A) :=
  match f.pc with
  | .start => some ((s.setIec (newspl = .spl0)).setStack (f.at .set :: rest))
  | .set => some ((s.setCurspl newspl).setStack (resumeTop s.curspl rest))
  | _ => none

/-- Up to `spl = splhigh()`. -/
def callStart : Call A → Cpu A
  | .threadSleep addr =>
    if s.inInterrupt ≠ 0 then s.panic .mayNotBlock
    else match s.curthread with
      | none => s.panic .nullCurthread
      | some cur => (s.setSleepaddr cur (some addr)).enter (.miSwitch .sleep) (f.at .done) rest
  | .p _ => if s.inInterrupt ≠ 0 then s.panic .mayNotBlock else s.enter (.splx .splHigh) (f.at .saving) rest
  | _ => s.enter (.splx .splHigh) (f.at .saving) rest

/-- With interrupts off. -/
def callBody : Call A → Option (Cpu A)
  | .threadYield => some (s.enter (.miSwitch .ready) (f.at .leave) rest)
  | .threadSleep _ => none
  | .p sem =>
    if s.count sem = 0 then some (s.enter (.call (.threadSleep sem)) f rest)
    else some ({ s with count := Function.update s.count sem (s.count sem - 1) }.setStack (f.at .leave :: rest))
  | .v sem =>
    if s.count sem + 1 = 2 ^ 31 then some (s.panic .countOverflow)
    else some (({ s with count := Function.update s.count sem (s.count sem + 1) }.threadWakeup sem).setStack
      (f.at .leave :: rest))
  | .lockAcquire lock =>
    if s.holder lock = s.curthread then some (s.panic .doubleDip) else some (s.setStack (f.at .loop :: rest))
  | .lockRelease lock =>
    if s.holder lock ≠ s.curthread then some (s.panic .notOwner)
    else some (({ s with
      holder := Function.update s.holder lock none
      isHeld := Function.update s.isHeld lock false }.threadWakeup lock).setStack (f.at .leave :: rest))
  | .threadFork t =>
    if t = s.onCpu ∨ s.stack t ≠ [] then some (s.setStack (f.at .leave :: rest))
    else some ((s.newThread t).setStack (f.at .leave :: rest))
  | .threadExit => some (s.enter .code (f.at .loop) rest)

/-- `thread_exit` has given up the address space and the directory. -/
def callLoop : Call A → Option (Cpu A)
  | .lockAcquire lock =>
    if s.isHeld lock = true then some (s.enter (.call (.threadSleep lock)) f rest)
    else some ({ s with
      isHeld := Function.update s.isHeld lock true
      holder := Function.update s.holder lock s.curthread }.setStack (f.at .leave :: rest))
  | .threadExit => some (s.enter (.miSwitch .zomb) (f.at .done) rest)
  | _ => none

def callDone : Call A → Cpu A
  | .threadExit => s.panic .fromTheDead
  | .threadSleep _ =>
    match s.curthread with
    | none => s.panic .nullCurthread
    | some cur => (s.setSleepaddr cur none).setStack rest
  | _ => s.setStack rest

def goCall (c : Call A) : Option (Cpu A) :=
  match f.pc with
  | .start => some (callStart s f rest c)
  | .body => callBody s f rest c
  | .loop => callLoop s f rest c
  | .leave => some (s.enter (.splx f.spl) (f.at .done) rest)
  | .done => some (callDone s rest c)
  | _ => none

/-- Without a current thread, as in the idle loop, there is nothing to switch. The scheduler waits
for an interrupt with `curspl` as it is. -/
def goMiSwitch (nextstate : ThreadState) : Option (Cpu A) :=
  match f.pc with
  | .start =>
    if s.curspl = .spl0 then some (s.panic .interruptsOn)
    else match s.curthread with
      | none => some (s.setStack rest)
      | some cur => some (({ s with curthread := none }.stash cur nextstate).setStack (f.at .sched :: rest))
  | .sched =>
    match s.runqueue with
    | [] => some ((s.setIec true).setStack (f.at .idle :: rest))
    | next :: queue =>
      some (({ s with runqueue := queue, curthread := some next }.setStack (f.at .done :: rest)).mdSwitch next)
  | .idle => some ((s.setIec false).setStack (f.at .sched :: rest))
  | .done => some (s.setStack rest)
  | _ => none

/-- The end is `curspl = savespl`, and then the processor gets its flag back. -/
def goMipsTrap (cause : Cause) (savespl : Spl) (iep : Bool) : Option (Cpu A) :=
  match f.pc with
  | .start =>
    if cause = .irq then some ((s.setInInterrupt 1).setStack
      (⟨.mipsInterrupt s.inInterrupt, .start, .spl0, s.toCtx⟩ :: f.at .done :: rest))
    else some (s.enter (.splx savespl) (f.at .body) rest)
  | .body =>
    if cause = .sys ∧ s.curspl ≠ .spl0 then some (s.panic .syscallSpl) else some (s.enter .code (f.at .done) rest)
  | .done => some (s.enter (.splx .splHigh) (f.at .restore) rest)
  | .restore => some (((s.setCurspl savespl).setIec iep).setStack rest)
  | _ => none

/-- `curspl` is `SPL_HIGH` in `mips_interrupt`, which asserts that it is not 0. -/
def goMipsInterrupt (oldIn : Nat) : Option (Cpu A) :=
  match f.pc with
  | .start => if s.curspl = .spl0 then some (s.panic .interruptsOn) else some (s.enter .code (f.at .done) rest)
  | .done => some ((s.setInInterrupt oldIn).setStack rest)
  | _ => none

def goMiThreadstart : Option (Cpu A) :=
  match f.pc with
  | .start => some (s.enter (.splx .spl0) (f.at .body) rest)
  | .body => some (s.enter .code (f.at .done) rest)
  | .done => some (s.enter (.call .threadExit) f rest)
  | _ => none

def go : Option (Cpu A) :=
  match f.fn with
  | .code => none
  | .user => none
  | .miThreadstart => goMiThreadstart s f rest
  | .splx newspl => goSplx s f rest newspl
  | .call c => goCall s f rest c
  | .miSwitch nextstate => goMiSwitch s f rest nextstate
  | .mipsTrap cause savespl iep => goMipsTrap s f rest cause savespl iep
  | .mipsInterrupt oldIn => goMipsInterrupt s f rest oldIn

/-- The exception turns interrupts off, and `mips_trap` starts with `savespl = curspl; curspl =
SPL_HIGH`. -/
def trap (cause : Cause) : Cpu A :=
  (s.setCtx ⟨.splHigh, false, s.inInterrupt⟩).setStack
    (⟨.mipsTrap cause s.curspl s.iec, .start, .spl0, s.toCtx⟩ :: f :: rest)

end Functions

/-! ## Steps -/

/-- A function goes on, an interrupt or another exception comes, or other code does something. -/
inductive Event (A : Type) where
  | go
  | interrupt
  | fault
  | syscall
  | call (c : Call A)
  | splx (newspl : Spl)
  | threadWakeup (addr : A)
  | ret
  | usermode
  deriving DecidableEq, Repr

def Fn.IsInterrupt : Fn A → Prop
  | .mipsInterrupt _ => True
  | _ => False

instance : DecidablePred (Fn.IsInterrupt (A := A))
  | .mipsInterrupt _ => inferInstanceAs (Decidable True)
  | .code | .user | .miThreadstart | .splx _ | .call _ | .miSwitch _ | .mipsTrap _ _ _ =>
    inferInstanceAs (Decidable False)

/-- The stack has a call of `mips_interrupt`. -/
def InHandler (st : List (Frame A)) : Prop := ∃ f ∈ st, f.fn.IsInterrupt

instance (st : List (Frame A)) : Decidable (InHandler st) := inferInstanceAs (Decidable (∃ f ∈ st, f.fn.IsInterrupt))

/-- `mips_usermode` leaves the kernel stack to the next trap. It is not called by interrupt
handlers. -/
def codeStep (s : Cpu A) (f : Frame A) (rest : List (Frame A)) : Event A → Option (Cpu A)
  | .call c => some (s.enter (.call c) f rest)
  | .splx newspl => some (s.enter (.splx newspl) f rest)
  | .threadWakeup addr =>
    if s.curspl = .spl0 then some (s.panic .interruptsOn) else some (s.threadWakeup addr)
  | .fault => some (trap s f rest .fault)
  | .ret => if rest = [] then none else some (s.setStack rest)
  | .usermode =>
    if InHandler (f :: rest) then none
    else some ((s.setCtx ⟨.spl0, true, s.inInterrupt⟩).setStack [⟨.user, .start, .spl0, ⟨.splHigh, false, 0⟩⟩])
  | _ => none

def userStep (s : Cpu A) (f : Frame A) (rest : List (Frame A)) : Event A → Option (Cpu A)
  | .fault => some (trap s f rest .fault)
  | .syscall => some (trap s f rest .sys)
  | _ => none

def frameStep (s : Cpu A) (f : Frame A) (rest : List (Frame A)) (e : Event A) : Option (Cpu A) :=
  match e with
  | .interrupt => if s.iec then some (trap s f rest .irq) else none
  | .go => go s f rest
  | e =>
    match f.fn with
    | .code => codeStep s f rest e
    | .user => userStep s f rest e
    | _ => none

def Cpu.step (s : Cpu A) (e : Event A) : Option (Cpu A) :=
  match s.panicked, s.stack s.onCpu with
  | none, f :: rest => frameStep s f rest e
  | _, _ => none

def CpuStep (s : Cpu A) (e : Event A) (t : Cpu A) : Prop := s.step e = some t

/-- The first thread, with interrupts off. -/
def Cpu.boot : Cpu A where
  curspl := .splHigh
  iec := false
  inInterrupt := 0
  onCpu := 0
  curthread := some 0
  stack := fun t => if t = 0 then [⟨.code, .start, .spl0, ⟨.splHigh, false, 0⟩⟩] else []
  pcb := fun _ => 0
  runqueue := []
  sleepers := []
  zombies := []
  sleepaddr := fun _ => none
  count := fun _ => 0
  isHeld := fun _ => false
  holder := fun _ => none
  panicked := none

end Os161.Mips
