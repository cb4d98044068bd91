import Os161.Threads.Wakeup
import Os161.Vfs.Balance

/-!
# Forking a thread

`thread_fork` and `thread_create` with all that they take for the new thread: its structure, name
and stack, a reference to the current directory, and the interrupt level. Where memory runs out they
go back, by one of three ways. `Os161.Threads.System` has the same function without what is given
back.
-/
namespace Os161.Fork

open Lib Kern Threads Balance Prog

variable {A σ : Type}

structure ForkState (A σ : Type) where
  sys : ThreadSys A
  vnodes : VfsState σ
  tName : Nat → Option Nat
  tStack : Nat → Option Nat
  /-- The answers to come when `kmalloc` is called for the new thread. -/
  kmallocs : Nat → Option Nat
  /-- The blocks that `kmalloc` returned for new threads, and those that `kfree` was called on. -/
  allocated : List Nat
  freed : List Nat
  curspl : Nat
  /-- What the caller's pointer is at. -/
  ret : Nat

inductive ForkPanic where
  | sys (p : ThreadPanic)
  | vnode (p : VfsPanic)

abbrev ForkM (A σ : Type) := Prog ForkPanic Errno (ForkState A σ)

namespace ForkState

def putSys (s : ThreadSys A) (f : ForkState A σ) : ForkState A σ := { f with sys := s }

def putVnodes (x : VfsState σ) (f : ForkState A σ) : ForkState A σ := { f with vnodes := x }

def setName (f : ForkState A σ) (t : Nat) (name : Option Nat) : ForkState A σ :=
  { f with tName := Function.update f.tName t name }

def setStack (f : ForkState A σ) (t : Nat) (stack : Option Nat) : ForkState A σ :=
  { f with tStack := Function.update f.tStack t stack }

def setThread (f : ForkState A σ) (t : Nat) (th : Thread A) : ForkState A σ :=
  { f with sys := f.sys.setThread t th }

end ForkState

def onSys {β : Type} (m : ThreadM A β) : ForkM A σ β := Prog.focus ForkState.sys ForkState.putSys .sys m

def onVnodes {β : Type} (m : VfsM σ β) : ForkM A σ β :=
  Prog.focus ForkState.vnodes ForkState.putVnodes .vnode m

def kmalloc : ForkM A σ (Option Nat) := do
  let f ← Prog.get
  Prog.modify fun f => { f with
    kmallocs := fun i => f.kmallocs (i + 1), allocated := f.allocated ++ (f.kmallocs 0).toList }
  pure (f.kmallocs 0)

def kfree (ptr : Option Nat) : ForkM A σ Unit :=
  Prog.modify fun f => { f with freed := f.freed ++ ptr.toList }

/-- The block for the copy; the characters are not looked at again. -/
def kstrdup : ForkM A σ (Option Nat) := kmalloc

def splx (newspl : Nat) : ForkM A σ Nat := do
  let f ← Prog.get
  Prog.modify fun f => { f with curspl := newspl }
  pure f.curspl

def splhigh : ForkM A σ Nat := splx 15

def threadCreate : ForkM A σ (Option Nat) := do
  let thread ← kmalloc
  match thread with
  | none => pure none
  | some thread => do
    let name ← kstrdup
    Prog.modify fun f => f.setName thread name
    match name with
    | none => do
      kfree (some thread)
      pure none
    | some _ => do
      Prog.modify fun f => f.setThread thread ⟨(f.sys.thread thread).tPcb, none, none, none⟩
      Prog.modify fun f => f.setStack thread none
      pure (some thread)

def inheritCwd (newguy : Nat) : ForkM A σ Unit := do
  let cur ← onSys theCurthread
  let f ← Prog.get
  match (f.sys.thread cur).tCwd with
  | none => pure ()
  | some cwd => do
    onVnodes (vnodeIncref cwd)
    Prog.modify fun f => f.setThread newguy { f.sys.thread newguy with tCwd := some cwd }

/-- The new thread will start at the beginning. -/
def mdInitpcb (newguy : Nat) : ForkM A σ Unit :=
  Prog.modify fun f => f.setThread newguy { f.sys.thread newguy with tPcb := .threadstart }

/-- The part with interrupts off. -/
def enlist (newguy : Nat) : ThreadM A Unit := do
  let s ← Prog.get
  onSleepers (arrayPreallocate (s.numthreads + 1 : Nat))
  onZombies (arrayPreallocate (s.numthreads + 1 : Nat))
  schedulerPreallocate (s.numthreads + 1 : Nat)
  makeRunnable newguy
  Prog.modify fun s => s.setNumthreads (s.numthreads + 1)

variable (ops : VnodeOps σ)

/-- What follows the label `fail`. -/
def fail (s newguy : Nat) : ForkM A σ Unit := do
  let _ ← splx s
  let f ← Prog.get
  match (f.sys.thread newguy).tCwd with
  | none => pure ()
  | some cwd => onVnodes (vnodeDecref ops cwd)
  kfree (f.tStack newguy)
  kfree (f.tName newguy)
  kfree (some newguy)

/-- `thread_fork` from where the new thread has its stack. -/
def launch (ret : Bool) (newguy : Nat) : ForkM A σ Unit := do
  inheritCwd newguy
  mdInitpcb newguy
  let s ← splhigh
  let result ← Prog.attempt (onSys (enlist newguy))
  match result with
  | .ok _ => do
    let _ ← splx s
    Prog.when ret (Prog.modify fun f => { f with ret := newguy })
  | .error e => do
    fail ops s newguy
    Prog.raise e

/-- `thread_fork`, where `ret` says whether the caller wants the structure of the new thread. -/
def threadFork (ret : Bool) : ForkM A σ Unit := do
  let newguy ← threadCreate
  match newguy with
  | none => Prog.raise .enomem
  | some newguy => do
    let stack ← kmalloc
    Prog.modify fun f => f.setStack newguy stack
    match stack with
    | none => do
      let f ← Prog.get
      kfree (f.tName newguy)
      kfree (some newguy)
      Prog.raise .enomem
    | some _ => launch ops ret newguy

/-! ## The part with interrupts off -/

section Enlist

variable {s s' : ThreadSys A} {newguy n : Nat}

/-- `thread_fork` of the thread system does this with the structure of the new thread. -/
theorem threadFork_some (newguy : Nat) : (Threads.threadFork (some newguy) : ThreadM A Unit) =
    (do
      let cur ← theCurthread
      Prog.modify fun s => s.setThread newguy ⟨.threadstart, none, none, (s.thread cur).tCwd⟩
      enlist newguy) := rfl

/-- Sizes whose doubling is far from the end of the address space. -/
structure Modest (s : ThreadSys A) : Prop where
  numthreads : s.numthreads < 2 ^ 27
  sleepers : s.sleepers.max < 2 ^ 27
  zombies : s.zombies.max < 2 ^ 27
  runqueue : s.runqueue.size < 2 ^ 27

theorem fits_of_lt {a : CArray Nat} (ha : a.max < 2 ^ 27) (hn : n ≤ 2 ^ 27) : a.Fits n := by
  have := grownMax_le (n := n) (m := a.max)
  unfold CArray.Fits
  omega

theorem doubles_of_lt {q : Queue Nat} (hq : q.size ≤ 2 ^ 28) (hn : n ≤ 2 ^ 28 + 1) : q.Doubles n := by
  have := grownSize_le (n := q.size) (t := n)
  unfold Queue.Doubles
  omega

/-- The same threads in containers that may be larger. -/
structure SameThreads (s s' : ThreadSys A) : Prop where
  eq : s' = { s with
    sleepers := s'.sleepers, zombies := s'.zombies, runqueue := s'.runqueue, memory := s'.memory }
  asleep : s'.sleepers.elems = s.sleepers.elems
  dead : s'.zombies.elems = s.zombies.elems

theorem SameThreads.trans {s'' : ThreadSys A} (h : SameThreads s s') (h' : SameThreads s' s'') :
    SameThreads s s'' where
  eq := by rw [h'.eq, h.eq]
  asleep := h'.asleep.trans h.asleep
  dead := h'.dead.trans h.dead

theorem preallocateSleepers_cases (h : s.sleepers.Valid) :
    Sat (fun _ => ¬ s.sleepers.Fits n) (onSleepers (arrayPreallocate n)) s fun r s' =>
      SameThreads s s' ∧ s'.zombies = s.zombies ∧ s'.runqueue = s.runqueue ∧ (r = .error .enomem ∨ r = .ok ()) := by
  simp only [onSleepers, sat_focus]
  refine (arrayPreallocate_cases (s := (s.sleepers, s.memory)) h n).mono ?_
  rintro r ⟨a, m⟩ (⟨rfl, rfl, -⟩ | ⟨rfl, helems, -⟩)
  · exact ⟨⟨rfl, rfl, rfl⟩, rfl, rfl, .inl rfl⟩
  · exact ⟨⟨rfl, helems, rfl⟩, rfl, rfl, .inr rfl⟩

theorem preallocateZombies_cases (h : s.zombies.Valid) :
    Sat (fun _ => ¬ s.zombies.Fits n) (onZombies (arrayPreallocate n)) s fun r s' =>
      SameThreads s s' ∧ s'.runqueue = s.runqueue ∧ (r = .error .enomem ∨ r = .ok ()) := by
  simp only [onZombies, sat_focus]
  refine (arrayPreallocate_cases (s := (s.zombies, s.memory)) h n).mono ?_
  rintro r ⟨a, m⟩ (⟨rfl, rfl, -⟩ | ⟨rfl, helems, -⟩)
  · exact ⟨⟨rfl, rfl, rfl⟩, rfl, .inl rfl⟩
  · exact ⟨⟨rfl, rfl, helems⟩, rfl, .inr rfl⟩

/-- The run queue has the list, and if the sizes are modest then also the room for it. -/
def Roomy (C : Prop) (l : List Nat) (q : Queue Nat) : Prop :=
  q.Rings l ∧ (C → q.size ≤ 2 ^ 28 ∧ ¬ q.Short)

theorem schedulerPreallocate_cases {C : Prop} {l : List Nat} (h : s.runqueue.Rings l)
    (hC : C → s.runqueue.size < 2 ^ 27 ∧ ¬ s.runqueue.Short ∧ n ≤ 2 ^ 27) :
    Sat (fun _ => ¬ C) (schedulerPreallocate n) s fun r s' =>
      SameThreads s s' ∧ Roomy C l s'.runqueue ∧ (r = .error .enomem ∨ r = .ok ()) := by
  have hroomy : Roomy C l s.runqueue := ⟨h, fun c => ⟨by have := (hC c).1; omega, (hC c).2.1⟩⟩
  have hle := grownSize_le (n := s.runqueue.size) (t := n)
  simp only [schedulerPreallocate, onRunqueue, sat_focus]
  refine ((qPreallocate_cases (s := (s.runqueue, s.memory)) h n).weaken ?_).mono ?_
  · rintro p (hshort | ⟨-, hd⟩) c
    · exact (hC c).2.1 hshort
    · exact hd (doubles_of_lt (by have := (hC c).1; simp only; omega) (by have := (hC c).2.2; omega))
  · rintro r ⟨q, m⟩ (⟨rfl, rfl⟩ | ⟨rfl, hr, -, rfl | ⟨-, hsz, hroom⟩⟩)
    · exact ⟨⟨rfl, rfl, rfl⟩, hroomy, .inl rfl⟩
    · exact ⟨⟨rfl, rfl, rfl⟩, hroomy, .inr rfl⟩
    · refine ⟨⟨rfl, rfl, rfl⟩, ⟨hr, fun c => ?_⟩, .inr rfl⟩
      obtain ⟨hsize, -, hn⟩ := hC c
      simp only [Int.toNat_natCast] at hsz hroom
      have hq : q.size ≤ 2 ^ 28 := by omega
      refine ⟨hq, fun hshort => ?_⟩
      rw [roomFor_of_lt (by omega)] at hroom
      exact absurd hroom (Nat.ne_of_lt hshort)

theorem makeRunnable_cases {C : Prop} {l : List Nat} (h : Roomy C l s.runqueue) :
    Sat (fun _ => ¬ C) (makeRunnable newguy) s fun r s' => SameThreads s s' ∧
      ((r = .error .enomem ∧ s'.runqueue.elems = l) ∨ (r = .ok () ∧ s'.runqueue.elems = l ++ [newguy])) := by
  obtain ⟨hr, hC⟩ := h
  simp only [makeRunnable, onRunqueue, sat_focus]
  refine ((qAddtail_cases (s := (s.runqueue, s.memory)) hr).weaken ?_).mono ?_
  · rintro p (hshort | ⟨-, hd⟩) c
    · exact (hC c).2 hshort
    · exact hd (doubles_of_lt (hC c).1 (Nat.succ_le_succ (hC c).1))
  · rintro r ⟨q, m⟩ (⟨rfl, rfl, -⟩ | ⟨rfl, hr', -⟩)
    · exact ⟨⟨rfl, rfl, rfl⟩, .inl ⟨rfl, hr.elems_eq⟩⟩
    · exact ⟨⟨rfl, rfl, rfl⟩, .inr ⟨rfl, hr'.elems_eq⟩⟩

/-- Room is made for one more thread, which then comes last; or memory runs out, and all threads are
where they were. -/
theorem enlist_cases (h : s.Valid) : Sat (fun _ => ¬ Modest s) (enlist newguy) s fun r s' =>
    (r = .error .enomem ∧ SameThreads s s' ∧ s'.runqueue.elems = s.runqueue.elems) ∨
    (r = .ok () ∧ SameThreads { s with numthreads := s.numthreads + 1 } s' ∧
        s'.runqueue.elems = s.runqueue.elems ++ [newguy]) := by
  simp only [enlist, sat_bind, sat_get]
  refine ((preallocateSleepers_cases h.sleepers).weaken ?_).mono ?_
  · exact fun _ hfit hm => hfit (fits_of_lt hm.sleepers hm.numthreads)
  rintro r s₁ ⟨same₁, hz₁, hq₁, rfl | rfl⟩
  · exact .inl ⟨rfl, same₁, by rw [hq₁]⟩
  refine ((preallocateZombies_cases (hz₁ ▸ h.zombies)).weaken ?_).mono ?_
  · exact fun _ hfit hm => hfit (fits_of_lt (hz₁ ▸ hm.zombies) hm.numthreads)
  rintro r s₂ ⟨same₂, hq₂, rfl | rfl⟩
  · exact .inl ⟨rfl, same₁.trans same₂, by rw [hq₂, hq₁]⟩
  have hq : s₂.runqueue = s.runqueue := hq₂.trans hq₁
  refine (schedulerPreallocate_cases (C := Modest s) (l := s.runqueue.elems)
    (hq ▸ h.runqueue.toRings) fun hm => ⟨hq ▸ hm.runqueue, hq ▸ h.runqueue.not_short, hm.numthreads⟩).mono ?_
  rintro r s₃ ⟨same₃, hroomy, rfl | rfl⟩
  · exact .inl ⟨rfl, (same₁.trans same₂).trans same₃, hroomy.1.elems_eq⟩
  refine (makeRunnable_cases hroomy).mono ?_
  rintro r s₄ ⟨same₄, ⟨rfl, hready⟩ | ⟨rfl, hready⟩⟩
  · exact .inl ⟨rfl, ((same₁.trans same₂).trans same₃).trans same₄, hready⟩
  · have same := ((same₁.trans same₂).trans same₃).trans same₄
    simp only [sat_modify]
    refine .inr ⟨trivial, ⟨?_, same.asleep, same.dead⟩, hready⟩
    rw [same.eq]
    rfl

end Enlist

/-! ## What is taken, and given back -/

variable {f g : ForkState A σ} {K : ForkPanic → Prop} {cur newguy name stack spl : Nat}

/-- A fork that failed: the threads, the counts of vnodes, the caller's variable and the interrupt
level are as before, and the blocks for the new thread were freed, each once. -/
structure Undone (f f' : ForkState A σ) : Prop where
  numthreads : f'.sys.numthreads = f.sys.numthreads
  ready : f'.sys.runqueue.elems = f.sys.runqueue.elems
  asleep : f'.sys.sleepers.elems = f.sys.sleepers.elems
  dead : f'.sys.zombies.elems = f.sys.zombies.elems
  curthread : f'.sys.curthread = f.sys.curthread
  /-- Only the structure of the new thread was written to. -/
  thread : ∀ t, f.kmallocs 0 ≠ some t → f'.sys.thread t = f.sys.thread t
  ret : f'.ret = f.ret
  vnodes : f'.vnodes = f.vnodes
  curspl : f'.curspl = f.curspl
  blocks : ∃ taken back, f'.allocated = f.allocated ++ taken ∧ f'.freed = f.freed ++ back ∧ back.Perm taken

/-- A fork that succeeded: the new thread is last in the run queue. -/
structure Forked (ret : Bool) (f f' : ForkState A σ) (newguy : Nat) : Prop where
  numthreads : f'.sys.numthreads = f.sys.numthreads + 1
  ready : f'.sys.runqueue.elems = f.sys.runqueue.elems ++ [newguy]
  asleep : f'.sys.sleepers.elems = f.sys.sleepers.elems
  dead : f'.sys.zombies.elems = f.sys.zombies.elems
  curthread : f'.sys.curthread = f.sys.curthread
  thread : ∀ t, t ≠ newguy → f'.sys.thread t = f.sys.thread t
  ret : f'.ret = if ret then newguy else f.ret
  curspl : f'.curspl = f.curspl
  freed : f'.freed = f.freed

/-- The counts with one more reference to a directory, if there is one. -/
def withCwd (x : VfsState σ) : Option Nat → VfsState σ
  | none => x
  | some cwd => x.setRefs cwd (x.refs cwd + 1)

/-- What holds while the new thread has `blocks` and, of the current thread, the directory `cwd`. -/
structure Builds (f : ForkState A σ) (newguy : Nat) (blocks : List Nat) (cwd : Option Nat)
    (g : ForkState A σ) : Prop where
  first : f.kmallocs 0 = some newguy
  sys : ∃ pcb, g.sys = f.sys.setThread newguy ⟨pcb, none, none, cwd⟩
  vnodes : g.vnodes = withCwd f.vnodes cwd
  allocated : g.allocated = f.allocated ++ blocks
  freed : g.freed = f.freed
  ret : g.ret = f.ret

namespace Builds

variable {blocks : List Nat} {cwd : Option Nat}

theorem thread_ne {t : Nat} (h : Builds f newguy blocks cwd g) (ht : t ≠ newguy) : g.sys.thread t = f.sys.thread t := by
  obtain ⟨pcb, hsys⟩ := h.sys
  simp [hsys, ThreadSys.setThread, ht]

theorem curthread (h : Builds f newguy blocks cwd g) : g.sys.curthread = f.sys.curthread := by
  obtain ⟨pcb, hsys⟩ := h.sys
  rw [hsys]
  rfl

end Builds

theorem threadCreate_cases : Sat K threadCreate f fun r g =>
    (r = .ok none ∧ (f.kmallocs 0 = none ∨ f.kmallocs 1 = none) ∧ Undone f g) ∨
    ∃ newguy name, r = .ok (some newguy) ∧ Builds f newguy [newguy, name] none g ∧
      g.tName newguy = some name ∧ g.curspl = f.curspl ∧ g.kmallocs 0 = f.kmallocs 2 := by
  simp only [threadCreate, kstrdup, kmalloc, kfree, sat_bind, sat_get, sat_modify, sat_pure]
  cases hthread : f.kmallocs 0 with
  | none =>
    refine .inl ⟨rfl, .inl rfl, rfl, rfl, rfl, rfl, rfl, fun _ _ => rfl, rfl, rfl, rfl, [], [], ?_, ?_, .nil⟩
    · simp
    · simp
  | some newguy =>
    simp only [sat_bind, sat_get, sat_modify, sat_pure]
    cases hname : f.kmallocs 1 with
    | none =>
      simp only [sat_bind, sat_modify, sat_pure]
      refine .inl ⟨trivial, .inr trivial, rfl, rfl, rfl, rfl, rfl, fun _ _ => rfl, rfl, rfl, rfl, [newguy],
        [newguy], ?_, ?_, .refl _⟩
      · simp [ForkState.setName]
      · simp [ForkState.setName]
    | some name =>
      simp only [sat_bind, sat_modify, sat_pure]
      refine .inr ⟨newguy, name, rfl, ⟨hthread, ⟨_, rfl⟩, rfl, ?_, rfl, rfl⟩, ?_, rfl, rfl⟩
      · simp [ForkState.setStack, ForkState.setThread, ForkState.setName]
      · simp [ForkState.setStack, ForkState.setThread, ForkState.setName]

theorem sat_theCurthread {P : Except Errno Nat → ForkState A σ → Prop} :
    Sat K (onSys theCurthread) f P ↔ match f.sys.curthread with
      | none => K (.sys .nullCurthread)
      | some cur => P (.ok cur) f := by
  simp only [onSys, theCurthread, sat_focus, sat_bind, sat_get]
  cases f.sys.curthread <;> rfl

theorem inheritCwd_cases {blocks : List Nat} (hg : Builds f newguy blocks none g)
    (hcur : g.sys.curthread = some cur) (hne : cur ≠ newguy) : Sat K (inheritCwd newguy) g fun r g' => r = .ok () ∧
      Builds f newguy blocks (f.sys.thread cur).tCwd g' ∧ g'.tName = g.tName ∧ g'.tStack = g.tStack ∧
      g'.curspl = g.curspl := by
  obtain ⟨pcb, hsys⟩ := hg.sys
  have hcwd : (g.sys.thread cur).tCwd = (f.sys.thread cur).tCwd := by rw [hg.thread_ne hne]
  simp only [inheritCwd, sat_bind, sat_theCurthread, hcur, sat_get, hcwd]
  cases (f.sys.thread cur).tCwd with
  | none => exact ⟨rfl, hg, rfl, rfl, rfl⟩
  | some cwd =>
    simp only [onVnodes, vnodeIncref, sat_bind, sat_focus, sat_modify]
    refine ⟨trivial, ⟨hg.first, ⟨pcb, ?_⟩, ?_, hg.allocated, hg.freed, hg.ret⟩, rfl, rfl, rfl⟩
    · simp [ForkState.setThread, ForkState.putVnodes, hsys, ThreadSys.setThread]
    · simp only [ForkState.setThread, ForkState.putVnodes, hg.vnodes]
      rfl

/-- The reference that was taken last can be given back without reclaiming anything. -/
theorem decref_withCwd {ops : VnodeOps σ} {x : VfsState σ} {L : VfsPanic → Prop} {cwd : Nat} (hpos : 0 < x.refs cwd) :
    Sat L (vnodeDecref ops cwd) (withCwd x (some cwd)) fun r y => r = .ok () ∧ y = x := by
  have hrefs : (withCwd x (some cwd)).refs cwd = x.refs cwd + 1 := Function.update_self ..
  simp only [vnodeDecref, sat_bind, sat_get, sat_check, hrefs, sat_ite, sat_modify]
  rw [if_pos (by omega), if_pos (by omega)]
  refine ⟨trivial, ?_⟩
  simp [withCwd, VfsState.setRefs]

theorem fail_cases {ops : VnodeOps σ} {x : VfsState σ} {cwd : Option Nat}
    (hthread : (g.sys.thread newguy).tCwd = cwd) (hvn : g.vnodes = withCwd x cwd) (hpos : ∀ vn ∈ cwd, 0 < x.refs vn) :
    Sat K (fail ops spl newguy) g fun r g' => r = .ok () ∧ g' = { g with
      vnodes := x, curspl := spl
      freed := g.freed ++ ((g.tStack newguy).toList ++ (g.tName newguy).toList ++ [newguy]) } := by
  simp only [fail, splx, kfree, sat_bind, sat_get, sat_modify, sat_pure, hthread]
  cases cwd with
  | none =>
    have hvn' : g.vnodes = x := hvn
    simp only [sat_bind, sat_modify]
    simp [← hvn']
  | some cwd =>
    simp only [sat_bind, onVnodes, sat_focus, hvn]
    refine (decref_withCwd (hpos cwd rfl)).mono ?_
    rintro r y ⟨rfl, hy⟩
    simp [ForkState.putVnodes, hy]

/-! ## Forking -/

theorem Builds.withStack {kmallocs : Nat → Option Nat} (hg : Builds f newguy [newguy, name] none g) :
    Builds f newguy [newguy, name, stack] none
      (ForkState.setStack { g with kmallocs, allocated := g.allocated ++ (some stack).toList } newguy (some stack)) :=
  ⟨hg.first, hg.sys, hg.vnodes, by simp [ForkState.setStack, hg.allocated], hg.freed, hg.ret⟩

theorem mdInitpcb_cases {blocks : List Nat} {cwd : Option Nat} (hg : Builds f newguy blocks cwd g) :
    Sat K (mdInitpcb newguy) g fun r g' => r = .ok () ∧ Builds f newguy blocks cwd g' ∧
      g'.sys = f.sys.setThread newguy ⟨.threadstart, none, none, cwd⟩ ∧
      g'.tName = g.tName ∧ g'.tStack = g.tStack ∧ g'.curspl = g.curspl := by
  obtain ⟨pcb, hsys⟩ := hg.sys
  have hnew : (g.setThread newguy { g.sys.thread newguy with tPcb := .threadstart }).sys =
      f.sys.setThread newguy ⟨.threadstart, none, none, cwd⟩ := by
    simp [ForkState.setThread, hsys, ThreadSys.setThread]
  exact ⟨rfl, ⟨hg.first, ⟨_, hnew⟩, hg.vnodes, hg.allocated, hg.freed, hg.ret⟩, hnew, rfl, rfl, rfl⟩

section Launch

variable {t : Thread A} {ops : VnodeOps σ} {ret : Bool} {f' : ForkState A σ}

/-- Nothing is left of a new thread when the others are the same and its blocks are freed. -/
theorem undone_of_same (taken back : List Nat) (hnew : f.kmallocs 0 = some newguy)
    (same : SameThreads (f.sys.setThread newguy t) f'.sys)
    (hready : f'.sys.runqueue.elems = f.sys.runqueue.elems) (hret : f'.ret = f.ret)
    (hvn : f'.vnodes = f.vnodes) (hspl : f'.curspl = f.curspl)
    (halloc : f'.allocated = f.allocated ++ taken) (hfreed : f'.freed = f.freed ++ back)
    (hperm : back.Perm taken) : Undone f f' := by
  have hnum : f'.sys.numthreads = f.sys.numthreads := by rw [same.eq]; rfl
  have hcur : f'.sys.curthread = f.sys.curthread := by rw [same.eq]; rfl
  refine ⟨hnum, hready, same.asleep, same.dead, hcur, fun u hu => ?_, hret, hvn, hspl, taken, back, halloc,
    hfreed, hperm⟩
  rw [same.eq]
  exact Function.update_of_ne (fun e => hu (hnew.trans (congrArg some e.symm))) _ _

theorem forked_of_same (same : SameThreads { f.sys.setThread newguy t with numthreads := f.sys.numthreads + 1 } f'.sys)
    (hready : f'.sys.runqueue.elems = f.sys.runqueue.elems ++ [newguy])
    (hret : f'.ret = if ret then newguy else f.ret) (hspl : f'.curspl = f.curspl)
    (hfreed : f'.freed = f.freed) : Forked ret f f' newguy := by
  have hnum : f'.sys.numthreads = f.sys.numthreads + 1 := by rw [same.eq]
  have hcur : f'.sys.curthread = f.sys.curthread := by rw [same.eq]; rfl
  refine ⟨hnum, hready, same.asleep, same.dead, hcur, fun u hu => ?_, hret, hspl, hfreed⟩
  rw [same.eq]
  exact Function.update_of_ne hu _ _

/-- With whatever is known of the part with interrupts off, the rest gives back what was taken if
that part failed. -/
theorem launch_rule {L : ThreadPanic → Prop} {Q : Except Errno Unit → ThreadSys A → Prop}
    (hcur : f.sys.curthread = some cur) (hne : cur ≠ newguy)
    (hcwd : ∀ vn ∈ (f.sys.thread cur).tCwd, 0 < f.vnodes.refs vn)
    (hg : Builds f newguy [newguy, name, stack] none g) (hname : g.tName newguy = some name)
    (hstack : g.tStack newguy = some stack) (hspl : g.curspl = f.curspl)
    (h : Sat L (enlist newguy)
      (f.sys.setThread newguy ⟨.threadstart, none, none, (f.sys.thread cur).tCwd⟩) Q)
    (hQ : ∀ r s', Q r s' → (s'.thread newguy).tCwd = (f.sys.thread cur).tCwd) :
    Sat (fun p => ∃ e, p = .sys e ∧ L e) (launch ops ret newguy) g fun r f' => Q r f'.sys ∧
      f'.curspl = f.curspl ∧ f'.allocated = f.allocated ++ [newguy, name, stack] ∧
      match r with
      | .ok _ => f'.ret = (if ret then newguy else f.ret) ∧ f'.freed = f.freed
      | .error _ => f'.ret = f.ret ∧ f'.vnodes = f.vnodes ∧ f'.freed = f.freed ++ [stack, name, newguy] := by
  simp only [launch, sat_bind]
  refine (inheritCwd_cases hg (hg.curthread.trans hcur) hne).mono ?_
  rintro r g₁ ⟨rfl, hg₁, hname₁, hstack₁, hspl₁⟩
  refine (mdInitpcb_cases hg₁).mono ?_
  rintro r g₂ ⟨rfl, hg₂, hsys, hname₂, hstack₂, hspl₂⟩
  have hcurspl : g₂.curspl = f.curspl := hspl₂.trans (hspl₁.trans hspl)
  simp only [splhigh, splx, onSys, sat_bind, sat_get, sat_modify, sat_pure, sat_attempt, sat_focus, hsys]
  refine (h.weaken fun e he => ⟨e, rfl, he⟩).mono ?_
  rintro (e | _) s' hs'
  · simp only [sat_bind]
    refine (fail_cases (g := ForkState.putSys s' { g₂ with curspl := 15 }) (hQ _ _ hs') hg₂.vnodes hcwd).mono ?_
    rintro r f' ⟨rfl, rfl⟩
    refine ⟨hs', hcurspl, hg₂.allocated, hg₂.ret, rfl, ?_⟩
    simp [ForkState.putSys, hg₂.freed, hname₂, hname₁, hname, hstack₂, hstack₁, hstack]
  · simp only [sat_bind, sat_get, sat_modify, sat_pure, sat_when]
    cases ret with
    | false => exact ⟨hs', hcurspl, hg₂.allocated, hg₂.ret, hg₂.freed⟩
    | true => exact ⟨hs', hcurspl, hg₂.allocated, rfl, hg₂.freed⟩

end Launch

/-- A fork either leaves nothing behind, or makes the thread. It can stop only where the sizes of
the containers run up against the address space. -/
theorem threadFork_fails_cleanly (ops : VnodeOps σ) (ret : Bool) (f : ForkState A σ) (hvalid : f.sys.Valid)
    (hcur : f.sys.curthread = some cur) (hfresh : f.kmallocs 0 ≠ some cur)
    (hcwd : ∀ vn ∈ (f.sys.thread cur).tCwd, 0 < f.vnodes.refs vn) :
    Prog.Sat (fun _ => ¬ Modest f.sys) (threadFork ops ret) f fun r f' => (∃ e, r = .error e ∧ Undone f f') ∨
      (r = .ok () ∧ ∃ newguy, f.kmallocs 0 = some newguy ∧ Forked ret f f' newguy) := by
  simp only [threadFork, sat_bind]
  refine threadCreate_cases.mono ?_
  rintro r g (⟨rfl, -, hundone⟩ | ⟨newguy, name, rfl, hg, hname, hspl, -⟩)
  · exact .inl ⟨_, rfl, hundone⟩
  have hne : cur ≠ newguy := fun e => hfresh (e ▸ hg.first)
  simp only [kmalloc, kfree, sat_bind, sat_get, sat_modify, sat_pure]
  cases hstack : g.kmallocs 0 with
  | none =>
    obtain ⟨pcb, hsys⟩ := hg.sys
    simp only [sat_bind, sat_get, sat_modify, sat_raise]
    refine .inl ⟨_, rfl, undone_of_same [newguy, name] [name, newguy] hg.first
      (t := ⟨pcb, none, none, none⟩) ?_ ?_ hg.ret hg.vnodes hspl ?_ ?_ (.swap _ _ _)⟩
    · rw [← hsys]
      exact ⟨rfl, rfl, rfl⟩
    · simp only [ForkState.setStack, hsys]
      rfl
    · simp [ForkState.setStack, hg.allocated]
    · simp [ForkState.setStack, hg.freed, hname]
  | some stack =>
    have hmodest (hm : Modest f.sys) : Modest (f.sys.setThread newguy
        ⟨.threadstart, none, none, (f.sys.thread cur).tCwd⟩) :=
      ⟨hm.numthreads, hm.sleepers, hm.zombies, hm.runqueue⟩
    refine ((launch_rule hcur hne hcwd hg.withStack hname (Function.update_self ..) hspl
      (enlist_cases hvalid.setThread) ?_).weaken fun p h hf => h.elim fun e h => h.2 (hmodest hf)).mono ?_
    · rintro r s' (⟨-, same, -⟩ | ⟨-, same, -⟩)
      all_goals
        rw [same.eq]
        simp [ThreadSys.setThread]
    · rintro r f' ⟨⟨rfl, same, hready⟩ | ⟨rfl, same, hready⟩, hspl', halloc, hrest⟩
      · exact .inl ⟨_, rfl, undone_of_same _ _ hg.first same hready hrest.1 hrest.2.1 hspl' halloc
          hrest.2.2 (List.reverse_perm [newguy, name, stack])⟩
      · exact .inr ⟨rfl, newguy, hg.first, forked_of_same same hready hrest.1 hspl' hrest.2⟩

/-- Memory is exhausted when the four sleepers need a larger array. -/
def sampleFork : ForkState Nat Unit where
  sys := sampleAsleep.setOwn 1 none (some 5)
  vnodes := { sampleVfs with refs := fun _ => 1 }
  tName := fun _ => none
  tStack := fun _ => none
  kmallocs := fun i => some (i + 10)
  allocated := []
  freed := []
  curspl := 0
  ret := 0

theorem threadFork_sampleFork : Modest sampleFork.sys ∧ (sampleFork.sys.thread 1).tCwd = some 5 ∧
    ∃ e f', threadFork (sampleOps true) true sampleFork = .ok (.error e, f') ∧ Undone sampleFork f' := by
  have hmodest : Modest sampleFork.sys := ⟨by decide, by decide, by decide, by decide⟩
  have hrefused : ((threadFork (sampleOps true) true).value? sampleFork).isNone = true := by
    decide +kernel
  have hclean := threadFork_fails_cleanly (sampleOps true) true sampleFork sampleAsleep_valid.setThread
    rfl (by decide) fun _ _ => Nat.one_pos
  obtain ⟨r, f', hrun, ⟨e, rfl, hundone⟩ | ⟨rfl, -⟩⟩ := (hclean.weaken fun _ h => h hmodest).exists_ok
  · exact ⟨hmodest, rfl, e, f', hrun, hundone⟩
  · rw [Prog.value?_eq_some.2 hrun] at hrefused
    cases hrefused

/-! ## The thread system -/

/-- With a structure, a name and a stack, the thread system sees a fork that found memory for them.
-/
theorem threadFork_sys {L : ThreadPanic → Prop} {Q : Except Errno Unit → ThreadSys A → Prop}
    (ops : VnodeOps σ) (ret : Bool) (hvalid : f.sys.Valid) (hcur : f.sys.curthread = some cur)
    (hne : cur ≠ newguy) (hcwd : ∀ vn ∈ (f.sys.thread cur).tCwd, 0 < f.vnodes.refs vn)
    (hnew : f.kmallocs 0 = some newguy) (hname : f.kmallocs 1 ≠ none) (hstack : f.kmallocs 2 ≠ none)
    (h : Sat L (Threads.threadFork (some newguy)) f.sys Q) :
    Sat (fun p => ∃ e, p = .sys e ∧ L e) (threadFork ops ret) f fun r f' => Q r f'.sys := by
  simp only [threadFork_some, theCurthread, sat_bind, sat_get, hcur, sat_pure, sat_modify] at h
  simp only [threadFork, sat_bind]
  refine threadCreate_cases.mono ?_
  rintro r g (⟨rfl, hnone, -⟩ | ⟨t, name, rfl, hg, hgname, hspl, hg0⟩)
  · exact absurd hnone (by simp [hnew, hname])
  obtain rfl : t = newguy := Option.some.inj (hg.first.symm.trans hnew)
  obtain ⟨stack, hstack'⟩ := Option.ne_none_iff_exists'.1 hstack
  simp only [kmalloc, sat_bind, sat_get, sat_modify, sat_pure, hg0, hstack']
  refine (launch_rule hcur hne hcwd hg.withStack hgname (Function.update_self ..) hspl
    (h.and (enlist_cases hvalid.setThread)) ?_).mono fun r f' hr => hr.1.1
  rintro r s' ⟨-, ⟨-, same, -⟩ | ⟨-, same, -⟩⟩
  all_goals
    rw [same.eq]
    simp [ThreadSys.setThread]

theorem threadFork_sys_sampleFork : sampleFork.sys.curthread = some 1 ∧
    Sat (fun _ => False) (Threads.threadFork (some 10)) sampleFork.sys (fun r _ => r = .error .enomem) ∧
    Sat (fun p => ∃ e, p = .sys e ∧ False) (threadFork (sampleOps true) true) sampleFork
      fun r _ => r = .error .enomem := by
  have h : Sat (fun _ => False) (Threads.threadFork (some 10)) sampleFork.sys (fun r _ => r = .error .enomem) := rfl
  exact ⟨rfl, h, threadFork_sys (sampleOps true) true sampleAsleep_valid.setThread rfl (by decide)
    (fun _ _ => Nat.one_pos) rfl (by decide) (by decide) h⟩

end Os161.Fork
