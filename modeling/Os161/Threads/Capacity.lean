import Os161.Threads.Conservation

/-!
# What `thread_fork` preallocates

`thread_fork` asks for room for `numthreads + 1` threads in all three containers, so that later
calls need no memory. The sleepers always have it. A ring of `size` cells holds only `size - 1`
threads, so that the run queue is one cell short when the threads are exactly as many as its cells.
And the zombies lose their block when they are disposed of while it has more than 16 slots, and pile
up while the scheduler starts new threads, which dispose of none.
-/
namespace Os161.Threads

open Lib Kern

variable {A : Type} [DecidableEq A] {v w : Sched A} {s s' : ThreadSys A} {e : ThreadEvent A}
  {tr : List (ThreadEvent A)} {me : Nat} {q : Queue Nat} {m m' : Supply Nat}

/-! ## The run queue -/

/-- A fork finds more cells than it needs for one thread more. -/
def SpareStep (s : ThreadSys A) (e : ThreadEvent A) (s' : ThreadSys A) : Prop :=
  ThreadStep s e s' ∧ (e.forks = true → s.numthreads + 1 ≠ s.runqueue.size)

theorem SchedStep.queueSize (h : v.numthreads < v.queueSize) (step : SchedStep v e w)
    (hspare : e.forks = true → v.numthreads + 1 ≠ v.queueSize) : w.numthreads < w.queueSize := by
  cases step with
  | fork hcur hfresh hpre hw =>
    have : w.numthreads = v.numthreads + 1 := by rw [hw.eq]
    have hle : v.queueSize ≤ w.queueSize := hw.queueSize
    have := hspare rfl
    omega
  | forkFailed hcur hfresh hw =>
    have : w.numthreads = v.numthreads := by rw [hw.eq]; rfl
    exact this ▸ Nat.lt_of_lt_of_le h hw.queueSize
  | yield hcur hq | wakeup hq | wakeupOne hq => exact Nat.lt_of_lt_of_le h hq.le
  | exit hcur hm => exact Nat.lt_of_le_of_lt (Nat.sub_le _ _) h
  | @run t rest hcur hready =>
    obtain ⟨hnum, hsize, -⟩ := v.resumed_capacities t rest
    rw [hnum, hsize]
    exact h
  | forkNone hcur | yieldIdle hcur | sleep hcur hm | own hcur => exact h

theorem Sched.Conserves.woken_lt {l : List Nat} (hc : v.Conserves l) (h : v.numthreads < v.queueSize)
    (addr : A) (one : Bool) : v.ready.length + (v.woken addr one).2.length < v.queueSize := by
  have hlen := hc.places.length_eq
  have hcount := hc.count
  have hscan := (scan_perm (v.sleepsOn addr) one false v.asleep).length_eq
  simp only [Sched.threads, List.length_append] at hlen
  rw [List.length_append] at hscan
  unfold Sched.woken
  omega

theorem ThreadSys.Wakes.spare {addr : A} {one : Bool} {wake : ThreadM A Unit} (hw : s.Wakes addr one wake)
    (hroom : s.sched.ready.length + (s.sched.woken addr one).2.length < s.sched.queueSize) :
    Prog.Sat (fun _ => False) wake s fun r s' => r = .ok () ∧ s'.runqueue.size = s.runqueue.size := by
  refine (hw.weaken ?_).mono ?_
  · rintro p ⟨-, hfull⟩
    omega
  · rintro r s' ⟨rfl, -, q', hq', hsched⟩
    have hsize : s'.runqueue.size = q' := congrArg Sched.queueSize hsched
    exact ⟨rfl, hsize.trans (hq'.keeps hroom)⟩

/-- As long as each fork finds a cell to spare, the threads that become ready need no
memory: in every state that is reached, giving up the processor and waking threads up succeeds, with
the queue as large as it was. -/
theorem runqueue_preallocated (hq : qCreate 32 m = (some q, m'))
    (run : Run SpareStep (threadBootstrap me q m') tr s) {op : ThreadOp A}
    (hop : op = .yield ∨ ∃ addr, op = .wakeup addr ∨ op = .wakeupOne addr) :
    Prog.Sat (fun _ => False) op.call s fun r s' => r = .ok () ∧ s'.runqueue.size = s.runqueue.size := by
  have hboot : (threadBootstrap me q m' : ThreadSys A).sched.numthreads < q.size := by
    obtain ⟨cell, rfl⟩ := qCreate_eq hq
    simp [ThreadSys.sched, threadBootstrap]
  obtain ⟨hv, hc, hlt⟩ := ThreadSys.run_history (I := fun _ s => s.sched.numthreads < s.sched.queueSize) hq run hboot
    fun _ _ h _ step hspare => step.queueSize h hspare
  obtain rfl | ⟨addr, rfl | rfl⟩ := hop
  · cases hcur : s.curthread with
    | none =>
      refine (threadYield_none hcur).mono ?_
      rintro r s' ⟨rfl, rfl⟩
      exact ⟨rfl, rfl⟩
    | some cur =>
      have hroom := hc.ready_lt hcur hlt
      refine ((threadYield_spec hv hc.small hcur).weaken ?_).mono ?_
      · rintro p ⟨-, hfull⟩
        omega
      · rintro r s' ⟨rfl, -, q', hq', hsched⟩
        have hsize : s'.runqueue.size = q' := congrArg Sched.queueSize hsched
        exact ⟨rfl, hsize.trans (hq'.keeps hroom)⟩
  · exact (threadWakeup_spec hv hc.small).spare (hc.woken_lt hlt addr false)
  · exact (threadWakeupOne_spec hv hc.small).spare (hc.woken_lt hlt addr true)

/-- The answers of a `kmalloc` that has memory for `n` more blocks. -/
def memoryFor (n : Nat) : Supply Nat := fun k => if k < n then some fun _ => 0 else none

def stopsWith (p : ThreadPanic) (m : ThreadM A Unit) (s : ThreadSys A) : Bool :=
  match m s with
  | .error p' => p' = p
  | .ok _ => false

/-- With 32 threads the queue of 32 cells is full when all but one are ready. The next one that
gives up the processor makes it grow, and the machine stops when there is no memory. -/
theorem threadYield_full : ∃ tr s, Run ThreadStep (threadBootstrap 1 bootQueue (memoryFor 62) : ThreadSys Nat) tr s ∧
    stopsWith .switchReady threadYield s = true :=
  Run.of_replays (P := fun _ s => stopsWith .switchReady threadYield s) ThreadOp.step_sound
    (show replays ThreadOp.step ((List.range 31).map fun i => .fork (some (i + 2))) _ _ = true by
      decide +kernel)

def ThreadOp.spareStep : ThreadSys A → ThreadOp A → Option (ThreadEvent A × ThreadSys A) :=
  nextIf ThreadOp.step fun s e _ => e.forks = true → s.numthreads + 1 ≠ s.runqueue.size

theorem ThreadOp.spareStep_sound {op : ThreadOp A} (h : ThreadOp.spareStep s op = some (e, s')) : SpareStep s e s' := by
  obtain ⟨hstep, hspare⟩ := nextIf_sound ThreadOp.step_sound h
  exact ⟨hstep, of_decide_eq_true hspare⟩

/-- With 31 threads the one that runs is made ready without memory. -/
theorem runqueue_preallocated_sample :
    ∃ tr s, Run SpareStep (threadBootstrap 1 bootQueue (memoryFor 60) : ThreadSys Nat) tr s ∧
      (s.numthreads = 31 ∧ s.curthread = some 1) ∧ Prog.Sat (fun _ => False) threadYield s fun r s' =>
        r = .ok () ∧ s'.runqueue.size = s.runqueue.size := by
  obtain ⟨tr, s, run, hs⟩ := Run.of_replays (s := (threadBootstrap 1 bootQueue (memoryFor 60) : ThreadSys Nat))
    (P := fun _ s => s.numthreads = 31 ∧ s.curthread = some 1) ThreadOp.spareStep_sound
    (show replays ThreadOp.spareStep ((List.range 30).map fun i => .fork (some (i + 2))) _ _ = true by
      decide +kernel)
  exact ⟨tr, s, run, of_decide_eq_true hs,
    runqueue_preallocated (m := fun k => memoryFor 60 (k - 2)) rfl run (.inl rfl)⟩

/-! ## The zombies -/

/-- The thread that runs next is not new, and disposes of the zombies. -/
def ThreadSys.Exorcises (s : ThreadSys A) : Prop :=
  ∃ t ∈ s.runqueue.elems.head?, (s.thread t).tPcb ≠ .threadstart

instance (s : ThreadSys A) : Decidable s.Exorcises := inferInstanceAs (Decidable (∃ t ∈ _, _))

/-- No step gives the block of the zombies back, and a fork finds few enough zombies: the block that
it preallocates has room for all threads, dead ones and live ones. -/
structure RoomyStep (s : ThreadSys A) (e : ThreadEvent A) (s' : ThreadSys A) : Prop where
  step : ThreadStep s e s'
  keeps : e.runs = true → s.Exorcises → s.zombies.max ≤ 16
  room : e.forks = true →
    s.zombies.num + (s.numthreads + 1) ≤ grownMax (s.numthreads + 1) s.zombies.max

/-- The zombies have room for the threads that live. -/
theorem SchedStep.zombiesMax {l : List Nat} (hc : v.Conserves l)
    (h : Forked tr → v.dead.length + v.numthreads ≤ v.zombiesMax) (step : SchedStep v e w)
    (hkeeps : e.runs = true → (∃ t ∈ v.ready.head?, (v.thread t).tPcb ≠ .threadstart) → v.zombiesMax ≤ 16)
    (hroom : e.forks = true →
      v.dead.length + (v.numthreads + 1) ≤ grownMax (v.numthreads + 1) v.zombiesMax)
    (hf : Forked (e :: tr)) : w.dead.length + w.numthreads ≤ w.zombiesMax := by
  rw [forked_cons] at hf
  cases step with
  | fork hcur hfresh hpre hw =>
    have hnum : w.numthreads = v.numthreads + 1 := by rw [hw.eq]
    have hdead : w.dead = v.dead := by rw [hw.eq]; rfl
    rw [hnum, hdead, hpre.zombiesMax]
    exact hroom rfl
  | forkFailed hcur hfresh hw =>
    have hnum : w.numthreads = v.numthreads := by rw [hw.eq]; rfl
    have hdead : w.dead = v.dead := by rw [hw.eq]; rfl
    rw [hnum, hdead]
    exact Nat.le_trans (h (hf.resolve_left nofun)) hw.zombiesMax
  | @exit cur m hcur hm =>
    have hpos := hc.numthreads_pos hcur
    have hle := hm.le
    have := h (hf.resolve_left nofun)
    have hgoal : (v.dead ++ [cur]).length + (v.numthreads - 1) ≤ m := by
      rw [List.length_append, List.length_singleton]
      omega
    exact hgoal
  | @run t rest hcur hready =>
    have hlive := h (hf.resolve_left nofun)
    have hsmall (hnew : (v.thread t).tPcb ≠ .threadstart) : v.zombiesMax ≤ 16 :=
      hkeeps rfl ⟨t, by rw [hready]; rfl, hnew⟩
    have hdisposed (hnew : (v.thread t).tPcb ≠ .threadstart) :
        0 + v.numthreads ≤ if 16 < v.zombiesMax then 0 else v.zombiesMax := by
      have := hsmall hnew
      rw [if_neg (by omega)]
      omega
    unfold Sched.resumed
    cases hpcb : (v.thread t).tPcb with
    | threadstart => exact hlive
    | yield | sleep | exit => exact hdisposed (by simp [hpcb])
  | forkNone hcur | yield hcur hq | yieldIdle hcur | sleep hcur hm | wakeup hq | wakeupOne hq
  | own hcur => exact h (hf.resolve_left nofun)

/-- As long as the zombies keep their block and each fork has room for all threads, a thread that
exits needs no memory. -/
theorem zombies_preallocated (hq : qCreate 32 m = (some q, m'))
    (run : Run RoomyStep (threadBootstrap me q m') tr s) (hf : Forked tr) {cur : Nat} (hcur : s.curthread = some cur) :
    s.zombies.num < s.zombies.max ∧ Prog.Sat (fun _ => False) threadExit s fun r s' =>
        r = .ok () ∧ s'.zombies.max = s.zombies.max := by
  obtain ⟨hv, hc, hroom⟩ := ThreadSys.run_history
    (I := fun tr s => Forked tr → s.sched.dead.length + s.sched.numthreads ≤ s.sched.zombiesMax)
    (C := fun s e s' => (e.runs = true → s.Exorcises → s.zombies.max ≤ 16) ∧
      (e.forks = true →
        s.zombies.num + (s.numthreads + 1) ≤ grownMax (s.numthreads + 1) s.zombies.max)) hq
    (run.mono fun h => ⟨h.step, h.keeps, h.room⟩) (fun ⟨_, hmem, _⟩ => nomatch hmem)
    fun hv hc h hv' step hcond hf => step.zombiesMax hc h hcond.1
      (fun hfork => by rw [hv.dead_length]; exact hcond.2 hfork) hf
  have hpos := hc.numthreads_pos hcur
  have hlen := hv.dead_length
  have hmax : s.sched.zombiesMax = s.zombies.max := rfl
  have hlt : s.sched.dead.length < s.sched.zombiesMax := by
    have := hroom hf
    omega
  refine ⟨by omega, ?_⟩
  refine ((threadExit_spec hv hc.small hcur hpos).weaken ?_).mono ?_
  · rintro p ⟨-, hfull⟩
    omega
  · rintro r s' ⟨rfl, -, m, hm, hsched⟩
    have hsize : s'.zombies.max = m := congrArg Sched.zombiesMax hsched
    exact ⟨rfl, hsize.trans (hm.keeps hlt)⟩

def ThreadOp.roomyStep : ThreadSys A → ThreadOp A → Option (ThreadEvent A × ThreadSys A) :=
  nextIf ThreadOp.step fun s e _ =>
    (e.runs = true → s.Exorcises → s.zombies.max ≤ 16) ∧ (e.forks = true →
      s.zombies.num + (s.numthreads + 1) ≤ grownMax (s.numthreads + 1) s.zombies.max)

theorem ThreadOp.roomyStep_sound {op : ThreadOp A} (h : ThreadOp.roomyStep s op = some (e, s')) : RoomyStep s e s' := by
  obtain ⟨hstep, hroom⟩ := nextIf_sound ThreadOp.step_sound h
  obtain ⟨hkeeps, hroom⟩ := of_decide_eq_true hroom
  exact ⟨hstep, hkeeps, hroom⟩

/-- A thread that was forked exits, the first one disposes of it and exits without memory. -/
theorem zombies_preallocated_sample :
    ∃ tr s, Run RoomyStep (threadBootstrap 1 bootQueue (memoryFor 2) : ThreadSys Nat) tr s ∧
      (Forked tr ∧ s.curthread = some 1) ∧ s.zombies.num < s.zombies.max := by
  obtain ⟨tr, s, run, hs⟩ := Run.of_replays (s := (threadBootstrap 1 bootQueue (memoryFor 2) : ThreadSys Nat))
    (P := fun tr s => Forked tr ∧ s.curthread = some 1) ThreadOp.roomyStep_sound
    (show replays ThreadOp.roomyStep [.fork (some 2), .yield, .run, .exit, .run] _ _ = true by
      decide +kernel)
  have hs' := of_decide_eq_true hs
  exact ⟨tr, s, run, hs', (zombies_preallocated (m := fun k => memoryFor 2 (k - 2)) rfl run hs'.1 hs'.2).1⟩

/-- With 15 threads the zombies have 30 slots. The thread that disposes of the first zombie gives
them back; when it exits next, the array has to grow, and the machine stops when there is no memory.
-/
theorem threadExit_given_back :
    ∃ tr s, Run ThreadStep (threadBootstrap 1 bootQueue (memoryFor 28) : ThreadSys Nat) tr s ∧
      (Forked tr ∧ stopsWith .switchZomb threadExit s = true) := by
  obtain ⟨tr, s, run, hs⟩ := Run.of_replays (s := (threadBootstrap 1 bootQueue (memoryFor 28) : ThreadSys Nat))
    (P := fun tr s => Forked tr ∧ stopsWith .switchZomb threadExit s = true) ThreadOp.step_sound
    (show replays ThreadOp.step ([.fork (some 2), .yield, .run, .yield, .run] ++
      ((List.range 13).map fun i => .fork (some (i + 3))) ++ [.exit, .run]) _ _ = true by
      decide +kernel)
  exact ⟨tr, s, run, of_decide_eq_true hs⟩

end Os161.Threads
