import Os161.Threads.Sched

/-!
# Conservation of threads

A thread lives from the `thread_fork` that made it until its `thread_exit`. Whatever the calls and
whoever makes them, each live thread is in exactly one place, and the dead ones can be disposed of.
-/
namespace Os161.Threads

open Lib Kern

/-- The calls; `run` is the scheduler's choice of the next thread, `own` an assignment of a thread
to its own address space and current directory. -/
inductive ThreadOp (A : Type) where
  | fork (newguy? : Option Nat)
  | yield
  | sleep (addr : A)
  | wakeup (addr : A)
  | wakeupOne (addr : A)
  | exit
  | run
  | own (vmspace cwd : Option Nat)
  deriving DecidableEq

structure ThreadEvent (A : Type) where
  cur : Option Nat
  op : ThreadOp A
  result : Except Errno Unit
  deriving DecidableEq

variable {A : Type}

/-- The live threads after a history, whose last event comes first. -/
def live (me : Nat) : List (ThreadEvent A) → List Nat
  | [] => [me]
  | ⟨_, .fork (some newguy), .ok _⟩ :: tr => newguy :: live me tr
  | ⟨some t, .exit, _⟩ :: tr => (live me tr).erase t
  | _ :: tr => live me tr

def ThreadEvent.runs : ThreadEvent A → Bool
  | ⟨_, .run, _⟩ => true
  | _ => false

def ThreadEvent.forks : ThreadEvent A → Bool
  | ⟨_, .fork _, .ok _⟩ => true
  | _ => false

def Forked (tr : List (ThreadEvent A)) : Prop := ∃ e ∈ tr, e.forks = true

instance (tr : List (ThreadEvent A)) : Decidable (Forked tr) :=
  inferInstanceAs (Decidable (∃ e ∈ tr, e.forks = true))

theorem forked_cons {e : ThreadEvent A} {tr : List (ThreadEvent A)} :
    Forked (e :: tr) ↔ e.forks = true ∨ Forked tr := by
  simp [Forked]

def Sched.threads (v : Sched A) : List Nat := v.cur.toList ++ v.ready ++ v.asleep

/-- The structure of a new thread is not in use, and its stack has found room. -/
def Sched.Fresh (v : Sched A) (newguy : Nat) : Prop :=
  newguy ∉ v.threads ++ v.dead ∧ (v.threads ++ v.dead).length < 2 ^ 20

instance (v : Sched A) (newguy : Nat) : Decidable (v.Fresh newguy) :=
  inferInstanceAs (Decidable (_ ∧ _))

/-- Each live thread is in one place, and the dead are done with. -/
structure Sched.Conserves (v : Sched A) (live : List Nat) : Prop where
  places : v.threads.Perm live
  nodup : (v.threads ++ v.dead).Nodup
  count : v.numthreads = live.length
  asleep : ∀ t ∈ v.asleep, (v.thread t).tSleepaddr.isSome
  pcb : ∀ t ∈ v.ready ++ v.asleep, (v.thread t).tPcb ≠ .exit
  dead : ∀ t ∈ v.dead, (v.thread t).tVmspace = none ∧ (v.thread t).tCwd = none
  room : (v.threads ++ v.dead).length ≤ 2 ^ 20
  small : v.Small

variable {v w : Sched A} {s : ThreadSys A} {l : List Nat} {cur t m q : Nat}

theorem Sched.setThread_ne (v : Sched A) {u : Nat} (th : Thread A) (h : u ≠ t) :
    (v.setThread t th).thread u = v.thread u := Function.update_of_ne h _ _

namespace Sched.Conserves

/-- Threads that only change places are conserved. -/
theorem moved (h : v.Conserves l) (hplaces : w.threads.Perm v.threads) (hdead : w.dead = v.dead)
    (hnum : w.numthreads = v.numthreads)
    (hasleep : ∀ t ∈ w.asleep, (w.thread t).tSleepaddr.isSome)
    (hpcb : ∀ t ∈ w.ready ++ w.asleep, (w.thread t).tPcb ≠ .exit)
    (hclean : ∀ t ∈ v.dead, (w.thread t).tVmspace = none ∧ (w.thread t).tCwd = none)
    (hsmall : w.Small) : w.Conserves l where
  places := hplaces.trans h.places
  nodup := by
    rw [hdead]
    exact (hplaces.append_right _).nodup_iff.2 h.nodup
  count := hnum.trans h.count
  asleep := hasleep
  pcb := hpcb
  dead := hdead.symm ▸ hclean
  room := by
    have := h.room
    rw [hdead, List.length_append, hplaces.length_eq, ← List.length_append]
    exact this
  small := hsmall

section Cur

variable (h : v.Conserves l) (hcur : v.cur = some cur)
include h hcur

theorem ne_cur {u : Nat} (hu : u ∈ v.ready ∨ u ∈ v.asleep ∨ u ∈ v.dead) : u ≠ cur := by
  have hnodup := h.nodup
  simp only [Sched.threads, hcur, Option.toList_some, List.append_assoc, List.cons_append,
    List.nil_append, List.nodup_cons, List.mem_append] at hnodup
  rintro rfl
  exact hnodup.1 hu

theorem length_lt : v.ready.length + v.asleep.length + v.dead.length < 2 ^ 20 := by
  have := h.room
  simp only [Sched.threads, hcur, Option.toList_some, List.length_append, List.length_singleton] at this
  omega

/-- Every place but that of a thread whose structure changes is as it was. -/
theorem keepAsleep (hw : ∀ u, u ≠ cur → w.thread u = v.thread u) :
    ∀ u ∈ v.asleep, (w.thread u).tSleepaddr.isSome := by
  intro u hu
  rw [hw u (h.ne_cur hcur (.inr (.inl hu)))]
  exact h.asleep u hu

theorem keepDead (hw : ∀ u, u ≠ cur → w.thread u = v.thread u) :
    ∀ u ∈ v.dead, (w.thread u).tVmspace = none ∧ (w.thread u).tCwd = none := by
  intro u hu
  rw [hw u (h.ne_cur hcur (.inr (.inr hu)))]
  exact h.dead u hu

omit hcur in
theorem keepPcb (hw : ∀ u, u ≠ cur → w.thread u = v.thread u)
    (hexit : (w.thread cur).tPcb ≠ .exit) {u : Nat} (hu : u = cur ∨ u ∈ v.ready ++ v.asleep) :
    (w.thread u).tPcb ≠ .exit := by
  by_cases he : u = cur
  · rw [he]
    exact hexit
  · rw [hw u he]
    exact h.pcb u (hu.resolve_left he)

/-- A queue with more cells than threads has room for the current thread. -/
theorem ready_lt (hlt : v.numthreads < v.queueSize) : v.ready.length + 1 < v.queueSize := by
  have hlen := h.places.length_eq
  have hcount := h.count
  simp only [Sched.threads, hcur, Option.toList_some, List.length_append, List.length_singleton] at hlen
  omega

theorem numthreads_pos : 0 < v.numthreads := by
  have hlen := h.places.length_eq
  have hcount := h.count
  simp only [Sched.threads, hcur, Option.toList_some, List.length_append, List.length_singleton] at hlen
  omega

theorem yield (hq : Grows (v.ready.length + 1) v.queueSize q) :
    ((v.leave cur .yield).addReady cur q).Conserves l := by
  have hthread (u : Nat) (hu : u ≠ cur) : ((v.leave cur .yield).addReady cur q).thread u = v.thread u :=
    Sched.setThread_ne _ _ hu
  refine h.moved ?_ rfl rfl (h.keepAsleep hcur hthread) ?_ (h.keepDead hcur hthread) ?_
  · refine List.perm_iff_count.2 fun a => ?_
    simp only [Sched.threads, hcur]
    grind [Sched.addReady, Sched.leave, Sched.setPcb, Sched.setThread]
  · intro u hu
    refine h.keepPcb hthread (by simp [Sched.addReady, Sched.leave, Sched.setPcb, Sched.setThread]) ?_
    have : u ∈ v.ready ++ [cur] ++ v.asleep := hu
    grind
  · have hlen := h.length_lt hcur
    have hs := h.small
    have hqueue := hs.queueSize
    have hbound := hq.bound
    have hrun : (v.ready ++ [cur]).length + v.asleep.length ≤ 2 ^ 20 := by simp; omega
    have hsize : q ≤ 2 ^ 22 := by omega
    exact ⟨hrun, hs.2, hs.3, hsize, hs.5, hs.6⟩

theorem sleep {addr : A} (hm : Grows v.asleep.length v.sleepersMax m) :
    (((v.setSleepaddr cur (some addr)).leave cur .sleep).addAsleep cur m).Conserves l := by
  have hthread (u : Nat) (hu : u ≠ cur) :
      (((v.setSleepaddr cur (some addr)).leave cur .sleep).addAsleep cur m).thread u = v.thread u :=
    (Sched.setThread_ne _ _ hu).trans (Sched.setThread_ne _ _ hu)
  have hself : (((v.setSleepaddr cur (some addr)).leave cur .sleep).addAsleep cur m).thread cur =
      { v.thread cur with tPcb := .sleep, tSleepaddr := some addr } := by
    simp [Sched.addAsleep, Sched.leave, Sched.setPcb, Sched.setSleepaddr, Sched.setThread]
  refine h.moved ?_ rfl rfl ?_ ?_ (h.keepDead hcur hthread) ?_
  · refine List.perm_iff_count.2 fun a => ?_
    simp only [Sched.threads, hcur]
    grind [Sched.addAsleep, Sched.leave, Sched.setPcb, Sched.setSleepaddr, Sched.setThread]
  · intro u hu
    have hu' : u ∈ v.asleep ++ [cur] := hu
    by_cases he : u = cur
    · rw [he, hself]
      rfl
    · exact h.keepAsleep hcur hthread u (by grind)
  · intro u hu
    refine h.keepPcb hthread (by simp [hself]) ?_
    have : u ∈ v.ready ++ (v.asleep ++ [cur]) := hu
    grind
  · have hlen := h.length_lt hcur
    have hs := h.small
    have hmax := hs.sleepersMax
    have hbound := hm.bound
    have hrun : v.ready.length + (v.asleep ++ [cur]).length ≤ 2 ^ 20 := by simp; omega
    have hsize : m ≤ 2 ^ 22 := by omega
    exact ⟨hrun, hs.2, hs.3, hs.4, hsize, hs.6⟩

theorem own {vmspace cwd : Option Nat} : (v.setOwn cur vmspace cwd).Conserves l := by
  have hthread (u : Nat) (hu : u ≠ cur) : (v.setOwn cur vmspace cwd).thread u = v.thread u :=
    Sched.setThread_ne _ _ hu
  refine h.moved (.refl _) rfl rfl (h.keepAsleep hcur hthread) ?_ (h.keepDead hcur hthread)
    ⟨h.small.1, h.small.2, h.small.3, h.small.4, h.small.5, h.small.6⟩
  intro u hu
  have hu' : u ∈ v.ready ++ v.asleep := hu
  rw [hthread u (h.ne_cur hcur (by grind))]
  exact h.pcb u hu

theorem exit (hm : Grows v.dead.length v.zombiesMax m) :
    (({ v.setOwn cur none none with numthreads := v.numthreads - 1 }.leave cur .exit).addDead cur
      m).Conserves (l.erase cur) := by
  have hthread (u : Nat) (hu : u ≠ cur) :
      (({ v.setOwn cur none none with numthreads := v.numthreads - 1 }.leave cur .exit).addDead cur
        m).thread u = v.thread u :=
    (Sched.setThread_ne _ _ hu).trans (Sched.setThread_ne _ _ hu)
  have hlen := h.length_lt hcur
  have hplaces : (cur :: (v.ready ++ v.asleep)).Perm l := by
    simpa [Sched.threads, hcur] using h.places
  have hmem : cur ∈ l := hplaces.subset (List.mem_cons_self)
  refine ⟨?_, ?_, ?_, h.keepAsleep hcur hthread, ?_, ?_, ?_, ?_⟩
  · exact (List.cons_perm_iff_perm_erase.1 hplaces).2
  · have hperm : (v.ready ++ v.asleep ++ (v.dead ++ [cur])).Perm (v.threads ++ v.dead) := by
      refine List.perm_iff_count.2 fun a => ?_
      simp only [Sched.threads, hcur]
      grind
    exact hperm.nodup_iff.2 h.nodup
  · have := h.count
    rw [List.length_erase_of_mem hmem, ← this]
    rfl
  · intro u hu
    have hu' : u ∈ v.ready ++ v.asleep := hu
    rw [hthread u (h.ne_cur hcur (by grind))]
    exact h.pcb u hu
  · intro u hu
    have hu' : u ∈ v.dead ++ [cur] := hu
    by_cases he : u = cur
    · rw [he]
      simp [Sched.addDead, Sched.leave, Sched.setPcb, Sched.setOwn, Sched.setThread]
    · exact h.keepDead hcur hthread u (by grind)
  · have : (v.ready ++ v.asleep ++ (v.dead ++ [cur])).length ≤ 2 ^ 20 := by simp; omega
    exact this
  · have hs := h.small
    have hnum := hs.numthreads
    have hmax := hs.zombiesMax
    have hbound := hm.bound
    have hdead : (v.dead ++ [cur]).length ≤ 2 ^ 20 := by simp; omega
    have hcount : v.numthreads - 1 ≤ 2 ^ 20 := by omega
    have hsize : m ≤ 2 ^ 22 := by omega
    exact ⟨hs.1, hdead, hcount, hs.4, hs.5, hsize⟩

end Cur

section

variable (h : v.Conserves l)
include h

theorem enlarged (hw : v.Enlarged w) : w.Conserves l := by
  rw [hw.eq]
  exact ⟨h.places, h.nodup, h.count, h.asleep, h.pcb, h.dead, h.room, hw.eq ▸ hw.small⟩

theorem newThread (hfresh : v.Fresh t) : (v.newThread t cur).Conserves l := by
  have hthread {u : Nat} (hu : u ∈ v.threads ++ v.dead) : (v.newThread t cur).thread u = v.thread u := by
    refine Sched.setThread_ne _ _ ?_
    rintro rfl
    exact hfresh.1 hu
  refine h.moved (.refl _) rfl rfl ?_ ?_ ?_ ⟨h.small.1, h.small.2, h.small.3, h.small.4, h.small.5, h.small.6⟩
  · intro u hu
    have hu' : u ∈ v.asleep := hu
    rw [hthread (by simp [Sched.threads, hu'])]
    exact h.asleep u hu
  · intro u hu
    have hu' : u ∈ v.ready ++ v.asleep := hu
    rw [hthread (by grind [Sched.threads])]
    exact h.pcb u hu
  · intro u hu
    rw [hthread (by simp [hu])]
    exact h.dead u hu

theorem fork (hfresh : v.Fresh t) (hw : { v.newThread t cur with
      ready := v.ready ++ [t], numthreads := v.numthreads + 1 }.Enlarged w) : w.Conserves (t :: l) := by
  have hn : (v.newThread t cur).Conserves l := h.newThread hfresh
  have hperm : (v.cur.toList ++ (v.ready ++ [t]) ++ v.asleep).Perm (t :: v.threads) := by
    refine List.perm_iff_count.2 fun a => ?_
    simp only [Sched.threads]
    grind
  rw [hw.eq]
  refine ⟨hperm.trans (h.places.cons t), ?_, ?_, hn.asleep, ?_, hn.dead, ?_, hw.eq ▸ hw.small⟩
  · exact (hperm.append_right v.dead).nodup_iff.2 (List.nodup_cons.2 ⟨hfresh.1, h.nodup⟩)
  · have := h.count
    simp only [List.length_cons]
    omega
  · intro u hu
    have hu' : u ∈ v.ready ++ [t] ++ v.asleep := hu
    by_cases he : u = t
    · rw [he]
      simp [Sched.newThread, Sched.setThread]
    · exact hn.pcb u (by grind [Sched.newThread, Sched.setThread])
  · have := (hperm.append_right v.dead).length_eq
    have hroom := hfresh.2
    rw [List.cons_append, List.length_cons] at this
    exact Nat.le_trans (Nat.le_of_eq this) hroom

theorem exorcised : v.exorcised.Conserves l := by
  have hs := h.small
  have hmax := hs.zombiesMax
  have hroom := h.room
  rw [List.length_append] at hroom
  refine ⟨h.places, ?_, h.count, h.asleep, h.pcb, nofun, ?_, hs.1, Nat.zero_le _, hs.3, hs.4, hs.5, ?_⟩
  · have : (v.threads ++ []).Nodup := by simpa using (List.nodup_append.1 h.nodup).1
    exact this
  · have : (v.threads ++ []).length ≤ 2 ^ 20 := by simp; omega
    exact this
  · simp only [Sched.exorcised]
    split <;> omega

theorem resumed {rest : List Nat} (hcur : v.cur = none)
    (hready : v.ready = t :: rest) : (v.resumed t rest).Conserves l := by
  have hs := h.small
  have hrun : { v with cur := some t, ready := rest }.Conserves l := by
    refine h.moved ?_ rfl rfl h.asleep ?_ h.dead ?_
    · refine List.perm_iff_count.2 fun a => ?_
      simp only [Sched.threads, hcur, hready]
      grind
    · intro u hu
      refine h.pcb u ?_
      rw [hready]
      exact List.mem_cons_of_mem _ hu
    · have := hs.1
      rw [hready, List.length_cons] at this
      exact ⟨by simp only; omega, hs.2, hs.3, hs.4, hs.5, hs.6⟩
  unfold Sched.resumed
  cases (v.thread t).tPcb with
  | threadstart => exact hrun
  | yield | exit => exact hrun.exorcised
  | sleep =>
    have he := hrun.exorcised
    have hthread (u : Nat) (hu : u ≠ t) :=
      Sched.setThread_ne { v with cur := some t, ready := rest }.exorcised
        { v.thread t with tSleepaddr := none } hu
    refine he.moved (.refl _) rfl rfl (he.keepAsleep rfl hthread) ?_ nofun
      ⟨he.small.1, he.small.2, he.small.3, he.small.4, he.small.5, he.small.6⟩
    intro u hu
    have hu' : u ∈ rest ++ v.asleep := hu
    have hne : u ≠ t := he.ne_cur rfl (by simp only [Sched.exorcised]; grind)
    have := he.pcb u hu
    rwa [← hthread u hne] at this

end

end Sched.Conserves

theorem Sched.resumed_capacities (v : Sched A) (t : Nat) (rest : List Nat) :
    (v.resumed t rest).numthreads = v.numthreads ∧ (v.resumed t rest).queueSize = v.queueSize ∧
      (v.resumed t rest).sleepersMax = v.sleepersMax := by
  unfold Sched.resumed
  cases (v.thread t).tPcb <;> exact ⟨rfl, rfl, rfl⟩

structure ThreadSys.Accounts (s : ThreadSys A) (live : List Nat) : Prop where
  places : (s.curthread.toList ++ s.runqueue.elems ++ s.sleepers.elems).Perm live
  once : live.Nodup
  count : s.numthreads = live.length
  asleep : ∀ t ∈ s.sleepers.elems, (s.thread t).tSleepaddr.isSome
  dead : ∀ z ∈ s.zombies.elems, (s.thread z).tVmspace = none ∧ (s.thread z).tCwd = none ∧ z ∉ live

theorem Sched.Conserves.accounts (h : s.sched.Conserves l) : s.Accounts l where
  places := h.places
  once := h.places.nodup_iff.1 (List.nodup_append.1 h.nodup).1
  count := h.count
  asleep := h.asleep
  dead z hz := by
    obtain ⟨hvm, hcwd⟩ := h.dead z hz
    refine ⟨hvm, hcwd, fun hl => ?_⟩
    exact (List.nodup_append.1 h.nodup).2.2 z (h.places.mem_iff.2 hl) z hz rfl

theorem threadBootstrap_conserves {me : Nat} {q : Queue Nat} {m m' : Supply Nat} (hq : qCreate 32 m = (some q, m')) :
    (threadBootstrap me q m' : ThreadSys A).Valid ∧ (threadBootstrap me q m' : ThreadSys A).sched.Conserves [me] := by
  have hv := qCreate_valid (by decide) (by decide) hq
  have he : q.elems = [] := hv.elems_eq
  have hsize : q.size = 32 := by
    obtain ⟨cell, rfl⟩ := qCreate_eq hq
    rfl
  have harray : (⟨0, 0, none⟩ : CArray Nat).Valid := ⟨Nat.le_refl 0, nofun, fun _ => rfl, by simp⟩
  have hready : (threadBootstrap me q m' : ThreadSys A).sched.ready = [] := he
  have hasleep : (threadBootstrap me q m' : ThreadSys A).sched.asleep = [] := rfl
  have hdead : (threadBootstrap me q m' : ThreadSys A).sched.dead = [] := rfl
  have hthreads : (threadBootstrap me q m' : ThreadSys A).sched.threads = [me] := by
    rw [Sched.threads, hready, hasleep]
    rfl
  refine ⟨⟨he.symm ▸ hv, harray, harray⟩, ⟨?_, ?_, rfl, ?_, ?_, ?_, ?_, ?_⟩⟩
  · rw [hthreads]
  · rw [hthreads, hdead]
    simp
  · rw [hasleep]
    nofun
  · rw [hready, hasleep]
    nofun
  · rw [hdead]
    nofun
  · rw [hthreads, hdead]
    simp
  · have hone : 1 ≤ 2 ^ 20 := by decide
    have hqueue : q.size ≤ 2 ^ 22 := by omega
    refine ⟨?_, ?_, hone, hqueue, Nat.zero_le _, Nat.zero_le _⟩
    · rw [hready, hasleep]
      simp
    · rw [hdead]
      simp

variable [DecidableEq A]

def ThreadOp.call : ThreadOp A → ThreadM A Unit
  | .fork newguy? => threadFork newguy?
  | .yield => threadYield
  | .sleep addr => threadSleep addr
  | .wakeup addr => threadWakeup addr
  | .wakeupOne addr => threadWakeupOne addr
  | .exit => threadExit
  | .run => resume
  | .own vmspace cwd => do
    let cur ← theCurthread
    Prog.modify fun s => s.setOwn cur vmspace cwd

/-- Only a thread forks, sleeps, exits or owns something. Threads are woken and processors given up
by interrupt handlers too, also while there is no current thread. -/
def ThreadOp.Enabled (s : ThreadSys A) : ThreadOp A → Prop
  | .fork none => s.curthread.isSome
  | .fork (some newguy) => s.curthread.isSome ∧ s.sched.Fresh newguy
  | .yield => True
  | .sleep _ => s.curthread.isSome
  | .wakeup _ => True
  | .wakeupOne _ => True
  | .exit => s.curthread.isSome
  | .run => s.curthread = none ∧ qEmpty s.runqueue = false
  | .own _ _ => s.curthread.isSome

def ThreadStep (s : ThreadSys A) (e : ThreadEvent A) (s' : ThreadSys A) : Prop :=
  e.cur = s.curthread ∧ e.op.Enabled s ∧ e.op.call s = .ok (e.result, s')

theorem Sched.Conserves.wake {addr : A} {one : Bool} (h : v.Conserves l)
    (hq : Grows (v.ready.length + (v.woken addr one).2.length) v.queueSize q) : (v.wake addr one q).Conserves l := by
  have hscan := scan_perm (v.sleepsOn addr) one false v.asleep
  have hmem {u : Nat} (hu : u ∈ (v.woken addr one).2 ++ (v.woken addr one).1) : u ∈ v.asleep :=
    hscan.subset hu
  have hlen := hscan.length_eq
  rw [List.length_append] at hlen
  refine h.moved ?_ rfl rfl ?_ ?_ h.dead ?_
  · have : (v.cur.toList ++ (v.ready ++ (v.woken addr one).2) ++ (v.woken addr one).1).Perm
        (v.cur.toList ++ v.ready ++ v.asleep) := by
      simp only [List.append_assoc]
      exact (hscan.append_left _).append_left _
    exact this
  · intro u hu
    exact h.asleep u (hmem (List.mem_append_right _ hu))
  · intro u hu
    have hu' : u ∈ v.ready ++ (v.woken addr one).2 ++ (v.woken addr one).1 := hu
    refine h.pcb u ?_
    grind
  · have hs := h.small
    have hqueue := hs.queueSize
    have hbound := hq.bound
    have hrunnable := hs.runnable
    have hrun : (v.ready ++ (v.woken addr one).2).length + (v.woken addr one).1.length ≤ 2 ^ 20 := by
      rw [List.length_append]
      unfold Sched.woken
      omega
    have hsize : q ≤ 2 ^ 22 := by
      unfold Sched.woken at hbound
      omega
    exact ⟨hrun, hs.2, hs.3, hsize, hs.5, hs.6⟩

instance (s : ThreadSys A) : DecidablePred (ThreadOp.Enabled s)
  | .fork none => inferInstanceAs (Decidable (_ = true))
  | .fork (some newguy) => inferInstanceAs (Decidable (_ ∧ s.sched.Fresh newguy))
  | .yield => inferInstanceAs (Decidable True)
  | .sleep _ => inferInstanceAs (Decidable (_ = true))
  | .wakeup _ => inferInstanceAs (Decidable True)
  | .wakeupOne _ => inferInstanceAs (Decidable True)
  | .exit => inferInstanceAs (Decidable (_ = true))
  | .run => inferInstanceAs (Decidable (s.curthread = none ∧ qEmpty s.runqueue = false))
  | .own _ _ => inferInstanceAs (Decidable (_ = true))

def ThreadOp.step (s : ThreadSys A) (op : ThreadOp A) : Option (ThreadEvent A × ThreadSys A) :=
  if op.Enabled s then
    match op.call s with
    | .error _ => none
    | .ok (r, s') => some (⟨s.curthread, op, r⟩, s')
  else none

theorem ThreadOp.step_sound {op : ThreadOp A} {e : ThreadEvent A} {s' : ThreadSys A}
    (h : op.step s = some (e, s')) : ThreadStep s e s' := by
  unfold ThreadOp.step at h
  split at h
  · next hop =>
    split at h
    · exact nomatch h
    · next r t hcall =>
      simp only [Option.some.injEq, Prod.mk.injEq] at h
      obtain ⟨rfl, rfl⟩ := h
      exact ⟨rfl, hop, hcall⟩
  · exact nomatch h

/-! ## What a call does -/

inductive SchedStep : Sched A → ThreadEvent A → Sched A → Prop
  | fork {v w : Sched A} {cur newguy : Nat} (hcur : v.cur = some cur) (hfresh : v.Fresh newguy)
      (hpre : v.Preallocated (v.numthreads + 1) w)
      (hw : { v.newThread newguy cur with
        ready := v.ready ++ [newguy], numthreads := v.numthreads + 1 }.Enlarged w) :
      SchedStep v ⟨some cur, .fork (some newguy), .ok ()⟩ w
  | forkFailed {v w : Sched A} {cur newguy : Nat} (hcur : v.cur = some cur) (hfresh : v.Fresh newguy)
      (hw : (v.newThread newguy cur).Enlarged w) :
      SchedStep v ⟨some cur, .fork (some newguy), .error .enomem⟩ w
  | forkNone {v : Sched A} {cur : Nat} (hcur : v.cur = some cur) :
      SchedStep v ⟨some cur, .fork none, .error .enomem⟩ v
  | yield {v : Sched A} {cur q : Nat} (hcur : v.cur = some cur)
      (hq : Grows (v.ready.length + 1) v.queueSize q) :
      SchedStep v ⟨some cur, .yield, .ok ()⟩ ((v.leave cur .yield).addReady cur q)
  | yieldIdle {v : Sched A} (hcur : v.cur = none) : SchedStep v ⟨none, .yield, .ok ()⟩ v
  | sleep {v : Sched A} {cur m : Nat} {addr : A} (hcur : v.cur = some cur)
      (hm : Grows v.asleep.length v.sleepersMax m) :
      SchedStep v ⟨some cur, .sleep addr, .ok ()⟩
        (((v.setSleepaddr cur (some addr)).leave cur .sleep).addAsleep cur m)
  | wakeup {v : Sched A} {addr : A} {q : Nat}
      (hq : Grows (v.ready.length + (v.woken addr false).2.length) v.queueSize q) :
      SchedStep v ⟨v.cur, .wakeup addr, .ok ()⟩ (v.wake addr false q)
  | wakeupOne {v : Sched A} {addr : A} {q : Nat}
      (hq : Grows (v.ready.length + (v.woken addr true).2.length) v.queueSize q) :
      SchedStep v ⟨v.cur, .wakeupOne addr, .ok ()⟩ (v.wake addr true q)
  | exit {v : Sched A} {cur m : Nat} (hcur : v.cur = some cur)
      (hm : Grows v.dead.length v.zombiesMax m) :
      SchedStep v ⟨some cur, .exit, .ok ()⟩
        (({ v.setOwn cur none none with numthreads := v.numthreads - 1 }.leave cur .exit).addDead cur m)
  | run {v : Sched A} {t : Nat} {rest : List Nat} (hcur : v.cur = none) (hready : v.ready = t :: rest) :
      SchedStep v ⟨none, .run, .ok ()⟩ (v.resumed t rest)
  | own {v : Sched A} {cur : Nat} {vmspace cwd : Option Nat} (hcur : v.cur = some cur) :
      SchedStep v ⟨some cur, .own vmspace cwd, .ok ()⟩ (v.setOwn cur vmspace cwd)

/-- A call stops the machine only where a container has to grow and there is no memory. -/
def Exhausted (v : Sched A) : ThreadPanic → Prop
  | .switchReady => v.cur.isSome ∧ v.ready.length + 1 = v.queueSize
  | .wakeup => ∃ addr one, v.queueSize ≤ v.ready.length + (v.woken addr one).2.length
  | .switchSleep => v.cur.isSome ∧ v.asleep.length = v.sleepersMax
  | .switchZomb => v.cur.isSome ∧ v.dead.length = v.zombiesMax
  | _ => False

theorem ThreadOp.spec (op : ThreadOp A) (h : s.Valid) (hc : s.sched.Conserves l) (hop : op.Enabled s) :
    Prog.Sat (Exhausted s.sched) op.call s fun r s' => s'.Valid ∧ SchedStep s.sched ⟨s.curthread, op, r⟩ s'.sched := by
  have hs := hc.small
  cases op with
  | fork newguy? =>
    cases newguy? with
    | none =>
      obtain ⟨cur, hcur⟩ := Option.isSome_iff_exists.1 hop
      rw [hcur]
      exact ⟨h, .forkNone hcur⟩
    | some newguy =>
      obtain ⟨hsome, hf⟩ := hop
      obtain ⟨cur, hcur⟩ := Option.isSome_iff_exists.1 hsome
      have hlen : s.sched.threads.length = s.sched.ready.length + s.sched.asleep.length + 1 := by
        have : s.sched.cur = some cur := hcur
        simp [Sched.threads, this]
      have hroom := hf.2
      rw [List.length_append] at hroom
      have hnum : s.numthreads = s.sched.threads.length := hc.count.trans hc.places.length_eq.symm
      rw [hcur]
      refine (threadFork_spec h hs hcur (by omega) (by omega)).mono ?_
      rintro r s' ⟨hv, ⟨rfl, hw⟩ | ⟨rfl, hpre, hw⟩⟩
      · exact ⟨hv, .forkFailed hcur hf hw⟩
      · exact ⟨hv, .fork hcur hf hpre hw⟩
  | yield =>
    cases hcur : s.curthread with
    | none =>
      refine (threadYield_none hcur).mono ?_
      rintro r s' ⟨rfl, rfl⟩
      exact ⟨h, .yieldIdle hcur⟩
    | some cur =>
      refine ((threadYield_spec h hs hcur).weaken ?_).mono ?_
      · rintro p ⟨rfl, hfull⟩
        exact ⟨Option.isSome_of_eq_some hcur, hfull⟩
      · rintro r s' ⟨rfl, hv, q, hq, hsched⟩
        exact ⟨hv, hsched ▸ .yield hcur hq⟩
  | sleep addr =>
    obtain ⟨cur, hcur⟩ := Option.isSome_iff_exists.1 hop
    refine ((threadSleep_spec h hs hcur).weaken ?_).mono ?_
    · rintro p ⟨rfl, hfull⟩
      exact ⟨hop, hfull⟩
    · rintro r s' ⟨rfl, hv, m, hm, hsched⟩
      rw [hcur]
      exact ⟨hv, hsched ▸ .sleep hcur hm⟩
  | wakeup addr =>
    refine ((threadWakeup_spec h hs).weaken ?_).mono ?_
    · rintro p ⟨rfl, hfull⟩
      exact ⟨addr, false, hfull⟩
    · rintro r s' ⟨rfl, hv, q, hq, hsched⟩
      exact ⟨hv, hsched ▸ .wakeup hq⟩
  | wakeupOne addr =>
    refine ((threadWakeupOne_spec h hs).weaken ?_).mono ?_
    · rintro p ⟨rfl, hfull⟩
      exact ⟨addr, true, hfull⟩
    · rintro r s' ⟨rfl, hv, q, hq, hsched⟩
      exact ⟨hv, hsched ▸ .wakeupOne hq⟩
  | exit =>
    obtain ⟨cur, hcur⟩ := Option.isSome_iff_exists.1 hop
    refine ((threadExit_spec h hs hcur (hc.numthreads_pos hcur)).weaken ?_).mono ?_
    · rintro p ⟨rfl, hfull⟩
      exact ⟨hop, hfull⟩
    · rintro r s' ⟨rfl, hv, m, hm, hsched⟩
      rw [hcur]
      exact ⟨hv, hsched ▸ .exit hcur hm⟩
  | run =>
    obtain ⟨hcur, hne⟩ := hop
    have hready : s.sched.ready ≠ [] := fun e => by simp [h.runqueue.empty_iff.2 e] at hne
    obtain ⟨t, rest, hready⟩ := List.exists_cons_of_ne_nil hready
    have hcur' : s.sched.cur = none := hcur
    have hdisjoint : ∀ z ∈ s.sched.dead, t ≠ z :=
      (List.nodup_append.1 hc.nodup).2.2 t (by simp [Sched.threads, hready])
    refine (resume_spec h hs hready (hc.pcb t (by simp [hready])) ?_).mono ?_
    · intro z hz
      exact ⟨fun e => hdisjoint z hz (Option.some.inj e), hc.dead z hz⟩
    · rintro r s' ⟨rfl, hv, hsched⟩
      rw [hcur]
      exact ⟨hv, hsched ▸ .run hcur hready⟩
  | own vmspace cwd =>
    obtain ⟨cur, hcur⟩ := Option.isSome_iff_exists.1 hop
    simp only [ThreadOp.call, theCurthread, Prog.sat_bind, Prog.sat_get, hcur, Prog.sat_pure, Prog.sat_modify]
    exact ⟨h.setThread, .own hcur⟩

theorem SchedStep.conserves {me : Nat} {tr : List (ThreadEvent A)} {e : ThreadEvent A}
    (h : v.Conserves (live me tr)) (step : SchedStep v e w) : w.Conserves (live me (e :: tr)) := by
  cases step with
  | fork hcur hfresh hpre hw => exact h.fork hfresh hw
  | forkFailed hcur hfresh hw => exact (h.newThread hfresh).enlarged hw
  | forkNone hcur | yieldIdle hcur => exact h
  | yield hcur hq => exact h.yield hcur hq
  | sleep hcur hm => exact h.sleep hcur hm
  | wakeup hq | wakeupOne hq =>
    have := h.wake hq
    cases hcur : v.cur <;> exact this
  | exit hcur hm => exact h.exit hcur hm
  | run hcur hready => exact h.resumed hcur hready
  | own hcur => exact h.own hcur

/-! ## Runs -/

/-- The sleepers have room for all threads, once one was forked. -/
theorem SchedStep.sleepersMax {tr : List (ThreadEvent A)} {e : ThreadEvent A}
    (h : Forked tr → v.numthreads ≤ v.sleepersMax) (step : SchedStep v e w)
    (hf : Forked (e :: tr)) : w.numthreads ≤ w.sleepersMax := by
  rw [forked_cons] at hf
  cases step with
  | fork hcur hfresh hpre hw =>
    have : w.numthreads = v.numthreads + 1 := by rw [hw.eq]
    exact this ▸ hpre.sleepersMax
  | forkFailed hcur hfresh hw =>
    have : w.numthreads = v.numthreads := by rw [hw.eq]; rfl
    exact Nat.le_trans (this ▸ h (hf.resolve_left nofun)) hw.sleepersMax
  | sleep hcur hm => exact Nat.le_trans (h (hf.resolve_left nofun)) hm.le
  | exit hcur hm => exact Nat.le_trans (Nat.sub_le _ _) (h (hf.resolve_left nofun))
  | @run t rest hcur hready =>
    obtain ⟨hnum, -, hmax⟩ := v.resumed_capacities t rest
    rw [hnum, hmax]
    exact h (hf.resolve_left nofun)
  | forkNone hcur | yield hcur hq | yieldIdle hcur | wakeup hq | wakeupOne hq | own hcur =>
    exact h (hf.resolve_left nofun)

/-- Threads are conserved in every run whose steps meet some condition, and so is whatever else each
of these steps keeps. -/
theorem ThreadSys.run_history {me : Nat} {q : Queue Nat} {m m' : Supply Nat}
    {tr : List (ThreadEvent A)} {C : ThreadSys A → ThreadEvent A → ThreadSys A → Prop}
    {I : List (ThreadEvent A) → ThreadSys A → Prop} (hq : qCreate 32 m = (some q, m'))
    (run : Run (fun s e s' => ThreadStep s e s' ∧ C s e s') (threadBootstrap me q m') tr s)
    (start : I [] (threadBootstrap me q m'))
    (next : ∀ {tr s e s'}, s.Valid → s.sched.Conserves (live me tr) → I tr s → s'.Valid →
      SchedStep s.sched e s'.sched → C s e s' → I (e :: tr) s') :
    s.Valid ∧ s.sched.Conserves (live me tr) ∧ I tr s := by
  refine run.history (I := fun tr s => s.Valid ∧ s.sched.Conserves (live me tr) ∧ I tr s) ?_ ?_
  · have hboot : (threadBootstrap me q m' : ThreadSys A).Valid ∧ _ := threadBootstrap_conserves hq
    exact ⟨hboot.1, hboot.2, start⟩
  · intro tr t e u ⟨hv, hc, hi⟩ ⟨⟨hcur, hop, hcall⟩, hcond⟩
    obtain ⟨hv', step⟩ := (e.op.spec hv hc hop).of_ok hcall
    rw [← hcur] at step
    exact ⟨hv', step.conserves hc, next hv hc hi hv' step hcond⟩

/-- Every live thread is in exactly one place, once; the count is that of the live threads; and
after the first fork the sleepers have room for all of them. A call then stops the machine only
where the run queue or the list of zombies has to grow and finds no memory; in particular the
assertions of `exorcise` and `thread_destroy` hold. -/
theorem thread_conservation {me : Nat} {q : Queue Nat} {m m' : Supply Nat}
    {tr : List (ThreadEvent A)} (hq : qCreate 32 m = (some q, m'))
    (run : Run ThreadStep (threadBootstrap me q m') tr s) : s.Accounts (live me tr) ∧
      (Forked tr → s.numthreads ≤ s.sleepers.max ∧ ∀ cur, s.curthread = some cur → s.sleepers.num < s.sleepers.max) ∧
      ∀ op : ThreadOp A, op.Enabled s → Prog.Sat (fun p => p = .switchReady ∨ p = .wakeup ∨ p = .switchZomb ∨
          (p = .switchSleep ∧ ¬ Forked tr)) op.call s fun _ _ => True := by
  obtain ⟨hv, hc, hmax⟩ := ThreadSys.run_history
    (I := fun tr s => Forked tr → s.sched.numthreads ≤ s.sched.sleepersMax) (C := fun _ _ _ => True)
    hq (run.mono fun h => ⟨h, trivial⟩) (fun ⟨_, hmem, _⟩ => nomatch hmem)
    fun _ _ h _ step _ => step.sleepersMax h
  have hroom (hf : Forked tr) (cur : Nat) (hcur : s.curthread = some cur) : s.sleepers.num < s.sleepers.max := by
    have hle : s.numthreads ≤ s.sleepers.max := hmax hf
    have hlen := hc.places.length_eq
    have hcount : s.numthreads = (live me tr).length := hc.count
    have hnum := hv.asleep_length
    have hcur' : s.sched.cur = some cur := hcur
    simp only [Sched.threads, hcur', Option.toList_some, List.length_append, List.length_singleton] at hlen
    omega
  refine ⟨hc.accounts, fun hf => ⟨hmax hf, hroom hf⟩, fun op hop => ?_⟩
  refine ((op.spec hv hc hop).weaken fun p hp => ?_).mono fun _ _ _ => trivial
  match p, hp with
  | .switchReady, _ => exact .inl rfl
  | .wakeup, _ => exact .inr (.inl rfl)
  | .switchZomb, _ => exact .inr (.inr (.inl rfl))
  | .switchSleep, ⟨hsome, hfull⟩ =>
    refine .inr (.inr (.inr ⟨rfl, fun hf => ?_⟩))
    obtain ⟨cur, hcur⟩ := Option.isSome_iff_exists.1 hsome
    have hlt := hroom hf cur hcur
    have hnum := hv.asleep_length
    have hmax' : s.sched.sleepersMax = s.sleepers.max := rfl
    omega

def bootQueue : Queue Nat := ⟨32, 0, 0, ⟨roomFor 32, fun _ => 0⟩⟩

/-- A thread is forked and starts, and the first one sleeps, exits when it is woken, and is
disposed of. -/
theorem thread_conservation_sample :
    ∃ tr s, Run ThreadStep (threadBootstrap 1 bootQueue fun _ => some fun _ => 0 : ThreadSys Nat) tr s ∧
      (s.curthread = some 2 ∧ live 1 tr = [2]) ∧ s.Accounts (live 1 tr) := by
  obtain ⟨tr, s, run, hs⟩ := Run.of_replays
    (s := (threadBootstrap 1 bootQueue fun _ => some fun _ => 0 : ThreadSys Nat))
    (P := fun tr s => s.curthread = some 2 ∧ live 1 tr = [2]) ThreadOp.step_sound
    (show replays ThreadOp.step [.fork (some 2), .sleep 7, .run, .wakeup 7, .yield, .run, .exit, .run]
      _ _ = true by decide +kernel)
  exact ⟨tr, s, run, of_decide_eq_true hs, (thread_conservation (m := fun _ => some fun _ => 0) rfl run).1⟩

/-! ## Turns -/

/-- The scheduler takes the thread at the head of the run queue. Every other call leaves the threads
that wait there in their places, and adds threads at the end only. -/
theorem SchedStep.ready {e : ThreadEvent A} (step : SchedStep v e w) :
    if e.runs then ∃ t, v.ready = t :: w.ready ∧ w.cur = some t else v.ready <+: w.ready := by
  cases step with
  | fork _ _ _ hw =>
    rw [hw.eq]
    exact List.prefix_append _ _
  | forkFailed _ _ hw =>
    rw [hw.eq]
    exact List.prefix_refl _
  | yield _ _ | wakeup _ | wakeupOne _ => exact List.prefix_append _ _
  | forkNone _ | yieldIdle _ | sleep _ _ | exit _ _ | own _ => exact List.prefix_refl _
  | @run t rest hcur hready =>
    refine ⟨t, ?_⟩
    unfold Sched.resumed
    rw [hready]
    cases (v.thread t).tPcb <;> exact ⟨rfl, rfl⟩

/-- The places before a thread that waits: each choice of the scheduler takes one away. -/
theorem SchedStep.waits {e : ThreadEvent A} {i n t : Nat} (step : SchedStep v e w)
    (h : n ≤ i → v.ready[i - n]? = some t) :
    n + (if e.runs then 1 else 0) ≤ i → w.ready[i - (n + if e.runs then 1 else 0)]? = some t := by
  have hready := step.ready
  cases hr : e.runs with
  | true =>
    rw [hr, if_pos rfl] at hready
    obtain ⟨a, ha, -⟩ := hready
    rw [if_pos rfl]
    intro hle
    have hold := h (by omega)
    rw [ha, show i - n = i - (n + 1) + 1 by omega] at hold
    exact hold
  | false =>
    rw [hr, if_neg (by simp)] at hready
    obtain ⟨new, hnew⟩ := hready
    rw [if_neg (by simp)]
    intro hle
    obtain ⟨hlt, -⟩ := List.getElem?_eq_some_iff.1 (h hle)
    rw [← hnew, Nat.add_zero, List.getElem?_append_left hlt]
    exact h hle

/-- No thread is passed over: one with `i` others before it stays in the run queue while the
scheduler chooses `i` times, each time a place nearer to the head, and the next choice is this
thread. -/
theorem dispatched_in_turn {me i t : Nat} {q : Queue Nat} {m m' : Supply Nat} {u : ThreadSys A}
    {tr₀ tr : List (ThreadEvent A)} (hq : qCreate 32 m = (some q, m'))
    (boot : Run ThreadStep (threadBootstrap me q m') tr₀ s) (ht : s.runqueue.elems[i]? = some t)
    (run : Run ThreadStep s tr u) :
    (tr.countP ThreadEvent.runs ≤ i → u.runqueue.elems[i - tr.countP ThreadEvent.runs]? = some t) ∧
      ∀ e u', tr.countP ThreadEvent.runs = i → ThreadStep u e u' → e.runs = true → u'.curthread = some t := by
  obtain ⟨hv, hc, -⟩ := ThreadSys.run_history (I := fun _ _ => True) (C := fun _ _ _ => True) hq
    (boot.mono fun h => ⟨h, trivial⟩) trivial fun _ _ _ _ _ _ => trivial
  have next {tr : List (ThreadEvent A)} {u u' : ThreadSys A} {e : ThreadEvent A} (hv : u.Valid)
      (hc : u.sched.Conserves (live me tr)) (h : ThreadStep u e u') :
      u'.Valid ∧ SchedStep u.sched e u'.sched := by
    obtain ⟨hcur, hop, hcall⟩ := h
    have hspec := (e.op.spec hv hc hop).of_ok hcall
    rw [← hcur] at hspec
    exact hspec
  obtain ⟨hv, hc, hwait⟩ := run.history (I := fun tr u => u.Valid ∧ u.sched.Conserves (live me (tr ++ tr₀)) ∧
      (tr.countP ThreadEvent.runs ≤ i → u.runqueue.elems[i - tr.countP ThreadEvent.runs]? = some t))
    ⟨hv, hc, fun _ => ht⟩ <| by
    rintro tr u e u' ⟨hv, hc, hwait⟩ h
    obtain ⟨hv', step⟩ := next hv hc h
    rw [List.countP_cons]
    exact ⟨hv', step.conserves hc, step.waits hwait⟩
  refine ⟨hwait, fun e u' hn h hr => ?_⟩
  have hready := (next hv hc h).2.ready
  rw [if_pos hr] at hready
  obtain ⟨a, ha, hcur⟩ := hready
  have hhead : u.sched.ready[i - tr.countP ThreadEvent.runs]? = some t := hwait (Nat.le_of_eq hn)
  rw [hn, Nat.sub_self, ha] at hhead
  exact hcur.trans hhead

/-- The thread 3 waits behind 2, and is at the head when 2 has been chosen and has yielded. -/
theorem dispatched_in_turn_sample :
    ∃ tr₀ s tr u, Run ThreadStep (threadBootstrap 1 bootQueue fun _ => some fun _ => 0 : ThreadSys Nat) tr₀ s ∧
      s.runqueue.elems[1]? = some 3 ∧ Run ThreadStep s tr u ∧ tr.countP ThreadEvent.runs = 1 ∧
      u.runqueue.elems[0]? = some 3 := by
  obtain ⟨tr₀, s, boot, hs⟩ := Run.of_replays
    (s := (threadBootstrap 1 bootQueue fun _ => some fun _ => 0 : ThreadSys Nat))
    (P := fun _ s => decide (s.runqueue.elems[1]? = some 3) && replays ThreadOp.step [.sleep 7, .run, .yield] s
      fun tr _ => decide (tr.countP ThreadEvent.runs = 1)) ThreadOp.step_sound
    (show replays ThreadOp.step [.fork (some 2), .fork (some 3)] _ _ = true by decide +kernel)
  obtain ⟨h3, hrest⟩ := Bool.and_eq_true_iff.1 hs
  obtain ⟨tr, u, run, hn⟩ := Run.of_replays ThreadOp.step_sound hrest
  have h3 := of_decide_eq_true h3
  have hn := of_decide_eq_true hn
  have hhead := (dispatched_in_turn (m := fun _ => some fun _ => 0) rfl boot h3 run).1 (Nat.le_of_eq hn)
  rw [hn] at hhead
  exact ⟨tr₀, s, tr, u, boot, h3, run, hn, hhead⟩

end Os161.Threads
