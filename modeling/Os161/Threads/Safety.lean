import Os161.Threads.Synch

/-!
# Safety of the synchronization primitives

Every step is one of a few effects on the places of threads, the counts and the locks. From these:
a semaphore counts the calls that completed, a lock has at most one holder, and nobody sleeps on
a semaphore that could be taken or on a lock that is free. A condition variable loses a wakeup
only if a thread is switched away from inside `cv_wait`, after it released the lock and before it
turned interrupts off to sleep.
-/
namespace Os161.Threads

open Lib Kern Prog

section Sleepers

variable {A : Type} [DecidableEq A] {v w : Sched A} {l : List Nat} {e : ThreadEvent A} {t : Nat} {addr : A}

def Sched.Sleeps (v : Sched A) (t : Nat) (addr : A) : Prop :=
  t ∈ v.asleep ∧ (v.thread t).tSleepaddr = some addr

theorem SchedStep.ok (step : SchedStep v e w) (h : ∀ newguy?, e.op ≠ .fork newguy?) : e.result = .ok () := by
  cases step with
  | fork | forkFailed | forkNone => exact absurd rfl (h _)
  | yield | yieldIdle | sleep | wakeup | wakeupOne | exit | run | own => rfl

theorem SchedStep.sleeps (hc : v.Conserves l) (step : SchedStep v e w) (h : w.Sleeps t addr) :
    v.Sleeps t addr ∨ (e.cur = some t ∧ ∃ r, e = ⟨some t, .sleep addr, r⟩) := by
  obtain ⟨hmem, haddr⟩ := h
  have fresh {newguy cur : Nat} (hfresh : v.Fresh newguy) (hmem : t ∈ v.asleep) :
      (v.newThread newguy cur).thread t = v.thread t := by
    refine Sched.setThread_ne _ _ ?_
    rintro rfl
    exact hfresh.1 (by simp [Sched.threads, hmem])
  cases step with
  | fork hcur hfresh hpre hw | forkFailed hcur hfresh hw =>
    rw [hw.eq] at hmem haddr
    exact .inl ⟨hmem, by rw [← fresh hfresh hmem]; exact haddr⟩
  | @yield cur q hcur hq | @own cur vmspace cwd hcur =>
    have hne := hc.ne_cur hcur (.inr (.inl hmem))
    exact .inl ⟨hmem, by rw [← haddr]; exact congrArg _ (Sched.setThread_ne _ _ hne).symm⟩
  | @sleep cur m addr' hcur hm =>
    have hmem' : t ∈ v.asleep ++ [cur] := hmem
    by_cases he : t = cur
    · subst he
      have : addr' = addr := by
        simpa [Sched.addAsleep, Sched.leave, Sched.setPcb, Sched.setSleepaddr, Sched.setThread] using haddr
      exact .inr ⟨rfl, _, by rw [this]⟩
    · refine .inl ⟨by simpa [he] using hmem', ?_⟩
      rw [← haddr]
      exact congrArg _ ((Sched.setThread_ne _ _ he).trans (Sched.setThread_ne _ _ he)).symm
  | @wakeup addr' q hq =>
    have hscan := scan_perm (v.sleepsOn addr') false false v.asleep
    exact .inl ⟨hscan.subset (List.mem_append_right _ hmem), haddr⟩
  | @wakeupOne addr' q hq =>
    have hscan := scan_perm (v.sleepsOn addr') true false v.asleep
    exact .inl ⟨hscan.subset (List.mem_append_right _ hmem), haddr⟩
  | @exit cur m hcur hm =>
    have hne := hc.ne_cur hcur (.inr (.inl hmem))
    refine .inl ⟨hmem, ?_⟩
    rw [← haddr]
    exact congrArg _ ((Sched.setThread_ne _ _ hne).trans (Sched.setThread_ne _ _ hne)).symm
  | @run u rest hcur hready =>
    unfold Sched.resumed at hmem haddr
    cases hp : (v.thread u).tPcb with
    | sleep =>
      rw [hp] at hmem haddr
      have hne : t ≠ u := by
        rintro rfl
        simp [Sched.switchedIn, Sched.setSleepaddr, Sched.setThread] at haddr
      refine .inl ⟨hmem, ?_⟩
      rw [← haddr]
      exact congrArg _ (Sched.setThread_ne _ _ hne).symm
    | threadstart | yield | exit =>
      rw [hp] at hmem haddr
      exact .inl ⟨hmem, haddr⟩
  | forkNone hcur | yieldIdle hcur => exact .inl ⟨hmem, haddr⟩

def ThreadOp.switches : ThreadOp A → Bool
  | .yield | .sleep _ | .exit | .run => true
  | _ => false

theorem SchedStep.cur_eq (step : SchedStep v e w) (h : e.op.switches = false) : w.cur = v.cur := by
  cases step with
  | fork hcur hfresh hpre hw | forkFailed hcur hfresh hw => rw [hw.eq]; rfl
  | yield | sleep | exit | run => exact nomatch h
  | forkNone | yieldIdle | wakeup | wakeupOne | own => rfl

theorem SchedStep.cur_of_run (step : SchedStep v e w) (h : e.op = .run) : v.cur = none := by
  cases step with
  | run hcur hready => exact hcur
  | fork | forkFailed | forkNone | yield | yieldIdle | sleep | wakeup | wakeupOne | exit | own => exact nomatch h

theorem SchedStep.not_sleeps {cur : Option Nat} {r : Except Errno Unit}
    (step : SchedStep v ⟨cur, .wakeup addr, r⟩ w) : ¬ w.Sleeps t addr := by
  cases step with
  | wakeup hq =>
    rintro ⟨hmem, haddr⟩
    have hmem' : t ∈ (v.woken addr false).1 := hmem
    rw [Sched.woken, scan_false] at hmem'
    have : v.sleepsOn addr t = false := by simpa using (List.mem_filter.1 hmem').2
    exact absurd haddr (of_decide_eq_false this)

theorem scan_one {f : Nat → Bool} {l : List Nat} (hnodup : l.Nodup) (hone : ∀ u ∈ l, f u = true → u = t)
    (skip : Bool) (hskip : skip = true → t ∉ l) : t ∈ (Sched.scan f true skip l).1 → f t = false := by
  induction l generalizing skip with
  | nil => simp [Sched.scan]
  | cons u l ih =>
    obtain ⟨hu, hnodup⟩ := List.nodup_cons.1 hnodup
    have hrest : ∀ u ∈ l, f u = true → u = t := fun u hu => hone u (List.mem_cons_of_mem _ hu)
    intro hmem
    cases skip with
    | true =>
      have hnot := hskip rfl
      simp only [Sched.scan, List.mem_cons] at hmem
      refine ih hnodup hrest false (by simp) (hmem.resolve_left ?_)
      rintro rfl
      simp at hnot
    | false =>
      unfold Sched.scan at hmem
      split at hmem
      · next hf =>
        have : u = t := hone u List.mem_cons_self hf
        subst this
        exact ih hnodup hrest true (fun _ => hu) hmem
      · next hf =>
        simp only [List.mem_cons] at hmem
        obtain rfl | hmem := hmem
        · simpa using hf
        · exact ih hnodup hrest false (by simp) hmem

/-- `thread_wakeup_one` wakes the only sleeper on an address. -/
theorem SchedStep.not_sleeps_one {cur : Option Nat} {r : Except Errno Unit} (hc : v.Conserves l)
    (hone : ∀ u, v.Sleeps u addr → u = t) (step : SchedStep v ⟨cur, .wakeupOne addr, r⟩ w) : ¬ w.Sleeps t addr := by
  cases step with
  | wakeupOne hq =>
    rintro ⟨hmem, haddr⟩
    have hnodup : v.asleep.Nodup := by
      have := (List.nodup_append.1 hc.nodup).1
      unfold Sched.threads at this
      exact (List.nodup_append.1 this).2.1
    have := scan_one (f := v.sleepsOn addr) hnodup (fun u hu hf => hone u ⟨hu, of_decide_eq_true hf⟩) false nofun hmem
    exact absurd haddr (of_decide_eq_false this)

end Sleepers

/-! ## Effects -/

variable {s s' : Synch} {e : SynchEvent} {t c i : Nat} {l : List Nat}

inductive Effect (s : Synch) : SynchEvent → Synch → Prop
  | sys {te : ThreadEvent WaitObj} {sys' : ThreadSys WaitObj} (hforeign : te.op.Foreign = true)
      (hguard : if te.op.Interrupts = true then s.Calm else s.Client)
      (hcur : te.cur = s.sys.curthread) (hstep : SchedStep s.sys.sched te sys'.sched) :
      Effect s (.sys te) { s with sys := sys', place := te.places s.place }
  | pDone {t i : Nat} (hcur : s.sys.curthread = some t) (hcount : s.count i ≠ 0) :
      Effect s (.pDone t i) ((s.setCount i (s.count i - 1)).setPlace t .client)
  | pSleeps {t i : Nat} {sys' : ThreadSys WaitObj} (hcur : s.sys.curthread = some t)
      (hcount : s.count i = 0)
      (hstep : SchedStep s.sys.sched ⟨some t, .sleep (.sem i), .ok ()⟩ sys'.sched) :
      Effect s (.pSleeps t i) { s.setPlace t (.semTest i) with sys := sys' }
  | v {cur : Option Nat} {i : Nat} {sys' : ThreadSys WaitObj} (hcur : s.sys.curthread = cur)
      (hpos : 0 < wrapInt (s.count i + 1))
      (hstep : SchedStep s.sys.sched ⟨cur, .wakeup (.sem i), .ok ()⟩ sys'.sched) :
      Effect s (.v cur i) { s.setCount i (wrapInt (s.count i + 1)) with sys := sys' }
  | acquired {t i : Nat} (hcur : s.sys.curthread = some t) (hfree : (s.lock i).isHeld = false) :
      Effect s (.acquired t i) ((s.setLock i ⟨true, some t⟩).setPlace t .client)
  | acquireSleeps {t i : Nat} {sys' : ThreadSys WaitObj} (hcur : s.sys.curthread = some t)
      (hheld : (s.lock i).isHeld = true)
      (hstep : SchedStep s.sys.sched ⟨some t, .sleep (.lock i), .ok ()⟩ sys'.sched) :
      Effect s (.acquireSleeps t i) { s.setPlace t (.lockTest i) with sys := sys' }
  | released {t i : Nat} {sys' : ThreadSys WaitObj} (hcur : s.sys.curthread = some t)
      (hhold : (s.lock i).holder = some t)
      (hstep : SchedStep s.sys.sched ⟨some t, .wakeup (.lock i), .ok ()⟩ sys'.sched) :
      Effect s (.released t i) { s.setLock i ⟨false, none⟩ with sys := sys' }
  | cvReleased {t c i : Nat} {sys' : ThreadSys WaitObj} (hcur : s.sys.curthread = some t)
      (hhold : (s.lock i).holder = some t)
      (hstep : SchedStep s.sys.sched ⟨some t, .wakeup (.lock i), .ok ()⟩ sys'.sched) :
      Effect s (.cvReleased t c i)
        { (s.setLock i ⟨false, none⟩).setPlace t (.cvWindow c i) with sys := sys' }
  | cvSleeps {t c i : Nat} {sys' : ThreadSys WaitObj} (hcur : s.sys.curthread = some t)
      (hstep : SchedStep s.sys.sched ⟨some t, .sleep (.cv c), .ok ()⟩ sys'.sched) :
      Effect s (.cvSleeps t c i) { s.setPlace t (.cvSleep c i) with sys := sys' }
  | cvReturned {t i : Nat} (hcur : s.sys.curthread = some t) :
      Effect s (.cvReturned t i) (s.setPlace t (.cvReturn i))
  | signal {t c i : Nat} {sys' : ThreadSys WaitObj} (hcur : s.sys.curthread = some t)
      (hclient : s.place t = .client)
      (hstep : SchedStep s.sys.sched ⟨some t, .wakeupOne (.cv c), .ok ()⟩ sys'.sched) :
      Effect s (.signal t c i) { s with sys := sys' }
  | broadcast {t c i : Nat} {sys' : ThreadSys WaitObj} (hcur : s.sys.curthread = some t)
      (hclient : s.place t = .client)
      (hstep : SchedStep s.sys.sched ⟨some t, .wakeup (.cv c), .ok ()⟩ sys'.sched) :
      Effect s (.broadcast t c i) { s with sys := sys' }

/-- The stops of the thread system are not those of the primitives. -/
def Tolerated (p : SynchPanic) : Prop := p ≠ .semCount

def EffectSpec (s : Synch) (m : SynchM SynchEvent) : Prop :=
  Prog.Sat Tolerated m s fun r s' => ∃ e, r = .ok e ∧ s'.sys.Valid ∧ Effect s e s'

section Calls

variable (hv : s.sys.Valid) (hc : s.sys.sched.Conserves l)
include hv hc

theorem onSys_spec {op : ThreadOp WaitObj} (hop : op.Enabled s.sys) :
    Sat Tolerated (onSys op.call) s fun r s' => s'.sys.Valid ∧
      SchedStep s.sys.sched ⟨s.sys.curthread, op, r⟩ s'.sys.sched ∧ s' = { s with sys := s'.sys } := by
  simp only [onSys, sat_focus]
  refine ((op.spec hv hc hop).weaken fun p _ => nofun).mono ?_
  rintro r sys' ⟨hv', hstep⟩
  exact ⟨hv', hstep, rfl⟩

theorem onSys_ok {cur : Option Nat} (hcur : s.sys.curthread = cur) (op : ThreadOp WaitObj) (hop : op.Enabled s.sys)
    (hfork : ∀ newguy?, op ≠ .fork newguy?) {Q : Except Errno Unit → Synch → Prop}
    (hQ : ∀ sys' : ThreadSys WaitObj, sys'.Valid → SchedStep s.sys.sched ⟨cur, op, .ok ()⟩ sys'.sched →
      Q (.ok ()) { s with sys := sys' }) : Sat Tolerated (onSys op.call) s Q := by
  refine (onSys_spec hv hc hop).mono ?_
  rintro r s' ⟨hv', hstep, hs⟩
  obtain rfl : r = .ok () := hstep.ok hfork
  rw [hs]
  exact hQ _ hv' (hcur ▸ hstep)

theorem semTest_spec (hn : 0 ≤ s.count i) (hcur : s.sys.curthread = some t) : EffectSpec s (semTest t i) := by
  unfold EffectSpec semTest
  simp only [sat_bind, sat_get]
  split
  · next hzero =>
    simp only [sat_bind, sat_modify]
    exact onSys_ok (s := s.setPlace t (.semTest i)) hv hc hcur (.sleep _) (Option.isSome_of_eq_some hcur) (by simp)
      fun _ hv' hstep => ⟨_, rfl, hv', .pSleeps hcur hzero hstep⟩
  · next hne =>
    simp only [sat_bind, sat_check]
    rw [if_pos (by omega)]
    exact ⟨_, rfl, hv, .pDone hcur hne⟩

theorem semV_spec : EffectSpec s (semV s.sys.curthread i) := by
  unfold EffectSpec semV
  simp only [sat_bind, sat_modify, sat_get, sat_check]
  have hcount : (s.setCount i (wrapInt (s.count i + 1))).count i = wrapInt (s.count i + 1) := by
    simp [Synch.setCount]
  rw [hcount]
  split
  · next hpos =>
    exact onSys_ok (s := s.setCount i (wrapInt (s.count i + 1))) hv hc rfl (.wakeup _) trivial (by simp)
      fun _ hv' hstep => ⟨_, rfl, hv', .v rfl hpos hstep⟩
  · exact fun h => by cases h

variable (hcur : s.sys.curthread = some t)
include hcur

theorem lockTest_spec : EffectSpec s (lockTest t i) := by
  unfold EffectSpec lockTest
  simp only [sat_bind, sat_get]
  split
  · next hheld =>
    simp only [sat_bind, sat_modify]
    exact onSys_ok (s := s.setPlace t (.lockTest i)) hv hc hcur (.sleep _) (Option.isSome_of_eq_some hcur) (by simp)
      fun _ hv' hstep => ⟨_, rfl, hv', .acquireSleeps hcur hheld hstep⟩
  · next hfree =>
    simp only [sat_bind, sat_modify, hcur]
    exact ⟨_, rfl, hv, .acquired hcur (by simpa using hfree)⟩

theorem lockAcquire_spec : EffectSpec s (lockAcquire t i) := by
  unfold EffectSpec lockAcquire
  simp only [sat_bind, sat_get, sat_check]
  split
  · exact lockTest_spec hv hc hcur
  · exact fun h => by cases h

theorem lockRelease_spec {Q : Except Errno Unit → Synch → Prop}
    (hQ : ∀ sys' : ThreadSys WaitObj, sys'.Valid → (s.lock i).holder = some t →
      SchedStep s.sys.sched ⟨some t, .wakeup (.lock i), .ok ()⟩ sys'.sched →
      Q (.ok ()) { s.setLock i ⟨false, none⟩ with sys := sys' }) : Sat Tolerated (lockRelease i) s Q := by
  unfold lockRelease
  simp only [sat_bind, sat_get, sat_check, sat_modify]
  split
  · next hhold =>
    exact onSys_ok (s := s.setLock i ⟨false, none⟩) hv hc hcur (.wakeup _) trivial (by simp)
      fun sys' hv' hstep => hQ sys' hv' (hhold.trans hcur) hstep
  · exact fun h => by cases h

omit hcur

/-- Every call takes one of the effects, and the assertion in `P` holds. -/
theorem SynchOp.spec (op : SynchOp) (hn : ∀ i, 0 ≤ s.count i) (hop : op.Enabled s) : EffectSpec s op.call := by
  cases op with
  | sys op =>
    obtain ⟨hen, hforeign, hguard⟩ := hop
    unfold EffectSpec
    simp only [SynchOp.call, sysCall, sat_bind, sat_get, sat_attempt]
    refine (onSys_spec hv hc hen).mono ?_
    rintro r s' ⟨hv', hstep, hs⟩
    simp only [sat_modify]
    refine ⟨_, rfl, hv', ?_⟩
    rw [hs]
    exact .sys hforeign hguard rfl hstep
  | p t i | pAgain t i => exact semTest_spec hv hc (hn i) hop.1
  | v cur i =>
    obtain ⟨rfl, -⟩ := hop
    exact semV_spec hv hc
  | acquire t i | cvAcquire t i => exact lockAcquire_spec hv hc hop.1
  | acquireAgain t i => exact lockTest_spec hv hc hop.1
  | release t i =>
    unfold EffectSpec
    simp only [SynchOp.call, sat_bind]
    exact lockRelease_spec hv hc hop.1 fun _ hv' hhold hstep => ⟨_, rfl, hv', .released hop.1 hhold hstep⟩
  | cvWait t c i =>
    unfold EffectSpec
    simp only [SynchOp.call, Threads.cvWait, sat_bind]
    exact lockRelease_spec hv hc hop.1 fun _ hv' hhold hstep => ⟨_, rfl, hv', .cvReleased hop.1 hhold hstep⟩
  | cvEnter t c i =>
    unfold EffectSpec
    simp only [SynchOp.call, Threads.cvEnter, sat_bind, sat_modify]
    exact onSys_ok (s := s.setPlace t (.cvSleep c i)) hv hc hop.1 (.sleep _) (Option.isSome_of_eq_some hop.1) (by simp)
      fun _ hv' hstep => ⟨_, rfl, hv', .cvSleeps hop.1 hstep⟩
  | cvWoken t c i => exact ⟨_, rfl, hv, .cvReturned hop.1⟩
  | signal t c i =>
    unfold EffectSpec
    simp only [SynchOp.call, cvSignal, sat_bind, sat_get, sat_check]
    split
    · exact onSys_ok hv hc hop.1 (.wakeupOne _) trivial (by simp)
        fun _ hv' hstep => ⟨_, rfl, hv', .signal hop.1 hop.2 hstep⟩
    · exact fun h => by cases h
  | broadcast t c i =>
    unfold EffectSpec
    simp only [SynchOp.call, cvBroadcast, sat_bind, sat_get, sat_check]
    split
    · exact onSys_ok hv hc hop.1 (.wakeup _) trivial (by simp)
        fun _ hv' hstep => ⟨_, rfl, hv', .broadcast hop.1 hop.2 hstep⟩
    · exact fun h => by cases h

end Calls

/-! ## What effects keep -/

def SynchEvent.threadEvent : SynchEvent → Option (ThreadEvent WaitObj)
  | .sys e => some e
  | .pSleeps t sem => some ⟨some t, .sleep (.sem sem), .ok ()⟩
  | .v cur sem => some ⟨cur, .wakeup (.sem sem), .ok ()⟩
  | .acquireSleeps t lock => some ⟨some t, .sleep (.lock lock), .ok ()⟩
  | .released t lock => some ⟨some t, .wakeup (.lock lock), .ok ()⟩
  | .cvReleased t _ lock => some ⟨some t, .wakeup (.lock lock), .ok ()⟩
  | .cvSleeps t cv _ => some ⟨some t, .sleep (.cv cv), .ok ()⟩
  | .signal t cv _ => some ⟨some t, .wakeupOne (.cv cv), .ok ()⟩
  | .broadcast t cv _ => some ⟨some t, .wakeup (.cv cv), .ok ()⟩
  | .pDone _ _ | .acquired _ _ | .cvReturned _ _ => none

theorem Effect.schedStep (h : Effect s e s') : (∃ te, e.threadEvent = some te ∧ SchedStep s.sys.sched te s'.sys.sched) ∨
    (e.threadEvent = none ∧ s'.sys = s.sys) := by
  cases h with
  | sys _ _ _ hstep | pSleeps _ _ hstep | v _ _ hstep | acquireSleeps _ _ hstep | released _ _ hstep
  | cvReleased _ _ hstep | cvSleeps _ hstep | signal _ _ hstep | broadcast _ _ hstep => exact .inl ⟨_, rfl, hstep⟩
  | pDone | acquired | cvReturned => exact .inr ⟨rfl, rfl⟩

theorem Effect.conserves {me : Nat} {tr : List SynchEvent} (h : Effect s e s')
    (hc : s.sys.sched.Conserves (live me (tr.filterMap SynchEvent.threadEvent))) :
    s'.sys.sched.Conserves (live me ((e :: tr).filterMap SynchEvent.threadEvent)) := by
  obtain ⟨te, he, hstep⟩ | ⟨he, hsys⟩ := h.schedStep
  · rw [List.filterMap_cons_some he]
    exact hstep.conserves hc
  · rw [List.filterMap_cons_none he, hsys]
    exact hc

/-- The threads that go to sleep on the primitives. -/
def SynchEvent.Starts (t : Nat) : SynchEvent → WaitObj → Prop
  | .pSleeps u sem, addr => u = t ∧ addr = .sem sem
  | .acquireSleeps u lock, addr => u = t ∧ addr = .lock lock
  | .cvSleeps u cv _, addr => u = t ∧ addr = .cv cv
  | _, _ => False

/-- Who sleeps on a primitive did so before, or is just going to sleep on it. -/
theorem Effect.sleeps {addr : WaitObj} (hc : s.sys.sched.Conserves l) (h : Effect s e s')
    (hs : s'.sys.sched.Sleeps t addr) (haddr : ∀ n, addr ≠ .other n) : s.sys.sched.Sleeps t addr ∨ e.Starts t addr := by
  have old {te : ThreadEvent WaitObj} (hstep : SchedStep s.sys.sched te s'.sys.sched) :
      s.sys.sched.Sleeps t addr ∨ ∃ r, te = ⟨some t, .sleep addr, r⟩ :=
    (hstep.sleeps hc hs).imp_right And.right
  cases h with
  | sys hforeign hguard hcur hstep =>
    refine .inl ((old hstep).resolve_right ?_)
    rintro ⟨r, rfl⟩
    cases addr with
    | other n => exact haddr n rfl
    | sem | lock | cv => exact nomatch hforeign
  | pSleeps hcur hcount hstep | acquireSleeps hcur hheld hstep | cvSleeps hcur hstep =>
    refine (old hstep).imp_right ?_
    rintro ⟨r, he⟩
    cases he
    exact ⟨rfl, rfl⟩
  | v _ _ hstep | released _ _ hstep | cvReleased _ _ hstep | signal _ _ hstep | broadcast _ _ hstep =>
    refine .inl ((old hstep).resolve_right ?_)
    rintro ⟨r, he⟩
    cases he
  | pDone | acquired | cvReturned => exact .inl hs

/-! ## Semaphores -/

def SynchEvent.isP (sem : Nat) : SynchEvent → Bool
  | .pDone _ i => i = sem
  | _ => false

def SynchEvent.isV (sem : Nat) : SynchEvent → Bool
  | .v _ i => i = sem
  | _ => false

/-- The count is what the calls that completed make of the first count. -/
structure Counts (first : Nat → Int) (tr : List SynchEvent) (s : Synch) : Prop where
  count : ∀ sem, s.count sem = first sem + tr.countP (SynchEvent.isV sem) - tr.countP (SynchEvent.isP sem)
  nonneg : ∀ sem, 0 ≤ s.count sem
  bound : ∀ sem, s.count sem < 2 ^ 31
  asleep : ∀ sem t, s.sys.sched.Sleeps t (.sem sem) → s.count sem = 0

variable {first : Nat → Int} {tr : List SynchEvent}

theorem Effect.count_eq (h : Effect s e s') (hn : 0 ≤ s.count i) (hb : s.count i < 2 ^ 31) :
    s'.count i = s.count i + (if e.isV i then 1 else 0) - (if e.isP i then 1 else 0) ∧
      0 ≤ s'.count i ∧ s'.count i < 2 ^ 31 := by
  have same (hv : e.isV i = false) (hp : e.isP i = false) (hs : s'.count i = s.count i) :
      s'.count i = s.count i + (if e.isV i then 1 else 0) - (if e.isP i then 1 else 0) ∧
        0 ≤ s'.count i ∧ s'.count i < 2 ^ 31 := by
    rw [hv, hp, hs]
    exact ⟨by simp, hn, hb⟩
  cases h with
  | @pDone t j hcur hcount =>
    by_cases hj : i = j
    · subst hj
      have hs : ((s.setCount i (s.count i - 1)).setPlace t .client).count i = s.count i - 1 := by
        simp [Synch.setCount, Synch.setPlace]
      simp only [hs, SynchEvent.isV, SynchEvent.isP, decide_true, if_true, Bool.false_eq_true, if_false]
      omega
    · refine same rfl (decide_eq_false (Ne.symm hj)) ?_
      simp [Synch.setCount, Synch.setPlace, hj]
  | @v cur j sys' hcur hpos hstep =>
    by_cases hj : i = j
    · subst hj
      have hs : (s.setCount i (wrapInt (s.count i + 1))).count i = wrapInt (s.count i + 1) := by
        simp [Synch.setCount]
      -- a count that wraps is caught by the assertion
      have hwrap : wrapInt (s.count i + 1) = s.count i + 1 := by
        unfold wrapInt at hpos ⊢
        split at hpos
        · next hlt => rw [if_pos hlt]
        · omega
      simp only [hs, SynchEvent.isV, SynchEvent.isP, decide_true, if_true, Bool.false_eq_true, if_false]
      unfold wrapInt at hpos hwrap ⊢
      split at hpos <;> omega
    · refine same (decide_eq_false (Ne.symm hj)) rfl ?_
      simp [Synch.setCount, hj]
  | sys | pSleeps | acquired | acquireSleeps | released | cvReleased | cvSleeps | cvReturned | signal | broadcast =>
    exact same rfl rfl rfl

theorem Effect.counts (hc : s.sys.sched.Conserves l) (h : Effect s e s') (hs : Counts first tr s) :
    Counts first (e :: tr) s' where
  count i := by
    have heq := (h.count_eq (hs.nonneg i) (hs.bound i)).1
    have hold := hs.count i
    rw [List.countP_cons, List.countP_cons, heq, hold]
    push_cast
    grind
  nonneg i := (h.count_eq (hs.nonneg i) (hs.bound i)).2.1
  bound i := (h.count_eq (hs.nonneg i) (hs.bound i)).2.2
  asleep i t hsleep := by
    have hcount := (h.count_eq (hs.nonneg i) (hs.bound i)).1
    obtain hold | hnew := h.sleeps hc hsleep nofun
    · have hzero := hs.asleep i t hold
      cases h with
      | @pDone u j hcur hne =>
        -- a count that is taken from is not that of a semaphore with sleepers
        have hij : i ≠ j := by
          rintro rfl
          exact hne hzero
        simpa [Synch.setCount, Synch.setPlace, hij] using hzero
      | @v cur j sys' hcur hpos hstep =>
        have hij : i ≠ j := by
          rintro rfl
          exact hstep.not_sleeps hsleep
        simpa [Synch.setCount, hij] using hzero
      | sys | pSleeps | acquired | acquireSleeps | released | cvReleased | cvSleeps | cvReturned | signal | broadcast =>
        exact hzero
    · cases h with
      | @pSleeps u j sys' hcur hzero hstep =>
        obtain ⟨-, hj⟩ := hnew
        cases hj
        exact hzero
      | acquireSleeps | cvSleeps => exact nomatch hnew.2
      | sys | pDone | v | acquired | released | cvReleased | cvReturned | signal | broadcast => exact hnew.elim

/-! ## Locks -/

/-- The threads between the return of `lock_acquire` and their next `lock_release`. -/
def holders (lock : Nat) : List SynchEvent → List Nat
  | [] => []
  | .acquired t i :: tr => if i = lock then t :: holders lock tr else holders lock tr
  | .released t i :: tr => if i = lock then (holders lock tr).erase t else holders lock tr
  | .cvReleased t _ i :: tr => if i = lock then (holders lock tr).erase t else holders lock tr
  | _ :: tr => holders lock tr

structure Excludes (tr : List SynchEvent) (s : Synch) : Prop where
  holder : ∀ lock, holders lock tr = (s.lock lock).holder.toList
  held : ∀ lock, (s.lock lock).isHeld = (s.lock lock).holder.isSome
  asleep : ∀ lock t, s.sys.sched.Sleeps t (.lock lock) → (s.lock lock).isHeld = true

/-- A lock that is given up has no holder, and nobody sleeps on it. -/
theorem Excludes.release {sys' : ThreadSys WaitObj} {place : Nat → Place} (hs : Excludes tr s)
    (hhold : (s.lock i).holder = some t)
    (hasleep : ∀ j u, sys'.sched.Sleeps u (.lock j) → s.sys.sched.Sleeps u (.lock j))
    (hwoken : ∀ u, ¬ sys'.sched.Sleeps u (.lock i)) (he : ∀ j, holders j (e :: tr) =
      if i = j then (holders j tr).erase t else holders j tr) :
    Excludes (e :: tr) { s.setLock i ⟨false, none⟩ with sys := sys', place := place } := by
  refine ⟨fun j => ?_, fun j => ?_, fun j u hsleep => ?_⟩
  · rw [he j, hs.holder j]
    by_cases hj : i = j
    · subst hj
      simp [Synch.setLock, hhold]
    · simp [Synch.setLock, hj, Ne.symm hj]
  · by_cases hj : j = i
    · subst hj
      simp [Synch.setLock]
    · simpa [Synch.setLock, hj] using hs.held j
  · have hj : j ≠ i := by
      rintro rfl
      exact hwoken u hsleep
    simpa [Synch.setLock, hj] using hs.asleep j u (hasleep j u hsleep)

theorem Effect.excludes (hc : s.sys.sched.Conserves l) (h : Effect s e s') (hs : Excludes tr s) :
    Excludes (e :: tr) s' := by
  have hsleeps {j u : Nat} (hsleep : s'.sys.sched.Sleeps u (.lock j)) := h.sleeps hc hsleep nofun
  cases h with
  | @acquired t i hcur hfree =>
    have hnone : (s.lock i).holder = none := by
      have := hs.held i
      rw [hfree] at this
      simpa using this.symm
    refine ⟨fun j => ?_, fun j => ?_, fun j u hsleep => ?_⟩
    · simp only [holders]
      rw [hs.holder j]
      by_cases hj : i = j
      · subst hj
        simp [Synch.setLock, Synch.setPlace, hnone]
      · simp [Synch.setLock, Synch.setPlace, hj, Ne.symm hj]
    · by_cases hj : j = i
      · subst hj
        simp [Synch.setLock, Synch.setPlace]
      · simpa [Synch.setLock, Synch.setPlace, hj] using hs.held j
    · by_cases hj : j = i
      · subst hj
        simp [Synch.setLock, Synch.setPlace]
      · simpa [Synch.setLock, Synch.setPlace, hj] using hs.asleep j u hsleep
  | @acquireSleeps t i sys' hcur hheld hstep =>
    refine ⟨hs.holder, hs.held, fun j u hsleep => ?_⟩
    obtain hold | ⟨-, hj⟩ := hsleeps hsleep
    · exact hs.asleep j u hold
    · cases hj
      exact hheld
  | released hcur hhold hstep | cvReleased hcur hhold hstep =>
    exact hs.release hhold (fun j u hsleep => (hsleeps hsleep).resolve_right id)
      (fun u => hstep.not_sleeps) fun j => rfl
  | pSleeps | cvSleeps =>
    exact ⟨hs.holder, hs.held, fun j u hsleep =>
      hs.asleep j u ((hsleeps hsleep).resolve_right fun hnew => nomatch hnew.2)⟩
  | sys | pDone | v | cvReturned | signal | broadcast =>
    exact ⟨hs.holder, hs.held, fun j u hsleep => hs.asleep j u ((hsleeps hsleep).resolve_right id)⟩

/-! ## Condition variables -/

/-- A thread that sleeps on a condition variable is in `cv_wait`. -/
def Waits (s : Synch) : Prop :=
  ∀ t cv, s.sys.sched.Sleeps t (.cv cv) → ∃ lock, s.place t = .cvSleep cv lock

/-- Only the current thread is between its release of the lock and its sleep. -/
def Unbroken (s : Synch) : Prop :=
  ∀ t cv lock, s.place t = .cvWindow cv lock → s.sys.curthread = some t

theorem ThreadEvent.places_of_mem {te : ThreadEvent WaitObj} {v w : Sched WaitObj} (step : SchedStep v te w)
    (hmem : t ∈ v.threads) (place : Nat → Place) : te.places place t = place t := by
  cases step with
  | fork hcur hfresh hpre hw =>
    refine Function.update_of_ne ?_ _ _
    rintro rfl
    exact hfresh.1 (List.mem_append_left _ hmem)
  | forkFailed | forkNone | yield | yieldIdle | sleep | wakeup | wakeupOne | exit | run | own => rfl

theorem ThreadEvent.place_of_places {te : ThreadEvent WaitObj} {place : Nat → Place} {p : Place}
    (h : te.places place t = p) (hp : p ≠ .client) : place t = p := by
  unfold ThreadEvent.places at h
  split at h
  · next newguy _ =>
    by_cases ht : t = newguy
    · subst ht
      rw [Function.update_self] at h
      exact absurd h.symm hp
    · rwa [Function.update_of_ne ht] at h
  · exact h

theorem Effect.place_eq (h : Effect s e s')
    (hmem : t ∈ s.sys.sched.threads) (hcur : s.sys.curthread ≠ some t) : s'.place t = s.place t := by
  have other {u : Nat} {p : Place} (hu : s.sys.curthread = some u) : (s.setPlace u p).place t = s.place t := by
    refine Function.update_of_ne ?_ _ _
    rintro rfl
    exact hcur hu
  cases h with
  | sys hforeign hguard hte hstep => exact ThreadEvent.places_of_mem hstep hmem s.place
  | pDone hu | pSleeps hu | acquired hu | acquireSleeps hu | cvReleased hu | cvSleeps hu | cvReturned hu =>
    exact other hu
  | v | released | signal | broadcast => rfl

theorem Effect.waits (hc : s.sys.sched.Conserves l) (h : Effect s e s') (hs : Waits s) : Waits s' := by
  intro u cv hsleep
  obtain hold | hnew := h.sleeps hc hsleep (by simp)
  · obtain ⟨lock, hplace⟩ := hs u cv hold
    have hmem : u ∈ s.sys.sched.threads := by simp [Sched.threads, hold.1]
    have hcur : s.sys.curthread ≠ some u := fun he => hc.ne_cur he (.inr (.inl hold.1)) rfl
    exact ⟨lock, (h.place_eq hmem hcur).trans hplace⟩
  · cases h with
    | cvSleeps hcur hstep =>
      obtain ⟨rfl, hcv⟩ := hnew
      cases hcv
      exact ⟨_, Function.update_self _ _ _⟩
    | pSleeps | acquireSleeps => cases hnew.2
    | sys | pDone | v | acquired | released | cvReleased | cvReturned | signal | broadcast => exact hnew.elim

/-- The timer switches away from the current thread. -/
def SynchEvent.yields : SynchEvent → Bool
  | .sys ⟨_, .yield, _⟩ => true
  | _ => false

def Place.InWindow : Place → Bool
  | .cvWindow _ _ => true
  | _ => false

/-- A step that does not switch away from a thread between its release of the lock and its sleep. -/
def UnbrokenStep (s : Synch) (e : SynchEvent) (s' : Synch) : Prop :=
  SynchStep s e s' ∧ (e.yields = true → ∀ t ∈ s.sys.curthread, (s.place t).InWindow = false)

theorem Effect.unbroken (h : Effect s e s') (hs : Unbroken s)
    (hyield : e.yields = true → ∀ t ∈ s.sys.curthread, (s.place t).InWindow = false) : Unbroken s' := by
  -- a thread that leaves the window is the only one that was in it
  have left {u t cv lock : Nat} {p : Place} (hu : s.sys.curthread = some u) (hp : p.InWindow = false)
      (hplace : (s.setPlace u p).place t = .cvWindow cv lock) : False := by
    by_cases ht : t = u
    · subst ht
      have : p = .cvWindow cv lock := by simpa [Synch.setPlace] using hplace
      rw [this] at hp
      exact nomatch hp
    · have hold : s.place t = .cvWindow cv lock := by simpa [Synch.setPlace, ht] using hplace
      have := hs t cv lock hold
      rw [hu] at this
      exact ht (Option.some.inj this).symm
  intro t cv lock hplace
  cases h with
  | @sys te sys' hforeign hguard hte hstep =>
    have hcur := hs t cv lock (ThreadEvent.place_of_places hplace nofun)
    have hold := ThreadEvent.place_of_places hplace nofun
    obtain ⟨cur, op, r⟩ := te
    cases op with
    | yield => exact nomatch (hyield rfl t hcur).symm.trans (congrArg Place.InWindow hold)
    | sleep addr | exit => exact nomatch (hguard t hcur).symm.trans hold
    | run => exact nomatch hcur.symm.trans (hstep.cur_of_run rfl)
    | fork | wakeup | wakeupOne | own => exact (hstep.cur_eq rfl).trans hcur
  | pDone hu | pSleeps hu | acquired hu | acquireSleeps hu | cvSleeps hu | cvReturned hu =>
    exact (left hu rfl hplace).elim
  | @cvReleased u c i sys' hu hhold hstep =>
    have hu' : sys'.curthread = some u := (hstep.cur_eq rfl).trans hu
    by_cases ht : t = u
    · rw [ht]
      exact hu'
    · have hold : s.place t = .cvWindow cv lock := by
        simpa [Synch.setPlace, Synch.setLock, ht] using hplace
      exact (hstep.cur_eq rfl).trans (hs t cv lock hold)
  | v hu hpos hstep | released hu hhold hstep | signal hu hclient hstep | broadcast hu hclient hstep =>
    exact (hstep.cur_eq rfl).trans (hs t cv lock hplace)

/-! ## Runs -/

section Runs

variable {me : Nat} {q : Queue Nat} {m m' : Supply Nat}

structure Safe (me : Nat) (first : Nat → Int) (tr : List SynchEvent) (s : Synch) : Prop where
  valid : s.sys.Valid
  conserves : s.sys.sched.Conserves (live me (tr.filterMap SynchEvent.threadEvent))
  counts : Counts first tr s
  excludes : Excludes tr s
  waits : Waits s

theorem synchBoot_safe (hq : qCreate 32 m = (some q, m')) (hfirst : ∀ i, 0 ≤ first i ∧ first i < 2 ^ 31) :
    Safe me first [] (synchBoot (threadBootstrap me q m') first) := by
  have hboot : (threadBootstrap me q m' : ThreadSys WaitObj).Valid ∧ _ := threadBootstrap_conserves hq
  have hasleep {t : Nat} {addr : WaitObj} :
      ¬ (threadBootstrap me q m' : ThreadSys WaitObj).sched.Sleeps t addr := fun h => nomatch h.1
  refine ⟨hboot.1, hboot.2, ⟨?_, fun i => (hfirst i).1, fun i => (hfirst i).2, ?_⟩, ⟨?_, ?_, ?_⟩, ?_⟩
  · intro i
    simp [synchBoot]
  · exact fun i t h => (hasleep h).elim
  · exact fun i => rfl
  · exact fun i => rfl
  · exact fun i t h => (hasleep h).elim
  · exact fun t c h => (hasleep h).elim

theorem Safe.effect (h : Safe me first tr s) (step : SynchStep s e s') : Effect s e s' ∧ s'.sys.Valid := by
  obtain ⟨op, hop, hcall⟩ := step
  obtain ⟨e', he, hv, heffect⟩ :=
    (op.spec h.valid h.conserves h.counts.nonneg hop).of_ok hcall
  cases he
  exact ⟨heffect, hv⟩

theorem Safe.step (h : Safe me first tr s) (step : SynchStep s e s') : Safe me first (e :: tr) s' := by
  obtain ⟨heffect, hv⟩ := h.effect step
  exact ⟨hv, heffect.conserves h.conserves, heffect.counts h.conserves h.counts,
    heffect.excludes h.conserves h.excludes, heffect.waits h.conserves h.waits⟩

theorem Safe.run (hq : qCreate 32 m = (some q, m')) (hfirst : ∀ i, 0 ≤ first i ∧ first i < 2 ^ 31)
    (run : Run SynchStep (synchBoot (threadBootstrap me q m') first) tr s) : Safe me first tr s :=
  run.history (I := Safe me first) (synchBoot_safe hq hfirst) fun h step => h.step step

/-- A semaphore's count is its first count, plus the calls of `V` and minus those of `P` that have
completed. It is never negative, the assertion in `P` never fails, and nobody sleeps on a semaphore
that could be taken. -/
theorem semaphore_accounting (hq : qCreate 32 m = (some q, m')) (hfirst : ∀ i, 0 ≤ first i ∧ first i < 2 ^ 31)
    (run : Run SynchStep (synchBoot (threadBootstrap me q m') first) tr s) :
    (∀ i, s.count i = first i + tr.countP (SynchEvent.isV i) - tr.countP (SynchEvent.isP i) ∧ 0 ≤ s.count i) ∧
      (∀ op : SynchOp, op.Enabled s → op.call s ≠ .error .semCount) ∧
      ∀ i t, t ∈ s.sys.sleepers.elems → (s.sys.thread t).tSleepaddr = some (.sem i) → s.count i = 0 := by
  have h := Safe.run hq hfirst run
  refine ⟨fun i => ⟨h.counts.count i, h.counts.nonneg i⟩, fun op hop he => ?_, fun i t hmem haddr => ?_⟩
  · exact (op.spec h.valid h.conserves h.counts.nonneg hop).of_error he rfl
  · exact h.counts.asleep i t ⟨hmem, haddr⟩

/-- Two threads, all semaphores at 0, and memory whenever it is asked for. -/
def sampleBoot : Synch := synchBoot (threadBootstrap 1 bootQueue fun _ => some fun _ => 0) fun _ => 0

/-- The first thread sleeps in `P` until the second one calls `V`. -/
theorem semaphore_accounting_sample :
    ∃ tr s, Run SynchStep sampleBoot tr s ∧ .pSleeps 1 0 ∈ tr ∧ .pDone 1 0 ∈ tr ∧ 0 ≤ s.count 0 := by
  obtain ⟨tr, s, run, hs⟩ := Run.of_replays (s := sampleBoot)
    (P := fun tr _ => .pSleeps 1 0 ∈ tr ∧ .pDone 1 0 ∈ tr) @SynchOp.step_sound
    (show replays SynchOp.step [.sys (.fork (some 2)), .p 1 0, .sys .run, .v (some 2) 0, .sys .yield,
      .sys .run, .pAgain 1 0] _ _ = true by decide +kernel)
  have hs' := of_decide_eq_true hs
  exact ⟨tr, s, run, hs'.1, hs'.2,
    ((semaphore_accounting (m := fun _ => some fun _ => 0) rfl (fun _ => by decide) run).1 0).2⟩

/-- A lock has at most one holder, whom it knows; a release by anybody else, or an acquisition by
the holder, is a panic; and nobody sleeps on a lock that is free. -/
theorem lock_safety (hq : qCreate 32 m = (some q, m')) (hfirst : ∀ i, 0 ≤ first i ∧ first i < 2 ^ 31)
    (run : Run SynchStep (synchBoot (threadBootstrap me q m') first) tr s) (i : Nat) :
    (holders i tr).length ≤ 1 ∧ (∀ t, t ∈ holders i tr ↔ (s.lock i).holder = some t) ∧
      ((s.lock i).isHeld = true ↔ (s.lock i).holder ≠ none) ∧
      (∀ t, s.sys.curthread = some t → (s.lock i).holder ≠ some t → lockRelease i s = .error .releaseNotOwner) ∧
      (∀ t, s.sys.curthread = some t → (s.lock i).holder = some t → lockAcquire t i s = .error .acquireTwice) ∧
      ∀ t, t ∈ s.sys.sleepers.elems → (s.sys.thread t).tSleepaddr = some (.lock i) → (s.lock i).isHeld = true := by
  have h := (Safe.run hq hfirst run).excludes
  refine ⟨?_, ?_, ?_, ?_, ?_, ?_⟩
  · rw [h.holder i]
    cases (s.lock i).holder <;> simp
  · intro t
    rw [h.holder i]
    cases (s.lock i).holder <;> simp [eq_comm]
  · rw [h.held i]
    cases (s.lock i).holder <;> simp
  · intro t hcur hne
    have : ¬ lockDoIHold s i := by
      unfold lockDoIHold
      rwa [hcur]
    simp [lockRelease, Prog.bind_apply, Prog.get, Prog.check, Prog.stop, this]
  · intro t hcur heq
    have : lockDoIHold s i := by
      unfold lockDoIHold
      rw [hcur, heq]
    simp [lockAcquire, Prog.bind_apply, Prog.get, Prog.check, Prog.stop, this]
  · exact fun t hmem haddr => h.asleep i t ⟨hmem, haddr⟩

/-- The second thread sleeps in `lock_acquire` until the first one calls `lock_release`. -/
theorem lock_safety_sample :
    ∃ tr s, Run SynchStep sampleBoot tr s ∧ .acquireSleeps 2 0 ∈ tr ∧ (s.lock 0).holder = some 2 ∧
      (holders 0 tr).length ≤ 1 := by
  obtain ⟨tr, s, run, hs⟩ := Run.of_replays (s := sampleBoot)
    (P := fun tr s => .acquireSleeps 2 0 ∈ tr ∧ (s.lock 0).holder = some 2) @SynchOp.step_sound
    (show replays SynchOp.step [.sys (.fork (some 2)), .acquire 1 0, .sys .yield, .sys .run,
      .acquire 2 0, .sys .run, .release 1 0, .sys .yield, .sys .run, .acquireAgain 2 0] _ _ = true by
      decide +kernel)
  have hs' := of_decide_eq_true hs
  exact ⟨tr, s, run, hs'.1, hs'.2, (lock_safety (m := fun _ => some fun _ => 0) rfl (fun _ => by decide) run 0).1⟩

/-- The thread sleeps on the condition variable, or is going to. -/
def Synch.BoundToSleep (s : Synch) (t cv : Nat) : Prop :=
  (∃ lock, s.place t = .cvWindow cv lock) ∨
    (t ∈ s.sys.sleepers.elems ∧ (s.sys.thread t).tSleepaddr = some (.cv cv))

/-- The thread has released the lock in `cv_wait`, and has not come back from its sleep. -/
def Synch.InWait (s : Synch) (t cv : Nat) : Prop :=
  ∃ lock, s.place t = .cvWindow cv lock ∨ s.place t = .cvSleep cv lock

theorem Unbroken.not_window (h : Unbroken s) {u cv lock : Nat} (hcur : s.sys.curthread = some u)
    (hu : s.place u = .client) : s.place t ≠ .cvWindow cv lock := by
  intro hplace
  have ht : some u = some t := hcur.symm.trans (h t cv lock hplace)
  cases ht
  exact nomatch hu.symm.trans hplace

/-- As long as no thread is switched away from inside `cv_wait` before it sleeps, a broadcast leaves
nobody asleep or about to sleep, nor does a signal leave the only thread that waits. -/
theorem cv_no_lost_wakeup (hq : qCreate 32 m = (some q, m')) (hfirst : ∀ i, 0 ≤ first i ∧ first i < 2 ^ 31)
    (run : Run UnbrokenStep (synchBoot (threadBootstrap me q m') first) tr s)
    (step : UnbrokenStep s e s') {u cv lock : Nat} : (e = .broadcast u cv lock → ∀ t, ¬ s'.BoundToSleep t cv) ∧
      (e = .signal u cv lock → ∀ t, (∀ w, s.InWait w cv → w = t) → ¬ s'.BoundToSleep t cv) := by
  obtain ⟨hsafe, hunbroken⟩ := run.history (I := fun tr s => Safe me first tr s ∧ Unbroken s)
    ⟨synchBoot_safe hq hfirst, nofun⟩
    fun h step => ⟨h.1.step step.1, (h.1.effect step.1).1.unbroken h.2 step.2⟩
  have heffect := (hsafe.effect step.1).1
  refine ⟨?_, ?_⟩
  · rintro rfl t hbound
    cases heffect with
    | broadcast hcur hclient hstep =>
      obtain ⟨lock', hplace⟩ | hsleeps := hbound
      · exact hunbroken.not_window hcur hclient hplace
      · exact hstep.not_sleeps hsleeps
  · rintro rfl t hone hbound
    cases heffect with
    | signal hcur hclient hstep =>
      obtain ⟨lock', hplace⟩ | hsleeps := hbound
      · exact hunbroken.not_window hcur hclient hplace
      · refine hstep.not_sleeps_one hsafe.conserves ?_ hsleeps
        intro w hw
        obtain ⟨lock', hplace⟩ := hsafe.waits w cv hw
        exact hone w ⟨lock', .inr hplace⟩

def SynchOp.unbrokenStep : Synch → SynchOp → Option (SynchEvent × Synch) :=
  nextIf SynchOp.step fun s e _ =>
    e.yields = true → ∀ t ∈ s.sys.curthread, (s.place t).InWindow = false

theorem SynchOp.unbrokenStep_sound {s : Synch} {op : SynchOp} {e : SynchEvent} {s' : Synch}
    (h : SynchOp.unbrokenStep s op = some (e, s')) : UnbrokenStep s e s' := by
  obtain ⟨hstep, hyield⟩ := nextIf_sound @SynchOp.step_sound h
  exact ⟨hstep, of_decide_eq_true hyield⟩

/-- The first thread sleeps in `cv_wait`, and the second one wakes it up. -/
theorem cv_no_lost_wakeup_sample : ∃ tr s s', Run UnbrokenStep sampleBoot tr s ∧ UnbrokenStep s (.broadcast 2 0 0) s' ∧
    .cvSleeps 1 0 0 ∈ tr ∧ ¬ s'.BoundToSleep 1 0 := by
  obtain ⟨tr, s', run, hs⟩ := Run.of_replays (s := sampleBoot)
    (P := fun tr _ => tr.head? = some (.broadcast 2 0 0) ∧ .cvSleeps 1 0 0 ∈ tr.tail)
    @SynchOp.unbrokenStep_sound
    (show replays SynchOp.unbrokenStep [.sys (.fork (some 2)), .acquire 1 0, .cvWait 1 0 0,
      .cvEnter 1 0 0, .sys .run, .acquire 2 0, .broadcast 2 0 0] _ _ = true by decide +kernel)
  obtain ⟨hhead, hmem⟩ := of_decide_eq_true hs
  cases run with
  | start => exact nomatch hhead
  | step run step =>
    cases hhead
    exact ⟨_, _, _, run, step, hmem,
      (cv_no_lost_wakeup (m := fun _ => some fun _ => 0) rfl (fun _ => by decide) run step).1 rfl 1⟩

/-- The timer switches from the first thread to the second after `lock_release` returned in
`cv_wait`. The second thread broadcasts with the lock held; then the first one goes to sleep. -/
theorem cvWait_misses_broadcast : ∃ tr s, Run SynchStep sampleBoot tr s ∧
    tr.filter (· ∈ [.cvReleased 1 0 0, .acquired 2 0, .broadcast 2 0 0, .cvSleeps 1 0 0]) =
      [.cvSleeps 1 0 0, .broadcast 2 0 0, .acquired 2 0, .cvReleased 1 0 0] ∧
    1 ∈ s.sys.sleepers.elems ∧ (s.sys.thread 1).tSleepaddr = some (.cv 0) := by
  obtain ⟨tr, s, run, hs⟩ := Run.of_replays (s := sampleBoot) (P := fun tr s =>
      tr.filter (· ∈ [.cvReleased 1 0 0, .acquired 2 0, .broadcast 2 0 0, .cvSleeps 1 0 0]) =
        [.cvSleeps 1 0 0, .broadcast 2 0 0, .acquired 2 0, .cvReleased 1 0 0] ∧
      1 ∈ s.sys.sleepers.elems ∧ (s.sys.thread 1).tSleepaddr = some (.cv 0)) @SynchOp.step_sound
    (show replays SynchOp.step [.sys (.fork (some 2)), .acquire 1 0, .cvWait 1 0 0, .sys .yield,
      .sys .run, .acquire 2 0, .broadcast 2 0 0, .release 2 0, .sys .yield, .sys .run, .cvEnter 1 0 0]
      _ _ = true by decide +kernel)
  exact ⟨tr, s, run, of_decide_eq_true hs⟩

end Runs

end Os161.Threads
