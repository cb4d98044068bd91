import Os161.Threads.Synch

/-!
# Waking up sleepers

`thread_wakeup` and `thread_wakeup_one` take sleepers out of the array that they walk over. The
first steps back after each removal, and so looks at every sleeper; the second is the same loop
without that step, and without an end after the first thread. It passes over the sleeper behind each
one that it wakes, and wakes every other one that it looks at.
-/
namespace Os161.Threads

open Lib Kern Prog

/-! ## The two walks -/

section Scan

variable {f : Nat → Bool} {one skip : Bool} {l : List Nat} {t : Nat}

theorem scan_of_none (h : (Sched.scan f one skip l).2 = []) : (Sched.scan f one skip l).1 = l := by
  induction l generalizing skip with
  | nil => rfl
  | cons t l ih =>
    cases skip with
    | true => exact congrArg (t :: ·) (ih h)
    | false =>
      unfold Sched.scan at h ⊢
      split at h
      · exact absurd h (List.cons_ne_nil _ _)
      · next hf =>
        rw [if_neg hf]
        exact congrArg (t :: ·) (ih h)

theorem scan_none_iff : (Sched.scan f one false l).2 = [] ↔ ∀ t ∈ l, f t = false := by
  induction l with
  | nil => simp [Sched.scan]
  | cons t l ih => cases hf : f t <;> simp [Sched.scan, hf, ih]

/-- One thread that wakes up is a sleeper that was selected, and the others stay. -/
theorem scan_of_singleton (h : (Sched.scan f one skip l).2 = [t]) :
    ∃ before after, l = before ++ t :: after ∧ f t = true ∧ (Sched.scan f one skip l).1 = before ++ after := by
  induction l generalizing skip with
  | nil => exact absurd h.symm (List.cons_ne_nil _ _)
  | cons u l ih =>
    have stays {skip : Bool} (h : (Sched.scan f one skip l).2 = [t]) : ∃ before after,
        u :: l = before ++ t :: after ∧ f t = true ∧
          u :: (Sched.scan f one skip l).1 = before ++ after := by
      obtain ⟨before, after, hl, hf, hkept⟩ := ih h
      exact ⟨u :: before, after, by rw [hl]; rfl, hf, by rw [hkept]; rfl⟩
    cases skip with
    | true => exact stays h
    | false =>
      unfold Sched.scan at h ⊢
      split at h
      · next hf =>
        obtain ⟨rfl, hnone⟩ := List.cons.inj h
        rw [if_pos hf]
        exact ⟨[], l, rfl, hf, scan_of_none hnone⟩
      · next hf =>
        rw [if_neg hf]
        exact stays h

/-- The walk of `thread_wakeup_one` takes at most one, unless there is another one behind the slot
that follows the first. -/
theorem scan_le_one_iff : (Sched.scan f true false l).2.length ≤ 1 ↔
    ∀ t ∈ (l.dropWhile fun t => !f t).drop 2, f t = false := by
  induction l with
  | nil => simp [Sched.scan]
  | cons t l ih =>
    cases hf : f t with
    | false => simpa [Sched.scan, hf] using ih
    | true =>
      cases l with
      | nil => simp [Sched.scan, hf]
      | cons u l =>
        have hnone : (Sched.scan f true false l).2 = [] ↔ ∀ t ∈ l, f t = false := scan_none_iff
        simpa [Sched.scan, hf] using hnone

end Scan

variable {A : Type} {s : ThreadSys A} {t : Nat}

/-! ## A run queue that may have to grow -/

/-- The ring holds the list; it is the one of `m` slots, with a block that has room for them, unless
`C`. -/
def RingsUnless (C : Prop) (m : Nat) (l : List Nat) (q : Queue Nat) : Prop :=
  q.Rings l ∧ (q.size = m ∧ ¬ q.Short ∨ C)

/-- A run queue that is not full takes the thread. -/
theorem RingsUnless.add {C : Prop} {m : Nat} {l : List Nat} (h : RingsUnless C m l s.runqueue)
    (hC : m ≤ l.length + 1 → C) : Sat (fun p => (p = .wakeup ∨ ∃ e, p = .queue e) ∧ C)
      (assertZero (makeRunnable t) .wakeup) s fun r s' => r = .ok () ∧
        RingsUnless C m (l ++ [t]) s'.runqueue ∧ s'.sleepers = s.sleepers ∧ s.Moves s' := by
  obtain ⟨hr, hm⟩ := h
  have hgrow (hfull : l.length + 1 = s.runqueue.size) : C :=
    hm.elim (fun hm => hC (by omega)) id
  simp only [sat_assertZero, makeRunnable, onRunqueue, sat_focus]
  refine ((qAddtail_cases hr).weaken ?_).mono ?_
  · intro p hp
    refine ⟨.inr ⟨p, rfl⟩, ?_⟩
    cases hp with
    | inl hshort => exact hm.elim (fun hm => absurd hshort hm.2) id
    | inr hfull => exact hgrow hfull.1
  · rintro r ⟨q, mem⟩ (⟨rfl, -, hfull⟩ | ⟨rfl, hr', hsize⟩)
    · exact ⟨.inl trivial, hgrow hfull⟩
    · refine ⟨trivial, ⟨hr', ?_⟩, rfl, rfl⟩
      obtain ⟨-, hsz, hroom, -⟩ | ⟨hfull, -⟩ := hsize
      · refine hm.imp_left fun hm => ⟨hsz.trans hm.1, fun hshort => hm.2 ?_⟩
        exact Nat.lt_of_le_of_lt (Nat.le_of_eq hroom.symm) (Nat.lt_of_lt_of_eq hshort hsz)
      · exact .inr (hgrow hfull)

/-- The only way to stop: the run queue has no room for `n` more threads. -/
def NoRoom (s : ThreadSys A) (n : Nat) (p : ThreadPanic) : Prop :=
  (p = .wakeup ∨ ∃ e, p = .queue e) ∧ s.runqueue.size ≤ s.runqueue.elems.length + n

variable [DecidableEq A] {addr : A}

/-- The loop, from any state whose containers are well formed. -/
theorem wakeupFrom_total (addr : A) (one : Bool) {after : Nat → Nat}
    (hafter : ∀ i, after i = i + one.toNat) (h : s.Valid) : Sat (NoRoom s (s.sched.woken addr one).2.length)
      (wakeupFrom addr after (s.sleepers.num + 1) 0) s fun r s' => r = .ok () ∧ s.Moves s' ∧
        s'.sleepers.elems = (s.sched.woken addr one).1 ∧
        s'.runqueue.elems = s.runqueue.elems ++ (s.sched.woken addr one).2 ∧
        ((s.sched.woken addr one).2 = [] → s' = s) := by
  unfold NoRoom
  rw [← List.length_append]
  have hadd (u : ThreadSys A) (l : List Nat) (t : Nat)
      (hu : RingsUnless (s.runqueue.size ≤ (s.runqueue.elems ++ (s.sched.woken addr one).2).length)
        s.runqueue.size l u.runqueue)
      (hp : l ++ [t] <+: s.runqueue.elems ++ (s.sched.woken addr one).2) := by
    have hle := hp.length_le
    rw [List.length_append, List.length_singleton] at hle
    exact hu.add (t := t) fun hm => Nat.le_trans hm hle
  refine (wakeupFrom_rule hafter hadd (s.sleepers.num + 1) false [] s.sched.asleep s.runqueue.elems
    ⟨h.runqueue.toRings, .inl ⟨rfl, h.runqueue.not_short⟩⟩ h.sleepers rfl rfl
    (by rw [h.asleep_length]; omega)).mono ?_
  rintro r s' ⟨rfl, hw, hnone⟩
  exact ⟨rfl, hw.moves, hw.asleep, hw.runqueue.1.elems_eq, hnone⟩

/-! ## thread_wakeup -/

/-- The sleepers on an address, in their order. -/
def ThreadSys.sleepersOn (s : ThreadSys A) (addr : A) : List Nat :=
  s.sleepers.elems.filter fun t => (s.thread t).tSleepaddr = some addr

theorem woken_false : s.sched.woken addr false =
    (s.sleepers.elems.filter fun t => (s.thread t).tSleepaddr ≠ some addr, s.sleepersOn addr) := by
  rw [Sched.woken, scan_false, ThreadSys.sleepersOn]
  simp only [ne_eq, decide_not]
  rfl

/-- `thread_wakeup` takes the sleepers on the address to the end of the run queue, and touches
nothing else. It can stop only where the run queue has to grow; an index into the sleepers is never
out of range. -/
theorem threadWakeup_wakes_matching (h : s.Valid) (addr : A) :
    Prog.Sat (NoRoom s (s.sleepersOn addr).length) (threadWakeup addr) s fun r s' => r = .ok () ∧
      s'.sleepers.elems = (s.sleepers.elems.filter fun t => (s.thread t).tSleepaddr ≠ some addr) ∧
      s'.runqueue.elems = s.runqueue.elems ++ s.sleepersOn addr ∧ s.Moves s' := by
  simp only [threadWakeup, sat_bind, sat_get]
  have loop := wakeupFrom_total addr false (fun _ => rfl) h
  rw [woken_false] at loop
  refine loop.mono ?_
  intro r s' hw
  exact ⟨hw.1, hw.2.2.1, hw.2.2.2.1, hw.2.1⟩

/-- Four threads sleep after the first one booted, three of them on the address 7. -/
def sampleAsleep : ThreadSys Nat :=
  { (threadBootstrap 1 bootQueue fun _ => none : ThreadSys Nat) with
    thread := fun t => ⟨.sleep, if t = 3 then some 8 else some 7, none, none⟩
    sleepers := ⟨4, 4, some ⟨4, fun i => i + 2⟩⟩
    numthreads := 5 }

theorem sampleAsleep_valid : sampleAsleep.Valid := by
  refine ⟨⟨⟨by decide, by decide, by decide, ?_⟩, by decide, by decide⟩,
    ⟨by decide, ?_, nofun, by decide⟩, ⟨by decide, nofun, fun _ => rfl, by decide⟩⟩
  · exact fun i hi => absurd hi (Nat.not_lt_zero i)
  · intro b hb
    cases hb
    rfl

theorem threadWakeup_sampleAsleep : sampleAsleep.Valid ∧ sampleAsleep.sleepers.elems = [2, 3, 4, 5] ∧
    sampleAsleep.sleepersOn 7 = [2, 4, 5] ∧ ¬ NoRoom sampleAsleep 3 .wakeup ∧
    Prog.Sat (NoRoom sampleAsleep 3) (threadWakeup 7) sampleAsleep fun r s' => r = .ok () ∧
      s'.sleepers.elems = [3] ∧ s'.runqueue.elems = [2, 4, 5] ∧ sampleAsleep.Moves s' :=
  ⟨sampleAsleep_valid, by decide, by decide +kernel, fun h => absurd h.2 (by decide +kernel),
    threadWakeup_wakes_matching sampleAsleep_valid 7⟩

/-! ## thread_wakeup_one -/

/-- One sleeper on the address went to the end of the run queue, if there is one. -/
def WakesOne (addr : A) (s s' : ThreadSys A) : Prop :=
  (s.sleepersOn addr = [] ∧ s' = s) ∨
  ∃ before t after, s.sleepers.elems = before ++ t :: after ∧ (s.thread t).tSleepaddr = some addr ∧
    s'.sleepers.elems = before ++ after ∧ s'.runqueue.elems = s.runqueue.elems ++ [t] ∧ s.Moves s'

/-- No thread sleeps on the address behind the slot that follows the first one that does. -/
def ThreadSys.LoneSleeper (s : ThreadSys A) (addr : A) : Prop :=
  ∀ t ∈ (s.sleepers.elems.dropWhile fun t => (s.thread t).tSleepaddr ≠ some addr).drop 2,
    (s.thread t).tSleepaddr ≠ some addr

instance : Decidable (s.LoneSleeper addr) := inferInstanceAs (Decidable (∀ t ∈ _, _))

theorem woken_le_one_iff : (s.sched.woken addr true).2.length ≤ 1 ↔ s.LoneSleeper addr := by
  rw [Sched.woken, scan_le_one_iff]
  simp only [ThreadSys.sched, Sched.sleepsOn, ThreadSys.LoneSleeper, ne_eq, decide_not]
  exact forall₂_congr fun t _ => decide_eq_false_iff_not

theorem threadWakeupOne_cases (h : s.Valid) (addr : A) :
    Sat (NoRoom s (s.sched.woken addr true).2.length) (threadWakeupOne addr) s fun r s' =>
      r = .ok () ∧ (WakesOne addr s s' ↔ s.LoneSleeper addr) := by
  simp only [threadWakeupOne, sat_bind, sat_get]
  refine (wakeupFrom_total addr true (fun _ => rfl) h).mono ?_
  rintro r s' ⟨rfl, hmoves, hasleep, hready, hnone⟩
  rw [← woken_le_one_iff]
  refine ⟨rfl, fun hone => ?_, fun hle => ?_⟩
  · obtain ⟨-, hs⟩ | ⟨before, t, after, -, -, -, hready', -⟩ := hone
    · have : (s.sched.woken addr true).2 = [] := by simpa [hs] using hready
      simp [this]
    · rw [hready, List.append_cancel_left_eq] at hready'
      simp [hready']
  · match hw : (s.sched.woken addr true).2 with
    | [] =>
      have hall := scan_none_iff.1 hw
      refine .inl ⟨List.filter_eq_nil_iff.2 fun t ht => ?_, hnone hw⟩
      exact fun e => of_decide_eq_false (hall t ht) (of_decide_eq_true e)
    | [t] =>
      obtain ⟨before, after, hl, hf, hkept⟩ := scan_of_singleton hw
      refine .inr ⟨before, t, after, hl, of_decide_eq_true hf, hasleep.trans hkept, ?_, hmoves⟩
      rw [hready, hw]
    | _ :: _ :: _ =>
      rw [hw] at hle
      exact absurd hle (by simp)

/-- `thread_wakeup_one`, and `cv_signal` for the thread that has the lock, wake one sleeper just if
there is no other one where the loop looks after the first. -/
theorem threadWakeupOne_wakesOne_iff (h : s.Valid) (addr : A) :
    Prog.Sat (NoRoom s (s.sched.woken addr true).2.length) (threadWakeupOne addr) s (fun r s' =>
      r = .ok () ∧ (WakesOne addr s s' ↔ s.LoneSleeper addr)) ∧
    ∀ (u : Synch) (t cv lock : Nat), u.sys.Valid → lockDoIHold u lock →
      Prog.Sat (fun p => ∃ e, p = .sys e ∧ NoRoom u.sys (u.sys.sched.woken (.cv cv) true).2.length e)
        (cvSignal t cv lock) u fun r u' => r = .ok (.signal t cv lock) ∧ u' = { u with sys := u'.sys } ∧
          (WakesOne (.cv cv) u.sys u'.sys ↔ u.sys.LoneSleeper (.cv cv)) := by
  refine ⟨threadWakeupOne_cases h addr, fun u t cv lock hu hlock => ?_⟩
  simp only [cvSignal, onSys, sat_bind, sat_get, sat_check, if_pos hlock, sat_focus]
  refine ((threadWakeupOne_cases hu (.cv cv)).weaken fun e he => ⟨e, rfl, he⟩).mono ?_
  rintro r s' ⟨rfl, hone⟩
  exact ⟨rfl, rfl, hone⟩

theorem threadWakeupOne_sampleAsleep : sampleAsleep.LoneSleeper 8 ∧
    Prog.Sat (NoRoom sampleAsleep 1) (threadWakeupOne 8) sampleAsleep fun r s' => r = .ok () ∧
      (WakesOne 8 sampleAsleep s' ↔ sampleAsleep.LoneSleeper 8) :=
  ⟨by decide +kernel, (threadWakeupOne_wakesOne_iff sampleAsleep_valid 8).1⟩

/-- Three of the four threads sleep on the address, and two of them wake up. -/
theorem threadWakeupOne_wakes_two : Prog.Sat (fun _ => False) (threadWakeupOne 7) sampleAsleep fun r s' => r = .ok () ∧
    s'.sleepers.elems = [3, 5] ∧ s'.runqueue.elems = [2, 4] ∧ ¬ WakesOne 7 sampleAsleep s' := by
  have hwoken : sampleAsleep.sched.woken 7 true = ([3, 5], [2, 4]) := by decide +kernel
  have hroom : ¬ sampleAsleep.runqueue.size ≤ sampleAsleep.runqueue.elems.length + 2 := by
    decide +kernel
  have loop := wakeupFrom_total 7 true (fun _ => rfl) sampleAsleep_valid
  rw [hwoken] at loop
  simp only [threadWakeupOne, sat_bind, sat_get]
  refine (loop.weaken fun p hp => hroom hp.2).mono ?_
  rintro r s' ⟨hr, -, hasleep, hready, -⟩
  refine ⟨hr, hasleep, hready, ?_⟩
  rintro (⟨hnone, -⟩ | ⟨before, t, after, -, -, -, hone, -⟩)
  · exact absurd hnone (by decide +kernel)
  · rw [hready, List.append_cancel_left_eq] at hone
    exact absurd hone (by simp)

end Os161.Threads
