import Os161.Lib.Run
import Os161.Lib.Words

/-!
# Dud interrupts on the LAMEbus

`lamebus_interrupt` of `kern/dev/lamebus/lamebus.c`. Interrupts that no driver answers for are
counted from one call to the next, and too many of them in a row are a panic. The register with the
pending interrupts is read on entry and again after each handler, and each time it may have any
value.

A stray interrupt, for which the register reads 0, is counted but returns before the check at the
end, so that the count stays below its limit only as long as no stray interrupt meets it there.
-/
namespace Os161.Dev.Lamebus

open Lib

def lbNslots : Nat := 32

inductive LamebusPanic where
  | tooManyDuds
  deriving DecidableEq, Repr

/-- The mask of the slots with a driver, and the slots with a handler. -/
structure Softc where
  lsSlotsinuse : Word
  lsIrqfuncs : Nat → Bool

/-- What is found after a handler has been called. While it ran, a thread may have been switched to
that took interrupts of its own: `meantime` is what these made of the count. -/
structure Reload where
  softc : Softc
  irqs : Word
  meantime : Word → Word

/-- One call of the function: what it finds on entry and after each handler. -/
structure Interrupt where
  softc : Softc
  irqs : Word
  after : Nat → Reload

/-- The mask that the loop has shifted by `slot` places. -/
def mask (slot : Nat) : Word := 1#32 <<< slot

/-- The loop over the last `n` slots after `k` handlers. The two counts are `duds` and
`duds_this_time`. -/
def dispatch (after : Nat → Reload) : Nat → Nat → Nat → Softc → Word → Word → Nat → Word × Nat
  | 0, _, _, _, _, duds, dudsThisTime => (duds, dudsThisTime)
  | n + 1, slot, k, sc, irqs, duds, dudsThisTime =>
    if irqs &&& mask slot = 0 then dispatch after n (slot + 1) k sc irqs duds dudsThisTime
    else if sc.lsSlotsinuse &&& mask slot = 0 then
      dispatch after n (slot + 1) k sc irqs (duds + 1) (dudsThisTime + 1)
    else if sc.lsIrqfuncs slot = false then
      dispatch after n (slot + 1) k sc irqs (duds + 1) (dudsThisTime + 1)
    else
      dispatch after n (slot + 1) (k + 1) (after k).softc (after k).irqs ((after k).meantime duds) dudsThisTime

/-- The end of the function. The count is an `int`. -/
def settle (duds : Word) (dudsThisTime : Nat) : Except LamebusPanic Word :=
  let duds := if dudsThisTime = 0 ∧ 0 < duds.toInt then 0 else duds
  if 10000 < duds.toInt then .error .tooManyDuds else .ok duds

/-- The count that a call leaves, if it returns. -/
def lamebusInterrupt (i : Interrupt) (duds : Word) : Except LamebusPanic Word :=
  if i.irqs = 0 then .ok (duds + 1)
  else
    let counts := dispatch i.after lbNslots 0 0 i.softc i.irqs duds 0
    settle counts.1 counts.2

variable {i : Interrupt} {d e : Word}

/-! ## The check -/

theorem settle_ok {n : Nat} (h : settle d n = .ok e) : e.toInt ≤ 10000 ∧ e = if n = 0 ∧ 0 < d.toInt then 0 else d := by
  unfold settle at h
  generalize (if n = 0 ∧ 0 < d.toInt then 0 else d) = c at h
  by_cases hc : 10000 < c.toInt
  · rw [if_pos hc] at h
    exact nomatch h
  · rw [if_neg hc] at h
    obtain rfl := Except.ok.inj h
    exact ⟨by omega, rfl⟩

/-- A stray interrupt has to find the count below the limit. -/
def Calm (d : Word) (i : Interrupt) : Prop := i.irqs = 0 → d.toInt < 10000

theorem toInt_succ (hd : d.toInt ≤ 10000) : (d + 1).toInt = d.toInt + 1 := by
  have hlow := BitVec.le_two_mul_toInt (x := d)
  rw [BitVec.toInt_add]
  apply Int.bmod_eq_of_le_mul_two <;> simp <;> omega

/-- Below the limit, a call leaves the count there exactly when it is calm. -/
theorem lamebusInterrupt_le_iff (hd : d.toInt ≤ 10000) :
    (∀ e, lamebusInterrupt i d = .ok e → e.toInt ≤ 10000) ↔ Calm d i := by
  unfold lamebusInterrupt Calm
  by_cases h0 : i.irqs = 0
  · have hsucc := toInt_succ hd
    rw [if_pos h0, forall_prop_of_true h0]
    constructor
    · intro h
      have := h (d + 1) rfl
      omega
    · intro hlt e he
      obtain rfl := Except.ok.inj he
      omega
  · rw [if_neg h0]
    exact iff_of_true (fun e he => (settle_ok he).1) fun h => absurd h h0

/-! ## Consecutive duds -/

/-- No other interrupts are taken while the handlers run. -/
def Interrupt.Quiet (i : Interrupt) : Prop := ∀ k d, (i.after k).meantime d = d

def Interrupt.duds (i : Interrupt) : Nat :=
  if i.irqs = 0 then 1 else (dispatch i.after lbNslots 0 0 i.softc i.irqs 0 0).2

theorem dispatch_quiet {after : Nat → Reload} (hq : ∀ k d, (after k).meantime d = d) (n slot k : Nat) (sc : Softc)
    (irqs : Word) : ∃ c ≤ n, ∀ duds dudsThisTime,
      dispatch after n slot k sc irqs duds dudsThisTime = (duds + BitVec.ofNat 32 c, dudsThisTime + c) := by
  induction n generalizing slot k sc irqs with
  | zero => exact ⟨0, Nat.le_refl 0, fun duds this => by simp [dispatch]⟩
  | succ n ih =>
    have hskip (c : Nat) (hc : c ≤ n) (h : ∀ duds this, dispatch after n (slot + 1) k sc irqs duds this =
        (duds + BitVec.ofNat 32 c, this + c)) (duds : Word) (this : Nat) :
        dispatch after n (slot + 1) k sc irqs (duds + 1) (this + 1) =
          (duds + BitVec.ofNat 32 (c + 1), this + (c + 1)) := by
      have hone : BitVec.ofNat 32 (c + 1) = 1 + BitVec.ofNat 32 c := by
        rw [Nat.add_comm, BitVec.ofNat_add]
        rfl
      rw [h, hone, BitVec.add_assoc, Nat.add_assoc, Nat.add_comm 1]
    obtain ⟨c, hc, h⟩ := ih (slot + 1) k sc irqs
    unfold dispatch
    by_cases hirq : irqs &&& mask slot = 0
    · simp only [if_pos hirq]
      exact ⟨c, by omega, h⟩
    by_cases huse : sc.lsSlotsinuse &&& mask slot = 0
    · simp only [if_neg hirq, if_pos huse]
      exact ⟨c + 1, by omega, hskip c hc h⟩
    by_cases hfunc : sc.lsIrqfuncs slot = false
    · simp only [if_neg hirq, if_neg huse, if_pos hfunc]
      exact ⟨c + 1, by omega, hskip c hc h⟩
    · obtain ⟨c, hc, h⟩ := ih (slot + 1) (k + 1) (after k).softc (after k).irqs
      simp only [if_neg hirq, if_neg huse, if_neg hfunc, hq]
      exact ⟨c, by omega, h⟩

theorem Interrupt.Quiet.counts (hq : i.Quiet) (h0 : i.irqs ≠ 0) (duds : Word) : i.duds ≤ lbNslots ∧
    dispatch i.after lbNslots 0 0 i.softc i.irqs duds 0 = (duds + BitVec.ofNat 32 i.duds, i.duds) := by
  obtain ⟨c, hc, h⟩ := dispatch_quiet hq lbNslots 0 0 i.softc i.irqs
  have hduds : i.duds = c := by
    unfold Interrupt.duds
    rw [if_neg h0, h, Nat.zero_add]
  rw [hduds, h, Nat.zero_add]
  exact ⟨hc, rfl⟩

theorem toInt_add_small {c : Nat} (h0 : 0 ≤ d.toInt) (hd : d.toInt ≤ 10000) (hc : c ≤ lbNslots) :
    (d + BitVec.ofNat 32 c).toInt = d.toInt + c := by
  unfold lbNslots at hc
  have hofNat : (BitVec.ofNat 32 c).toInt = c := by
    have hnat : (BitVec.ofNat 32 c).toNat = c := by
      rw [BitVec.toNat_ofNat]
      omega
    rw [BitVec.toInt_eq_toNat_of_lt (by omega), hnat]
  rw [BitVec.toInt_add, hofNat]
  apply Int.bmod_eq_of_le_mul_two <;> simp <;> omega

theorem lamebusInterrupt_dud (hq : i.Quiet) (hdud : 0 < i.duds) (h0 : 0 ≤ d.toInt) (hd : d.toInt ≤ 10000)
    (h : lamebusInterrupt i d = .ok e) : d.toInt < e.toInt := by
  unfold lamebusInterrupt at h
  by_cases hirq : i.irqs = 0
  · rw [if_pos hirq] at h
    obtain rfl := Except.ok.inj h
    rw [toInt_succ hd]
    omega
  · obtain ⟨hc, hcounts⟩ := hq.counts hirq d
    rw [if_neg hirq, hcounts] at h
    obtain ⟨-, rfl⟩ := settle_ok h
    rw [if_neg (by omega), toInt_add_small h0 hd hc]
    omega

theorem lamebusInterrupt_nonneg (hq : i.Quiet) (h0 : 0 ≤ d.toInt) (hd : d.toInt ≤ 10000)
    (h : lamebusInterrupt i d = .ok e) : 0 ≤ e.toInt := by
  by_cases hdud : 0 < i.duds
  · have := lamebusInterrupt_dud hq hdud h0 hd h
    omega
  · have hirq : i.irqs ≠ 0 := by
      intro hirq
      unfold Interrupt.duds at hdud
      rw [if_pos hirq] at hdud
      omega
    obtain ⟨hc, hcounts⟩ := hq.counts hirq d
    unfold lamebusInterrupt at h
    rw [if_neg hirq, hcounts] at h
    obtain ⟨-, rfl⟩ := settle_ok h
    rw [Nat.eq_zero_of_not_pos hdud, BitVec.add_zero]
    split
    · decide
    · exact h0

/-! ## Sequences of interrupts -/

def next (d : Word) (i : Interrupt) : Option Word := (lamebusInterrupt i d).toOption

def interrupts (l : List Interrupt) (d : Word) : Except LamebusPanic Word :=
  l.foldlM (fun d i => lamebusInterrupt i d) d

/-- What a call that returns leaves in the count. -/
def Bounded (d : Word) (i : Interrupt) : Prop := ∀ e, lamebusInterrupt i d = .ok e → e.toInt ≤ 10000

theorem next_eq_some : next d i = some e ↔ lamebusInterrupt i d = .ok e := by
  unfold next
  cases lamebusInterrupt i d <;> simp [Except.toOption]

theorem interrupts_cons_ok {l : List Interrupt} :
    interrupts (i :: l) d = .ok e ↔ ∃ c, lamebusInterrupt i d = .ok c ∧ interrupts l c = .ok e := by
  unfold interrupts
  rw [List.foldlM_cons]
  cases lamebusInterrupt i d <;> simp [bind, Except.bind]

theorem interrupts_append_ok {l k : List Interrupt} :
    interrupts (l ++ k) d = .ok e ↔ ∃ c, interrupts l d = .ok c ∧ interrupts k c = .ok e := by
  induction l generalizing d with
  | nil => simp [interrupts, pure, Except.pure]
  | cons i l ih =>
    simp only [List.cons_append, interrupts_cons_ok, ih]
    grind

/-- A calm sequence of quiet calls leaves a count that the next calls are calm for. -/
theorem interrupts_calm {l k : List Interrupt} (hq : ∀ i ∈ l, i.Quiet) (h0 : 0 ≤ d.toInt) (hd : d.toInt ≤ 10000)
    (hcalm : Along next Calm d (l ++ k)) (h : interrupts l d = .ok e) :
    0 ≤ e.toInt ∧ e.toInt ≤ 10000 ∧ Along next Calm e k := by
  induction l generalizing d with
  | nil =>
    obtain rfl : d = e := Except.ok.inj h
    exact ⟨h0, hd, hcalm⟩
  | cons i l ih =>
    obtain ⟨c, hc, hl⟩ := interrupts_cons_ok.1 h
    obtain ⟨hi, hcalm⟩ := hcalm
    have hnonneg := lamebusInterrupt_nonneg (hq i List.mem_cons_self) h0 hd hc
    have hle := (lamebusInterrupt_le_iff hd).2 hi c hc
    exact ih (fun j hj => hq j (List.mem_cons_of_mem _ hj)) hnonneg hle (hcalm c (next_eq_some.2 hc)) hl

theorem interrupts_duds {k : List Interrupt} (hk : ∀ i ∈ k, i.Quiet ∧ 0 < i.duds) (h0 : 0 ≤ d.toInt)
    (hd : d.toInt ≤ 10000) (hcalm : Along next Calm d k) (h : interrupts k d = .ok e) :
    d.toInt + k.length ≤ e.toInt ∧ e.toInt ≤ 10000 := by
  induction k generalizing d with
  | nil =>
    obtain rfl : d = e := Except.ok.inj h
    simpa using hd
  | cons i k ih =>
    obtain ⟨hq, hdud⟩ := hk i List.mem_cons_self
    obtain ⟨c, hc, hrest⟩ := interrupts_cons_ok.1 h
    obtain ⟨hi, hcalm⟩ := hcalm
    have hgrow := lamebusInterrupt_dud hq hdud h0 hd hc
    have hle := (lamebusInterrupt_le_iff hd).2 hi c hc
    have htail := ih (fun j hj => hk j (List.mem_cons_of_mem _ hj)) (by omega) hle (hcalm c (next_eq_some.2 hc)) hrest
    rw [List.length_cons]
    omega

/-- Over any sequence of calls, the count is in bounds whenever a call returns exactly when every
stray interrupt finds it below the limit. Then more than 10000 duds in a row end in the panic,
whatever was before. -/
theorem lamebusInterrupt_catches (l k : List Interrupt) : (Along next Bounded 0 (l ++ k) ↔ Along next Calm 0 (l ++ k)) ∧
    ((∀ i ∈ l ++ k, i.Quiet) → (∀ i ∈ k, 0 < i.duds) → 10000 < k.length → Along next Calm 0 (l ++ k) →
      interrupts (l ++ k) 0 = .error .tooManyDuds) := by
  constructor
  · refine along_iff (I := fun d => d.toInt ≤ 10000) (by decide) ?_ lamebusInterrupt_le_iff _
    intro d i e hd hcalm he
    exact (lamebusInterrupt_le_iff hd).2 hcalm e (next_eq_some.1 he)
  · intro hq hk hlen hcalm
    cases h : interrupts (l ++ k) 0 with
    | error p => rfl
    | ok e =>
      obtain ⟨c, hl, hrest⟩ := interrupts_append_ok.1 h
      obtain ⟨h0, hd, hcalm⟩ :=
        interrupts_calm (fun i hi => hq i (List.mem_append_left _ hi)) (by decide) (by decide) hcalm hl
      have hgrow :=
        interrupts_duds (fun i hi => ⟨hq i (List.mem_append_right _ hi), hk i hi⟩) h0 hd hcalm hrest
      omega

/-- An interrupt from slot 3, which has no driver. -/
def sampleDud : Interrupt := ⟨⟨0, fun _ => false⟩, 8, fun _ => ⟨⟨0, fun _ => false⟩, 0, id⟩⟩

theorem along_calm_replicate (n : Nat) (d : Word) : Along next Calm d (List.replicate n sampleDud) := by
  induction n generalizing d with
  | zero => trivial
  | succ n ih => exact ⟨fun h => absurd h (by decide), fun e _ => ih e⟩

theorem lamebusInterrupt_catches_sampleDud :
    interrupts ([] ++ List.replicate 10001 sampleDud) 0 = .error .tooManyDuds := by
  refine (lamebusInterrupt_catches [] (List.replicate 10001 sampleDud)).2 (fun i hi => ?_) (fun i hi => ?_) ?_
    (along_calm_replicate 10001 0)
  · obtain rfl := List.eq_of_mem_replicate hi
    exact fun _ _ => rfl
  · obtain rfl := List.eq_of_mem_replicate hi
    decide
  · rw [List.length_replicate]
    decide

def sampleStray : Interrupt := { sampleDud with irqs := 0 }

theorem interrupts_stray (n : Nat) (d : Word) :
    interrupts (List.replicate n sampleStray) d = .ok (d + BitVec.ofNat 32 n) := by
  induction n generalizing d with
  | zero => simp [interrupts, pure, Except.pure]
  | succ n ih =>
    have hone : d + BitVec.ofNat 32 (n + 1) = d + 1 + BitVec.ofNat 32 n := by
      rw [Nat.add_comm, BitVec.ofNat_add, BitVec.add_assoc]
      rfl
    rw [List.replicate_succ, interrupts_cons_ok, hone]
    exact ⟨d + 1, rfl, ih (d + 1)⟩

/-- The last of 10001 stray interrupts returns with a count over the limit. -/
theorem lamebusInterrupt_misses_stray :
    interrupts (List.replicate 10001 sampleStray) 0 = .ok 10001 ∧ 10000 < (10001 : Word).toInt :=
  ⟨interrupts_stray 10001 0, by decide⟩

end Os161.Dev.Lamebus
