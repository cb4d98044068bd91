import Os161.Vm.Dumbvm

/-!
# The TLB and the address space that runs

The TLB has no tags for address spaces, so what is in it belongs to the thread that ran user code
last. A thread with an address space empties the TLB whenever it is switched to, in the rest of
`mi_switch` or in `mi_threadstart`, and a thread without one leaves it as it is. `runprogram` gives
its thread a new address space and empties the TLB too.

A thread that misses the TLB traps. The trap has interrupts on until `vm_fault` turns them off, so
other threads may run between the miss and the call.
-/
namespace Os161.Vm

open Lib Kern
open Kheap (pageSize)

/-- The exception that an access to `va` raises. -/
def Tlb.access (tlb : Tlb) (va : Nat) (write : Bool) : Option FaultType :=
  match (List.finRange numTlb).find? fun i => (tlb i).Valid ∧ (tlb i).vpage = pageFrame va with
  | none => some (if write then .write else .read)
  | some i => if write = true ∧ ¬(tlb i).Dirty then some .readonly else none

/-- `vmspace` is the field `t_vmspace` of each thread, and `pending` is the fault that its trap has
yet to hand to `vm_fault`. `switching` says that the current thread has been switched to and is in
the rest of `mi_switch` or at the start of `mi_threadstart`, and `active` that its address space has
been activated since then, and since it was set. -/
structure Machine where
  tlb : Tlb
  ram : Ram
  vmspace : Nat → Option Addrspace
  pending : Nat → Option (FaultType × Nat)
  curthread : Nat
  switching : Bool
  active : Bool

inductive VmLabel where
  | switch (next : Nat)
  | resume
  | create
  | activate
  | defineRegion (vaddr sz : Nat)
  | prepareLoad
  | getppages (npages : Nat)
  | access (va : Nat) (write : Bool)
  | fault
  | exit
  deriving DecidableEq, Repr

namespace Machine

def setTlb (m : Machine) (tlb : Tlb) : Machine := { m with tlb := tlb }

def setVmspace (m : Machine) (as : Option Addrspace) : Machine :=
  { m with vmspace := Function.update m.vmspace m.curthread as }

def setPending (m : Machine) (f : Option (FaultType × Nat)) : Machine :=
  { m with pending := Function.update m.pending m.curthread f }

def setActive (m : Machine) (b : Bool) : Machine := { m with active := b }

def setRam (m : Machine) (ram : Ram) : Machine := { m with ram := ram }

/-- The call `as_activate(curthread->t_vmspace)`. -/
def activate (m : Machine) : Option Machine :=
  match asActivate m.tlb with
  | .ok (_, tlb) => some ((m.setTlb tlb).setActive true)
  | .error _ => none

/-- A step of the current thread while it has interrupts on, or the switch to another thread. User
memory is used only while the address space is active. `vm_fault` runs for address spaces below
`USERTOP`. -/
def act (m : Machine) : VmLabel → Option Machine
  | .switch next => some { m with curthread := next, switching := true, active := false }
  | .resume => none
  | .create => if m.vmspace m.curthread = none then some ((m.setVmspace (some asCreate)).setActive false) else none
  | .activate => if m.vmspace m.curthread = none then none else m.activate
  | .defineRegion vaddr sz =>
    match m.vmspace m.curthread with
    | none => none
    | some as =>
      match asDefineRegion vaddr sz as with
      | .ok (_, as) => some (m.setVmspace (some as))
      | .error _ => none
  | .prepareLoad =>
    match m.vmspace m.curthread with
    | none => none
    | some as =>
      match asPrepareLoad (m.ram, as) with
      | .ok (_, ram, as) => some ((m.setRam ram).setVmspace (some as))
      | .error _ => none
  | .getppages npages => some (m.setRam (m.ram.getppages npages).2)
  | .access va write =>
    if va < usertop ∧ m.active = true ∧ m.pending m.curthread = none then
      (m.tlb.access va write).map fun ft => m.setPending (some (ft, va))
    else none
  | .fault =>
    match m.pending m.curthread with
    | none => none
    | some (ft, va) =>
      if ∀ as ∈ m.vmspace m.curthread, as.Below then
        match vmFault (m.vmspace m.curthread) ft va m.tlb with
        | .ok (_, tlb) => some ((m.setTlb tlb).setPending none)
        | .error _ => none
      else none
  | .exit => some ((m.setVmspace none).setActive false)

def next (m : Machine) (l : VmLabel) : Option Machine :=
  if m.switching = true then
    if l = .resume then
      if m.vmspace m.curthread = none then some { m with switching := false }
      else { m with switching := false }.activate
    else none
  else m.act l

end Machine

def VmStep (m : Machine) (l : VmLabel) (m' : Machine) : Prop := m.next l = some m'

/-- No thread has an address space, and the TLB holds anything. -/
def Machine.boot (tlb : Tlb) (ram : Ram) : Machine := ⟨tlb, ram, fun _ => none, fun _ => none, 0, false, false⟩

/-! ## Entries -/

section Entries

variable {p pa : Nat}

theorem tlbInvalid_not_valid (i : Nat) : ¬(tlbInvalid i).Valid := by simp [TlbEntry.Valid, tlbInvalid]

theorem tlbEntry_valid : (tlbEntry p pa).Valid := by
  simp [TlbEntry.Valid, tlbEntry, Nat.and_or_distrib_right, tlbloValid]

theorem tlbEntry_dirty : (tlbEntry p pa).Dirty := by
  simp [TlbEntry.Dirty, tlbEntry, Nat.and_or_distrib_right, tlbloDirty, tlbloValid]

theorem tlbEntry_vpage (h : pageSize ∣ p) : (tlbEntry p pa).vpage = p := pageFrame_eq_self.2 h

theorem tlbEntry_ppage (h : pageSize ∣ pa) : (tlbEntry p pa).ppage = pa := by
  have hflags : (pa ||| tlbloDirty ||| tlbloValid) / 2 ^ 12 = pa / 2 ^ 12 := by
    rw [Nat.or_div_two_pow, Nat.or_div_two_pow]
    exact (Nat.or_zero _).trans (Nat.or_zero _)
  calc (tlbEntry p pa).ppage = (pa ||| tlbloDirty ||| tlbloValid) / 2 ^ 12 * pageSize := rfl
    _ = pageFrame pa := by rw [hflags]; rfl
    _ = pa := pageFrame_eq_self.2 h

end Entries

/-! ## The invariant -/

/-- Every slot is empty or holds a page of the address space, and the page of a fault is not there.
-/
structure Tlb.Agrees (tlb : Tlb) (as : Addrspace) (pending : Option (FaultType × Nat)) : Prop where
  slot : ∀ i, tlb i = tlbInvalid i ∨
    ∃ p pa, p < usertop ∧ pageSize ∣ p ∧ pageSize ∣ pa ∧ as.SetUp ∧ as.frameOf p = some pa ∧ tlb i = tlbEntry p pa
  unique : ∀ i j, (tlb i).ehi = (tlb j).ehi → i = j
  missed : ∀ f ∈ pending, ∀ i, (tlb i).Valid → (tlb i).ehi ≠ pageFrame f.2

structure Machine.Inv (m : Machine) : Prop where
  pending : ∀ t, ∀ f ∈ m.pending t, (f.1 = .read ∨ f.1 = .write) ∧ f.2 < usertop
  active : m.active = true → ∃ as, m.vmspace m.curthread = some as ∧ m.tlb.Agrees as (m.pending m.curthread)

variable {ft : FaultType}

section Agrees

variable {tlb : Tlb} {as as' : Addrspace} {pending : Option (FaultType × Nat)} {va p pa : Nat}

theorem tlbInvalid_ehi (i : Nat) : usertop ≤ (tlbInvalid i).ehi := by
  simp only [tlbInvalid, usertop, mipsKseg0]
  omega

theorem agrees_flushed : Tlb.Agrees (fun i => tlbInvalid i) as pending := by
  refine ⟨fun i => .inl rfl, fun i j h => ?_, fun f _ i hi => absurd hi (tlbInvalid_not_valid i)⟩
  simp only [tlbInvalid] at h
  omega

theorem Tlb.Agrees.entry (A : tlb.Agrees as pending) {i : Fin numTlb} (h : (tlb i).Valid) :
    ∃ p pa, p < usertop ∧ pageSize ∣ p ∧ pageSize ∣ pa ∧ as.SetUp ∧ as.frameOf p = some pa ∧ tlb i = tlbEntry p pa := by
  obtain hempty | hentry := A.slot i
  · rw [hempty] at h
    exact absurd h (tlbInvalid_not_valid i)
  · exact hentry

theorem Tlb.Agrees.empty (A : tlb.Agrees as pending) {i : Fin numTlb} (h : ¬(tlb i).Valid) : tlb i = tlbInvalid i := by
  obtain hempty | ⟨p, pa, -, -, -, -, -, hentry⟩ := A.slot i
  · exact hempty
  · rw [hentry] at h
    exact absurd tlbEntry_valid h

/-- As long as the address space is not set up the TLB is empty, and then it agrees with any other
one. -/
theorem Tlb.Agrees.of_not_setUp (A : tlb.Agrees as pending) (h : ¬as.SetUp) : tlb.Agrees as' pending := by
  have hempty (i : Fin numTlb) : ¬(tlb i).Valid := by
    intro hvalid
    obtain ⟨p, pa, -, -, -, hset, -⟩ := A.entry hvalid
    exact h hset
  exact ⟨fun i => .inl (A.empty (hempty i)), A.unique, A.missed⟩

theorem Tlb.Agrees.fill {i : Fin numTlb} {f : FaultType × Nat} (A : tlb.Agrees as (some f)) (hset : as.SetUp)
    (hva : f.2 < usertop) (hpa : as.frameOf (pageFrame f.2) = some pa) (haligned : pageSize ∣ pa) :
    Tlb.Agrees (Function.update tlb i (tlbEntry (pageFrame f.2) pa)) as none := by
  have hlow : pageFrame f.2 < usertop := Nat.lt_of_le_of_lt (Nat.div_mul_le_self _ _) hva
  have hnew (j : Fin numTlb) : (tlb j).ehi ≠ pageFrame f.2 := by
    by_cases hvalid : (tlb j).Valid
    · exact A.missed f rfl j hvalid
    · have hhigh := tlbInvalid_ehi j
      rw [A.empty hvalid]
      omega
  refine ⟨fun j => ?_, fun j k h => ?_, fun _ h => nomatch h⟩
  · by_cases hj : j = i
    · subst hj
      exact .inr ⟨_, pa, hlow, pageSize_dvd_pageFrame, haligned, hset, hpa, Function.update_self ..⟩
    · rw [Function.update_of_ne hj]
      exact A.slot j
  · by_cases hj : j = i <;> by_cases hk : k = i
    · exact hj.trans hk.symm
    · subst hj
      rw [Function.update_self, Function.update_of_ne hk] at h
      exact absurd h.symm (hnew k)
    · subst hk
      rw [Function.update_self, Function.update_of_ne hj] at h
      exact absurd h (hnew j)
    · rw [Function.update_of_ne hj, Function.update_of_ne hk] at h
      exact A.unique j k h

theorem Tlb.Agrees.access (A : tlb.Agrees as pending) {write : Bool}
    (h : tlb.access va write = some ft) : (ft = .read ∨ ft = .write) ∧ tlb.Agrees as (some (ft, va)) := by
  simp only [Tlb.access] at h
  split at h
  · next hnone =>
    refine ⟨?_, A.slot, A.unique, fun f hf i hvalid => ?_⟩
    · cases write <;> simp_all
    · cases hf
      obtain ⟨p, pa, -, hp, -, -, -, hentry⟩ := A.entry hvalid
      have hmiss := List.find?_eq_none.1 hnone i (List.mem_finRange i)
      simp only [hvalid, true_and, decide_eq_true_eq] at hmiss
      rw [hentry, tlbEntry_vpage hp] at hmiss
      rwa [hentry]
  · next i hsome =>
    have hhit := List.find?_some hsome
    simp only [decide_eq_true_eq] at hhit
    obtain ⟨p, pa, -, -, -, -, -, hentry⟩ := A.entry hhit.1
    rw [hentry] at h
    simp [tlbEntry_dirty] at h

end Agrees

/-! ## Steps -/

variable {r : Except Errno Unit}

section Steps

variable {m m' : Machine} {l : VmLabel}

theorem asDefineRegion_of_setUp {as as' : Addrspace} {vaddr sz : Nat} (hset : as.SetUp)
    (h : asDefineRegion vaddr sz as = .ok (r, as')) : as' = as := by
  have hbase : as.vbase1 ≠ 0 ∧ as.vbase2 ≠ 0 := by
    simp only [Addrspace.SetUp, Addrspace.asserts, List.forall_mem_cons, decide_eq_true_eq] at hset
    grind
  simp only [asDefineRegion, Prog.bind_apply, Prog.get, hbase.1, hbase.2, if_false, Prog.raise] at h
  cases h
  rfl

theorem asPrepareLoad_not_setUp {as as' : Addrspace} {ram ram' : Ram}
    (h : asPrepareLoad (ram, as) = .ok (r, ram', as')) : ¬as.SetUp := by
  intro hset
  have hbase : as.pbase1 ≠ 0 := by
    simp only [Addrspace.SetUp, Addrspace.asserts, List.forall_mem_cons, decide_eq_true_eq] at hset
    grind
  have hstop : ¬∀ c ∈ [(decide (as.pbase1 = 0), VmPanic.loadPbase1), (decide (as.pbase2 = 0), .loadPbase2),
      (decide (as.stackpbase = 0), .loadStackpbase)], c.1 = true := by
    intro hall
    exact hbase (of_decide_eq_true (hall _ List.mem_cons_self))
  obtain ⟨panic, hpanic⟩ := checkAll_stops (s := (ram, as)) hstop
  simp only [asPrepareLoad, Prog.bind_apply, Prog.get, hpanic] at h
  cases h

theorem Machine.Inv.of_inactive (I : m.Inv) (hp : m'.pending = m.pending) (h : m'.active = false) : m'.Inv :=
  ⟨hp ▸ I.pending, fun hactive => absurd (h.symm.trans hactive) Bool.false_ne_true⟩

theorem Machine.Inv.activate (I : m.Inv) (hp : m.vmspace m.curthread ≠ none) (h : m.activate = some m') : m'.Inv := by
  obtain ⟨as, has⟩ := Option.ne_none_iff_exists'.1 hp
  cases h
  exact ⟨I.pending, fun _ => ⟨as, has, agrees_flushed⟩⟩

/-- The address space of the current thread changes, and the TLB agrees with the new one if it is
active. -/
theorem Machine.Inv.setVmspace {as as' : Addrspace} (I : m.Inv) (has : m.vmspace m.curthread = some as)
    (h : m.tlb.Agrees as (m.pending m.curthread) → m.tlb.Agrees as' (m.pending m.curthread)) :
    (m.setVmspace (some as')).Inv := by
  refine ⟨I.pending, fun hactive => ?_⟩
  obtain ⟨as₀, has₀, A⟩ := I.active hactive
  obtain rfl : as = as₀ := Option.some.inj (has.symm.trans has₀)
  exact ⟨as', Function.update_self .., h A⟩

theorem vmFault_eq_enterPage {vmspace : Option Addrspace} {va : Nat}
    (h : ft = .read ∨ ft = .write) : vmFault vmspace ft va = enterPage vmspace (pageFrame va) := by
  obtain rfl | rfl := h <;> rfl

theorem Machine.Inv.fault {va : Nat} {tlb : Tlb} (I : m.Inv)
    (hpending : m.pending m.curthread = some (ft, va)) (hbelow : ∀ as ∈ m.vmspace m.curthread, as.Below)
    (h : vmFault (m.vmspace m.curthread) ft va m.tlb = .ok (r, tlb)) : ((m.setTlb tlb).setPending none).Inv := by
  obtain ⟨hft, hva⟩ := I.pending _ _ hpending
  rw [vmFault_eq_enterPage hft] at h
  refine ⟨fun t f hf => ?_, fun hactive => ?_⟩
  · by_cases ht : t = m.curthread
    · subst ht
      simp [Machine.setPending, Machine.setTlb] at hf
    · exact I.pending t f (by simpa [Machine.setPending, Machine.setTlb, ht] using hf)
  · obtain ⟨as, has, A⟩ := I.active hactive
    refine ⟨as, has, ?_⟩
    have hnone : ((m.setTlb tlb).setPending none).pending m.curthread = none := Function.update_self ..
    change Tlb.Agrees tlb as (((m.setTlb tlb).setPending none).pending m.curthread)
    rw [hnone]
    rw [hpending] at A
    rw [has] at h
    by_cases hset : as.SetUp
    · rw [enterPage_of_setUp hset pageSize_dvd_pageFrame] at h
      split at h
      · next pa i hpa hi =>
        cases h
        have hframe : as.frameOf (pageFrame va) = some pa :=
          (Addrspace.paddr_eq_frameOf (hbelow as has)).symm.trans hpa
        exact A.fill hset hva hframe (hset.dvd_paddr pageSize_dvd_pageFrame hpa)
      · cases h
        exact ⟨A.slot, A.unique, fun f hf => nomatch hf⟩
    · obtain ⟨panic, hstop⟩ := enterPage_stops hset
      exact nomatch hstop.symm.trans h

theorem Machine.Inv.next (I : m.Inv) (h : VmStep m l m') : m'.Inv := by
  simp only [VmStep, Machine.next] at h
  split at h
  · split at h
    · split at h
      · cases h
        exact ⟨I.pending, I.active⟩
      · next has => exact Machine.Inv.activate (m := { m with switching := false }) ⟨I.pending, I.active⟩ has h
    · exact nomatch h
  · cases l with
    | switch t | exit =>
      cases h
      exact I.of_inactive rfl rfl
    | resume => exact nomatch h
    | create =>
      simp only [Machine.act, Option.ite_none_right_eq_some] at h
      cases h.2
      exact I.of_inactive rfl rfl
    | activate =>
      simp only [Machine.act] at h
      split at h
      · exact nomatch h
      · next has => exact I.activate has h
    | defineRegion vaddr sz =>
      simp only [Machine.act] at h
      split at h
      · exact nomatch h
      · next as has =>
        split at h
        · next r as' hdef =>
          cases h
          refine I.setVmspace has fun A => ?_
          by_cases hset : as.SetUp
          · rwa [asDefineRegion_of_setUp hset hdef]
          · exact A.of_not_setUp hset
        · exact nomatch h
    | prepareLoad =>
      simp only [Machine.act] at h
      split at h
      · exact nomatch h
      · next as has =>
        split at h
        · next ram as' hload =>
          cases h
          have I' : (m.setRam ram).Inv := ⟨I.pending, I.active⟩
          exact I'.setVmspace has fun A => A.of_not_setUp (asPrepareLoad_not_setUp hload)
        · exact nomatch h
    | getppages npages =>
      cases h
      exact ⟨I.pending, I.active⟩
    | access va write =>
      simp only [Machine.act, Option.ite_none_right_eq_some] at h
      obtain ⟨⟨hva, hactive, -⟩, h⟩ := h
      obtain ⟨ft, hft, rfl⟩ := Option.map_eq_some_iff.1 h
      obtain ⟨as, has, A⟩ := I.active hactive
      obtain ⟨hkind, A'⟩ := A.access hft
      refine ⟨fun t f hf => ?_, fun _ => ⟨as, has, ?_⟩⟩
      · by_cases ht : t = m.curthread
        · subst ht
          obtain rfl : (ft, va) = f := by simpa [Machine.setPending] using hf
          exact ⟨hkind, hva⟩
        · exact I.pending t f (by simpa [Machine.setPending, ht] using hf)
      · have hpending : (m.setPending (some (ft, va))).pending m.curthread = some (ft, va) :=
          Function.update_self ..
        change Tlb.Agrees m.tlb as ((m.setPending (some (ft, va))).pending m.curthread)
        rwa [hpending]
    | fault =>
      simp only [Machine.act] at h
      split at h
      · exact nomatch h
      · next ft va hpending =>
        simp only [Option.ite_none_right_eq_some] at h
        obtain ⟨hbelow, h⟩ := h
        split at h
        · next r tlb hfault =>
          cases h
          exact I.fault hpending hbelow hfault
        · exact nomatch h

end Steps

/-! ## Runs -/

section Runs

variable {tlb : Tlb} {ram : Ram} {m : Machine} {tr : List VmLabel} {as : Addrspace}

theorem inv_of_run (h : Run VmStep (Machine.boot tlb ram) tr m) : m.Inv :=
  h.invariant ⟨nofun, nofun⟩ Machine.Inv.next

theorem Region.has_pageFrame {r : Region} {va : Nat} (h : pageSize ∣ r.vbase) : r.Has (pageFrame va) ↔ r.Has va := by
  simp only [Region.Has, pageFrame, pageSize] at h ⊢
  omega

theorem Addrspace.frameOf_isSome {va : Nat} (h : as.SetUp) :
    (as.frameOf (pageFrame va)).isSome ↔ ∃ r ∈ as.regions, r.Has va := by
  obtain ⟨hv1, -, hv2, -, -⟩ := h.aligned
  have haligned : ∀ r ∈ as.regions, pageSize ∣ r.vbase := by
    simp [Addrspace.regions, hv1, hv2, pageSize_dvd_stackbase]
  simp only [Addrspace.frameOf, Option.isSome_map, List.find?_isSome, decide_eq_true_eq]
  exact exists_congr fun r => and_congr_right fun hr => Region.has_pageFrame (haligned r hr)

theorem vmFault_spec {va : Nat} (hft : ft = .read ∨ ft = .write) (hset : as.SetUp)
    (hbelow : as.Below) : ∃ r tlb', vmFault (some as) ft va tlb = .ok (r, tlb') ∧
      (r = .ok () ↔ (∃ R ∈ as.regions, R.Has va) ∧ ∃ i, ¬(tlb i).Valid) ∧
      (r = .ok () → ∃ i, ¬(tlb i).Valid ∧ (tlb' i).Valid ∧ (tlb' i).vpage = pageFrame va ∧
        ∀ j, j ≠ i → tlb' j = tlb j) ∧ (r ≠ .ok () → tlb' = tlb) := by
  rw [vmFault_eq_enterPage hft, enterPage_of_setUp hset pageSize_dvd_pageFrame, ← Addrspace.frameOf_isSome hset,
    ← Addrspace.paddr_eq_frameOf hbelow]
  cases hpa : as.paddr (pageFrame va) with
  | none => exact ⟨_, _, rfl, by simp⟩
  | some pa =>
    cases hslot : tlb.firstInvalid with
    | none => exact ⟨_, _, rfl, by simp [Tlb.firstInvalid_eq_none.1 hslot]⟩
    | some i =>
      have hempty := Tlb.firstInvalid_eq_some hslot
      refine ⟨_, _, rfl, by simpa using ⟨i, hempty⟩, fun _ => ⟨i, hempty, ?_, ?_, ?_⟩, fun h => absurd rfl h⟩
      · rw [Function.update_self]
        exact tlbEntry_valid
      · rw [Function.update_self]
        exact tlbEntry_vpage pageSize_dvd_pageFrame
      · intro j hj
        exact Function.update_of_ne hj ..

theorem tlb_agrees (h : Run VmStep (Machine.boot tlb ram) tr m) (hactive : m.active = true)
    (has : m.vmspace m.curthread = some as) :
    (∀ i, (m.tlb i).Valid → as.frameOf (m.tlb i).vpage = some (m.tlb i).ppage ∧ (m.tlb i).Dirty) ∧
    (∀ va write, m.tlb.access va write ≠ some .readonly) ∧ (∀ f ∈ m.pending m.curthread, f.1 ≠ .readonly) ∧
    (∀ i j, (m.tlb i).vpage = (m.tlb j).vpage → i = j) ∧ (as.SetUp → as.Below → ∀ ft va, ft = .read ∨ ft = .write →
      ∃ r tlb', vmFault (some as) ft va m.tlb = .ok (r, tlb') ∧
        (r = .ok () ↔ (∃ R ∈ as.regions, R.Has va) ∧ ∃ i, ¬(m.tlb i).Valid) ∧
        (r = .ok () → ∃ i, ¬(m.tlb i).Valid ∧ (tlb' i).Valid ∧ (tlb' i).vpage = pageFrame va ∧
          ∀ j, j ≠ i → tlb' j = m.tlb j) ∧ (r ≠ .ok () → tlb' = m.tlb)) := by
  have I := inv_of_run h
  obtain ⟨as', has', A⟩ := I.active hactive
  obtain rfl : as' = as := Option.some.inj (has'.symm.trans has)
  refine ⟨fun i hvalid => ?_, fun va write hmod => ?_, fun f hf => ?_, fun i j hij => ?_, ?_⟩
  · obtain ⟨p, pa, -, hp, hpa, -, hframe, hentry⟩ := A.entry hvalid
    rw [hentry, tlbEntry_vpage hp, tlbEntry_ppage hpa]
    exact ⟨hframe, tlbEntry_dirty⟩
  · exact absurd (A.access hmod).1 (by simp)
  · intro hmod
    exact absurd (I.pending _ f hf).1 (by simp [hmod])
  · have haligned (k : Fin numTlb) : (m.tlb k).vpage = (m.tlb k).ehi := by
      apply pageFrame_eq_self.2
      obtain hempty | ⟨p, pa, -, hp, -, -, -, hentry⟩ := A.slot k
      · rw [hempty]
        exact Nat.dvd_mul_left _ _
      · rw [hentry]
        exact hp
    exact A.unique i j (by rwa [haligned, haligned] at hij)
  · intro hset hbelow ft va hft
    exact vmFault_spec hft hset hbelow

end Runs

def Machine.play (m : Machine) (l : VmLabel) : Option (VmLabel × Machine) := (m.next l).map (l, ·)

theorem Machine.play_sound {m : Machine} {l l' : VmLabel} {m' : Machine} (h : m.play l = some (l', m')) :
    VmStep m l' m' := by
  obtain ⟨t, ht, heq⟩ := Option.map_eq_some_iff.1 h
  cases heq
  exact ht

/-- A program is loaded and touches a page, loses the processor to a thread without an address
space, and touches another page. At the start the TLB is full of other entries. -/
theorem tlb_agrees_sample : ∃ tr m as, Run VmStep (Machine.boot (fun _ => tlbEntry 0x401000 0x2000) sampleRam) tr m ∧
    m.active = true ∧ m.vmspace m.curthread = some as ∧ as.SetUp ∧ as.Below ∧
    ∃ i, (m.tlb i).Valid ∧ as.frameOf (m.tlb i).vpage = some (m.tlb i).ppage := by
  have hplay : replays Machine.play
      [.create, .activate, .defineRegion 0x400000 0x2000, .defineRegion 0x10000000 0x1000, .prepareLoad,
        .access 0x401004 false, .fault, .switch 1, .resume, .switch 0, .resume, .access 0x10000004 true, .fault]
      (Machine.boot (fun _ => tlbEntry 0x401000 0x2000) sampleRam) fun _ m =>
        m.active = true ∧ m.vmspace m.curthread =
          some ⟨0x400000, 0x20000, 2, 0x10000000, 0x22000, 1, 0x23000⟩ ∧ ∃ i, (m.tlb i).Valid := by
    decide +kernel
  obtain ⟨tr, m, hrun, hm⟩ := Run.of_replays @Machine.play_sound hplay
  obtain ⟨hactive, has, i, hvalid⟩ := of_decide_eq_true hm
  have hagrees := tlb_agrees hrun hactive has
  exact ⟨tr, m, _, hrun, hactive, has, by decide, by decide, i, hvalid, (hagrees.1 i hvalid).1⟩

end Os161.Vm
