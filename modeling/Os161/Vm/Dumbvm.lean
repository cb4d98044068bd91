import Mathlib.Data.List.FinRange
import Mathlib.Logic.Function.Basic
import Os161.Kern.Errno
import Os161.Vm.Ram

/-!
# Address spaces of two regions and a stack

`kern/arch/mips/mips/dumbvm.c`. An address space is two regions of pages and a stack, each of them
on consecutive pages of physical memory. `vm_fault` enters the page of a fault into a slot of the
TLB that is not in use, and `as_activate` empties the TLB.

Addresses and numbers of pages are natural numbers below `2 ^ 32`. An assertion and a panic are
stops of the machine.
-/
namespace Os161.Vm

open Lib Kern
open Kheap (pageSize)

/-- The value of `a & PAGE_FRAME`. -/
def pageFrame (a : Nat) : Nat := a / pageSize * pageSize

def usertop : Nat := mipsKseg0
def userstack : Nat := usertop
def dumbvmStackpages : Nat := 12

structure Addrspace where
  vbase1 : Nat
  pbase1 : Nat
  npages1 : Nat
  vbase2 : Nat
  pbase2 : Nat
  npages2 : Nat
  stackpbase : Nat
  deriving DecidableEq, Repr

inductive VmPanic where
  | readonly
  | vbase1 | pbase1 | npages1 | vbase2 | pbase2 | npages2 | stackpbase
  | vbase1Frame | pbase1Frame | vbase2Frame | pbase2Frame | stackpbaseFrame
  | paddrFrame
  | loadPbase1 | loadPbase2 | loadStackpbase
  | noStack
  deriving DecidableEq, Repr

inductive FaultType where
  | readonly | read | write | other
  deriving DecidableEq, Repr

/-! ## The TLB -/

def numTlb : Nat := 64

structure TlbEntry where
  ehi : Nat
  elo : Nat
  deriving DecidableEq, Repr

def tlbloDirty : Nat := 0x400
def tlbloValid : Nat := 0x200

namespace TlbEntry

def Valid (e : TlbEntry) : Prop := e.elo &&& tlbloValid ≠ 0

def Dirty (e : TlbEntry) : Prop := e.elo &&& tlbloDirty ≠ 0

instance (e : TlbEntry) : Decidable e.Valid := inferInstanceAs (Decidable (_ ≠ _))

instance (e : TlbEntry) : Decidable e.Dirty := inferInstanceAs (Decidable (_ ≠ _))

def vpage (e : TlbEntry) : Nat := pageFrame e.ehi

def ppage (e : TlbEntry) : Nat := pageFrame e.elo

end TlbEntry

abbrev Tlb := Fin numTlb → TlbEntry

/-- Slot `i` after `TLB_Write(TLBHI_INVALID(i), TLBLO_INVALID(), i)`. -/
def tlbInvalid (i : Nat) : TlbEntry := ⟨(0x80000 + i) * 2 ^ 12, 0⟩

/-- An entry that maps the page `va` to the frame `pa`. -/
def tlbEntry (va pa : Nat) : TlbEntry := ⟨va, pa ||| tlbloDirty ||| tlbloValid⟩

/-- The slot at which the loop of `vm_fault` stops. -/
def Tlb.firstInvalid (tlb : Tlb) : Option (Fin numTlb) :=
  (List.finRange numTlb).find? fun i => ¬(tlb i).Valid

/-! ## Functions on address spaces -/

def asCreate : Addrspace := ⟨0, 0, 0, 0, 0, 0, 0⟩

def asActivate : Prog VmPanic Errno Tlb Unit := Prog.modify fun _ i => tlbInvalid i

/-- A number of assertions, one after the other. -/
def checkAll {σ : Type} : List (Bool × VmPanic) → Prog VmPanic Errno σ Unit
  | [] => pure ()
  | (c, p) :: rest => do
    Prog.check (c = true) p
    checkAll rest

/-- The assertions of `vm_fault` that the address space has been set up properly. -/
def Addrspace.asserts (as : Addrspace) : List (Bool × VmPanic) :=
  [(as.vbase1 ≠ 0, .vbase1), (as.pbase1 ≠ 0, .pbase1), (as.npages1 ≠ 0, .npages1),
    (as.vbase2 ≠ 0, .vbase2), (as.pbase2 ≠ 0, .pbase2), (as.npages2 ≠ 0, .npages2),
    (as.stackpbase ≠ 0, .stackpbase), (pageFrame as.vbase1 = as.vbase1, .vbase1Frame),
    (pageFrame as.pbase1 = as.pbase1, .pbase1Frame), (pageFrame as.vbase2 = as.vbase2, .vbase2Frame),
    (pageFrame as.pbase2 = as.pbase2, .pbase2Frame), (pageFrame as.stackpbase = as.stackpbase, .stackpbaseFrame)]

def stackbase : Nat := userstack - dumbvmStackpages * pageSize

/-- The physical address that `vm_fault` finds for a page. -/
def Addrspace.paddr (as : Addrspace) (faultaddress : Nat) : Option Nat :=
  let vtop1 := wrap (as.vbase1 + wrap (as.npages1 * pageSize))
  let vtop2 := wrap (as.vbase2 + wrap (as.npages2 * pageSize))
  if faultaddress ≥ as.vbase1 ∧ faultaddress < vtop1 then some (wrap (faultaddress - as.vbase1 + as.pbase1))
  else if faultaddress ≥ as.vbase2 ∧ faultaddress < vtop2 then some (wrap (faultaddress - as.vbase2 + as.pbase2))
  else if faultaddress ≥ stackbase ∧ faultaddress < userstack then
    some (wrap (faultaddress - stackbase + as.stackpbase))
  else none

/-- The loop of `vm_fault`. -/
def tlbFill (faultaddress paddr : Nat) : Prog VmPanic Errno Tlb Unit := do
  let tlb ← Prog.get
  match tlb.firstInvalid with
  | none => Prog.raise .efault
  | some i => Prog.modify fun tlb => Function.update tlb i (tlbEntry faultaddress paddr)

/-- The rest of `vm_fault`, once the type of the fault has been looked at. -/
def enterPage (vmspace : Option Addrspace) (faultaddress : Nat) : Prog VmPanic Errno Tlb Unit :=
  match vmspace with
  | none => Prog.raise .efault
  | some as => do
    checkAll as.asserts
    match as.paddr faultaddress with
    | none => Prog.raise .efault
    | some paddr =>
      Prog.check (pageFrame paddr = paddr) .paddrFrame
      tlbFill faultaddress paddr

/-- The argument `vmspace` is `curthread->t_vmspace`. -/
def vmFault (vmspace : Option Addrspace) (faulttype : FaultType) (faultaddress : Nat) :
    Prog VmPanic Errno Tlb Unit :=
  match faulttype with
  | .readonly => Prog.stop .readonly
  | .read => enterPage vmspace (pageFrame faultaddress)
  | .write => enterPage vmspace (pageFrame faultaddress)
  | .other => Prog.raise .einval

def asDefineRegion (vaddr sz : Nat) : Prog VmPanic Errno Addrspace Unit := do
  let sz := wrap (sz + vaddr % pageSize)
  let vaddr := pageFrame vaddr
  let sz := pageFrame (wrap (sz + pageSize - 1))
  let npages := sz / pageSize
  let as ← Prog.get
  if as.vbase1 = 0 then
    Prog.modify fun as => { as with vbase1 := vaddr, npages1 := npages }
  else if as.vbase2 = 0 then
    Prog.modify fun as => { as with vbase2 := vaddr, npages2 := npages }
  else Prog.raise .eunimp

/-- Memory from `getppages`, which is 0 if there is none. -/
def preparePages (npages : Nat) (set : Nat → Addrspace → Addrspace) : Prog VmPanic Errno (Ram × Addrspace) Unit := do
  let (ram, _) ← Prog.get
  let (pa, ram) := ram.getppages npages
  Prog.modify fun s => (ram, set pa s.2)
  if pa = 0 then Prog.raise .enomem else pure ()

def asPrepareLoad : Prog VmPanic Errno (Ram × Addrspace) Unit := do
  let (_, as) ← Prog.get
  checkAll [(as.pbase1 = 0, .loadPbase1), (as.pbase2 = 0, .loadPbase2), (as.stackpbase = 0, .loadStackpbase)]
  preparePages as.npages1 fun pa as => { as with pbase1 := pa }
  preparePages as.npages2 fun pa as => { as with pbase2 := pa }
  preparePages dumbvmStackpages fun pa as => { as with stackpbase := pa }

/-- The result is the initial stack pointer. -/
def asDefineStack : Prog VmPanic Errno Addrspace Nat := do
  let as ← Prog.get
  Prog.check (as.stackpbase ≠ 0) .noStack
  pure userstack

/-! ## What an address space maps -/

structure Region where
  vbase : Nat
  npages : Nat
  pbase : Nat

def Region.Has (r : Region) (p : Nat) : Prop := r.vbase ≤ p ∧ p < r.vbase + r.npages * pageSize

instance (r : Region) (p : Nat) : Decidable (r.Has p) := inferInstanceAs (Decidable (_ ∧ _))

namespace Addrspace

def regions (as : Addrspace) : List Region :=
  [⟨as.vbase1, as.npages1, as.pbase1⟩, ⟨as.vbase2, as.npages2, as.pbase2⟩,
    ⟨stackbase, dumbvmStackpages, as.stackpbase⟩]

/-- The frame of a page, in the first region that has it. -/
def frameOf (as : Addrspace) (p : Nat) : Option Nat :=
  (as.regions.find? fun r => r.Has p).map fun r => wrap (p - r.vbase + r.pbase)

/-- The assertions of `vm_fault` hold. -/
def SetUp (as : Addrspace) : Prop := ∀ c ∈ as.asserts, c.1 = true

/-- The two regions end below the kernel's part of the addresses. -/
def Below (as : Addrspace) : Prop :=
  as.vbase1 + as.npages1 * pageSize ≤ usertop ∧ as.vbase2 + as.npages2 * pageSize ≤ usertop

instance (as : Addrspace) : Decidable as.SetUp := inferInstanceAs (Decidable (∀ _ ∈ _, _))

instance (as : Addrspace) : Decidable as.Below := inferInstanceAs (Decidable (_ ∧ _))

end Addrspace

section Spec

variable {as : Addrspace} {tlb : Tlb} {va p : Nat}

section

variable {σ : Type} {cs : List (Bool × VmPanic)} {s : σ} (h : ∀ c ∈ cs, c.1 = true)
include h

theorem checkAll_apply : checkAll cs s = .ok (.ok (), s) := by
  induction cs with
  | nil => rfl
  | cons c cs ih =>
    obtain ⟨b, p⟩ := c
    obtain rfl : b = true := h _ List.mem_cons_self
    exact ih fun c hc => h c (List.mem_cons_of_mem _ hc)

theorem sat_checkAll {K : VmPanic → Prop}
    {Q : Except Errno Unit → σ → Prop} : Prog.Sat K (checkAll cs) s Q ↔ Q (.ok ()) s := by
  unfold Prog.Sat
  rw [checkAll_apply h]

end

theorem checkAll_stops {σ : Type} {cs : List (Bool × VmPanic)} {s : σ} (h : ¬ ∀ c ∈ cs, c.1 = true) :
    ∃ p, checkAll cs s = .error p := by
  induction cs with
  | nil => exact absurd (fun _ hc => nomatch hc) h
  | cons c cs ih =>
    obtain ⟨b, p⟩ := c
    cases b with
    | false => exact ⟨p, rfl⟩
    | true => exact ih fun hall => h (List.forall_mem_cons.2 ⟨rfl, hall⟩)

theorem Addrspace.paddr_eq_frameOf (h : as.Below) : as.paddr p = as.frameOf p := by
  obtain ⟨h1, h2⟩ := h
  have htop1 : wrap (as.vbase1 + wrap (as.npages1 * pageSize)) = as.vbase1 + as.npages1 * pageSize := by
    simp only [wrap, usertop, mipsKseg0] at h1 ⊢
    omega
  have htop2 : wrap (as.vbase2 + wrap (as.npages2 * pageSize)) = as.vbase2 + as.npages2 * pageSize := by
    simp only [wrap, usertop, mipsKseg0] at h2 ⊢
    omega
  have hstack : userstack = stackbase + dumbvmStackpages * pageSize := rfl
  simp only [Addrspace.paddr, htop1, htop2, hstack, Addrspace.frameOf, Addrspace.regions, Region.Has, ge_iff_le]
  grind

theorem pageFrame_eq_self : pageFrame p = p ↔ pageSize ∣ p := by
  simp only [pageFrame, pageSize]
  omega

theorem pageSize_dvd_pageFrame : pageSize ∣ pageFrame p := Nat.dvd_mul_left _ _

theorem pageSize_dvd_stackbase : pageSize ∣ stackbase := by decide

theorem Addrspace.SetUp.aligned (h : as.SetUp) :
    pageSize ∣ as.vbase1 ∧ pageSize ∣ as.pbase1 ∧ pageSize ∣ as.vbase2 ∧ pageSize ∣ as.pbase2 ∧
      pageSize ∣ as.stackpbase := by
  simp only [Addrspace.SetUp, Addrspace.asserts, List.forall_mem_cons, decide_eq_true_eq, pageFrame_eq_self] at h
  grind

theorem pageSize_dvd_offset {vbase pbase : Nat} (hp : pageSize ∣ p) (hv : pageSize ∣ vbase) (hb : pageSize ∣ pbase) :
    pageSize ∣ wrap (p - vbase + pbase) := by
  have hword : pageSize ∣ 2 ^ 32 := by decide
  exact (Nat.dvd_mod_iff hword).2 (Nat.dvd_add (Nat.dvd_sub hp hv) hb)

/-- The last assertion of `vm_fault` holds if the others do. -/
theorem Addrspace.SetUp.dvd_paddr {pa : Nat} (h : as.SetUp) (hp : pageSize ∣ p) (hpa : as.paddr p = some pa) :
    pageSize ∣ pa := by
  obtain ⟨hv1, hp1, hv2, hp2, hps⟩ := h.aligned
  simp only [Addrspace.paddr] at hpa
  grind [pageSize_dvd_offset, pageSize_dvd_stackbase]

theorem tlbFill_apply {pa : Nat} : tlbFill p pa tlb = match tlb.firstInvalid with
    | some i => .ok (.ok (), Function.update tlb i (tlbEntry p pa))
    | none => .ok (.error .efault, tlb) := by
  cases h : tlb.firstInvalid <;> simp only [tlbFill, Prog.bind_apply, Prog.get, h] <;> rfl

theorem enterPage_of_setUp (h : as.SetUp) (hp : pageSize ∣ p) :
    enterPage (some as) p tlb = match as.paddr p, tlb.firstInvalid with
      | some pa, some i => .ok (.ok (), Function.update tlb i (tlbEntry p pa))
      | _, _ => .ok (.error .efault, tlb) := by
  simp only [enterPage, Prog.bind_apply, checkAll_apply h]
  cases hpa : as.paddr p with
  | none => rfl
  | some pa =>
    have hcheck : Prog.check (pageFrame pa = pa) .paddrFrame = (pure () : Prog VmPanic Errno Tlb Unit) :=
      if_pos (pageFrame_eq_self.2 (h.dvd_paddr hp hpa))
    simp only [hcheck]
    refine tlbFill_apply.trans ?_
    cases tlb.firstInvalid <;> rfl

theorem enterPage_stops (h : ¬as.SetUp) : ∃ panic, enterPage (some as) p tlb = .error panic := by
  obtain ⟨panic, hstop⟩ := checkAll_stops (s := tlb) h
  exact ⟨panic, by simp only [enterPage, Prog.bind_apply, hstop]⟩

theorem Tlb.firstInvalid_eq_some {i : Fin numTlb} (h : tlb.firstInvalid = some i) : ¬(tlb i).Valid := by
  simpa using List.find?_some h

theorem Tlb.firstInvalid_eq_none : tlb.firstInvalid = none ↔ ∀ i, (tlb i).Valid := by
  simp [Tlb.firstInvalid]

end Spec

end Os161.Vm
