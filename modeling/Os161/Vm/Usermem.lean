import Mathlib.Order.CompletePartialOrder
import Mathlib.Order.Interval.Set.Basic
import Mathlib.Order.Interval.Set.Disjoint
import Os161.Vm.Regions

/-!
# User memory

The bytes that an address space maps, through the translation that `vm_fault` installs, and the
memory that `as_prepare_load` gets for them. Physical memory is what the kernel sees of it from
`MIPS_KSEG0` on.

Where `getppages` stands for any function that hands out pages, `Honest` is the assumption that the
pages are not in use. `ram_stealmem` is honest as long as the size does not wrap around
(`Ram.honest`).
-/
namespace Os161.Vm

open Lib Kern Prog
open Kheap (pageSize)

/-- The three parts of an address space, in the order in which `vm_fault` looks at them. -/
inductive Part where
  | region1 | region2 | stack
  deriving DecidableEq, Repr

namespace Addrspace

def vbaseOf (as : Addrspace) : Part → Nat
  | .region1 => as.vbase1
  | .region2 => as.vbase2
  | .stack => stackbase

def npagesOf (as : Addrspace) : Part → Nat
  | .region1 => as.npages1
  | .region2 => as.npages2
  | .stack => dumbvmStackpages

def pbaseOf (as : Addrspace) : Part → Nat
  | .region1 => as.pbase1
  | .region2 => as.pbase2
  | .stack => as.stackpbase

def block (as : Addrspace) (k : Part) : Set Nat :=
  Set.Ico (as.pbaseOf k) (as.pbaseOf k + as.npagesOf k * pageSize)

def frames (as : Addrspace) : Set Nat := {pa | ∃ k, pa ∈ as.block k}

def partOf (as : Addrspace) (p : Nat) : Option Part :=
  if Within as.vbase1 as.npages1 p then some .region1
  else if Within as.vbase2 as.npages2 p then some .region2
  else if stackbase ≤ p ∧ p < userstack then some .stack
  else none

def translate (as : Addrspace) (a : Nat) : Option Nat := (as.paddr (pageFrame a)).map fun pa => pa + a % pageSize

/-- The parts are as `as_define_region` records them. -/
structure Laid (as : Addrspace) : Prop where
  aligned : ∀ k, pageSize ∣ as.vbaseOf k
  vbase_lt : ∀ k, as.vbaseOf k < 2 ^ 32
  npages_lt : ∀ k, as.npagesOf k < 2 ^ 20

end Addrspace

/-! ## Translation -/

section Translation

variable {as as' : Addrspace} {a p pa : Nat} {k k' : Part}

theorem Addrspace.paddr_eq_partOf : as.paddr p = (as.partOf p).map fun k => wrap (p - as.vbaseOf k + as.pbaseOf k) := by
  unfold Addrspace.partOf
  by_cases h1 : Within as.vbase1 as.npages1 p
  · rw [if_pos h1]
    exact if_pos h1
  · rw [if_neg h1]
    refine (if_neg h1).trans ?_
    by_cases h2 : Within as.vbase2 as.npages2 p
    · rw [if_pos h2]
      exact if_pos h2
    · rw [if_neg h2]
      refine (if_neg h2).trans ?_
      split <;> rfl

theorem within_page {vbase npages : Nat} (hv : pageSize ∣ vbase) (hlt : vbase < 2 ^ 32) (hn : npages < 2 ^ 20)
    (h : Within vbase npages (pageFrame a)) : vbase ≤ a ∧ a < vbase + npages * pageSize := by
  obtain ⟨c, rfl⟩ := hv
  simp only [Within, wrap, pageFrame, pageSize] at *
  omega

theorem stacktop_eq : userstack = wrap (stackbase + wrap (dumbvmStackpages * pageSize)) := by decide

theorem Addrspace.Laid.offset (h : as.Laid) (hk : as.partOf (pageFrame a) = some k) :
    as.vbaseOf k ≤ a ∧ a < as.vbaseOf k + as.npagesOf k * pageSize := by
  have hpage := within_page (a := a) (h.aligned k) (h.vbase_lt k) (h.npages_lt k)
  unfold Addrspace.partOf at hk
  split at hk
  · next hin =>
    cases hk
    exact hpage hin
  · split at hk
    · next hin =>
      cases hk
      exact hpage hin
    · split at hk
      · next hin =>
        cases hk
        exact hpage ⟨hin.1, hin.2.trans_eq stacktop_eq⟩
      · exact nomatch hk

/-- An address that is mapped is at its own place in the memory of its part. -/
theorem Addrspace.Laid.translate_eq (h : as.Laid) (hram : ∀ k, as.pbaseOf k + as.npagesOf k * pageSize ≤ 2 ^ 32) :
    as.translate a = (as.partOf (pageFrame a)).map fun k => as.pbaseOf k + (a - as.vbaseOf k) := by
  unfold Addrspace.translate
  rw [Addrspace.paddr_eq_partOf, Option.map_map]
  cases hk : as.partOf (pageFrame a) with
  | none => rfl
  | some k =>
    have hoff := h.offset hk
    have hlimit := hram k
    have hv := h.aligned k
    obtain ⟨c, hc⟩ := h.aligned k
    refine congrArg some ?_
    simp only [Function.comp_apply]
    rw [hc] at hoff ⊢
    simp only [wrap, pageFrame, pageSize] at *
    omega

theorem Addrspace.Laid.translate_mem (h : as.Laid) (hram : ∀ k, as.pbaseOf k + as.npagesOf k * pageSize ≤ 2 ^ 32)
    (ht : as.translate a = some pa) : pa ∈ as.frames := by
  rw [h.translate_eq hram, Option.map_eq_some_iff] at ht
  obtain ⟨k, hk, rfl⟩ := ht
  have hoff := h.offset hk
  exact ⟨k, Nat.le_add_right _ _, by omega⟩

end Translation

/-! ## The layout -/

section Layout

variable {as as' : Addrspace} {c : DefineCall}

def Addrspace.sizes (as : Addrspace) : List Nat := [as.npages1, as.npages2, dumbvmStackpages]

theorem stack_laid : stackbase < 2 ^ 32 ∧ dumbvmStackpages < 2 ^ 20 := by decide

theorem laid_of (h1 : pageSize ∣ as.vbase1 ∧ as.vbase1 < 2 ^ 32 ∧ as.npages1 < 2 ^ 20)
    (h2 : pageSize ∣ as.vbase2 ∧ as.vbase2 < 2 ^ 32 ∧ as.npages2 < 2 ^ 20) : as.Laid := by
  constructor
  · intro k
    cases k with
    | region1 => exact h1.1
    | region2 => exact h2.1
    | stack => exact pageSize_dvd_stackbase
  · intro k
    cases k with
    | region1 => exact h1.2.1
    | region2 => exact h2.2.1
    | stack => exact stack_laid.1
  · intro k
    cases k with
    | region1 => exact h1.2.2
    | region2 => exact h2.2.2
    | stack => exact stack_laid.2

theorem asCreate_laid : asCreate.Laid := laid_of (by decide) (by decide)

theorem DefineCall.laid : pageSize ∣ pageFrame c.vaddr ∧ pageFrame c.vaddr < 2 ^ 32 ∧ c.npages < 2 ^ 20 := by
  have hv := c.vaddr_lt
  refine ⟨pageSize_dvd_pageFrame, ?_⟩
  simp only [DefineCall.npages, wrap, pageFrame, pageSize] at *
  omega

theorem Addrspace.Laid.step (h : as.Laid) (hstep : DefineStep as c as') : as'.Laid := by
  have h1 := And.intro (h.aligned .region1) (And.intro (h.vbase_lt .region1) (h.npages_lt .region1))
  have h2 := And.intro (h.aligned .region2) (And.intro (h.vbase_lt .region2) (h.npages_lt .region2))
  obtain ⟨-, rfl⟩ | ⟨-, -, rfl⟩ | ⟨-, rfl⟩ := hstep.cases
  · exact laid_of c.laid h2
  · exact laid_of h1 c.laid
  · exact h

theorem laid_of_run {calls : List DefineCall} (h : Run DefineStep asCreate calls as) : as.Laid :=
  h.invariant asCreate_laid fun hl hstep => hl.step hstep

/-- The parts are in the same places. -/
structure Addrspace.SameLayout (as as' : Addrspace) : Prop where
  vbase1 : as'.vbase1 = as.vbase1
  npages1 : as'.npages1 = as.npages1
  vbase2 : as'.vbase2 = as.vbase2
  npages2 : as'.npages2 = as.npages2

namespace Addrspace.SameLayout

variable (h : as.SameLayout as')
include h

theorem vbaseOf_eq (k : Part) : as'.vbaseOf k = as.vbaseOf k := by
  cases k with
  | region1 => exact h.vbase1
  | region2 => exact h.vbase2
  | stack => rfl

theorem npagesOf_eq (k : Part) : as'.npagesOf k = as.npagesOf k := by
  cases k with
  | region1 => exact h.npages1
  | region2 => exact h.npages2
  | stack => rfl

theorem partOf_eq (p : Nat) : as'.partOf p = as.partOf p := by
  simp only [Addrspace.partOf, h.vbase1, h.npages1, h.vbase2, h.npages2]

theorem laid (hl : as.Laid) : as'.Laid where
  aligned k := by rw [h.vbaseOf_eq]; exact hl.aligned k
  vbase_lt k := by rw [h.vbaseOf_eq]; exact hl.vbase_lt k
  npages_lt k := by rw [h.npagesOf_eq]; exact hl.npages_lt k

end Addrspace.SameLayout

end Layout

/-! ## Pages -/

def kseg0Size : Nat := 0x20000000

theorem kseg0Size_lt : kseg0Size < 2 ^ 31 := by simp [kseg0Size]

theorem kseg0Size_le : kseg0Size ≤ 2 ^ 32 := by simp [kseg0Size]

section Pages

variable {G : Type} (getppages : G → Nat → Nat × G) (used : G → Set Nat)

/-- A call that returns an address returns that of physical memory that was not in use, and now is.
-/
structure Honest (g : G) (n : Nat) : Prop where
  kept : used g ⊆ used (getppages g n).2
  limit : (getppages g n).1 ≠ 0 → (getppages g n).1 + n * pageSize ≤ kseg0Size
  fresh : (getppages g n).1 ≠ 0 →
    Disjoint (Set.Ico (getppages g n).1 ((getppages g n).1 + n * pageSize)) (used g)
  taken : (getppages g n).1 ≠ 0 →
    Set.Ico (getppages g n).1 ((getppages g n).1 + n * pageSize) ⊆ used (getppages g n).2

/-- `preparePages` for any `getppages`. -/
def preparePagesWith (npages : Nat) (set : Nat → Addrspace → Addrspace) : Prog VmPanic Errno (G × Addrspace) Unit := do
  let (g, _) ← Prog.get
  let (pa, g) := getppages g npages
  Prog.modify fun s => (g, set pa s.2)
  if pa = 0 then Prog.raise .enomem else pure ()

def asPrepareLoadWith : Prog VmPanic Errno (G × Addrspace) Unit := do
  let (_, as) ← Prog.get
  checkAll [(as.pbase1 = 0, .loadPbase1), (as.pbase2 = 0, .loadPbase2), (as.stackpbase = 0, .loadStackpbase)]
  preparePagesWith getppages as.npages1 fun pa as => { as with pbase1 := pa }
  preparePagesWith getppages as.npages2 fun pa as => { as with pbase2 := pa }
  preparePagesWith getppages dumbvmStackpages fun pa as => { as with stackpbase := pa }

theorem preparePagesWith_ram : preparePagesWith Ram.getppages = preparePages := rfl

theorem asPrepareLoadWith_ram : asPrepareLoadWith Ram.getppages = asPrepareLoad := by
  unfold asPrepareLoadWith
  rw [preparePagesWith_ram]
  rfl

variable {getppages used}

theorem sat_preparePagesWith {K : VmPanic → Prop} {g : G} {as : Addrspace} {n : Nat}
    {set : Nat → Addrspace → Addrspace} {Q : Except Errno Unit → G × Addrspace → Prop} :
    Sat K (preparePagesWith getppages n set) (g, as) Q ↔
      if (getppages g n).1 = 0 then Q (.error .enomem) ((getppages g n).2, set (getppages g n).1 as)
      else Q (.ok ()) ((getppages g n).2, set (getppages g n).1 as) := by
  simp only [preparePagesWith, sat_bind, sat_get, sat_modify, sat_ite, sat_raise, sat_pure]

/-- The address space has its memory, none of which was in use. -/
structure Prepared (used : G → Set Nat) (g : G) (as : Addrspace) (g' : G) (as' : Addrspace) : Prop where
  layout : as.SameLayout as'
  pbase_ne : ∀ k, as'.pbaseOf k ≠ 0
  limit : ∀ k, as'.pbaseOf k + as'.npagesOf k * pageSize ≤ kseg0Size
  fresh : ∀ k, Disjoint (as'.block k) (used g)
  apart : ∀ k k', k ≠ k' → Disjoint (as'.block k) (as'.block k')
  taken : ∀ k, as'.block k ⊆ used g'

section Prepare

variable {g : G} {as : Addrspace} (hzero : as.pbase1 = 0 ∧ as.pbase2 = 0 ∧ as.stackpbase = 0)
include hzero

theorem prepare_asserts : ∀ c ∈ ([(as.pbase1 = 0, .loadPbase1), (as.pbase2 = 0, .loadPbase2),
    (as.stackpbase = 0, .loadStackpbase)] : List (Bool × VmPanic)), c.1 = true := by
  simp [hzero]

theorem asPrepareLoadWith_layout :
    Sat (fun _ => False) (asPrepareLoadWith getppages) (g, as) fun _ t => as.SameLayout t.2 := by
  simp only [asPrepareLoadWith, sat_bind, sat_get, sat_checkAll (prepare_asserts hzero), sat_preparePagesWith]
  split
  · exact ⟨rfl, rfl, rfl, rfl⟩
  · split
    · exact ⟨rfl, rfl, rfl, rfl⟩
    · split <;> exact ⟨rfl, rfl, rfl, rfl⟩

theorem asPrepareLoadWith_spec (hh : ∀ n ∈ as.sizes, ∀ g, Honest getppages used g n) :
    Sat (fun _ => False) (asPrepareLoadWith getppages) (g, as) fun r t =>
      r = .ok () ∧ Prepared used g as t.1 t.2 ∨ r = .error .enomem := by
  simp only [asPrepareLoadWith, sat_bind, sat_get, sat_checkAll (prepare_asserts hzero), sat_preparePagesWith]
  split
  · exact .inr trivial
  · next h1 =>
    have hh1 := hh as.npages1 (by simp [Addrspace.sizes]) g
    split
    · exact .inr trivial
    · next h2 =>
      have hh2 := hh as.npages2 (by simp [Addrspace.sizes]) (getppages g as.npages1).2
      split
      · exact .inr trivial
      · next h3 =>
        have hh3 := hh dumbvmStackpages (by simp [Addrspace.sizes]) (getppages (getppages g as.npages1).2 as.npages2).2
        have h12 := (hh2.fresh h2).mono_right (hh1.taken h1)
        have h13 := (hh3.fresh h3).mono_right ((hh1.taken h1).trans hh2.kept)
        have h23 := (hh3.fresh h3).mono_right (hh2.taken h2)
        refine .inl ⟨trivial, ⟨rfl, rfl, rfl, rfl⟩, ?_, ?_, ?_, ?_, ?_⟩
        · intro k
          cases k with
          | region1 => exact h1
          | region2 => exact h2
          | stack => exact h3
        · intro k
          cases k with
          | region1 => exact hh1.limit h1
          | region2 => exact hh2.limit h2
          | stack => exact hh3.limit h3
        · intro k
          cases k with
          | region1 => exact hh1.fresh h1
          | region2 => exact (hh2.fresh h2).mono_right hh1.kept
          | stack => exact (hh3.fresh h3).mono_right (hh1.kept.trans hh2.kept)
        · intro k k' hne
          cases k <;> cases k' <;> first
            | exact absurd rfl hne
            | exact h12
            | exact h12.symm
            | exact h13
            | exact h13.symm
            | exact h23
            | exact h23.symm
        · intro k
          cases k with
          | region1 => exact (hh1.taken h1).trans (hh2.kept.trans hh3.kept)
          | region2 => exact (hh2.taken h2).trans hh3.kept
          | stack => exact hh3.taken h3

end Prepare

theorem pbases_of_run {calls : List DefineCall} {as : Addrspace} (h : Run DefineStep asCreate calls as) :
    as.pbase1 = 0 ∧ as.pbase2 = 0 ∧ as.stackpbase = 0 := by
  refine h.invariant (I := fun as => as.pbase1 = 0 ∧ as.pbase2 = 0 ∧ as.stackpbase = 0) ⟨rfl, rfl, rfl⟩ ?_
  intro as c as' hzero hstep
  obtain ⟨-, rfl⟩ | ⟨-, -, rfl⟩ | ⟨-, rfl⟩ := hstep.cases
  all_goals exact hzero

variable (getppages used)

/-- The address space was set up by `as_define_region` and `as_prepare_load`, and its memory is
still in use. -/
def Established (g : G) (as : Addrspace) : Prop :=
  ∃ calls as₀ g₀ g₁, Run DefineStep asCreate calls as₀ ∧
    asPrepareLoadWith getppages (g₀, as₀) = .ok (.ok (), g₁, as) ∧ used g₁ ⊆ used g

variable {getppages used}

/-- What `Established` says of the address space. -/
structure Holds (U : Set Nat) (as : Addrspace) : Prop where
  laid : as.Laid
  limit : ∀ k, as.pbaseOf k + as.npagesOf k * pageSize ≤ kseg0Size
  apart : ∀ k k', k ≠ k' → Disjoint (as.block k) (as.block k')
  inUse : as.frames ⊆ U

theorem Prepared.holds {g g' : G} {as as' : Addrspace} (h : Prepared used g as g' as') (hl : as.Laid) :
    Holds (used g') as' where
  laid := h.layout.laid hl
  limit := h.limit
  apart := h.apart
  inUse := fun _ ⟨k, hk⟩ => h.taken k hk

theorem Established.holds {g : G} {as : Addrspace} (h : Established getppages used g as)
    (hh : ∀ n ∈ as.sizes, ∀ g, Honest getppages used g n) : Holds (used g) as := by
  obtain ⟨calls, as₀, g₀, g₁, hrun, hprep, hsub⟩ := h
  have hkeep : Sat (fun _ => False) (asPrepareLoadWith getppages) (g₀, as₀) fun _ t => as₀.SameLayout t.2 :=
    asPrepareLoadWith_layout (pbases_of_run hrun)
  have hlayout : as₀.SameLayout as := hkeep.of_ok hprep
  have hsizes : as₀.sizes = as.sizes := by
    simp only [Addrspace.sizes, hlayout.npages1, hlayout.npages2]
  have hspec := asPrepareLoadWith_spec (g := g₀) (pbases_of_run hrun) (hsizes ▸ hh)
  obtain ⟨-, hp⟩ | hr := hspec.of_ok hprep
  · exact { hp.holds (laid_of_run hrun) with inUse := (hp.holds (laid_of_run hrun)).inUse.trans hsub }
  · exact nomatch hr

end Pages

/-- Everything below `firstpaddr` is in use. -/
def Ram.used (m : Ram) : Set Nat := Set.Iio m.firstpaddr

theorem Ram.honest {n : Nat} (hn : n ≤ 2 ^ 19) (m : Ram) : Honest Ram.getppages Ram.used m n := by
  have hfirst := m.le
  have hlast := m.limit
  have hsum : wrap (m.firstpaddr + wrap (n * pageSize)) = m.firstpaddr + n * pageSize := by
    simp only [wrap, pageSize]
    omega
  obtain ⟨-, hsteal⟩ | ⟨hle, m', hsteal, hfirst', -⟩ := m.ramStealmem_spec hsum
  · have hpages : m.getppages n = (0, m) := hsteal
    constructor <;> simp [hpages]
  · have hpages : m.getppages n = (m.firstpaddr, m') := hsteal
    constructor
    all_goals simp only [hpages, Ram.used, hfirst']
    · exact Set.Iio_subset_Iio (Nat.le_add_right _ _)
    · intro _
      simp only [kseg0Size]
      omega
    · intro _
      exact Set.disjoint_left.2 fun x hx hlt => absurd hlt (Nat.not_lt.2 hx.1)
    · intro _
      exact Set.Ico_subset_Iio_self

/-! ## Bytes -/

/-- The kernel's address of physical memory. -/
def kvaddr (pa : Nat) : Word := BitVec.ofNat 32 (paddrToKvaddr pa)

def physByte (m : Word → Byte) (pa : Nat) : Byte := m (kvaddr pa)

namespace Addrspace

/-- The byte at a user address that is mapped. -/
def userByte (as : Addrspace) (m : Word → Byte) (a : Nat) : Option Byte := (as.translate a).map (physByte m)

/-- A store through an address space. -/
def userStore (as : Addrspace) (a : Nat) (b : Byte) (m : Word → Byte) : Word → Byte :=
  match as.translate a with
  | none => m
  | some pa => Function.update m (kvaddr pa) b

end Addrspace

section Bytes

variable {as : Addrspace} {m m' : Word → Byte} {a pa pa' : Nat} {b : Byte} {U : Set Nat}

theorem toNat_kvaddr (h : pa < 2 ^ 31) : (kvaddr pa).toNat = pa + 2 ^ 31 := by
  simp only [kvaddr, paddrToKvaddr, wrap, mipsKseg0, BitVec.toNat_ofNat]
  omega

theorem physByte_update_self : physByte (Function.update m (kvaddr pa) b) pa = b := by
  rw [physByte, Function.update_self]

theorem physByte_update_of_ne (h : kvaddr pa' ≠ kvaddr pa) :
    physByte (Function.update m (kvaddr pa) b) pa' = physByte m pa' := by
  rw [physByte, Function.update_of_ne h, physByte]

theorem kvaddr_inj (h : pa < 2 ^ 31) (h' : pa' < 2 ^ 31) : kvaddr pa = kvaddr pa' ↔ pa = pa' := by
  rw [← BitVec.toNat_inj, toNat_kvaddr h, toNat_kvaddr h']
  omega

theorem kvaddr_eq (pa : Nat) : kvaddr pa = BitVec.ofNat 32 mipsKseg0 + BitVec.ofNat 32 pa := by
  apply BitVec.eq_of_toNat_eq
  rw [kvaddr, paddrToKvaddr, wrap, ← BitVec.ofNat_add, BitVec.toNat_ofNat, BitVec.toNat_ofNat, Nat.mod_mod, Nat.add_comm]

theorem kvaddr_add (pa i : Nat) : kvaddr (pa + i) = kvaddr pa + BitVec.ofNat 32 i := by
  rw [kvaddr_eq, kvaddr_eq, BitVec.ofNat_add, BitVec.add_assoc]

theorem Holds.lt (h : Holds U as) (hpa : pa ∈ as.frames) : pa < 2 ^ 31 := by
  obtain ⟨k, -, hlt⟩ := hpa
  exact hlt.trans ((h.limit k).trans_lt kseg0Size_lt)

theorem Holds.translate_eq (h : Holds U as) :
    as.translate a = (as.partOf (pageFrame a)).map fun k => as.pbaseOf k + (a - as.vbaseOf k) :=
  h.laid.translate_eq fun k => (h.limit k).trans kseg0Size_le

theorem Holds.translate_mem (h : Holds U as) (ht : as.translate a = some pa) : pa ∈ as.frames :=
  h.laid.translate_mem (fun k => (h.limit k).trans kseg0Size_le) ht

/-- An address space sees what is in its frames. -/
theorem Holds.userByte_congr (h : Holds U as) (heq : ∀ pa ∈ as.frames, physByte m' pa = physByte m pa) :
    as.userByte m' a = as.userByte m a := by
  unfold Addrspace.userByte
  cases ht : as.translate a with
  | none => rfl
  | some pa => exact congrArg some (heq pa (h.translate_mem ht))

end Bytes

end Os161.Vm
