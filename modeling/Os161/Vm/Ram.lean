import Mathlib.Order.CompletePartialOrder
import Mathlib.Order.Interval.Set.Basic
import Mathlib.Order.Interval.Set.Disjoint
import Os161.Kheap.Alloc
import Os161.Lib.Run

/-!
# Pages before there is a page manager

`ram_stealmem` of `kern/arch/mips/mips/ram.c` hands out physical memory from `firstpaddr` upwards
and never takes any back. `getppages` and `alloc_kpages` of `dumbvm.c` call it, and so does
`kmalloc` for requests of half a page and more. All of this is arithmetic modulo `2 ^ 32`. Where the
sum of `firstpaddr` and the size wraps around, the test against `lastpaddr` says nothing about the
size.
-/
namespace Os161.Vm

open Lib
open Kheap (pageSize largestSubpageSize)

def wrap (n : Nat) : Nat := n % 2 ^ 32

def mipsKseg0 : Nat := 0x80000000

def paddrToKvaddr (pa : Nat) : Nat := wrap (pa + mipsKseg0)

structure Ram where
  firstpaddr : Nat
  lastpaddr : Nat
  aligned : pageSize ∣ firstpaddr
  le : firstpaddr ≤ lastpaddr
  limit : lastpaddr ≤ 508 * 1024 * 1024
  deriving DecidableEq

theorem pageSize_dvd_wrap {a n : Nat} (h : pageSize ∣ a) : pageSize ∣ wrap (a + wrap (n * pageSize)) := by
  have hword : pageSize ∣ 2 ^ 32 := by decide
  have hsize : pageSize ∣ wrap (n * pageSize) := (Nat.dvd_mod_iff hword).2 (Nat.dvd_mul_left _ _)
  exact (Nat.dvd_mod_iff hword).2 (Nat.dvd_add h hsize)

def Ram.ramStealmem (m : Ram) (npages : Nat) : Nat × Ram :=
  let size := wrap (npages * pageSize)
  if h : wrap (m.firstpaddr + size) > m.lastpaddr then (0, m)
  else (m.firstpaddr, ⟨wrap (m.firstpaddr + size), m.lastpaddr, pageSize_dvd_wrap m.aligned, Nat.not_lt.1 h, m.limit⟩)

/-- `splhigh` and `splx` around the call are left out. -/
def Ram.getppages (m : Ram) (npages : Nat) : Nat × Ram := m.ramStealmem npages

def Ram.allocKpages (m : Ram) (npages : Nat) : Nat × Ram :=
  let (pa, m) := m.getppages npages
  if pa = 0 then (0, m) else (paddrToKvaddr pa, m)

/-- `kmalloc` of at least `LARGEST_SUBPAGE_SIZE` bytes. -/
def Ram.kmalloc (m : Ram) (sz : Nat) : Nat × Ram :=
  m.allocKpages (wrap (sz + pageSize - 1) / pageSize)

/-! ## Calls -/

inductive PageCall where
  | kmalloc (sz : Nat)
  | getppages (npages : Nat)
  deriving DecidableEq, Repr

namespace PageCall

/-- The arguments are 32-bit numbers, and `kmalloc` serves smaller requests itself. -/
def Valid : PageCall → Prop
  | kmalloc sz => largestSubpageSize ≤ sz ∧ sz < 2 ^ 32
  | getppages n => n < 2 ^ 32

def bytes : PageCall → Nat
  | kmalloc sz => sz
  | getppages n => n * pageSize

def size : PageCall → Nat
  | kmalloc sz => (sz + pageSize - 1) / pageSize * pageSize
  | getppages n => n * pageSize

/-- The physical memory that the caller gets with the result `r`. -/
def extent (r : Nat) : PageCall → Set Nat
  | kmalloc sz => Set.Ico (r - mipsKseg0) (r - mipsKseg0 + sz)
  | getppages n => Set.Ico r (r + n * pageSize)

end PageCall

def Ram.serve (m : Ram) : PageCall → Nat × Ram
  | .kmalloc sz => m.kmalloc sz
  | .getppages n => m.getppages n

def RamStep (m : Ram) (e : PageCall × Nat) (m' : Ram) : Prop := e.1.Valid ∧ m.serve e.1 = (e.2, m')

/-- What a caller relies on, for a request to the memory `m` that is left of `m₀`. -/
structure Served (m₀ m : Ram) (e : PageCall × Nat) (m' : Ram) : Prop where
  aligned : e.2 ≠ 0 → pageSize ∣ e.2
  within : e.2 ≠ 0 → e.1.extent e.2 ⊆ Set.Ico m₀.firstpaddr m₀.lastpaddr
  grows : m.firstpaddr ≤ m'.firstpaddr
  refused : m.lastpaddr < m.firstpaddr + e.1.bytes → e.2 = 0

/-- The two pieces of memory have nothing in common. -/
def Apart (e e' : PageCall × Nat) : Prop :=
  e.2 ≠ 0 → e'.2 ≠ 0 → Disjoint (e.1.extent e.2) (e'.1.extent e'.2)

/-- The sum does not wrap around to an address that passes the test. Nothing is handed out at
address 0. -/
def Fits (m : Ram) (c : PageCall) : Prop :=
  m.firstpaddr = 0 ∨ m.firstpaddr + c.size < 2 ^ 32 ∨ m.lastpaddr < wrap (m.firstpaddr + c.size)

/-! ## One call -/

section Call

variable {m₀ m m' : Ram} {c : PageCall} {e : PageCall × Nat} {pa : Nat}

/-- The result of a call that gets the memory at `pa`. -/
def PageCall.reply (pa : Nat) : PageCall → Nat
  | kmalloc _ => if pa = 0 then 0 else paddrToKvaddr pa
  | getppages _ => pa

theorem PageCall.bytes_le_size : c.bytes ≤ c.size := by
  cases c <;> simp only [bytes, size, pageSize] <;> omega

theorem PageCall.size_le : c.size ≤ c.bytes + 4095 := by
  cases c <;> simp only [bytes, size, pageSize] <;> omega

theorem PageCall.extent_reply (hpa : pa ≠ 0) (hle : pa ≤ 508 * 1024 * 1024) :
    c.extent (c.reply pa) = Set.Ico pa (pa + c.bytes) := by
  cases c with
  | kmalloc sz =>
    have hback : paddrToKvaddr pa - mipsKseg0 = pa := by
      simp only [paddrToKvaddr, wrap, mipsKseg0]
      omega
    simp only [extent, reply, hpa, if_false, hback, bytes]
  | getppages n => rfl

theorem PageCall.reply_eq_zero (hle : pa ≤ 508 * 1024 * 1024) : c.reply pa = 0 ↔ pa = 0 := by
  cases c with
  | kmalloc sz =>
    simp only [reply, paddrToKvaddr, wrap, mipsKseg0]
    split <;> omega
  | getppages n => rfl

theorem PageCall.dvd_reply (h : pageSize ∣ pa) : pageSize ∣ c.reply pa := by
  cases c with
  | kmalloc sz =>
    simp only [reply, paddrToKvaddr, wrap, mipsKseg0, pageSize] at h ⊢
    split <;> omega
  | getppages n => exact h

theorem Ram.ramStealmem_spec {npages sum : Nat} (hsum : wrap (m.firstpaddr + wrap (npages * pageSize)) = sum) :
    m.lastpaddr < sum ∧ m.ramStealmem npages = (0, m) ∨
    sum ≤ m.lastpaddr ∧ ∃ m', m.ramStealmem npages = (m.firstpaddr, m') ∧ m'.firstpaddr = sum ∧
      m'.lastpaddr = m.lastpaddr := by
  subst hsum
  simp only [Ram.ramStealmem]
  split
  · next hlt => exact .inl ⟨hlt, rfl⟩
  · next hle => exact .inr ⟨Nat.not_lt.1 hle, _, rfl, rfl, rfl⟩

theorem RamStep.cases (h : RamStep m e m') : m.lastpaddr < wrap (m.firstpaddr + e.1.size) ∧ e.2 = 0 ∧ m' = m ∨
    wrap (m.firstpaddr + e.1.size) ≤ m.lastpaddr ∧ e.2 = e.1.reply m.firstpaddr ∧
      m'.firstpaddr = wrap (m.firstpaddr + e.1.size) ∧ m'.lastpaddr = m.lastpaddr := by
  obtain ⟨c, r⟩ := e
  obtain ⟨-, hserve⟩ := h
  cases c with
  | getppages n =>
    have hsum : wrap (m.firstpaddr + wrap (n * pageSize)) = wrap (m.firstpaddr + n * pageSize) := by
      simp [wrap]
    obtain ⟨hlt, hsteal⟩ | ⟨hle, m₁, hsteal, hfirst, hlast⟩ := m.ramStealmem_spec hsum
    all_goals
      simp only [Ram.serve, Ram.getppages, hsteal, Prod.mk.injEq] at hserve
      obtain ⟨rfl, rfl⟩ := hserve
    · exact .inl ⟨hlt, rfl, rfl⟩
    · exact .inr ⟨hle, rfl, hfirst, hlast⟩
  | kmalloc sz =>
    have hsum : wrap (m.firstpaddr + wrap (wrap (sz + pageSize - 1) / pageSize * pageSize)) =
        wrap (m.firstpaddr + (sz + pageSize - 1) / pageSize * pageSize) := by
      simp only [wrap, pageSize]
      omega
    obtain ⟨hlt, hsteal⟩ | ⟨hle, m₁, hsteal, hfirst, hlast⟩ := m.ramStealmem_spec hsum
    · simp only [Ram.serve, Ram.kmalloc, Ram.allocKpages, Ram.getppages, hsteal, if_true, Prod.mk.injEq] at hserve
      obtain ⟨rfl, rfl⟩ := hserve
      exact .inl ⟨hlt, rfl, rfl⟩
    · simp only [Ram.serve, Ram.kmalloc, Ram.allocKpages, Ram.getppages, hsteal, ← apply_ite (·, m₁),
        Prod.mk.injEq] at hserve
      obtain ⟨rfl, rfl⟩ := hserve
      exact .inr ⟨hle, rfl, hfirst, hlast⟩

/-- A call is served as its caller expects exactly if the sum does not wrap around. -/
theorem RamStep.served_iff (h : RamStep m e m') (hlow : m₀.firstpaddr ≤ m.firstpaddr)
    (hlast : m.lastpaddr = m₀.lastpaddr) : Served m₀ m e m' ↔ Fits m e.1 := by
  have hle := m.le
  have hlimit := m.limit
  have hbytes := e.1.bytes_le_size
  have hsize := e.1.size_le
  constructor
  · intro S
    by_contra hwraps
    simp only [Fits, not_or, Nat.not_lt] at hwraps
    obtain ⟨hpos, hwrap, hpass⟩ := hwraps
    obtain ⟨hrefused, -⟩ | ⟨-, hreply, -⟩ := h.cases
    · omega
    · have hne : e.2 ≠ 0 := by
        rw [hreply]
        exact mt (PageCall.reply_eq_zero (by omega)).1 hpos
      have hin := S.within hne
      rw [hreply, PageCall.extent_reply hpos (by omega)] at hin
      -- the memory that is handed out reaches beyond the last address
      have hend : m.lastpaddr ∈ Set.Ico m.firstpaddr (m.firstpaddr + e.1.bytes) := ⟨hle, by omega⟩
      have hout := (hin hend).2
      omega
  · intro hfits
    obtain ⟨hrefused, hzero, rfl⟩ | ⟨hpass, hreply, hfirst, -⟩ := h.cases
    · exact ⟨fun hne => absurd hzero hne, fun hne => absurd hzero hne, Nat.le_refl _, fun _ => hzero⟩
    · by_cases hpos : m.firstpaddr = 0
      · have hzero : e.2 = 0 := by rw [hreply, PageCall.reply_eq_zero (by omega), hpos]
        exact ⟨fun hne => absurd hzero hne, fun hne => absurd hzero hne, by omega, fun _ => hzero⟩
      · have hsum : wrap (m.firstpaddr + e.1.size) = m.firstpaddr + e.1.size := by
          simp only [Fits, hpos, false_or] at hfits
          exact Nat.mod_eq_of_lt (hfits.resolve_right (Nat.not_lt.2 hpass))
        rw [hsum] at hpass hfirst
        refine ⟨fun _ => hreply ▸ PageCall.dvd_reply m.aligned, fun _ => ?_, by omega, by omega⟩
        rw [hreply, PageCall.extent_reply hpos (by omega)]
        exact Set.Ico_subset_Ico hlow (by omega)

end Call

/-! ## Sequences of calls -/

section Calls

variable {m₀ m m' : Ram} {e : PageCall × Nat} {tr : List (PageCall × Nat)}

def FitsStep (m : Ram) (e : PageCall × Nat) (m' : Ram) : Prop := RamStep m e m' ∧ Fits m e.1

/-- What is left of `m₀` after the calls of `tr`: all that they got lies below. -/
structure LeftOver (m₀ : Ram) (tr : List (PageCall × Nat)) (m : Ram) : Prop where
  low : m₀.firstpaddr ≤ m.firstpaddr
  last : m.lastpaddr = m₀.lastpaddr
  below : ∀ e ∈ tr, e.2 ≠ 0 → e.1.extent e.2 ⊆ Set.Iio m.firstpaddr
  apart : tr.Pairwise Apart

theorem FitsStep.extent_subset (h : FitsStep m e m') (hne : e.2 ≠ 0) :
    e.1.extent e.2 ⊆ Set.Ico m.firstpaddr m'.firstpaddr := by
  obtain ⟨-, hzero, -⟩ | ⟨hpass, hreply, hfirst, -⟩ := h.1.cases
  · exact absurd hzero hne
  · have hle : m.firstpaddr ≤ 508 * 1024 * 1024 := m.le.trans m.limit
    have hpos : m.firstpaddr ≠ 0 := by rwa [hreply, Ne, PageCall.reply_eq_zero hle] at hne
    have hfits := h.2
    simp only [Fits, hpos, false_or] at hfits
    have hsum : wrap (m.firstpaddr + e.1.size) = m.firstpaddr + e.1.size :=
      Nat.mod_eq_of_lt (hfits.resolve_right (Nat.not_lt.2 hpass))
    rw [hreply, PageCall.extent_reply hpos hle, hfirst, hsum]
    exact Set.Ico_subset_Ico_right (Nat.add_le_add_left PageCall.bytes_le_size _)

theorem LeftOver.next (L : LeftOver m₀ tr m) (h : FitsStep m e m') : LeftOver m₀ (e :: tr) m' := by
  have hgrows := ((h.1.served_iff L.low L.last).2 h.2).grows
  have hlast : m'.lastpaddr = m.lastpaddr := by
    obtain ⟨-, -, rfl⟩ | ⟨-, -, -, hlast⟩ := h.1.cases
    · rfl
    · exact hlast
  refine ⟨L.low.trans hgrows, hlast.trans L.last, ?_, List.pairwise_cons.2 ⟨?_, L.apart⟩⟩
  · intro e' he' hne
    obtain rfl | he' := List.mem_cons.1 he'
    · exact (h.extent_subset hne).trans Set.Ico_subset_Iio_self
    · exact (L.below e' he' hne).trans (Set.Iio_subset_Iio hgrows)
  · intro e' he' hne hne'
    have hnew := (h.extent_subset hne).trans Set.Ico_subset_Ici_self
    exact (Set.Iio_disjoint_Ici (Nat.le_refl _)).symm.mono hnew (L.below e' he' hne')

theorem leftOver_of_run (h : Run FitsStep m₀ tr m) : LeftOver m₀ tr m :=
  h.history ⟨Nat.le_refl _, rfl, nofun, .nil⟩ LeftOver.next

/-- A sequence of calls is served as its callers expect, and all of them get memory of their own,
exactly if no sum wraps around. -/
theorem served_iff_fits : Run (fun m e m' => RamStep m e m' ∧ Served m₀ m e m') m₀ tr m ∧ tr.Pairwise Apart ↔
    Run FitsStep m₀ tr m := by
  have hsame : Run (fun m e m' => RamStep m e m' ∧ Served m₀ m e m') m₀ tr m ↔ Run FitsStep m₀ tr m := by
    refine Run.iff_of_invariant (I := fun m => ∃ tr, LeftOver m₀ tr m) ⟨[], leftOver_of_run .start⟩ ?_ ?_
    · intro m e m' hL hstep
      obtain ⟨tr, L⟩ := hL
      exact ⟨_, L.next hstep⟩
    · intro m e m' hL
      obtain ⟨tr, L⟩ := hL
      exact and_congr_right fun hstep => hstep.served_iff L.low L.last
  constructor
  · intro h
    exact hsame.1 h.1
  · intro h
    exact ⟨hsame.2 h, (leftOver_of_run h).apart⟩

end Calls

/-! ## Examples -/

instance : (c : PageCall) → Decidable c.Valid
  | .kmalloc _ => inferInstanceAs (Decidable (_ ∧ _))
  | .getppages _ => inferInstanceAs (Decidable (_ < _))

instance (m : Ram) (c : PageCall) : Decidable (Fits m c) := inferInstanceAs (Decidable (_ ∨ _ ∨ _))

def Ram.play (m : Ram) (c : PageCall) : Option ((PageCall × Nat) × Ram) :=
  if c.Valid then some ((c, (m.serve c).1), (m.serve c).2) else none

theorem Ram.play_sound {m : Ram} {c : PageCall} {e : PageCall × Nat} {m' : Ram} (h : m.play c = some (e, m')) :
    RamStep m e m' := by
  simp only [Ram.play, Option.ite_none_right_eq_some, Option.some.injEq, Prod.mk.injEq] at h
  obtain ⟨hvalid, rfl, rfl⟩ := h
  exact ⟨hvalid, rfl⟩

/-- A machine with four megabytes, of which the kernel takes the first 128 KiB. -/
def sampleRam : Ram := ⟨0x20000, 0x400000, by decide, by decide, by decide⟩

/-- Two calls that succeed, and one that asks for all of the memory and is refused. -/
theorem served_iff_fits_sample : ∃ m, Run (fun m e m' => RamStep m e m' ∧ Served sampleRam m e m') sampleRam
    [(.getppages 0x400, 0), (.getppages 2, 0x22000), (.kmalloc 5000, 0x80020000)] m := by
  have hplay : replays (nextIf Ram.play fun m e _ => Fits m e.1) [.kmalloc 5000, .getppages 2, .getppages 0x400]
      sampleRam fun tr _ =>
        tr = [(.getppages 0x400, 0), (.getppages 2, 0x22000), (.kmalloc 5000, 0x80020000)] := by
    decide +kernel
  obtain ⟨tr, m, hrun, htr⟩ := Run.of_replays (nextIf_sound @Ram.play_sound) hplay
  obtain rfl := of_decide_eq_true htr
  exact ⟨m, (served_iff_fits.2 (hrun.mono fun h => ⟨h.1, of_decide_eq_true h.2⟩)).1⟩

/-- A request for `2 ^ 32 - 1` bytes comes to no page at all. It gets the memory that the next call
gets as well. -/
theorem kmalloc_wraps : ∃ m, Run RamStep sampleRam [(.kmalloc 4096, 0x80020000), (.kmalloc 0xffffffff, 0x80020000)] m ∧
    ¬ PageCall.extent 0x80020000 (.kmalloc 0xffffffff) ⊆ Set.Ico sampleRam.firstpaddr sampleRam.lastpaddr ∧
    ¬ Apart (.kmalloc 4096, 0x80020000) (.kmalloc 0xffffffff, 0x80020000) := by
  have hplay : replays Ram.play [.kmalloc 0xffffffff, .kmalloc 4096] sampleRam fun tr _ =>
      tr = [(.kmalloc 4096, 0x80020000), (.kmalloc 0xffffffff, 0x80020000)] := by
    decide +kernel
  obtain ⟨tr, m, hrun, htr⟩ := Run.of_replays @Ram.play_sound hplay
  obtain rfl := of_decide_eq_true htr
  refine ⟨m, hrun, ?_, ?_⟩
  · intro hin
    have hlast : (0x400000 : Nat) ∈ PageCall.extent 0x80020000 (.kmalloc 0xffffffff) := by
      simp [PageCall.extent, mipsKseg0]
    exact absurd (hin hlast).2 (by decide)
  · intro hapart
    have hfirst (sz : Nat) (hsz : 0 < sz) : 0x20000 ∈ PageCall.extent 0x80020000 (.kmalloc sz) := by
      simp [PageCall.extent, mipsKseg0, hsz]
    exact Set.disjoint_left.1 (hapart (by decide) (by decide)) (hfirst _ (by decide)) (hfirst _ (by decide))

end Os161.Vm
