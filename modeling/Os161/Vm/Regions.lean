import Os161.Vm.Dumbvm

/-!
# The regions that have been defined

`as_define_region` takes a slot with base 0 for one that is not in use. A region in page 0 is
recorded with this base, and the next call overwrites it. The end of a region is computed modulo `2
^ 32`, so a region that has the last page ends at 0 and `vm_fault` finds no address in it.
-/
namespace Os161.Vm

open Lib Kern
open Kheap (pageSize)

structure DefineCall where
  vaddr : Nat
  sz : Nat
  vaddr_lt : vaddr < 2 ^ 32
  sz_lt : sz < 2 ^ 32

namespace DefineCall

def Wraps (c : DefineCall) : Prop := 2 ^ 32 < c.vaddr + c.sz

/-- A user address in the range of the call. -/
def Has (c : DefineCall) (a : Nat) : Prop := a < usertop ∧ c.vaddr ≤ a ∧ a < c.vaddr + c.sz

def npages (c : DefineCall) : Nat := pageFrame (wrap (wrap (c.sz + c.vaddr % pageSize) + pageSize - 1)) / pageSize

end DefineCall

/-- The test of `vm_fault` for one region. -/
def Within (vbase npages a : Nat) : Prop := vbase ≤ a ∧ a < wrap (vbase + wrap (npages * pageSize))

instance (vbase npages a : Nat) : Decidable (Within vbase npages a) := inferInstanceAs (Decidable (_ ∧ _))

namespace Addrspace

def Covers (as : Addrspace) (a : Nat) : Prop := Within as.vbase1 as.npages1 a ∨ Within as.vbase2 as.npages2 a

instance (as : Addrspace) (a : Nat) : Decidable (as.Covers a) := inferInstanceAs (Decidable (_ ∨ _))

/-- Both slots are in use, as `as_define_region` sees it. -/
def Full (as : Addrspace) : Prop := as.vbase1 ≠ 0 ∧ as.vbase2 ≠ 0

end Addrspace

def defineNext (as : Addrspace) (c : DefineCall) : Option Addrspace :=
  match asDefineRegion c.vaddr c.sz as with
  | .ok (_, as') => some as'
  | .error _ => none

def DefineStep (as : Addrspace) (c : DefineCall) (as' : Addrspace) : Prop := defineNext as c = some as'

/-- What is asked of a call: if it returns 0 then its range is covered from then on, and if it
returns an error then it has changed nothing. It does return one for a range that wraps around and
if there is no slot. -/
structure DefinedRight (as : Addrspace) (c : DefineCall) : Prop where
  covered : ∀ as₁, asDefineRegion c.vaddr c.sz as = .ok (.ok (), as₁) →
    ∀ later as₂, Run DefineStep as₁ later as₂ → ∀ a, c.Has a → as₂.Covers a
  unchanged : ∀ e as₁, asDefineRegion c.vaddr c.sz as = .ok (.error e, as₁) → as₁ = as
  refused : c.Wraps ∨ as.Full → ∃ e as₁, asDefineRegion c.vaddr c.sz as = .ok (.error e, as₁)

/-- There is no slot for the range, or it does not wrap around and its user addresses are either in
the first region or in a range that begins behind page 0 and ends before the last page. -/
def DefineCall.Fits (as : Addrspace) (c : DefineCall) : Prop :=
  as.Full ∨ ¬c.Wraps ∧ ∀ a, c.Has a →
    pageSize ≤ c.vaddr ∧ c.vaddr + c.sz ≤ 2 ^ 32 - pageSize ∨
      as.vbase1 ≠ 0 ∧ Within as.vbase1 as.npages1 a

variable {later : List DefineCall}

section Slots

variable {as as' : Addrspace} {c : DefineCall} {a : Nat}

theorem pageFrame_ne_zero : pageFrame a ≠ 0 ↔ pageSize ≤ a := by
  simp only [pageFrame, pageSize]
  omega

theorem asDefineRegion_slot1 (h : as.vbase1 = 0) : asDefineRegion c.vaddr c.sz as =
    .ok (.ok (), { as with vbase1 := pageFrame c.vaddr, npages1 := c.npages }) := by
  simp only [asDefineRegion, Prog.bind_apply, Prog.get, if_pos h]
  rfl

theorem asDefineRegion_slot2 (h : as.vbase1 ≠ 0) (h2 : as.vbase2 = 0) : asDefineRegion c.vaddr c.sz as =
    .ok (.ok (), { as with vbase2 := pageFrame c.vaddr, npages2 := c.npages }) := by
  simp only [asDefineRegion, Prog.bind_apply, Prog.get, if_neg h, if_pos h2]
  rfl

theorem asDefineRegion_full (h : as.Full) : asDefineRegion c.vaddr c.sz as = .ok (.error .eunimp, as) := by
  simp only [asDefineRegion, Prog.bind_apply, Prog.get, if_neg h.1, if_neg h.2]
  rfl

theorem DefineStep.cases (h : DefineStep as c as') :
    as.vbase1 = 0 ∧ as' = { as with vbase1 := pageFrame c.vaddr, npages1 := c.npages } ∨
    as.vbase1 ≠ 0 ∧ as.vbase2 = 0 ∧ as' = { as with vbase2 := pageFrame c.vaddr, npages2 := c.npages } ∨
    as.Full ∧ as' = as := by
  unfold DefineStep defineNext at h
  by_cases h1 : as.vbase1 = 0
  · rw [asDefineRegion_slot1 h1] at h
    exact .inl ⟨h1, (Option.some.inj h).symm⟩
  · by_cases h2 : as.vbase2 = 0
    · rw [asDefineRegion_slot2 h1 h2] at h
      exact .inr (.inl ⟨h1, h2, (Option.some.inj h).symm⟩)
    · rw [asDefineRegion_full ⟨h1, h2⟩] at h
      exact .inr (.inr ⟨⟨h1, h2⟩, (Option.some.inj h).symm⟩)

theorem slot1_kept (h : Run DefineStep as later as') (h1 : as.vbase1 ≠ 0) :
    as'.vbase1 = as.vbase1 ∧ as'.npages1 = as.npages1 := by
  refine h.invariant (I := fun t => t.vbase1 = as.vbase1 ∧ t.npages1 = as.npages1) ⟨rfl, rfl⟩ ?_
  intro t l u ht hstep
  obtain ⟨h0, -⟩ | ⟨-, -, rfl⟩ | ⟨-, rfl⟩ := hstep.cases
  · exact absurd (ht.1 ▸ h0) h1
  · exact ht
  · exact ht

theorem full_kept (h : Run DefineStep as later as') (hfull : as.Full) : as' = as := by
  refine h.invariant (I := fun t => t = as) rfl ?_
  rintro t l u rfl hstep
  obtain ⟨h0, -⟩ | ⟨-, h0, -⟩ | ⟨-, rfl⟩ := hstep.cases
  · exact absurd h0 hfull.1
  · exact absurd h0 hfull.2
  · rfl

/-! ## The arithmetic of one region -/

/-- A range that ends before the last page is in the region that is recorded for it. -/
theorem DefineCall.within (hend : c.vaddr + c.sz ≤ 2 ^ 32 - pageSize) (ha : c.Has a) :
    Within (pageFrame c.vaddr) c.npages a := by
  obtain ⟨-, hlo, hhi⟩ := ha
  simp only [Within, DefineCall.npages, wrap, pageFrame, pageSize] at *
  omega

/-- The region of a range that ends in the last page ends at 0. -/
theorem DefineCall.not_within (hend : 2 ^ 32 - pageSize < c.vaddr + c.sz) (hwrap : ¬c.Wraps) :
    ¬Within (pageFrame c.vaddr) c.npages a := by
  have hv := c.vaddr_lt
  simp only [Within, DefineCall.Wraps, DefineCall.npages, wrap, pageFrame, pageSize] at *
  omega

theorem not_within_zero {vbase : Nat} : ¬Within vbase 0 a := by
  simp only [Within, wrap]
  omega

/-! ## Sequences of calls -/

/-- Nothing is recorded in the second slot before the first one is in use. -/
structure Slotted (as : Addrspace) : Prop where
  aligned : pageSize ∣ as.vbase1
  second : as.vbase1 = 0 → as.npages2 = 0

theorem asCreate_slotted : Slotted asCreate := ⟨Nat.dvd_zero _, fun _ => rfl⟩

theorem Slotted.step (h : Slotted as) (hstep : DefineStep as c as') : Slotted as' := by
  obtain ⟨h0, rfl⟩ | ⟨h1, -, rfl⟩ | ⟨-, rfl⟩ := hstep.cases
  · exact ⟨pageSize_dvd_pageFrame, fun _ => h.second h0⟩
  · exact ⟨h.aligned, fun h0 => absurd h0 h1⟩
  · exact h

/-- A call that puts something else into a slot with base 0. -/
def overwriting : DefineCall := ⟨pageSize, 0, by decide, by decide⟩

theorem overwriting_npages : overwriting.npages = 0 := by decide

theorem defineStep_slot1 (h : as.vbase1 = 0) :
    DefineStep as c { as with vbase1 := pageFrame c.vaddr, npages1 := c.npages } := by
  unfold DefineStep defineNext
  rw [asDefineRegion_slot1 h]

theorem defineStep_slot2 (h : as.vbase1 ≠ 0) (h2 : as.vbase2 = 0) :
    DefineStep as c { as with vbase2 := pageFrame c.vaddr, npages2 := c.npages } := by
  unfold DefineStep defineNext
  rw [asDefineRegion_slot2 h h2]

theorem DefinedRight.not_wraps (hr : DefinedRight as c) (hfull : ¬as.Full) : ¬c.Wraps := by
  intro hw
  obtain ⟨e, as₁, he⟩ := hr.refused (.inl hw)
  by_cases h1 : as.vbase1 = 0
  · rw [asDefineRegion_slot1 h1] at he
    exact nomatch he
  · by_cases h2 : as.vbase2 = 0
    · rw [asDefineRegion_slot2 h1 h2] at he
      exact nomatch he
    · exact hfull ⟨h1, h2⟩

theorem DefineCall.Has.first (ha : c.Has a) : c.Has c.vaddr := by
  obtain ⟨htop, hlo, hhi⟩ := ha
  exact ⟨by omega, Nat.le_refl _, by omega⟩

section

variable (hs : Slotted as) (hr : DefinedRight as c)
include hs hr

/-- A call for the first slot is not right unless the region stays there, since there is nothing in
the second. -/
theorem DefinedRight.ends_slot1 (h1 : as.vbase1 = 0) (ha : c.Has a) :
    pageSize ≤ c.vaddr ∧ c.vaddr + c.sz ≤ 2 ^ 32 - pageSize := by
  have hcov := hr.covered _ (asDefineRegion_slot1 h1)
  constructor
  · by_contra hpage
    have hzero : pageFrame c.vaddr = 0 := by_contra fun h => hpage (pageFrame_ne_zero.1 h)
    obtain h | h := hcov _ _ (.step .start (defineStep_slot1 (c := overwriting) hzero)) a ha
    · rw [overwriting_npages] at h
      exact not_within_zero h
    · simp only [hs.second h1] at h
      exact not_within_zero h
  · by_contra hend
    obtain h | h := hcov _ _ .start a ha
    · exact c.not_within (Nat.not_le.1 hend) (hr.not_wraps fun hfull => hfull.1 h1) h
    · simp only [hs.second h1] at h
      exact not_within_zero h

/-- For the second slot there is the first region as well. -/
theorem DefinedRight.ends_slot2 (h1 : as.vbase1 ≠ 0) (h2 : as.vbase2 = 0)
    (ha : c.Has a) (hin : ¬Within as.vbase1 as.npages1 a) :
    pageSize ≤ c.vaddr ∧ c.vaddr + c.sz ≤ 2 ^ 32 - pageSize := by
  have hcov := hr.covered _ (asDefineRegion_slot2 h1 h2)
  constructor
  · by_contra hpage
    have hzero : pageFrame c.vaddr = 0 := by_contra fun h => hpage (pageFrame_ne_zero.1 h)
    obtain h | h := hcov _ _ (.step .start (defineStep_slot2 (c := overwriting) h1 hzero)) c.vaddr ha.first
    · have hbase : pageSize ≤ as.vbase1 := Nat.le_of_dvd (Nat.pos_of_ne_zero h1) hs.aligned
      exact hpage (hbase.trans h.1)
    · rw [overwriting_npages] at h
      exact not_within_zero h
  · by_contra hend
    obtain h | h := hcov _ _ .start a ha
    · exact hin h
    · exact c.not_within (Nat.not_le.1 hend) (hr.not_wraps fun hfull => hfull.2 h2) h

theorem DefinedRight.fits : c.Fits as := by
  by_cases hfull : as.Full
  · exact .inl hfull
  · refine .inr ⟨hr.not_wraps hfull, fun a ha => ?_⟩
    by_cases h1 : as.vbase1 = 0
    · exact .inl (hr.ends_slot1 hs h1 ha)
    · by_cases hin : Within as.vbase1 as.npages1 a
      · exact .inr ⟨h1, hin⟩
      · have h2 : as.vbase2 = 0 := by_contra fun h2 => hfull ⟨h1, h2⟩
        exact .inl (hr.ends_slot2 hs h1 h2 ha hin)

end

/-- The region of a call that fits is in its slot from then on, or was not needed. -/
theorem DefineCall.Fits.covered {as₁ as₂ : Addrspace} (hf : c.Fits as)
    (he : asDefineRegion c.vaddr c.sz as = .ok (.ok (), as₁)) (hrun : Run DefineStep as₁ later as₂) (ha : c.Has a) :
    as₂.Covers a := by
  by_cases hfull : as.Full
  · rw [asDefineRegion_full hfull] at he
    exact nomatch he
  obtain ⟨hwrap, hfit⟩ := hf.resolve_left hfull
  by_cases h1 : as.vbase1 = 0
  · rw [asDefineRegion_slot1 h1] at he
    cases he
    obtain ⟨hpage, hend⟩ := (hfit a ha).resolve_right fun h => h.1 h1
    obtain ⟨hbase, hnpages⟩ := slot1_kept hrun (pageFrame_ne_zero.2 hpage)
    refine .inl ?_
    rw [hbase, hnpages]
    exact c.within hend ha
  · have h2 : as.vbase2 = 0 := by_contra fun h2 => hfull ⟨h1, h2⟩
    rw [asDefineRegion_slot2 h1 h2] at he
    cases he
    obtain ⟨hpage, hend⟩ | ⟨-, hin⟩ := hfit a ha
    · rw [full_kept hrun ⟨h1, pageFrame_ne_zero.2 hpage⟩]
      exact .inr (c.within hend ha)
    · obtain ⟨hbase, hnpages⟩ := slot1_kept hrun h1
      refine .inl ?_
      rwa [hbase, hnpages]

theorem DefineCall.Fits.right (hf : c.Fits as) : DefinedRight as c where
  covered _ he _ _ hrun _ ha := hf.covered he hrun ha
  unchanged e as₁ he := by
    by_cases h1 : as.vbase1 = 0
    · rw [asDefineRegion_slot1 h1] at he
      exact nomatch he
    · by_cases h2 : as.vbase2 = 0
      · rw [asDefineRegion_slot2 h1 h2] at he
        exact nomatch he
      · rw [asDefineRegion_full ⟨h1, h2⟩] at he
        cases he
        rfl
  refused h := by
    have hfull : as.Full := by
      obtain hw | hfull := h
      · exact hf.resolve_right fun hfit => hfit.1 hw
      · exact hfull
    exact ⟨_, _, asDefineRegion_full hfull⟩

end Slots

/-- In every sequence of calls on a new address space, every call is right if and only if every call
fits in the state in which it is made. -/
theorem asDefineRegion_right_iff (calls : List DefineCall) :
    Along defineNext DefinedRight asCreate calls ↔ Along defineNext (fun as c => c.Fits as) asCreate calls :=
  along_iff asCreate_slotted (fun hs _ hstep => hs.step hstep) (fun hs => ⟨fun hr => hr.fits hs, fun hf => hf.right⟩) calls

def zeroPage : DefineCall := ⟨0, 0x1000, by decide, by decide⟩

def textPage : DefineCall := ⟨0x400000, 0x1000, by decide, by decide⟩

/-- Page 0 is recorded, and the next call overwrites it. -/
theorem asDefineRegion_overwrites : ∃ as₁ as₂ : Addrspace,
    asDefineRegion 0 0x1000 asCreate = .ok (.ok (), as₁) ∧ zeroPage.Has 0 ∧ as₁.Covers 0 ∧
    asDefineRegion 0x400000 0x1000 as₁ = .ok (.ok (), as₂) ∧ ¬as₂.Covers 0 ∧
    ¬Along defineNext DefinedRight asCreate [zeroPage, textPage] := by
  let as₁ : Addrspace := { asCreate with vbase1 := pageFrame zeroPage.vaddr, npages1 := zeroPage.npages }
  let as₂ : Addrspace := { asCreate with vbase1 := pageFrame textPage.vaddr, npages1 := textPage.npages }
  have hzero : as₁.vbase1 = 0 := by decide
  have hfirst : asDefineRegion 0 0x1000 asCreate = .ok (.ok (), as₁) := asDefineRegion_slot1 (c := zeroPage) rfl
  have hstep : DefineStep as₁ textPage as₂ := defineStep_slot1 hzero
  have hhas : zeroPage.Has 0 := ⟨by decide, by decide, by decide⟩
  have hlost : ¬as₂.Covers 0 := by decide
  exact ⟨as₁, as₂, hfirst, hhas, by decide, asDefineRegion_slot1 (c := textPage) hzero, hlost,
    fun h => hlost (h.1.covered as₁ hfirst [textPage] as₂ (.step .start hstep) 0 hhas)⟩

end Os161.Vm
